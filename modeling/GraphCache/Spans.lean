import Mathlib.Data.List.Basic

/-!
# Access that may be out of range

An access to memory outside of a span is undefined. Here it has no outcome : `index`, `indexes` and
`subspan` are `none` there, and so is a difference of sizes that would wrap around (`minus`).

A computation that makes such accesses keeps a state, may fail with an error, and may have no
outcome. `Tracks` : it does what a total computation does on a view of its state, under an invariant
that it keeps, and it has no outcome exactly on the states that are told. `Total` : there are none.
-/

namespace Spans

section

variable {α : Type}

/-- `p[i]`. -/
def index (p : List α) (i : ℕ) : Option α := p[i]?

/-- `p[i]`, `p[i + 1]` and so on, that many. -/
def indexes (p : List α) : ℕ → ℕ → Option (List α)
  | _, 0 => some []
  | i, n + 1 => (index p i).bind fun a => (indexes p (i + 1) n).map (a :: ·)

/-- `p.subspan(off, n)`. -/
def subspan (p : List α) (off n : ℕ) : Option (List α) :=
  if off + n ≤ p.length then some ((p.drop off).take n) else none

/-- `p.first(n)`. -/
def first (p : List α) (n : ℕ) : Option (List α) := subspan p 0 n

/-- `a - b` of two sizes. -/
def minus (a b : ℕ) : Option ℕ := if b ≤ a then some (a - b) else none

variable {p : List α} {i n off : ℕ}

theorem index_eq (h : i < p.length) : index p i = some p[i] :=
  List.getElem?_eq_getElem h

theorem indexes_eq : ∀ {n i : ℕ}, i + n ≤ p.length → indexes p i n = some ((p.drop i).take n)
  | 0, _, _ => by simp [indexes]
  | n + 1, i, h => by
    have hi : i < p.length := by omega
    rw [indexes, index_eq hi, Option.bind_some, indexes_eq (by omega), Option.map_some,
      List.drop_eq_getElem_cons hi, List.take_succ_cons]

theorem subspan_eq (h : off + n ≤ p.length) : subspan p off n = some ((p.drop off).take n) :=
  if_pos h

theorem subspan_eq_none (h : p.length < off + n) : subspan p off n = none :=
  if_neg (Nat.not_le.mpr h)

theorem first_eq (h : n ≤ p.length) : first p n = some (p.take n) := by
  rw [first, subspan_eq (by omega), List.drop_zero]

theorem minus_eq {a b : ℕ} (h : b ≤ a) : minus a b = some (a - b) := if_pos h

theorem minus_eq_some {a b d : ℕ} : minus a b = some d ↔ d + b = a := by
  unfold minus
  split_ifs with h
  · rw [Option.some.injEq]
    omega
  · exact iff_of_false nofun (by omega)

end

/-! ## Computations -/

section

variable {σ τ ε α β : Type} {I : σ → Prop} {view : σ → τ} {F G : τ → Prop}

/-- `c` does on `s` what `d` does on what is viewed of it, and keeps `I`; it has no outcome exactly
where `F` holds. -/
def Tracks (I : σ → Prop) (view : σ → τ) (F : τ → Prop) (c : StateT σ (ExceptT ε Option) α)
    (d : StateT τ (Except ε) α) : Prop :=
  ∀ s, I s → match (c.run s).run with
    | none => F (view s)
    | some (.error e) => ¬F (view s) ∧ d (view s) = .error e
    | some (.ok (a, s')) => ¬F (view s) ∧ I s' ∧ d (view s) = .ok (a, view s')

theorem Tracks.congr {c : StateT σ (ExceptT ε Option) α} {d : StateT τ (Except ε) α}
    (h : Tracks I view F c d) (hFG : ∀ t, F t ↔ G t) : Tracks I view G c d := by
  obtain rfl : F = G := funext fun t => propext (hFG t)
  exact h

/-- One computation after the other. The states without outcome are those of the first, and those
that it leads to states without outcome of the second. -/
theorem Tracks.bind {F' : α → τ → Prop} {c : StateT σ (ExceptT ε Option) α}
    {d : StateT τ (Except ε) α} {k : α → StateT σ (ExceptT ε Option) β}
    {k' : α → StateT τ (Except ε) β} (h : Tracks I view F c d)
    (hk : ∀ a, Tracks I view (F' a) (k a) (k' a)) :
    Tracks I view (fun t => F t ∨ ∃ a t', d t = .ok (a, t') ∧ F' a t') (c >>= k) (d >>= k') := by
  intro s hs
  have hrun := h s hs
  have hbind : ((c >>= k).run s).run = (c.run s).run.bind fun o =>
      match o with
      | .error e => some (.error e)
      | .ok (a, s') => ((k a).run s').run := by
    rw [StateT.run_bind, ExceptT.run_bind]
    refine Option.bind_congr fun o _ => ?_
    cases o <;> rfl
  rw [hbind]
  split at hrun
  · rename_i hc
    rw [hc]
    exact .inl hrun
  · rename_i e hc
    obtain ⟨hF, hd⟩ := hrun
    rw [hc]
    simp only [Bind.bind, StateT.bind, hd, Except.bind, Option.bind_some]
    simpa using hF
  · rename_i a s' hc
    obtain ⟨hF, hs', hd⟩ := hrun
    have hstuck : (F (view s) ∨ ∃ a t', d (view s) = .ok (a, t') ∧ F' a t') ↔ F' a (view s') := by
      simp [hF, hd]
    have hrest := hk a s' hs'
    rw [hc]
    simp only [Bind.bind, StateT.bind, hd, Except.bind, Option.bind_some]
    simp only [hd] at hstuck
    rw [hstuck]
    exact hrest

theorem Tracks.run_eq_none_iff {c : StateT σ (ExceptT ε Option) α} {d : StateT τ (Except ε) α}
    (h : Tracks I view F c d) {s : σ} (hs : I s) : (c.run s).run = none ↔ F (view s) := by
  have hrun := h s hs
  split at hrun
  · exact iff_of_true ‹_› hrun
  · rename_i hc
    exact iff_of_false (by simp [hc]) hrun.1
  · rename_i hc
    exact iff_of_false (by simp [hc]) hrun.1

/-- Elsewhere the outcome is that of the total computation. -/
theorem Tracks.run_eq {c : StateT σ (ExceptT ε Option) α} {d : StateT τ (Except ε) α}
    (h : Tracks I view F c d) {s : σ} (hs : I s) (hF : ¬F (view s)) :
    (∃ e, (c.run s).run = some (.error e) ∧ d (view s) = .error e) ∨
      ∃ a s', (c.run s).run = some (.ok (a, s')) ∧ I s' ∧ d (view s) = .ok (a, view s') := by
  have hrun := h s hs
  split at hrun
  · exact (hF hrun).elim
  · exact .inl ⟨_, ‹_›, hrun.2⟩
  · exact .inr ⟨_, _, ‹_›, hrun.2⟩

/-- A computation that has an outcome on every state that keeps `I`. -/
abbrev Total (I : σ → Prop) (view : σ → τ) (c : StateT σ (ExceptT ε Option) α)
    (d : StateT τ (Except ε) α) : Prop :=
  Tracks I view (fun _ => False) c d

theorem Total.pure {a : α} :
    Total I view (Pure.pure a : StateT σ (ExceptT ε Option) α) (Pure.pure a) :=
  fun _ hs => ⟨id, hs, rfl⟩

theorem Total.bind {c : StateT σ (ExceptT ε Option) α} {d : StateT τ (Except ε) α}
    {k : α → StateT σ (ExceptT ε Option) β} {k' : α → StateT τ (Except ε) β}
    (h : Total I view c d) (hk : ∀ a, Total I view (k a) (k' a)) :
    Total I view (c >>= k) (d >>= k') :=
  (Tracks.bind h hk).congr fun _ => by simp

/-- What follows always has an outcome. -/
theorem Tracks.bind_total {c : StateT σ (ExceptT ε Option) α} {d : StateT τ (Except ε) α}
    {k : α → StateT σ (ExceptT ε Option) β} {k' : α → StateT τ (Except ε) β}
    (h : Tracks I view F c d) (hk : ∀ a, Total I view (k a) (k' a)) :
    Tracks I view F (c >>= k) (d >>= k') :=
  (Tracks.bind h hk).congr fun _ => by simp

/-- One computation that may have no outcome after the other. -/
theorem run_bind_eq {x : ExceptT ε Option α} {y : Except ε α} {k : α → ExceptT ε Option β}
    {k' : α → Except ε β} (hx : x.run = some y) (hk : ∀ a, (k a).run = some (k' a)) :
    (x >>= k).run = some (y >>= k') := by
  rw [ExceptT.run_bind, hx]
  cases y with
  | error e => rfl
  | ok a => exact hk a

end

end Spans
