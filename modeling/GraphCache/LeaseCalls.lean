import GraphCache.Engine
import GraphCache.Accounting

/-!
# Leases without interruption

What a thread does to a lease when no other thread comes in between, and that this is `makeLease` and
`release` of the engine.
-/

namespace GraphCache

namespace Leases

open History

section

variable {L : Leases} {t g a x : ℕ} {p : Address} {n : UInt64}

/-- The events of `make_lease`. -/
def granting (t g a : ℕ) (p : Address) (x : ℕ) : List LeaseEvent :=
  .makeLease t g a p x :: List.replicate 3 (.step t)

/-- The events of `release` on a lease object that is not empty. -/
def releasing (t x : ℕ) : List LeaseEvent :=
  .release t x :: List.replicate 7 (.step t)

theorem next_step (L : Leases) (t : ℕ) : L.next (.step t) = L.advance t (L.pc t) := rfl

theorem granting_run (ht : L.pc t = .idle) (hg : L.engine g = some ⟨true, n⟩) (hp : L.token p = none)
    (hx : L.held x = none) : after next L (granting t g a p x) =
      { L with
        engine := Function.update L.engine g (some ⟨true, n + 1⟩)
        leaseCount := Function.update L.leaseCount a (L.leaseCount a + 1)
        token := Function.update L.token p (some ⟨g, a, false⟩)
        held := Function.update L.held x (some p) } := by
  have hgrant : L.next (.makeLease t g a p x) =
      { L with token := Function.update L.token p (some ⟨g, a, false⟩) }.goto t
        (.granting .countEntry p x) :=
    if_pos ⟨ht, by rw [hg]; rfl, hp, hx⟩
  simp [granting, after, hgrant, next_step, advance, goto, onEntry, onEngine, hg, ← ht]

theorem releasing_run (ht : L.pc t = .idle) (hx : L.held x = some p)
    (hp : L.token p = some ⟨g, a, false⟩) (hg : L.engine g = some ⟨true, n⟩) :
    after next L (releasing t x) =
      { L with
        engine := Function.update L.engine g (some ⟨true, if n > 0 then n - 1 else n⟩)
        leaseCount := Function.update L.leaseCount a
          (if L.leaseCount a > 0 then L.leaseCount a - 1 else L.leaseCount a)
        token := Function.update L.token p none
        held := Function.update L.held x none } := by
  have hrelease : L.next (.release t x) = L.goto t (.entering x none) := if_pos ht
  by_cases ha : L.leaseCount a > 0 <;> by_cases hn : n > 0 <;>
    simp [releasing, after, hrelease, next_step, advance, goto, onEntry, onEngine, loadEntry, loadEngine,
      hg, hx, hp, ha, hn, LeasePc.leave, ← ht]

/-- An idle thread does not move. -/
theorem idle_steps (ht : L.pc t = .idle) (k : ℕ) :
    after next L (List.replicate k (.step t)) = L := by
  induction k with
  | zero => rfl
  | succ k ih =>
    rw [List.replicate_succ', after_concat, ih, next_step, ht]
    rfl

theorem releasing_run_empty (ht : L.pc t = .idle) (hx : L.held x = none) :
    after next L (releasing t x) = L := by
  show after next ((L.next (.release t x)).next (.step t)) (List.replicate 6 (.step t)) = L
  rw [release_empty ht hx]
  exact idle_steps ht 6

end

/-! ## The engine -/

variable {Exec : Type} {L : Leases} {t g a x y : ℕ} {p : Address} {s : State Exec} {l : Lease Exec}

/-- Engine `g` is in state `s`, as far as leases go. -/
structure Stands (L : Leases) (g : ℕ) (s : State Exec) : Prop where
  engine : L.engine g = some ⟨true, s.activeLeases⟩
  entry : ∀ a, L.leaseCount a = (s.heap a).leaseCount

/-- The lease object `x` is the lease `l`. -/
def Holds (L : Leases) (g : ℕ) (s : State Exec) (l : Lease Exec) (x : ℕ) : Prop :=
  if l.token ∈ s.released then L.held x = none
  else ∃ p, L.held x = some p ∧ L.token p = some ⟨g, l.entry, false⟩

/-- A grant without interruption is `makeLease` of the engine. -/
theorem Stands.makeLease (h : L.Stands g s) (ht : L.pc t = .idle) (hp : L.token p = none)
    (hx : L.held x = none) (needsRebind : Bool) (hnew : s.nextLease ∉ s.released) :
    (after next L (granting t g a p x)).Stands g (GraphCache.makeLease s a needsRebind).1 ∧
    (after next L (granting t g a p x)).Holds g (GraphCache.makeLease s a needsRebind).1
      (GraphCache.makeLease s a needsRebind).2 x := by
  rw [granting_run ht h.engine hp hx]
  refine ⟨⟨Function.update_self _ _ _, fun b => ?_⟩, ?_⟩
  · by_cases hb : b = a
    · subst hb
      simp [GraphCache.makeLease, State.set, Registry.set, h.entry]
    · simp [GraphCache.makeLease, State.set, Registry.set, h.entry, hb]
  · have hreleased : (GraphCache.makeLease s a needsRebind).2.token ∉
        (GraphCache.makeLease s a needsRebind).1.released := hnew
    rw [Holds, if_neg hreleased]
    exact ⟨p, Function.update_self _ _ _, Function.update_self _ _ _⟩

/-- The other leases stay as they are. -/
theorem Holds.makeLease (h : L.Holds g s l y) (hs : L.Stands g s) (ht : L.pc t = .idle)
    (hp : L.token p = none) (hx : L.held x = none) (hxy : y ≠ x) (needsRebind : Bool) :
    (after next L (granting t g a p x)).Holds g (GraphCache.makeLease s a needsRebind).1 l y := by
  rw [granting_run ht hs.engine hp hx]
  have hreleased : (GraphCache.makeLease s a needsRebind).1.released = s.released := rfl
  rw [Holds, hreleased]
  rw [Holds] at h
  dsimp only
  rw [Function.update_of_ne hxy]
  split_ifs with hrel
  · rwa [if_pos hrel] at h
  · rw [if_neg hrel] at h
    obtain ⟨q, hq, htok⟩ := h
    refine ⟨q, hq, ?_⟩
    rw [Function.update_of_ne, htok]
    rintro rfl
    rw [hp] at htok
    cases htok

/-- A release without interruption is `release` of the engine, the second one of a lease as well. -/
theorem Stands.release (h : L.Stands g s) (ht : L.pc t = .idle) (hx : L.Holds g s l x) :
    (after next L (releasing t x)).Stands g (GraphCache.release s l) ∧
    (after next L (releasing t x)).Holds g (GraphCache.release s l) l x := by
  by_cases hrel : l.token ∈ s.released
  · have hsame : GraphCache.release s l = s := if_pos hrel
    have hempty : L.held x = none := by rwa [Holds, if_pos hrel] at hx
    rw [hsame, releasing_run_empty ht hempty]
    exact ⟨h, hx⟩
  · have hheld := hx
    rw [Holds, if_neg hrel] at hheld
    obtain ⟨p, hp, htok⟩ := hheld
    rw [releasing_run ht hp htok h.engine]
    have hreleased : l.token ∈ (GraphCache.release s l).released := by
      simp [GraphCache.release, hrel]
    refine ⟨⟨?_, fun b => ?_⟩, ?_⟩
    · simp [GraphCache.release, hrel]
    · by_cases hb : b = l.entry
      · subst hb
        simp [GraphCache.release, hrel, State.set, Registry.set, h.entry]
      · simp [GraphCache.release, hrel, State.set, Registry.set, h.entry, hb]
    · rw [Holds, if_pos hreleased]
      exact Function.update_self _ _ _

end Leases

end GraphCache
