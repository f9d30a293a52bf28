import Mathlib.Data.List.Basic
import Mathlib.Data.List.Perm.Basic
import Mathlib.Data.Set.BooleanAlgebra
import Mathlib.Order.CompletePartialOrder

/-!
# Independent actions

An action takes a state to a result and a new state, or fails. States are seen cell by cell, within
a shape that no action changes (`View`). The footprint of an action says which cells it reads and
which it writes : it leaves the other cells alone, and what it computes depends on the cells it
reads alone (`Footprint`).

Actions of which neither writes what the other reads or writes can be swapped
(`Footprint.swaps`). So two orders of the same actions compute the same where both respect a
relation that orders all pairs that cannot be swapped (`perform_of_perm`). Actions performed one
after the other write what each of them writes and read what none before them has written
(`Footprint.perform`); so threads that keep to cells of their own, interleaved in any way, compute
what each of them computes alone (`perform_interleaved`).
-/

namespace Independence

variable {σ ρ ρ' α : Type*}

/-- What takes a state to a result and a new state, or fails. -/
abbrev Action (σ ρ : Type*) := σ → Option (ρ × σ)

/-- What is done first can as well be done second : both succeed, with the results they had. -/
def Swaps (A : Action σ ρ) (B : Action σ ρ') : Prop :=
  ∀ s x s₁ y s₂, A s = some (x, s₁) → B s₁ = some (y, s₂) →
    ∃ s₁', B s = some (y, s₁') ∧ A s₁' = some (x, s₂)

/-- The actions one after the other, with their results. -/
def perform (act : α → Action σ ρ) : List α → Action σ (List ρ)
  | [], s => some ([], s)
  | a :: l, s => (act a s).bind fun r => (perform act l r.2).map fun rs => (r.1 :: rs.1, rs.2)

variable {act : α → Action σ ρ}

@[simp] theorem perform_nil (s : σ) : perform act [] s = some ([], s) := rfl

theorem perform_cons {a : α} {l : List α} {s s' : σ} {xs : List ρ} :
    perform act (a :: l) s = some (xs, s') ↔ ∃ x s₁ xs₁, act a s = some (x, s₁) ∧
      perform act l s₁ = some (xs₁, s') ∧ xs = x :: xs₁ := by
  simp only [perform, Option.bind_eq_some_iff, Option.map_eq_some_iff, Prod.mk.injEq, Prod.exists]
  constructor
  · rintro ⟨x, s₁, ha, xs₁, s₂, hl, rfl, rfl⟩
    exact ⟨x, s₁, xs₁, ha, hl, rfl⟩
  · rintro ⟨x, s₁, xs₁, ha, hl, rfl⟩
    exact ⟨x, s₁, ha, xs₁, s', hl, rfl, rfl⟩

theorem perform_append (l' : List α) : ∀ (l : List α) (s : σ), perform act (l ++ l') s =
    (perform act l s).bind fun r => (perform act l' r.2).map fun r' => (r.1 ++ r'.1, r'.2)
  | [], s => by simp
  | a :: l, s => by
    rw [List.cons_append, perform, perform, Option.bind_assoc]
    refine Option.bind_congr fun r _ => ?_
    rw [perform_append l' l r.2, Option.map_bind, Option.bind_map]
    refine Option.bind_congr fun r' _ => ?_
    simp [Function.comp_def]

theorem perform_map {γ : Type*} (f : γ → α) : ∀ (l : List γ) (s : σ),
    perform act (l.map f) s = perform (fun c => act (f c)) l s
  | [], _ => rfl
  | c :: l, s => by
    rw [List.map_cons, perform, perform]
    exact Option.bind_congr fun r _ => by rw [perform_map f l r.2]

theorem length_perform : ∀ {l : List α} {s s' : σ} {xs : List ρ},
    perform act l s = some (xs, s') → xs.length = l.length
  | [], _, _, _, h => by
    obtain ⟨rfl, -⟩ := Prod.mk.inj (Option.some.inj h)
    rfl
  | a :: l, _, _, _, h => by
    obtain ⟨x, s₁, xs₁, -, hl, rfl⟩ := perform_cons.mp h
    rw [List.length_cons, List.length_cons, length_perform hl]

/-! ## Orders -/

/-- An action that can be swapped with all before it can be done first. -/
theorem perform_move {a : α} : ∀ {p : List α}, (∀ x ∈ p, Swaps (act x) (act a)) →
    ∀ {q : List α} {s s' : σ} {xs : List ρ}, perform act (p ++ a :: q) s = some (xs, s') →
      ∃ xs', perform act (a :: (p ++ q)) s = some (xs', s') ∧
        ((p ++ a :: q).zip xs).Perm ((a :: (p ++ q)).zip xs')
  | [], _, _, _, _, xs, h => ⟨xs, h, .rfl⟩
  | x :: p, hp, q, s, s', xs, h => by
    obtain ⟨r, s₁, xs₁, hx, hrest, rfl⟩ := perform_cons.mp h
    obtain ⟨xs₁', hmoved, hzip⟩ :=
      perform_move (fun y hy => hp y (List.mem_cons_of_mem x hy)) hrest
    obtain ⟨y, s₂, zs, ha, hq, rfl⟩ := perform_cons.mp hmoved
    obtain ⟨s₁', ha', hx'⟩ := hp x List.mem_cons_self s r s₁ y s₂ hx ha
    refine ⟨y :: r :: zs, ?_, (hzip.cons (x, r)).trans (.swap (a, y) (x, r) _)⟩
    exact perform_cons.mpr ⟨y, s₁', _, ha', perform_cons.mpr ⟨r, s₂, zs, hx', hq, rfl⟩, rfl⟩

/-- Two orders of the same actions, both in line with a relation that orders all pairs that cannot
be swapped, lead to the same state, and each action has the same result. -/
theorem perform_of_perm {before : α → α → Prop} : ∀ {l' l : List α}, l.Perm l' →
    l.Pairwise (fun a b => ¬before b a) → l'.Pairwise (fun a b => ¬before b a) →
    l.Pairwise (fun a b => before a b ∨ before b a ∨ Swaps (act a) (act b)) →
    ∀ {s s' : σ} {xs : List ρ}, perform act l s = some (xs, s') →
      ∃ xs', perform act l' s = some (xs', s') ∧ (l.zip xs).Perm (l'.zip xs')
  | [], l, hp, _, _, _, s, s', xs, h => by
    obtain rfl := hp.eq_nil
    exact ⟨xs, h, .rfl⟩
  | b :: t, l, hp, hl, hl', hind, s, s', xs, h => by
    obtain ⟨p, q, rfl⟩ := List.append_of_mem (hp.mem_iff.mpr List.mem_cons_self)
    have hrest : (p ++ q).Perm t := (List.perm_middle.symm.trans hp).cons_inv
    obtain ⟨hb, ht⟩ := List.pairwise_cons.mp hl'
    -- nothing before `b` in the one order must stay there, as it comes after `b` in the other
    have hfirst : ∀ x ∈ p, Swaps (act x) (act b) := fun x hx => by
      have hnot := (List.pairwise_append.mp hl).2.2 x hx b List.mem_cons_self
      rcases (List.pairwise_append.mp hind).2.2 x hx b List.mem_cons_self with hxb | hbx | hswap
      · exact absurd hxb (hb x (hrest.mem_iff.mp (List.mem_append_left q hx)))
      · exact absurd hbx hnot
      · exact hswap
    obtain ⟨xs', hmoved, hzip⟩ := perform_move hfirst h
    obtain ⟨y, s₁, ys, hy, hq, rfl⟩ := perform_cons.mp hmoved
    have hsub : (p ++ q).Sublist (p ++ b :: q) := (List.sublist_cons_self b q).append_left p
    obtain ⟨zs, hperform, hzip'⟩ :=
      perform_of_perm hrest (hl.sublist hsub) ht (hind.sublist hsub) hq
    exact ⟨y :: zs, perform_cons.mpr ⟨y, s₁, zs, hy, hperform, rfl⟩,
      hzip.trans (hzip'.cons (b, y))⟩

/-! ## Footprints -/

/-- States by their cells. -/
structure View (σ τ ι β : Type*) where
  shape : σ → τ
  cell : σ → ι → β
  ext : ∀ {s t : σ}, shape s = shape t → (∀ i, cell s i = cell t i) → s = t

variable {τ ι β : Type*} {v : View σ τ ι β}

/-- Two states of one shape that have the same in these cells. -/
structure View.Agree (v : View σ τ ι β) (cells : Set ι) (s t : σ) : Prop where
  shape : v.shape s = v.shape t
  cell : ∀ i ∈ cells, v.cell s i = v.cell t i

namespace View.Agree

variable {cells cells' : Set ι} {s t u : σ}

theorem symm (h : v.Agree cells s t) : v.Agree cells t s :=
  ⟨h.shape.symm, fun i hi => (h.cell i hi).symm⟩

theorem trans (h : v.Agree cells s t) (h' : v.Agree cells t u) : v.Agree cells s u :=
  ⟨h.shape.trans h'.shape, fun i hi => (h.cell i hi).trans (h'.cell i hi)⟩

theorem mono (h : v.Agree cells' s t) (hsub : cells ⊆ cells') : v.Agree cells s t :=
  ⟨h.shape, fun i hi => h.cell i (hsub hi)⟩

end View.Agree

/-- The action writes at most `writes`, and depends on `reads` alone. -/
structure Footprint (v : View σ τ ι β) (A : Action σ ρ) (reads writes : Set ι) : Prop where
  /-- Other cells, and the shape, are left alone. -/
  frame : ∀ {s x s'}, A s = some (x, s') → v.Agree writesᶜ s s'
  /-- What was read decides the result, and what is written. -/
  determined : ∀ {s t x s'}, v.Agree reads s t → A s = some (x, s') →
    ∃ t', A t = some (x, t') ∧ v.Agree writes s' t'

namespace Footprint

variable {A : Action σ ρ} {B : Action σ ρ'} {reads writes reads' writes' : Set ι}

/-- Neither writes what the other reads or writes. -/
structure Apart (reads writes reads' writes' : Set ι) : Prop where
  both : Disjoint writes writes'
  left : Disjoint writes reads'
  right : Disjoint writes' reads

/-- An action that always fails has any footprint. -/
theorem never (reads writes : Set ι) : Footprint v (fun _ => none : Action σ ρ) reads writes :=
  ⟨fun h => (Option.some_ne_none _ h.symm).elim, fun _ h => (Option.some_ne_none _ h.symm).elim⟩

theorem swaps (hA : Footprint v A reads writes) (hB : Footprint v B reads' writes')
    (h : Apart reads writes reads' writes') : Swaps A B := by
  intro s x s₁ y s₂ hs hs₁
  have hreads' : reads' ⊆ writesᶜ := Set.subset_compl_iff_disjoint_left.mpr h.left
  have hreads : reads ⊆ writes'ᶜ := Set.subset_compl_iff_disjoint_left.mpr h.right
  obtain ⟨t₁, ht₁, hagree⟩ := hB.determined ((hA.frame hs).symm.mono hreads') hs₁
  obtain ⟨t₂, ht₂, hagree'⟩ := hA.determined ((hB.frame ht₁).mono hreads) hs
  refine ⟨t₁, ht₁, ?_⟩
  have hsame : t₂ = s₂ := by
    refine v.ext ?_ fun i => ?_
    · rw [← (hA.frame ht₂).shape, ← hagree.shape]
    · by_cases hi : i ∈ writes
      · rw [← hagree'.cell i hi, (hB.frame hs₁).cell i (Set.disjoint_left.mp h.both hi)]
      · rw [← (hA.frame ht₂).cell i hi]
        by_cases hi' : i ∈ writes'
        · exact (hagree.cell i hi').symm
        · rw [← (hB.frame ht₁).cell i hi', (hA.frame hs).cell i hi, (hB.frame hs₁).cell i hi']
  rw [ht₂, hsame]

/-- What is done first leaves what the second depends on as it decides it. -/
theorem agree_after (hA : Footprint v A reads writes) {s t s' t' : σ} {x x' : ρ} {cells : Set ι}
    (h : v.Agree cells s t) (hs : A s = some (x, s')) (ht : A t = some (x', t'))
    (hw : v.Agree writes s' t') : v.Agree (cells ∪ writes) s' t' := by
  refine ⟨hw.shape, fun i hi => ?_⟩
  by_cases hi' : i ∈ writes
  · exact hw.cell i hi'
  · rw [← (hA.frame hs).cell i hi', ← (hA.frame ht).cell i hi', h.cell i (hi.resolve_right hi')]

/-- The cells of several actions. -/
def cellsOf (cells : α → Set ι) (l : List α) : Set ι := {i | ∃ a ∈ l, i ∈ cells a}

theorem cellsOf_cons {cells : α → Set ι} {a : α} {l : List α} :
    cellsOf cells (a :: l) = cells a ∪ cellsOf cells l := by
  ext i
  simp [cellsOf]

/-- The cells that are read before any action has written them. -/
def exposed (reads writes : α → Set ι) : List α → Set ι
  | [] => ∅
  | a :: l => reads a ∪ (exposed reads writes l \ writes a)

theorem exposed_subset {reads writes : α → Set ι} : ∀ {l : List α},
    exposed reads writes l ⊆ cellsOf reads l
  | [] => fun _ hi => hi.elim
  | a :: l => by
    rw [cellsOf_cons, exposed]
    exact Set.union_subset_union_right _ (Set.sdiff_subset.trans exposed_subset)

theorem reads_mono (hA : Footprint v A reads writes) (h : reads ⊆ reads') :
    Footprint v A reads' writes :=
  ⟨hA.frame, fun hagree hs => hA.determined (hagree.mono h) hs⟩

/-- Actions one after the other depend on what is read before it is written. -/
theorem perform {reads writes : α → Set ι} : ∀ {l : List α},
    (∀ a ∈ l, Footprint v (act a) (reads a) (writes a)) →
      Footprint v (Independence.perform act l) (exposed reads writes l) (cellsOf writes l)
  | [], _ => by
    refine ⟨fun {s x s'} h => ?_, fun {s t x s'} hagree h => ?_⟩
    · obtain ⟨-, rfl⟩ := Prod.mk.inj (Option.some.inj h)
      exact ⟨rfl, fun _ _ => rfl⟩
    · obtain ⟨rfl, rfl⟩ := Prod.mk.inj (Option.some.inj h)
      exact ⟨t, rfl, hagree.shape, fun i hi => by simp [cellsOf] at hi⟩
  | a :: l, hl => by
    have ha := hl a List.mem_cons_self
    have ih := perform fun b hb => hl b (List.mem_cons_of_mem a hb)
    rw [cellsOf_cons, exposed]
    refine ⟨fun {s xs s'} h => ?_, fun {s t xs s'} hagree h => ?_⟩
    · obtain ⟨x, s₁, xs₁, h₁, hrest, rfl⟩ := perform_cons.mp h
      rw [Set.compl_union]
      exact ((ha.frame h₁).mono Set.inter_subset_left).trans
        ((ih.frame hrest).mono Set.inter_subset_right)
    · obtain ⟨x, s₁, xs₁, h₁, hrest, rfl⟩ := perform_cons.mp h
      obtain ⟨t₁, ht₁, hw₁⟩ := ha.determined (hagree.mono Set.subset_union_left) h₁
      have hagree₁ := ha.agree_after (hagree.mono Set.subset_union_right) h₁ ht₁ hw₁
      rw [Set.sdiff_union_self] at hagree₁
      obtain ⟨t', ht', hw⟩ := ih.determined (hagree₁.mono Set.subset_union_left) hrest
      refine ⟨t', perform_cons.mpr ⟨x, t₁, xs₁, ht₁, ht', rfl⟩, ?_⟩
      exact (ih.agree_after (hagree₁.mono Set.subset_union_right) hrest ht' hw)

/-- A function of the result has the footprint of the action. -/
theorem map (hA : Footprint v A reads writes) (f : ρ → ρ') :
    Footprint v (fun s => (A s).map (Prod.map f id)) reads writes := by
  refine ⟨fun {s x s'} h => ?_, fun {s t x s'} hagree h => ?_⟩
  · obtain ⟨⟨y, s₁⟩, hs, heq⟩ := Option.map_eq_some_iff.mp h
    obtain ⟨-, rfl⟩ := Prod.mk.inj heq
    exact hA.frame hs
  · obtain ⟨⟨y, s₁⟩, hs, heq⟩ := Option.map_eq_some_iff.mp h
    obtain ⟨rfl, rfl⟩ := Prod.mk.inj heq
    obtain ⟨t', ht, hw⟩ := hA.determined hagree hs
    exact ⟨t', by simp [ht], hw⟩

end Footprint

/-! ## Threads -/

section

variable {κ : Type*} [DecidableEq κ]

/-- What thread `t` has of an interleaving. -/
def share (t : κ) (l : List (κ × α)) : List α := (l.filter fun p => p.1 = t).map Prod.snd

@[simp] theorem share_nil (t : κ) : share t ([] : List (κ × α)) = [] := rfl

theorem share_cons_self (t : κ) (a : α) (l : List (κ × α)) :
    share t ((t, a) :: l) = a :: share t l := by
  simp [share]

theorem share_cons_ne {t u : κ} (h : u ≠ t) (a : α) (l : List (κ × α)) :
    share t ((u, a) :: l) = share t l := by
  simp [share, h]

theorem mem_share {t : κ} {a : α} {l : List (κ × α)} : a ∈ share t l ↔ (t, a) ∈ l := by
  simp [share]

omit [DecidableEq κ] in
/-- An action of a thread. -/
def threaded (act : α → Action σ ρ) (p : κ × α) : Action σ (κ × ρ) :=
  fun s => (act p.2 s).map (Prod.map (Prod.mk p.1) id)

omit [DecidableEq κ] in
theorem perform_threaded_cons {p : κ × α} {l : List (κ × α)} {s s' : σ} {xs : List (κ × ρ)} :
    perform (threaded act) (p :: l) s = some (xs, s') ↔ ∃ x s₁ xs₁, act p.2 s = some (x, s₁) ∧
      perform (threaded act) l s₁ = some (xs₁, s') ∧ xs = (p.1, x) :: xs₁ := by
  rw [perform_cons]
  simp only [threaded, Option.map_eq_some_iff, Prod.exists, Prod.map_apply, id, Prod.mk.injEq]
  constructor
  · rintro ⟨u, x, s₁, xs₁, ⟨y, s₂, h, ⟨rfl, rfl⟩, rfl⟩, hrest, rfl⟩
    exact ⟨y, s₂, xs₁, h, hrest, rfl⟩
  · rintro ⟨x, s₁, xs₁, h, hrest, rfl⟩
    exact ⟨p.1, x, s₁, xs₁, ⟨x, s₁, h, ⟨rfl, rfl⟩, rfl⟩, hrest, rfl⟩

/-- No thread writes what another one reads or writes. -/
def Separate (reads writes : α → Set ι) (l : List (κ × α)) : Prop :=
  ∀ p ∈ l, ∀ q ∈ l, p.1 ≠ q.1 →
    Disjoint (writes p.2) (reads q.2) ∧ Disjoint (writes p.2) (writes q.2)

variable {reads writes : α → Set ι} {l : List (κ × α)} {p : κ × α} {s s₁ s' : σ} {x : ρ}

omit [DecidableEq κ] in
theorem Separate.tail (h : Separate reads writes (p :: l)) : Separate reads writes l :=
  fun q hq r hr => h q (List.mem_cons_of_mem p hq) r (List.mem_cons_of_mem p hr)

/-- A step of one thread leaves what another reads. -/
theorem Separate.agree (h : Separate reads writes (p :: l))
    (hfoot : Footprint v (act p.2) (reads p.2) (writes p.2)) (hs : act p.2 s = some (x, s₁)) {t : κ}
    (ht : p.1 ≠ t) : v.Agree (Footprint.exposed reads writes (share t l)) s s₁ := by
  refine (hfoot.frame hs).mono (Footprint.exposed_subset.trans ?_)
  rintro i ⟨a, ha, hi⟩ hi'
  have hmem : (t, a) ∈ p :: l := List.mem_cons_of_mem p (mem_share.mp ha)
  exact Set.disjoint_left.mp (h p List.mem_cons_self (t, a) hmem ht).1 hi' hi

/-- The cells that other threads write. -/
def foreign (writes : α → Set ι) (t : κ) (l : List (κ × α)) : Set ι :=
  {i | ∃ q ∈ l, q.1 ≠ t ∧ i ∈ writes q.2}

omit [DecidableEq κ] in
theorem foreign_subset_cons (writes : α → Set ι) (t : κ) (p : κ × α) (l : List (κ × α)) :
    foreign writes t l ⊆ foreign writes t (p :: l) :=
  fun _ ⟨q, hq, hne, hi⟩ => ⟨q, List.mem_cons_of_mem p hq, hne, hi⟩

omit [DecidableEq κ] in
theorem foreign_cons_self (writes : α → Set ι) (t : κ) (a : α) (l : List (κ × α)) :
    foreign writes t ((t, a) :: l) = foreign writes t l := by
  refine Set.Subset.antisymm ?_ (foreign_subset_cons writes t (t, a) l)
  rintro i ⟨q, hq, hne, hi⟩
  rcases List.mem_cons.mp hq with rfl | hq
  · exact absurd rfl hne
  · exact ⟨q, hq, hne, hi⟩

theorem footprint_share (hfoot : ∀ p ∈ l, Footprint v (act p.2) (reads p.2) (writes p.2)) (t : κ) :
    Footprint v (perform act (share t l)) (Footprint.exposed reads writes (share t l))
      (Footprint.cellsOf writes (share t l)) :=
  Footprint.perform fun a ha => hfoot (t, a) (mem_share.mp ha)

/-- Threads that keep to cells of their own compute, interleaved, what each of them computes
alone. -/
theorem perform_interleaved : ∀ {l : List (κ × α)} {s s' : σ} {xs : List (κ × ρ)},
    Separate reads writes l → (∀ p ∈ l, Footprint v (act p.2) (reads p.2) (writes p.2)) →
      perform (threaded act) l s = some (xs, s') → ∀ t, ∃ st,
        perform act (share t l) s = some (share t xs, st) ∧ v.Agree (foreign writes t l)ᶜ s' st
  | [], s, s', xs, _, _, h, t => by
    obtain ⟨rfl, rfl⟩ := Prod.mk.inj (Option.some.inj h)
    exact ⟨s, rfl, rfl, fun _ _ => rfl⟩
  | (u, a) :: l, s, s', xs, hsep, hfoot, h, t => by
    obtain ⟨x, s₁, xs₁, ha, hrest, rfl⟩ := perform_threaded_cons.mp h
    have hfoot' := fun q hq => hfoot q (List.mem_cons_of_mem (u, a) hq)
    obtain ⟨st, hst, hagree⟩ := perform_interleaved hsep.tail hfoot' hrest t
    by_cases ht : u = t
    · subst ht
      rw [share_cons_self, share_cons_self, foreign_cons_self]
      exact ⟨st, perform_cons.mpr ⟨x, s₁, _, ha, hst, rfl⟩, hagree⟩
    · rw [share_cons_ne ht, share_cons_ne ht]
      have hperform := footprint_share hfoot' t
      obtain ⟨st', hst', hw⟩ := hperform.determined
        (hsep.agree (hfoot _ List.mem_cons_self) ha ht).symm hst
      have hafter := hperform.agree_after ((hfoot (u, a) List.mem_cons_self).frame ha).symm hst hst' hw
      refine ⟨st', hst', View.Agree.trans (hagree.mono ?_) (hafter.mono ?_)⟩
      · exact Set.compl_subset_compl.mpr (foreign_subset_cons writes t (u, a) l)
      · exact fun i hi => .inl fun hia => hi ⟨(u, a), List.mem_cons_self, ht, hia⟩

/-- The interleaving has a result where each thread alone has one. -/
theorem exists_interleaved : ∀ {l : List (κ × α)} {s : σ},
    Separate reads writes l → (∀ p ∈ l, Footprint v (act p.2) (reads p.2) (writes p.2)) →
      (∀ t, (perform act (share t l) s).isSome) → (perform (threaded act) l s).isSome
  | [], _, _, _, _ => rfl
  | (u, a) :: l, s, hsep, hfoot, halone => by
    have hfoot' := fun q hq => hfoot q (List.mem_cons_of_mem (u, a) hq)
    obtain ⟨⟨xs, s'⟩, hu⟩ := Option.isSome_iff_exists.mp (halone u)
    rw [share_cons_self] at hu
    obtain ⟨x, s₁, xs₁, ha, hrest, rfl⟩ := perform_cons.mp hu
    have hsome : (perform (threaded act) l s₁).isSome := by
      refine exists_interleaved hsep.tail hfoot' fun t => ?_
      by_cases ht : u = t
      · subst ht
        rw [hrest]
        rfl
      · obtain ⟨⟨ys, st⟩, hst⟩ := Option.isSome_iff_exists.mp (halone t)
        rw [share_cons_ne ht] at hst
        have hperform := footprint_share hfoot' t
        obtain ⟨st', hst', -⟩ := hperform.determined
          (hsep.agree (hfoot _ List.mem_cons_self) ha ht) hst
        rw [hst']
        rfl
    obtain ⟨⟨ys, st⟩, hst⟩ := Option.isSome_iff_exists.mp hsome
    exact Option.isSome_iff_exists.mpr
      ⟨_, perform_threaded_cons.mpr ⟨x, s₁, ys, ha, hst, rfl⟩⟩

end

end Independence
