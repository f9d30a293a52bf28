import GraphCache.Kahn

/-!
# Kahn's loop as it runs

`Kahn.order` takes one node a turn, for as many turns as there are nodes, over counters that stop
at zero. A program runs `while (!ready.empty())` over unsigned counters, which wrap around.

`Loop` is the run of such a loop from a state to its end; it has no rule for a counter that goes
below zero. `loop_order` : over distinct nodes the loop ends, after the turns of `order`, and no
counter goes below zero.

`order_least` : a discipline that takes a least node of the ready list puts at each position a
least node among those whose predecessors have all been placed.
-/

namespace Kahn

variable {α : Type*} [DecidableEq α]

/-- `if (--in_degree[nxt] == 0) ready.push_back(nxt);` where the counter does not wrap. -/
def lower (s : (α → ℕ) × List α) (nxt : α) : Option ((α → ℕ) × List α) :=
  if s.1 nxt = 0 then none else some (relax s nxt)

/-- `while (!ready.empty())`, from a state of counters and ready nodes to the end of the loop, with
the nodes taken on the way. -/
inductive Loop (arrange : List α → List α) (adj : α → List α) : (α → ℕ) × List α → List α → Prop
  | leave {s : (α → ℕ) × List α} : arrange s.2 = [] → Loop arrange adj s []
  | turn {s s' : (α → ℕ) × List α} {cur : α} {rest taken : List α} : arrange s.2 = cur :: rest →
      (adj cur).foldlM lower (s.1, rest) = some s' → Loop arrange adj s' taken →
        Loop arrange adj s (cur :: taken)

/-- A loop has one run. -/
theorem Loop.unique {arrange : List α → List α} {adj : α → List α} {s : (α → ℕ) × List α}
    {taken taken' : List α} (h : Loop arrange adj s taken) (h' : Loop arrange adj s taken') :
    taken = taken' := by
  induction h generalizing taken' with
  | leave hnil =>
    cases h' with
    | leave => rfl
    | turn hcons => simp [hnil] at hcons
  | turn hcons hturn _ ih =>
    cases h' with
    | leave hnil => simp [hnil] at hcons
    | turn hcons' hturn' hrest =>
      obtain ⟨rfl, rfl⟩ := List.cons.inj (hcons.symm.trans hcons')
      obtain rfl := Option.some.inj (hturn.symm.trans hturn')
      rw [ih hrest]

/-- Counters that hold at least the number of edges to come do not wrap. -/
theorem foldlM_lower : ∀ (xs : List α) (s : (α → ℕ) × List α), (∀ v, xs.count v ≤ s.1 v) →
    xs.foldlM lower s = some (xs.foldl relax s)
  | [], _, _ => rfl
  | x :: xs, s, h => by
    have hx : xs.count x + 1 ≤ s.1 x := by simpa using h x
    have hle : ∀ v, xs.count v ≤ (relax s x).1 v := by
      intro v
      by_cases hv : v = x
      · subst hv
        simp only [relax, Function.update_self]
        omega
      · have := h v
        rw [List.count_cons_of_ne (Ne.symm hv)] at this
        simpa [relax, hv] using this
    rw [List.foldlM_cons, lower, if_neg (by omega), List.foldl_cons, ← foldlM_lower xs _ hle]
    rfl

section

variable {nodes : List α} {edges : List (α × α)} {arrange : List α → List α}

/-- Nothing is ready once all nodes are taken. -/
theorem Progress.ready_nil {taken : List α} {deg : α → ℕ} {ready : List α}
    (h : Progress nodes edges taken deg ready) (hlen : nodes.length ≤ taken.length) :
    ready = [] := by
  have hall : taken.Perm nodes := (h.nodup.subperm h.subset).perm_of_length_le hlen
  refine List.eq_nil_iff_forall_not_mem.mpr fun v hv => ?_
  obtain ⟨hmem, hnot, -⟩ := (h.mem_ready v).mp hv
  exact hnot (hall.mem_iff.mpr hmem)

theorem loop_run (harr : ∀ l, (arrange l).Perm l) (hedges : ∀ e ∈ edges, e.2 ∈ nodes) :
    ∀ (fuel : ℕ) (taken : List α) (deg : α → ℕ) (ready : List α),
      Progress nodes edges taken deg ready → nodes.length ≤ taken.length + fuel →
        Loop arrange (adjacent edges) (deg, ready) (run arrange (adjacent edges) fuel deg ready)
  | 0, taken, deg, ready, h, hfuel => by
    obtain rfl := h.ready_nil (by simpa using hfuel)
    exact .leave (List.perm_nil.mp (harr []))
  | fuel + 1, taken, deg, ready, h, hfuel => by
    rw [run]
    have hp := harr ready
    cases hready : arrange ready with
    | nil => exact .leave hready
    | cons cur rest =>
      rw [hready] at hp
      obtain ⟨-, hctaken, -⟩ := (h.mem_ready cur).mp (hp.subset (by simp))
      have hcount : ∀ v, (adjacent edges cur).count v ≤ deg v := fun v =>
        h.deg_eq ▸ (pending_append edges hctaken v).2
      refine .turn hready (foldlM_lower _ (deg, rest) hcount) ?_
      exact loop_run harr hedges fuel (taken ++ [cur]) _ _ (h.turn hedges hp)
        (by simp only [List.length_append, List.length_singleton]; omega)

/-- The loop ends after the turns of `order`, and no counter goes below zero. -/
theorem loop_order (harr : ∀ l, (arrange l).Perm l) (hn : nodes.Nodup)
    (hedges : ∀ e ∈ edges, e.2 ∈ nodes) :
    Loop arrange (adjacent edges) (inDegree edges, nodes.filter fun v => inDegree edges v = 0)
      (order arrange nodes edges) :=
  loop_run harr hedges nodes.length [] _ _ (Progress.start hn) (by simp)

/-! ## The greedy order -/

/-- The first node of an arranged list is least among its nodes. -/
def TakesLeast (R : α → α → Prop) (arrange : List α → List α) : Prop :=
  ∀ l cur rest, arrange l = cur :: rest → ∀ x ∈ l, R cur x

theorem run_least {R : α → α → Prop} (harr : ∀ l, (arrange l).Perm l)
    (hleast : TakesLeast R arrange) (hedges : ∀ e ∈ edges, e.2 ∈ nodes) :
    ∀ (fuel : ℕ) (taken : List α) (deg : α → ℕ) (ready : List α),
      Progress nodes edges taken deg ready → ∀ (l₁ : List α) (v : α) (l₂ : List α),
        run arrange (adjacent edges) fuel deg ready = l₁ ++ v :: l₂ → ∀ w ∈ nodes,
          w ∉ taken ++ l₁ → (∀ u, (u, w) ∈ edges → u ∈ taken ++ l₁) → R v w
  | 0, _, _, _, _, l₁, v, l₂, hsplit, _, _, _, _ => by simp [run] at hsplit
  | fuel + 1, taken, deg, ready, h, l₁, v, l₂, hsplit, w, hw, hnot, hpred => by
    rw [run] at hsplit
    have hp := harr ready
    cases hready : arrange ready with
    | nil => simp [hready] at hsplit
    | cons cur rest =>
      rw [hready] at hp
      simp only [hready] at hsplit
      cases l₁ with
      | nil =>
        obtain ⟨rfl, -⟩ := List.cons.inj hsplit
        refine hleast ready cur rest hready w ((h.mem_ready w).mpr ⟨hw, by simpa using hnot, ?_⟩)
        exact pending_eq_zero.mpr fun u hu => by simpa using hpred u hu
      | cons x l₁ =>
        obtain ⟨rfl, hrest⟩ := List.cons.inj hsplit
        exact run_least harr hleast hedges fuel (taken ++ [cur]) _ _ (h.turn hedges hp) l₁ v l₂
          hrest w hw (by simpa using hnot) (by simpa using hpred)

/-- At each position stands a least node among those whose predecessors have all been placed. -/
theorem order_least {R : α → α → Prop} (harr : ∀ l, (arrange l).Perm l)
    (hleast : TakesLeast R arrange) (hn : nodes.Nodup) (hedges : ∀ e ∈ edges, e.2 ∈ nodes)
    {l₁ l₂ : List α} {v : α} (h : order arrange nodes edges = l₁ ++ v :: l₂) :
    ∀ w ∈ nodes, w ∉ l₁ → (∀ u, (u, w) ∈ edges → u ∈ l₁) → R v w := by
  intro w hw hnot hpred
  exact run_least harr hleast hedges nodes.length [] _ _ (Progress.start hn) l₁ v l₂ h w hw
    (by simpa using hnot) (by simpa using hpred)

omit [DecidableEq α] in
/-- The predecessors of a node come before it. -/
theorem Sorted.mem_of_split {l before l₁ l₂ : List α} {v : α} (h : Sorted edges before l)
    (hsplit : l = l₁ ++ v :: l₂) : ∀ u, (u, v) ∈ edges → u ∈ before ++ l₁ := by
  induction l₁ generalizing l before with
  | nil =>
    subst hsplit
    simpa using h.1
  | cons x l₁ ih =>
    subst hsplit
    intro u hu
    simpa using ih h.2 rfl u hu

/-- A list of nodes is the order in which they stand, if each stands before the next one. -/
theorem eq_of_consecutive {l c : List α} (hp : l.Perm c) (hnd : l.Nodup)
    (h : ∀ e ∈ c.zip c.tail, l.idxOf e.1 < l.idxOf e.2) : l = c := by
  let R : α → α → Prop := fun u v => l.idxOf u < l.idxOf v
  have : Trans R R R := ⟨fun huv hvw => Nat.lt_trans huv hvw⟩
  have hchain : ∀ c : List α, (∀ e ∈ c.zip c.tail, R e.1 e.2) → c.IsChain R := by
    intro c
    induction c with
    | nil => exact fun _ => .nil
    | cons u c ih =>
      intro h
      cases c with
      | nil => exact .singleton u
      | cons v c => exact .cons_cons (h (u, v) (by simp)) (ih fun e he => h e (by simp_all))
  have hl : l.Pairwise R := List.pairwise_iff_getElem.mpr fun i j hi hj hij => by
    simp only [R, hnd.idxOf_getElem]
    exact hij
  exact hp.eq_of_pairwise (fun u v _ _ huv hvu => absurd (Nat.lt_trans huv hvu) (lt_irrefl _)) hl
    (hchain c h).pairwise

end

end Kahn
