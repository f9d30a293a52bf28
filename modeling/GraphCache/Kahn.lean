import Mathlib.Data.Fintype.EquivFin
import Mathlib.Data.List.Sort
import Mathlib.Logic.Function.Basic
import Mathlib.Order.WellFounded

/-!
# Kahn's algorithm

Nodes without a pending predecessor wait in a ready list; each turn arranges the list, takes
its first node and lowers the in-degree of that node's successors, appending those that reach
zero. `arrange` is the discipline : the identity gives a queue, a sort gives the canonical order.

`length_order_iff` : every discipline takes all nodes exactly when the graph has no cycle, and then
each node comes after its predecessors (`order_spec`). `order_perm` : when the discipline does not
see the order of the ready list (a sort), the result does not depend on how nodes and edges are
listed.
-/

namespace Kahn

variable {α : Type*} [DecidableEq α]

/-- The in-degree of a node, over a list of (from, to) pairs. -/
def inDegree (edges : List (α × α)) (v : α) : ℕ :=
  (edges.filter fun e => e.2 = v).length

/-- The successors of a node, in the order of the edges. -/
def adjacent (edges : List (α × α)) (u : α) : List α :=
  (edges.filter fun e => e.1 = u).map Prod.snd

/-- `if (--in_degree[nxt] == 0) ready.push_back(nxt);` -/
def relax (s : (α → ℕ) × List α) (nxt : α) : (α → ℕ) × List α :=
  let d := s.1 nxt - 1
  (Function.update s.1 nxt d, if d = 0 then s.2 ++ [nxt] else s.2)

/-- The loop, which takes one node a turn; the nodes come out in the order taken. -/
def run (arrange : List α → List α) (adj : α → List α) :
    ℕ → (α → ℕ) → List α → List α
  | 0, _, _ => []
  | fuel + 1, deg, ready =>
    match arrange ready with
    | [] => []
    | cur :: rest =>
      let s := (adj cur).foldl relax (deg, rest)
      cur :: run arrange adj fuel s.1 s.2

/-- The order of a graph, from its nodes as they are iterated for the first ready list. -/
def order (arrange : List α → List α) (nodes : List α) (edges : List (α × α)) : List α :=
  run arrange (adjacent edges) nodes.length (inDegree edges)
    (nodes.filter fun v => inDegree edges v = 0)

/-! ## What the order of the input does not change -/

/-- The same in-degrees, and the same nodes ready. -/
def Alike (s t : (α → ℕ) × List α) : Prop := s.1 = t.1 ∧ s.2.Perm t.2

theorem Alike.relax {s t : (α → ℕ) × List α} (h : Alike s t) (x : α) :
    Alike (relax s x) (relax t x) := by
  obtain ⟨hdeg, hready⟩ := h
  refine ⟨by simp [Kahn.relax, hdeg], ?_⟩
  simp only [Kahn.relax, hdeg]
  split_ifs
  · exact hready.append_right [x]
  · exact hready

theorem relax_comm (s : (α → ℕ) × List α) (x y : α) :
    Alike (relax (relax s x) y) (relax (relax s y) x) := by
  by_cases hxy : x = y
  · subst hxy
    exact ⟨rfl, .refl _⟩
  · refine ⟨?_, ?_⟩
    · simp [relax, Function.update_of_ne hxy, Function.update_of_ne (Ne.symm hxy),
        Function.update_comm hxy]
    · simp only [relax, Function.update_of_ne hxy, Function.update_of_ne (Ne.symm hxy)]
      split_ifs
      · simp only [List.append_assoc]
        exact (List.Perm.swap y x []).append_left s.2
      · exact .refl _
      · exact .refl _
      · exact .refl _

theorem foldl_relax_alike {l l' : List α} (h : l.Perm l') : ∀ {s t : (α → ℕ) × List α},
    Alike s t → Alike (l.foldl relax s) (l'.foldl relax t) := by
  induction h with
  | nil => exact fun h => h
  | cons x _ ih => exact fun h => ih (h.relax x)
  | swap x y l =>
    intro s t h
    have hxy := relax_comm t y x
    have hst := (h.relax y).relax x
    have hmono : ∀ (l : List α) {s t : (α → ℕ) × List α}, Alike s t →
        Alike (l.foldl relax s) (l.foldl relax t) := by
      intro l
      induction l with
      | nil => exact fun h => h
      | cons z l ih => exact fun h => ih (h.relax z)
    exact hmono l ⟨hst.1.trans hxy.1, hst.2.trans hxy.2⟩
  | trans _ _ ih₁ ih₂ =>
    intro s t h
    have hself : Alike s s := ⟨rfl, .refl _⟩
    obtain ⟨hd₁, hr₁⟩ := ih₁ hself
    obtain ⟨hd₂, hr₂⟩ := ih₂ h
    exact ⟨hd₁.trans hd₂, hr₁.trans hr₂⟩

/-- A discipline that does not see the order of the ready list hides that order, and the order
of the successors. -/
theorem run_perm {arrange : List α → List α}
    (harr : ∀ l l' : List α, l.Perm l' → arrange l = arrange l') {adj adj' : α → List α}
    (hadj : ∀ u, (adj u).Perm (adj' u)) :
    ∀ (fuel : ℕ) (deg : α → ℕ) {ready ready' : List α}, ready.Perm ready' →
      run arrange adj fuel deg ready = run arrange adj' fuel deg ready'
  | 0, _, _, _, _ => rfl
  | fuel + 1, deg, ready, ready', h => by
    simp only [run, harr ready ready' h]
    cases arrange ready' with
    | nil => rfl
    | cons cur rest =>
      obtain ⟨hdeg, hready⟩ := foldl_relax_alike (hadj cur) (s := (deg, rest)) ⟨rfl, .refl _⟩
      simp only [hdeg, run_perm harr hadj fuel _ hready]

theorem order_perm {arrange : List α → List α}
    (harr : ∀ l l' : List α, l.Perm l' → arrange l = arrange l') {nodes nodes' : List α}
    (h : nodes.Perm nodes') {edges edges' : List (α × α)} (he : edges.Perm edges') :
    order arrange nodes edges = order arrange nodes' edges' := by
  have hdeg : inDegree edges = inDegree edges' := by
    funext v
    exact (he.filter _).length_eq
  rw [order, order, h.length_eq, hdeg]
  exact run_perm harr (fun u => (he.filter _).map _) _ _ (h.filter _)

/-! ## All nodes are taken exactly when there is no cycle -/

/-- One turn lowers the in-degree of each successor by its multiplicity, and makes ready those
that reach zero. -/
theorem foldl_relax_spec : ∀ (xs : List α) (deg : α → ℕ) (ready : List α),
    (∀ v, xs.count v ≤ deg v) → ∃ new, xs.foldl relax (deg, ready) =
      (fun v => deg v - xs.count v, ready ++ new) ∧ new.Nodup ∧
        ∀ v, v ∈ new ↔ v ∈ xs ∧ deg v = xs.count v
  | [], deg, ready, _ => ⟨[], by simp⟩
  | x :: xs, deg, ready, h => by
    have hx : xs.count x + 1 ≤ deg x := by simpa using h x
    have hle : ∀ v, xs.count v ≤ Function.update deg x (deg x - 1) v := by
      intro v
      by_cases hv : v = x
      · subst hv
        simp
        omega
      · have := h v
        rw [List.count_cons_of_ne (Ne.symm hv)] at this
        simpa [hv] using this
    obtain ⟨new, hfold, hnd, hnew⟩ := foldl_relax_spec xs (Function.update deg x (deg x - 1))
      (if deg x - 1 = 0 then ready ++ [x] else ready) hle
    have hdeg : (fun v => Function.update deg x (deg x - 1) v - xs.count v) =
        fun v => deg v - (x :: xs).count v := by
      funext v
      by_cases hv : v = x
      · subst hv
        simp
        omega
      · simp [hv, List.count_cons_of_ne (Ne.symm hv)]
    have hmem : ∀ v, v ≠ x → (v ∈ new ↔ v ∈ x :: xs ∧ deg v = (x :: xs).count v) := by
      intro v hv
      simp [hnew, hv, List.count_cons_of_ne (Ne.symm hv)]
    rw [List.foldl_cons, relax, hfold, hdeg]
    by_cases hzero : deg x - 1 = 0
    · -- the last predecessor of `x` : it is ready, and no later edge names it
      have hcount : xs.count x = 0 := by omega
      have hxnew : x ∉ new := fun hm => List.count_eq_zero.mp hcount ((hnew x).mp hm).1
      refine ⟨x :: new, by simp [hzero], List.nodup_cons.mpr ⟨hxnew, hnd⟩, fun v => ?_⟩
      by_cases hv : v = x
      · subst hv
        simp
        omega
      · rw [← hmem v hv]
        simp [hv]
    · refine ⟨new, by simp [hzero], hnd, fun v => ?_⟩
      by_cases hv : v = x
      · subst hv
        rw [hnew]
        simp only [Function.update_self, List.mem_cons, true_or, true_and, List.count_cons_self]
        constructor
        · rintro ⟨-, h⟩
          omega
        · intro h
          refine ⟨List.count_pos_iff.mp (by omega), by omega⟩
      · exact hmem v hv

section

variable (nodes : List α) (edges : List (α × α))

/-- The edges into `v` from nodes not yet taken. -/
def pending (taken : List α) (v : α) : ℕ :=
  (edges.filter fun e => e.2 = v ∧ e.1 ∉ taken).length

/-- The loop between two turns. -/
structure Progress (taken : List α) (deg : α → ℕ) (ready : List α) : Prop where
  nodup : taken.Nodup
  subset : taken ⊆ nodes
  taken_zero : ∀ v ∈ taken, pending edges taken v = 0
  deg_eq : deg = pending edges taken
  ready_nodup : ready.Nodup
  mem_ready : ∀ v, v ∈ ready ↔ v ∈ nodes ∧ v ∉ taken ∧ pending edges taken v = 0

/-- Every node of `l` comes after its predecessors, which are in `before` or earlier in `l`. -/
def Sorted : List α → List α → Prop
  | _, [] => True
  | before, v :: l => (∀ u, (u, v) ∈ edges → u ∈ before) ∧ Sorted (before ++ [v]) l

variable {nodes edges}

theorem pending_eq_zero {taken : List α} {v : α} :
    pending edges taken v = 0 ↔ ∀ u, (u, v) ∈ edges → u ∈ taken := by
  simp only [pending, List.length_eq_zero_iff, List.filter_eq_nil_iff, decide_eq_true_eq, not_and,
    not_not, Prod.forall]
  constructor
  · exact fun h u hu => h u v hu rfl
  · rintro h u v' hu rfl
    exact h u hu

variable (edges) in
theorem pending_append {taken : List α} {cur : α} (hcur : cur ∉ taken) (v : α) :
    pending edges (taken ++ [cur]) v = pending edges taken v - (adjacent edges cur).count v ∧
      (adjacent edges cur).count v ≤ pending edges taken v := by
  suffices h : pending edges (taken ++ [cur]) v + (adjacent edges cur).count v =
      pending edges taken v by omega
  unfold pending adjacent
  induction edges with
  | nil => simp
  | cons e es ih =>
    obtain ⟨u, w⟩ := e
    by_cases hw : w = v <;> by_cases hu : u = cur <;> by_cases ht : u ∈ taken <;>
      simp_all <;> omega

theorem Progress.turn {taken : List α} {deg : α → ℕ} {ready rest : List α} {cur : α}
    (hedges : ∀ e ∈ edges, e.2 ∈ nodes) (h : Progress nodes edges taken deg ready)
    (hp : (cur :: rest).Perm ready) :
    Progress nodes edges (taken ++ [cur]) ((adjacent edges cur).foldl relax (deg, rest)).1
      ((adjacent edges cur).foldl relax (deg, rest)).2 := by
  obtain ⟨hcnodes, hctaken, hczero⟩ := (h.mem_ready cur).mp (hp.subset (by simp))
  have hrest : (cur :: rest).Nodup := hp.nodup_iff.mpr h.ready_nodup
  have happ := pending_append edges hctaken
  obtain ⟨new, hfold, hnd, hnew⟩ := foldl_relax_spec (adjacent edges cur) deg rest
    (fun v => h.deg_eq ▸ (happ v).2)
  rw [hfold]
  have hdisj : List.Disjoint rest new := by
    intro v hv hv'
    obtain ⟨hadj, hdeg⟩ := (hnew v).mp hv'
    have hzero := ((h.mem_ready v).mp (hp.subset (List.mem_cons_of_mem _ hv))).2.2
    rw [h.deg_eq, hzero] at hdeg
    exact List.count_eq_zero.mp hdeg.symm hadj
  have hzero : ∀ v ∈ taken ++ [cur], pending edges taken v = 0 := by
    intro v hv
    rcases List.mem_append.mp hv with hv | hv
    · exact h.taken_zero v hv
    · rwa [List.mem_singleton.mp hv]
  refine ⟨?_, ?_, ?_, ?_, ?_, fun v => ?_⟩
  · refine h.nodup.append (by simp) ?_
    simpa using hctaken
  · exact List.append_subset.mpr ⟨h.subset, by simpa using hcnodes⟩
  · intro v hv
    rw [(happ v).1, hzero v hv, Nat.zero_sub]
  · funext v
    rw [(happ v).1, h.deg_eq]
  · exact List.Nodup.append (List.nodup_cons.mp hrest).2 hnd hdisj
  · have hsub : v ∈ adjacent edges cur → v ∈ nodes := by
      intro hv
      obtain ⟨e, he, rfl⟩ := List.mem_map.mp hv
      exact hedges e (List.mem_of_mem_filter he)
    have hready : v ∈ rest ↔ v ∈ nodes ∧ v ∉ taken ++ [cur] ∧ pending edges taken v = 0 := by
      have hperm := (hp.mem_iff (a := v)).trans (h.mem_ready v)
      by_cases hv : v = cur
      · subst hv
        simp [(List.nodup_cons.mp hrest).1]
      · simpa [hv] using hperm
    rw [List.mem_append, hready, hnew, h.deg_eq, (happ v).1]
    by_cases hadj : v ∈ adjacent edges cur
    · have hpos := List.count_pos_iff.mpr hadj
      have hle := (happ v).2
      -- a successor of `cur` still has that predecessor, so it was not taken before
      have hv : v ∉ taken ++ [cur] := fun hv => by
        have := hzero v hv
        omega
      simp only [hadj, true_and, hsub hadj, hv, not_false_eq_true]
      omega
    · simp [hadj, List.count_eq_zero.mpr hadj]

theorem Progress.start (hn : nodes.Nodup) :
    Progress nodes edges [] (inDegree edges) (nodes.filter fun v => inDegree edges v = 0) := by
  have hdeg : inDegree edges = pending edges [] := by
    funext v
    simp [inDegree, pending]
  refine ⟨by simp, by simp, by simp, hdeg, hn.filter _, fun v => ?_⟩
  simp [hdeg]

/-- What the loop takes from a given point, and why it stops. -/
theorem run_spec {arrange : List α → List α} (harr : ∀ l, (arrange l).Perm l)
    (hedges : ∀ e ∈ edges, e.2 ∈ nodes) : ∀ (fuel : ℕ) (taken : List α) (deg : α → ℕ)
      (ready : List α), Progress nodes edges taken deg ready → nodes.length ≤ taken.length + fuel →
        (taken ++ run arrange (adjacent edges) fuel deg ready).Nodup ∧
        taken ++ run arrange (adjacent edges) fuel deg ready ⊆ nodes ∧
        Sorted edges taken (run arrange (adjacent edges) fuel deg ready) ∧
        ∀ v ∈ nodes, v ∉ taken ++ run arrange (adjacent edges) fuel deg ready →
          ∃ u, (u, v) ∈ edges ∧ u ∉ taken ++ run arrange (adjacent edges) fuel deg ready
  | 0, taken, deg, ready, h, hfuel => by
    simp only [run, List.append_nil]
    refine ⟨h.nodup, h.subset, trivial, fun v hv hvt => ?_⟩
    have hall : taken.Perm nodes :=
      (h.nodup.subperm h.subset).perm_of_length_le (by simpa using hfuel)
    exact absurd (hall.mem_iff.mpr hv) hvt
  | fuel + 1, taken, deg, ready, h, hfuel => by
    rw [run]
    have hp := harr ready
    cases hready : arrange ready with
    | nil =>
      rw [hready] at hp
      simp only [List.append_nil]
      refine ⟨h.nodup, h.subset, trivial, fun v hv hvt => ?_⟩
      have hpos : pending edges taken v ≠ 0 := fun hz => by
        have := hp.symm.subset ((h.mem_ready v).mpr ⟨hv, hvt, hz⟩)
        simp at this
      simpa [pending_eq_zero] using hpos
    | cons cur rest =>
      rw [hready] at hp
      obtain ⟨hcnodes, hctaken, hczero⟩ := (h.mem_ready cur).mp (hp.subset (by simp))
      have ih := run_spec harr hedges fuel (taken ++ [cur]) _ _ (h.turn hedges hp)
        (by simp only [List.length_append, List.length_singleton]; omega)
      simp only [List.append_assoc, List.singleton_append] at ih
      exact ⟨ih.1, ih.2.1, ⟨pending_eq_zero.mp hczero, ih.2.2.1⟩, ih.2.2.2⟩

/-- The order lists distinct nodes, each after its predecessors; a node is left out only for a
predecessor that is left out. -/
theorem order_spec {arrange : List α → List α} (harr : ∀ l, (arrange l).Perm l)
    (hn : nodes.Nodup) (hedges : ∀ e ∈ edges, e.2 ∈ nodes) :
    (order arrange nodes edges).Nodup ∧ order arrange nodes edges ⊆ nodes ∧
      Sorted edges [] (order arrange nodes edges) ∧
      ∀ v ∈ nodes, v ∉ order arrange nodes edges →
        ∃ u, (u, v) ∈ edges ∧ u ∉ order arrange nodes edges := by
  have h := run_spec harr hedges nodes.length [] _ _ (Progress.start hn) (by simp)
  simpa [order] using h

/-- No node reaches itself. -/
def Acyclic (edges : List (α × α)) : Prop :=
  ∀ v, ¬Relation.TransGen (fun u v => (u, v) ∈ edges) v v

theorem Sorted.idxOf_lt : ∀ {l before : List α}, Sorted edges before l → (before ++ l).Nodup →
    ∀ {u v : α}, (u, v) ∈ edges → v ∈ l → (before ++ l).idxOf u < (before ++ l).idxOf v
  | x :: l, before, h, hnd, u, v, he, hv => by
    rcases List.mem_cons.mp hv with rfl | hv
    · have hu := h.1 u he
      have hvb : v ∉ before := fun hvb => by
        simpa [hvb] using (List.nodup_append.mp hnd).2.2 v hvb v (by simp)
      rw [List.idxOf_append_of_mem hu, List.idxOf_append_of_notMem hvb]
      simpa using List.idxOf_lt_length_of_mem hu
    · rw [List.append_cons]
      exact h.2.idxOf_lt (by simpa using hnd) he hv

/-- All nodes are taken exactly when there is no cycle. -/
theorem length_order_iff (arrange : List α → List α) (harr : ∀ l, (arrange l).Perm l)
    (hn : nodes.Nodup) (hedges : ∀ e ∈ edges, e.1 ∈ nodes ∧ e.2 ∈ nodes) :
    (order arrange nodes edges).length = nodes.length ↔ Acyclic edges := by
  obtain ⟨hnd, hsub, hsorted, hleft⟩ := order_spec harr hn fun e he => (hedges e he).2
  constructor
  · intro hlen v hv
    have hall : (order arrange nodes edges).Perm nodes :=
      (hnd.subperm hsub).perm_of_length_le hlen.ge
    have hlt : ∀ {u w}, Relation.TransGen (fun u v => (u, v) ∈ edges) u w →
        (order arrange nodes edges).idxOf u < (order arrange nodes edges).idxOf w := by
      intro u w huw
      induction huw with
      | single he => exact hsorted.idxOf_lt hnd he (hall.mem_iff.mpr (hedges _ he).2)
      | tail _ he ih =>
        exact ih.trans (hsorted.idxOf_lt hnd he (hall.mem_iff.mpr (hedges _ he).2))
    exact lt_irrefl _ (hlt hv)
  · intro hac
    by_contra hlen
    -- a node left out has a predecessor left out, and so on : in a finite graph that is a cycle
    let r : {v // v ∈ nodes} → {v // v ∈ nodes} → Prop :=
      fun u v => Relation.TransGen (fun u v => (u, v) ∈ edges) u v
    have : IsTrans _ r := ⟨fun _ _ _ => .trans⟩
    have : Std.Irrefl r := ⟨fun v => hac v⟩
    have hwf : WellFounded r := Finite.wellFounded_of_trans_of_irrefl r
    obtain ⟨v, hv, hvo⟩ : ∃ v ∈ nodes, v ∉ order arrange nodes edges := by
      by_contra hall
      simp only [not_exists, not_and, not_not] at hall
      exact hlen ((hnd.subperm hsub).antisymm (hn.subperm hall)).length_eq
    obtain ⟨m, hm, hmin⟩ := hwf.has_min {x | x.1 ∉ order arrange nodes edges} ⟨⟨v, hv⟩, hvo⟩
    obtain ⟨u, he, hu⟩ := hleft m.1 m.2 hm
    exact hmin ⟨u, (hedges _ he).1⟩ hu (.single he)

end

end Kahn
