import GraphCache.Agreement
import GraphCache.ExecutionOrder
import GraphCache.Footprints
import Mathlib.Data.Set.List
import Mathlib.Data.UInt

/-!
# Races within a graph, and between replays

The edges of a descriptor order its nodes in part; the backend takes the order with the smallest
ids. In a graph of which each two nodes are joined by a path or share no byte that either writes
(`GraphDescriptor.RaceFree`) that choice does not matter : where one order along the edges ends well,
all of them do, with the same memory (`replay_any_order`), and the ids are names only
(`replay_renamed`). A replay that fails on a missing buffer stops on the way, and what it leaves does
depend on the order.

Replays hold no lock. Threads whose replays do not write what the others use, interleaved in any way
and as finely as lanes, get the answers and leave the bytes that each of them would alone
(`replays_interleaved`).
-/

namespace GraphCache

open Independence

/-! ## One node -/

/-- The bytes that a node reads, the output that it hashes included. -/
def CpuNode.reads (b : ReplayBuffers) (n : CpuNode) : List Range :=
  let src := b.inputs[n.srcIndex.toNat]?.toList
  let dst := b.outputs[n.dstIndex.toNat]?.toList
  if n.category = .memoryCopy then src.map (⟨·, n.bytes.toNat⟩)
  else if n.category = .memorySet then []
  else if n.category = .kernel then
    src.map (⟨·, 4 * (n.bytes.toNat / 4)⟩) ++ dst.map (⟨·, n.bytes.toNat⟩)
  else []

/-- The bytes that a node writes. -/
def CpuNode.writes (b : ReplayBuffers) (n : CpuNode) : List Range :=
  let dst := b.outputs[n.dstIndex.toNat]?.toList
  if n.category = .memoryCopy then dst.map (⟨·, n.bytes.toNat⟩)
  else if n.category = .memorySet then dst.map (⟨·, n.bytes.toNat⟩)
  else if n.category = .kernel then dst.map (⟨·, 4 * (n.bytes.toNat / 4)⟩)
  else []

/-- Neither node writes what the other reads or writes. -/
def CpuNode.Clear (b : ReplayBuffers) (n n' : CpuNode) : Prop :=
  AllClear (n.writes b) (n'.writes b) ∧ AllClear (n.writes b) (n'.reads b) ∧
    AllClear (n'.writes b) (n.reads b)

instance (b : ReplayBuffers) (n n' : CpuNode) : Decidable (n.Clear b n') :=
  inferInstanceAs (Decidable (_ ∧ _ ∧ _))

theorem rangeCells_append (rs rs' : List Range) :
    rangeCells (rs ++ rs') = rangeCells rs ∪ rangeCells rs' := by
  ext c
  simp [rangeCells, Footprint.cellsOf, or_and_right, exists_or]

theorem cellsOf_append {α : Type} (f : α → Set (ℕ × ℕ)) (l l' : List α) :
    Footprint.cellsOf f (l ++ l') = Footprint.cellsOf f l ∪ Footprint.cellsOf f l' := by
  ext c
  simp [Footprint.cellsOf, or_and_right, exists_or]

/-- The lanes of a kernel cover its whole words. -/
theorem cellsOf_lanes {p : Ptr} {α : Type} (f : ℕ → α) (cells : α → Set (ℕ × ℕ))
    (hcells : ∀ i, cells (f i) = Range.cells ⟨p.add (4 * i), 4⟩) (n : ℕ) :
    Footprint.cellsOf cells ((List.range' 0 n).map f) = Range.cells ⟨p, 4 * n⟩ := by
  ext ⟨block, i⟩
  simp only [Footprint.cellsOf, List.mem_map, List.mem_range'_1, Set.mem_ofPred_eq, Range.cells]
  constructor
  · rintro ⟨_, ⟨k, hk, rfl⟩, hi⟩
    rw [hcells] at hi
    obtain ⟨rfl, hle, hlt⟩ := hi
    dsimp only [Ptr.add] at hle hlt ⊢
    exact ⟨rfl, by omega, by omega⟩
  · rintro ⟨rfl, hle, hlt⟩
    refine ⟨_, ⟨(i - p.off) / 4, ⟨by omega, by omega⟩, rfl⟩, ?_⟩
    rw [hcells]
    refine ⟨rfl, ?_, ?_⟩
    all_goals
      dsimp only [Ptr.add]
      omega

@[simp] theorem cellsOf_nil {α : Type} (f : α → Set (ℕ × ℕ)) : Footprint.cellsOf f [] = ∅ := by
  ext c
  simp [Footprint.cellsOf]

@[simp] theorem cellsOf_singleton {α : Type} (f : α → Set (ℕ × ℕ)) (a : α) :
    Footprint.cellsOf f [a] = f a := by
  ext c
  simp [Footprint.cellsOf]

/-- The bytes of a node are those of its operations. -/
theorem cells_resolve {ops : FloatOps} {b : ReplayBuffers} {n : CpuNode} {l : List Operation}
    (h : resolve ops b n = .ok l) :
    Footprint.cellsOf (fun op => rangeCells op.reads) l = rangeCells (n.reads b) ∧
      Footprint.cellsOf (fun op => rangeCells op.writes) l = rangeCells (n.writes b) := by
  unfold resolve at h
  unfold CpuNode.reads CpuNode.writes
  dsimp only at h ⊢
  split_ifs at h ⊢ with hcopy hset hkernel
  · cases hsrc : b.inputs[n.srcIndex.toNat]? with
    | none => simp [hsrc, fail] at h
    | some src =>
      cases hdst : b.outputs[n.dstIndex.toNat]? with
      | none => simp [hsrc, hdst, fail] at h
      | some dst =>
        rw [hsrc, hdst] at h
        obtain rfl := Except.ok.inj h
        simp [Operation.reads, Operation.writes]
  · cases hdst : b.outputs[n.dstIndex.toNat]? with
    | none => simp [hdst, fail] at h
    | some dst =>
      rw [hdst] at h
      obtain rfl := Except.ok.inj h
      simp [Operation.reads, Operation.writes]
  · cases hsrc : b.inputs[n.srcIndex.toNat]? with
    | none => simp [hsrc, fail] at h
    | some src =>
      cases hdst : b.outputs[n.dstIndex.toNat]? with
      | none => simp [hsrc, hdst, fail] at h
      | some dst =>
        rw [hsrc, hdst] at h
        obtain rfl := Except.ok.inj h
        simp only [Option.toList_some, List.map_cons, List.map_nil, cellsOf_append,
          rangeCells_append, rangeCells_singleton, cellsOf_singleton]
        constructor
        · rw [cellsOf_lanes (p := src) _ _ fun i => by simp [laneAt, Operation.reads]]
          simp [Operation.reads]
        · rw [cellsOf_lanes (p := dst) _ _ fun i => by simp [laneAt, Operation.writes]]
          simp [Operation.writes]
  · obtain rfl := Except.ok.inj h
    simp

theorem footprint_resolve {ops : FloatOps} {b : ReplayBuffers} {n : CpuNode} {l : List Operation}
    (h : resolve ops b n = .ok l) : Footprint Memory.view (perform Operation.act l)
      (rangeCells (n.reads b)) (rangeCells (n.writes b)) := by
  have hperform : Footprint Memory.view (perform Operation.act l) _ _ :=
    .perform fun op _ => op.footprint
  rw [← (cells_resolve h).1, ← (cells_resolve h).2]
  exact hperform.reads_mono Footprint.exposed_subset

/-! ## Orders of one graph -/

/-- The node at a place of the order; nothing where it has no buffer. -/
def nodeAct (ops : FloatOps) (nodes : List CpuNode) (b : ReplayBuffers) (nid : GraphNodeId) :
    Action Memory (List Work) :=
  fun m => (resolveAt ops nodes b nid).toOption.bind fun l => perform Operation.act l m

theorem perform_nodeAct (ops : FloatOps) (nodes : List CpuNode) (b : ReplayBuffers) :
    ∀ (order : List GraphNodeId) (m : Memory),
      (perform (nodeAct ops nodes b) order m).map (fun r => (r.1.flatten, r.2)) =
        match (program ops nodes b order).2 with
        | none => perform Operation.act (program ops nodes b order).1 m
        | some _ => none
  | [], _ => rfl
  | nid :: rest, m => by
    rw [perform, nodeAct, program]
    cases resolveAt ops nodes b nid with
    | error e => rfl
    | ok l =>
      dsimp only [Except.toOption]
      rw [perform_append, Option.bind_some, Option.map_bind]
      cases hrest : (program ops nodes b rest).2 with
      | some e =>
        dsimp only
        rw [Option.bind_eq_none_iff]
        rintro r -
        have ih := perform_nodeAct ops nodes b rest r.2
        rw [hrest] at ih
        simpa using ih
      | none =>
        refine Option.bind_congr fun r _ => ?_
        have ih := perform_nodeAct ops nodes b rest r.2
        rw [hrest] at ih
        dsimp only at ih
        rw [← ih, Function.comp_apply, Option.map_map, Option.map_map]
        rfl

/-- The replay ends well, with this memory and this many nodes. -/
def Computes (ops : FloatOps) (x : CpuGraph) (b : ReplayBuffers) (rd : ReplayDescriptor)
    (mem mem' : Memory) (n : UInt64) : Prop :=
  ∃ r, cpuReplay ops x b rd mem = some (mem', .ok r) ∧ r.replayedNodes = n

theorem foldl_add_counted : ∀ (ws : List Work) (acc : Sha256 × UInt64),
    (ws.foldl Work.add acc).2 = acc.2 + (ws.map Work.counted).sum
  | [], acc => by simp
  | w :: ws, acc => by
    rw [List.foldl_cons, foldl_add_counted ws, List.map_cons, List.sum_cons, ← UInt64.add_assoc]
    rfl

theorem computes_iff {ops : FloatOps} {x : CpuGraph} {b : ReplayBuffers} {rd : ReplayDescriptor}
    {mem mem' : Memory} {n : UInt64} : Computes ops x b rd mem mem' n ↔ ∃ wss,
      perform (nodeAct ops x.nodes b) x.order mem = some (wss, mem') ∧
        (wss.flatten.map Work.counted).sum = n := by
  have hperform := perform_nodeAct ops x.nodes b x.order mem
  rw [Computes, cpuReplay_eq]
  cases hprog : (program ops x.nodes b x.order).2 with
  | some e =>
    rw [hprog] at hperform
    dsimp only at hperform
    rw [Option.map_eq_none_iff] at hperform
    simp [hperform, answer]
  | none =>
    rw [hprog] at hperform
    dsimp only at hperform
    rw [← hperform]
    simp only [Option.map_map, Option.map_eq_some_iff, Function.comp_apply, Prod.mk.injEq, answer,
      Except.ok.injEq, Prod.exists]
    constructor
    · rintro ⟨r, ⟨wss, m, h, rfl, rfl⟩, rfl⟩
      exact ⟨wss, h, by simp [foldl_add_counted]⟩
    · rintro ⟨wss, h, rfl⟩
      exact ⟨_, ⟨wss, mem', h, rfl, rfl⟩, by simp [foldl_add_counted]⟩

/-- Each two nodes are joined by a path, or neither writes what the other reads or writes. -/
def GraphDescriptor.RaceFree (g : GraphDescriptor) (b : ReplayBuffers) : Prop :=
  ∀ n ∈ g.nodes, ∀ n' ∈ g.nodes, n.nodeId ≠ n'.nodeId →
    g.Path n.nodeId n'.nodeId ∨ g.Path n'.nodeId n.nodeId ∨ (cpuNode n).Clear b (cpuNode n')

/-- All nodes, along the edges. -/
structure Topological (g : GraphDescriptor) (order : List GraphNodeId) : Prop where
  perm : order.Perm (g.nodes.map (·.nodeId))
  forward : ∀ e ∈ g.edges, order.idxOf e.fromNode < order.idxOf e.toNode

section

variable {g : GraphDescriptor} {order order' : List GraphNodeId} {ops : FloatOps}
  {b : ReplayBuffers}

theorem Topological.path (h : Topological g order) {u v : GraphNodeId} (hpath : g.Path u v) :
    order.idxOf u < order.idxOf v := by
  have hedge : ∀ {u v}, (u, v) ∈ g.edges.map (·.ends) → order.idxOf u < order.idxOf v := by
    intro u v he
    obtain ⟨e, hmem, heq⟩ := List.mem_map.mp he
    obtain ⟨rfl, rfl⟩ := Prod.mk.inj heq
    exact h.forward e hmem
  induction hpath with
  | single he => exact hedge he
  | tail _ he ih => exact ih.trans (hedge he)

/-- No path goes back. -/
theorem Topological.pairwise (h : Topological g order) (hnd : (g.nodes.map (·.nodeId)).Nodup) :
    order.Pairwise fun u v => ¬g.Path v u := by
  have hnd' : order.Nodup := h.perm.nodup_iff.mpr hnd
  rw [List.pairwise_iff_getElem]
  intro i j hi hj hij hpath
  have hlt := h.path hpath
  rw [hnd'.idxOf_getElem, hnd'.idxOf_getElem] at hlt
  omega

theorem footprint_nodeAct (hnd : (g.nodes.map (·.nodeId)).Nodup) {n : GraphNodeDescriptor}
    (hn : n ∈ g.nodes) : Footprint Memory.view (nodeAct ops (g.nodes.map cpuNode) b n.nodeId)
      (rangeCells ((cpuNode n).reads b)) (rangeCells ((cpuNode n).writes b)) := by
  have hat : resolveAt ops (g.nodes.map cpuNode) b n.nodeId = resolve ops b (cpuNode n) := by
    rw [resolveAt, find_mem_nodes hnd hn]
  unfold nodeAct
  rw [hat]
  cases hres : resolve ops b (cpuNode n) with
  | error e => exact .never _ _
  | ok l => exact footprint_resolve hres

/-- Nodes that share no byte that either writes can be swapped. -/
theorem swaps_nodeAct (hnd : (g.nodes.map (·.nodeId)).Nodup) {n n' : GraphNodeDescriptor}
    (hn : n ∈ g.nodes) (hn' : n' ∈ g.nodes) (hclear : (cpuNode n).Clear b (cpuNode n')) :
    Swaps (nodeAct ops (g.nodes.map cpuNode) b n.nodeId)
      (nodeAct ops (g.nodes.map cpuNode) b n'.nodeId) :=
  (footprint_nodeAct hnd hn).swaps (footprint_nodeAct hnd hn')
    ⟨hclear.1.disjoint, hclear.2.1.disjoint, hclear.2.2.disjoint⟩

/-- In a graph without races an order along the edges computes what any other computes. -/
theorem Topological.computes (hnd : (g.nodes.map (·.nodeId)).Nodup) (hrace : g.RaceFree b)
    (h : Topological g order) (h' : Topological g order') {rd : ReplayDescriptor}
    {mem mem' : Memory} {n : UInt64}
    (hrun : Computes ops ⟨g.nodes.map cpuNode, order⟩ b rd mem mem' n) :
    Computes ops ⟨g.nodes.map cpuNode, order'⟩ b rd mem mem' n := by
  obtain ⟨wss, hperform, hsum⟩ := computes_iff.mp hrun
  have hind : order.Pairwise fun u v => g.Path u v ∨ g.Path v u ∨
      Swaps (nodeAct ops (g.nodes.map cpuNode) b u) (nodeAct ops (g.nodes.map cpuNode) b v) := by
    refine List.Nodup.pairwise_of_forall_ne (h.perm.nodup_iff.mpr hnd) fun u hu v hv hne => ?_
    obtain ⟨k, hk, rfl⟩ := List.mem_map.mp (h.perm.subset hu)
    obtain ⟨k', hk', rfl⟩ := List.mem_map.mp (h.perm.subset hv)
    exact (hrace k hk k' hk' hne).imp_right fun h => h.imp_right (swaps_nodeAct hnd hk hk')
  obtain ⟨wss', hperform', hzip⟩ := perform_of_perm (h.perm.trans h'.perm.symm)
    (h.pairwise hnd) (h'.pairwise hnd) hind hperform
  refine computes_iff.mpr ⟨wss', hperform', ?_⟩
  have hsnd := hzip.map Prod.snd
  rw [List.map_snd_zip (length_perform hperform).le,
    List.map_snd_zip (length_perform hperform').le] at hsnd
  rw [← hsum]
  exact ((hsnd.flatten.map Work.counted).foldr_op_eq).symm

theorem topological_executionOrder (o : IterationOrder GraphNodeId)
    (h : WellFormed g.nodes g.edges) : Topological g (executionOrder o g) :=
  ⟨(greedy_order o h).perm, (greedy_order o h).forward⟩

end

/-- The order in which a capture runs a graph without races is one of many : any order along the
edges ends well where it does, with the same memory. -/
theorem replay_any_order {o : IterationOrder GraphNodeId} {g : GraphDescriptor} {x : CpuGraph}
    (hx : cpuCapture o g = .ok x) (ops : FloatOps) {b : ReplayBuffers} (hrace : g.RaceFree b)
    {order : List GraphNodeId} (horder : Topological g order) (rd : ReplayDescriptor)
    (mem mem' : Memory) (n : UInt64) :
    Computes ops x b rd mem mem' n ↔ Computes ops { x with order } b rd mem mem' n := by
  obtain ⟨hwf, rfl⟩ := cpuCapture_ok_iff.mp hx
  have hown := topological_executionOrder o hwf
  exact ⟨hown.computes hwf.nodeIds hrace horder, horder.computes hwf.nodeIds hrace hown⟩

/-- Two kernels over one input and a fill, on outputs of their own. -/
def fork : GraphDescriptor where
  nodes := [{ nodeId := ⟨0, 1⟩, memoryBytes := 8 },
    { nodeId := ⟨0, 2⟩, memoryBytes := 8, reactiveOutputIndices := [1] },
    { nodeId := ⟨0, 3⟩, category := .memorySet, memoryBytes := 4, memsetValue := 7
      reactiveOutputIndices := [2] }]
  edges := [{ edgeId := ⟨0, 1⟩, fromNode := ⟨0, 1⟩, toNode := ⟨0, 3⟩ }]

/-- An input and three outputs. -/
def forkBuffers : ReplayBuffers where
  inputs := [⟨0, 0⟩]
  outputs := [⟨1, 0⟩, ⟨2, 0⟩, ⟨3, 0⟩]
  inputBytes := [8]
  outputBytes := [8, 8, 4]

theorem raceFree_fork : fork.RaceFree forkBuffers := by
  have hclear : ∀ n ∈ fork.nodes, ∀ n' ∈ fork.nodes, n.nodeId ≠ n'.nodeId →
      (cpuNode n).Clear forkBuffers (cpuNode n') := by decide
  exact fun n hn n' hn' hne => .inr (.inr (hclear n hn n' hn' hne))

theorem replay_any_order_fork : ∃ x, cpuCapture (.insertion _) fork = .ok x ∧
    x.order = [⟨0, 1⟩, ⟨0, 2⟩, ⟨0, 3⟩] ∧ ∀ ops rd mem mem' n,
      Computes ops x forkBuffers rd mem mem' n ↔
        Computes ops { x with order := [⟨0, 2⟩, ⟨0, 1⟩, ⟨0, 3⟩] } forkBuffers rd mem mem' n := by
  refine ⟨_, rfl, by rfl, fun ops =>
    replay_any_order (o := .insertion _) rfl ops raceFree_fork ⟨?_, ?_⟩⟩
  · exact .swap _ _ _
  · decide

/-! ## Other ids -/

/-- The descriptor with other ids of nodes. -/
def GraphDescriptor.rename (f : GraphNodeId → GraphNodeId) (g : GraphDescriptor) :
    GraphDescriptor :=
  { g with
    nodes := g.nodes.map fun n => { n with nodeId := f n.nodeId }
    edges := g.edges.map fun e => { e with fromNode := f e.fromNode, toNode := f e.toNode } }

section

variable {g : GraphDescriptor} {f : GraphNodeId → GraphNodeId}

theorem rename_nodeIds (f : GraphNodeId → GraphNodeId) (g : GraphDescriptor) :
    (g.rename f).nodes.map (·.nodeId) = (g.nodes.map (·.nodeId)).map f := by
  simp [GraphDescriptor.rename, Function.comp_def]

theorem rename_ends (f : GraphNodeId → GraphNodeId) (g : GraphDescriptor) :
    (g.rename f).edges.map (·.ends) = (g.edges.map (·.ends)).map (Prod.map f f) := by
  simp [GraphDescriptor.rename, GraphEdgeDescriptor.ends, Function.comp_def]

theorem path_rename (hf : Function.Injective f) {u w : GraphNodeId}
    (h : (g.rename f).Path (f u) w) : ∃ v, w = f v ∧ g.Path u v := by
  have hedge : ∀ {u w}, (f u, w) ∈ (g.rename f).edges.map (·.ends) →
      ∃ v, w = f v ∧ (u, v) ∈ g.edges.map (·.ends) := by
    intro u w he
    rw [rename_ends] at he
    obtain ⟨⟨u', v⟩, hmem, heq⟩ := List.mem_map.mp he
    obtain ⟨hu, rfl⟩ := Prod.mk.inj heq
    rw [hf hu] at hmem
    exact ⟨v, rfl, hmem⟩
  induction h with
  | single he =>
    obtain ⟨v, hv, he⟩ := hedge he
    exact ⟨v, hv, .single he⟩
  | tail _ he ih =>
    obtain ⟨v, rfl, hpath⟩ := ih
    obtain ⟨v', hv', he⟩ := hedge he
    exact ⟨v', hv', hpath.tail he⟩

theorem WellFormed.rename (h : WellFormed g.nodes g.edges) (hf : Function.Injective f) :
    WellFormed (g.rename f).nodes (g.rename f).edges where
  nodeIds := by
    rw [rename_nodeIds]
    exact h.nodeIds.map hf
  edgeIds := by
    have hids : (g.rename f).edges.map (·.edgeId) = g.edges.map (·.edgeId) := by
      simp [GraphDescriptor.rename, Function.comp_def]
    rw [hids]
    exact h.edgeIds
  proper := by
    intro e he
    obtain ⟨e, hmem, rfl⟩ := List.mem_map.mp he
    obtain ⟨hne, hfrom, hto⟩ := h.proper e hmem
    rw [GraphEdgeDescriptor.Proper, rename_nodeIds]
    exact ⟨hf.ne hne, List.mem_map_of_mem hfrom, List.mem_map_of_mem hto⟩
  ends := by
    rw [rename_ends]
    exact h.ends.map (hf.prodMap hf)
  acyclic := by
    intro w hw
    have hpath : (g.rename f).Path w w := hw
    obtain ⟨u, rfl⟩ : ∃ u, w = f u := by
      obtain ⟨v, he, -⟩ := Relation.TransGen.head'_iff.mp hpath
      rw [rename_ends] at he
      obtain ⟨p, -, heq⟩ := List.mem_map.mp he
      exact ⟨p.1, (congrArg Prod.fst heq).symm⟩
    obtain ⟨v, hv, hcycle⟩ := path_rename hf hpath
    rw [← hf hv] at hcycle
    exact h.acyclic u hcycle

theorem idxOf_map (hf : Function.Injective f) (u : GraphNodeId) : ∀ l : List GraphNodeId,
    (l.map f).idxOf (f u) = l.idxOf u
  | [] => rfl
  | v :: l => by
    rw [List.map_cons, List.idxOf_cons, List.idxOf_cons, idxOf_map hf u l, hf.beq_eq]

/-- An order of the renamed graph is one of the graph, renamed. -/
theorem Topological.of_rename (hf : Function.Injective f) {order : List GraphNodeId}
    (h : Topological (g.rename f) order) : ∃ l, order = l.map f ∧ Topological g l := by
  have hperm := h.perm
  rw [rename_nodeIds] at hperm
  obtain ⟨l, rfl⟩ : order ∈ Set.range (List.map f) := by
    rw [Set.range_list_map]
    intro u hu
    obtain ⟨v, -, rfl⟩ := List.mem_map.mp (hperm.subset hu)
    exact ⟨v, rfl⟩
  refine ⟨l, rfl, (List.map_perm_map_iff hf).mp hperm, fun e he => ?_⟩
  have hlt := h.forward _ (List.mem_map_of_mem he)
  rwa [idxOf_map hf, idxOf_map hf] at hlt

theorem resolveAt_rename (hf : Function.Injective f) (ops : FloatOps) (b : ReplayBuffers)
    (nid : GraphNodeId) : resolveAt ops ((g.rename f).nodes.map cpuNode) b (f nid) =
      resolveAt ops (g.nodes.map cpuNode) b nid := by
  have hfind : ((g.rename f).nodes.map cpuNode).find? (fun n => n.id = f nid) =
      ((g.nodes.map cpuNode).find? fun n => n.id = nid).map fun n => { n with id := f n.id } := by
    rw [GraphDescriptor.rename, List.find?_map, List.find?_map, List.find?_map, Option.map_map,
      Option.map_map]
    have hpred : ((fun n : CpuNode => decide (n.id = f nid)) ∘ cpuNode) ∘
        (fun n : GraphNodeDescriptor => { n with nodeId := f n.nodeId }) =
          (fun n : CpuNode => decide (n.id = nid)) ∘ cpuNode := by
      funext n
      simp [cpuNode, hf.eq_iff]
    rw [hpred]
    rfl
  rw [resolveAt, resolveAt, hfind]
  cases (g.nodes.map cpuNode).find? fun n => n.id = nid <;> rfl

theorem computes_rename (hf : Function.Injective f) {ops : FloatOps} {b : ReplayBuffers}
    {rd : ReplayDescriptor} {l : List GraphNodeId} {mem mem' : Memory} {n : UInt64} :
    Computes ops ⟨(g.rename f).nodes.map cpuNode, l.map f⟩ b rd mem mem' n ↔
      Computes ops ⟨g.nodes.map cpuNode, l⟩ b rd mem mem' n := by
  have hact : (fun nid => nodeAct ops ((g.rename f).nodes.map cpuNode) b (f nid)) =
      nodeAct ops (g.nodes.map cpuNode) b := by
    funext nid m
    rw [nodeAct, nodeAct, resolveAt_rename hf]
  rw [computes_iff, computes_iff]
  dsimp only
  rw [perform_map, hact]

/-- The ids of nodes are names only : with others, a graph without races ends well where it did, with
the same memory. -/
theorem replay_renamed {o : IterationOrder GraphNodeId} {x : CpuGraph}
    (hx : cpuCapture o g = .ok x) (hf : Function.Injective f) (o' : IterationOrder GraphNodeId) :
    ∃ x', cpuCapture o' (g.rename f) = .ok x' ∧ ∀ ops b, g.RaceFree b → ∀ rd mem mem' n,
      Computes ops x' b rd mem mem' n ↔ Computes ops x b rd mem mem' n := by
  obtain ⟨hwf, rfl⟩ := cpuCapture_ok_iff.mp hx
  have hwf' := hwf.rename hf
  obtain ⟨l, hl, htop⟩ := (topological_executionOrder o' hwf').of_rename hf
  refine ⟨_, cpuCapture_ok_iff.mpr ⟨hwf', rfl⟩, fun ops b hrace rd mem mem' n => ?_⟩
  rw [hl, computes_rename hf]
  have hown := topological_executionOrder o hwf
  exact ⟨htop.computes hwf.nodeIds hrace hown, hown.computes hwf.nodeIds hrace htop⟩

end

/-- Ids that put the kernels the other way round. -/
def flipId (u : GraphNodeId) : GraphNodeId := ⟨u.hi, u.lo ^^^ 3⟩

theorem replay_renamed_fork : ∃ x x', cpuCapture (.insertion _) fork = .ok x ∧
    cpuCapture (.insertion _) (fork.rename flipId) = .ok x' ∧ ∀ ops rd mem mem' n,
      Computes ops x' forkBuffers rd mem mem' n ↔ Computes ops x forkBuffers rd mem mem' n := by
  have hflip : Function.Injective flipId := Function.Involutive.injective fun u => by
    have hlo : u.lo ^^^ 3 ^^^ 3 = u.lo := by
      rw [UInt64.xor_assoc, UInt64.xor_self, UInt64.xor_zero]
    rw [flipId, flipId, hlo]
  obtain ⟨x', hx', hsame⟩ := replay_renamed (o := .insertion _) (g := fork) rfl hflip (.insertion _)
  exact ⟨_, x', rfl, hx', fun ops => hsame ops _ raceFree_fork⟩

/-! ## Replays of many threads -/

/-- The bytes that a replay reads. -/
def replayReads (ops : FloatOps) (x : CpuGraph) (b : ReplayBuffers) : List Range :=
  (program ops x.nodes b x.order).1.flatMap Operation.reads

/-- The bytes that a replay writes. -/
def replayWrites (ops : FloatOps) (x : CpuGraph) (b : ReplayBuffers) : List Range :=
  (program ops x.nodes b x.order).1.flatMap Operation.writes

/-- A replay of one thread. -/
structure ReplayCall where
  graph : CpuGraph
  buffers : ReplayBuffers
  descriptor : ReplayDescriptor := {}

section

variable {κ : Type*} [DecidableEq κ] {ops : FloatOps} {calls : κ → ReplayCall}
  {l : List (κ × Operation)} {mem mem' : Memory}

variable (ops calls l) in
/-- The operations of the replays, each thread's in order. -/
def Interleaves : Prop :=
  ∀ t, share t l = (program ops (calls t).graph.nodes (calls t).buffers (calls t).graph.order).1

variable (ops calls) in
/-- No thread writes what another one reads or writes. -/
def CallsClear : Prop :=
  ∀ t u, t ≠ u → AllClear (replayWrites ops (calls t).graph (calls t).buffers)
    (replayReads ops (calls u).graph (calls u).buffers ++
      replayWrites ops (calls u).graph (calls u).buffers)

theorem cells_subset {f : Operation → List Range} {op : Operation} {p : List Operation}
    (h : op ∈ p) : rangeCells (f op) ⊆ rangeCells (p.flatMap f) := by
  rintro c ⟨r, hr, hc⟩
  exact ⟨r, List.mem_flatMap.mpr ⟨op, h, hr⟩, hc⟩

theorem CallsClear.separate (hclear : CallsClear ops calls) (hl : Interleaves ops calls l) :
    Separate (fun op => rangeCells op.reads) (fun op => rangeCells op.writes) l := by
  have hmem : ∀ p ∈ l, p.2 ∈
      (program ops (calls p.1).graph.nodes (calls p.1).buffers (calls p.1).graph.order).1 := by
    intro p hp
    rw [← hl p.1]
    exact mem_share.mpr hp
  intro p hp q hq hne
  have hdisj := (hclear p.1 q.1 hne).disjoint
  rw [rangeCells_append, Set.disjoint_union_right] at hdisj
  exact ⟨hdisj.1.mono (cells_subset (hmem p hp)) (cells_subset (hmem q hq)),
    hdisj.2.mono (cells_subset (hmem p hp)) (cells_subset (hmem q hq))⟩

/-- The bytes of one thread are no other thread's. -/
theorem CallsClear.own (hclear : CallsClear ops calls) (hl : Interleaves ops calls l) (t : κ) :
    rangeCells (replayWrites ops (calls t).graph (calls t).buffers) ⊆
      (foreign (fun op : Operation => rangeCells op.writes) t l)ᶜ := by
  rintro c hc ⟨q, hq, hne, hcq⟩
  have hdisj := (hclear q.1 t hne).disjoint
  rw [rangeCells_append, Set.disjoint_union_right] at hdisj
  have hmem : q.2 ∈
      (program ops (calls q.1).graph.nodes (calls q.1).buffers (calls q.1).graph.order).1 := by
    rw [← hl q.1]
    exact mem_share.mpr hq
  exact Set.disjoint_left.mp hdisj.2 (cells_subset (f := Operation.writes) hmem hcq) hc

/-- Replays of any number of threads, interleaved lane by lane in any way : they stay within memory
when each of them alone would, and then each has the answer and leaves the bytes that it would
alone; no other byte changes. -/
theorem replays_interleaved (hclear : CallsClear ops calls) (hl : Interleaves ops calls l) :
    ((∀ t, cpuReplay ops (calls t).graph (calls t).buffers (calls t).descriptor mem ≠ none) →
      (perform (threaded Operation.act) l mem).isSome) ∧
    ∀ ws, perform (threaded Operation.act) l mem = some (ws, mem') →
      (∀ t, ∃ mt, cpuReplay ops (calls t).graph (calls t).buffers (calls t).descriptor mem =
          some (mt, answer (calls t).descriptor
            (program ops (calls t).graph.nodes (calls t).buffers (calls t).graph.order).2
            (share t ws)) ∧
        Memory.view.Agree (rangeCells (replayWrites ops (calls t).graph (calls t).buffers))
          mem' mt) ∧
      ∀ c, (∀ t, c ∉ rangeCells (replayWrites ops (calls t).graph (calls t).buffers)) →
        mem'.cell c = mem.cell c := by
  have hfoot : ∀ p ∈ l, Footprint Memory.view (p.2.act) (rangeCells p.2.reads)
      (rangeCells p.2.writes) := fun p _ => p.2.footprint
  have hsep := hclear.separate hl
  refine ⟨fun halone => ?_, fun ws hrun => ⟨fun t => ?_, fun c hc => ?_⟩⟩
  · refine exists_interleaved hsep hfoot fun t => ?_
    have hsome := halone t
    rw [cpuReplay_eq, ← hl t, Ne, Option.map_eq_none_iff] at hsome
    exact Option.isSome_iff_ne_none.mpr hsome
  · obtain ⟨mt, halone, hagree⟩ := perform_interleaved hsep hfoot hrun t
    refine ⟨mt, ?_, hagree.mono (hclear.own hl t)⟩
    rw [cpuReplay_eq, ← hl t, halone]
    rfl
  · have hperform : Footprint Memory.view (perform (threaded Operation.act) l) _ _ :=
      .perform fun p hp => (hfoot p hp).map (Prod.mk p.1)
    refine ((hperform.frame hrun).cell c ?_).symm
    rintro ⟨p, hp, hcell⟩
    refine hc p.1 (cells_subset (f := Operation.writes) ?_ hcell)
    rw [← hl p.1]
    exact mem_share.mpr hp

end

/-- One thread fills an output, the other runs a kernel of two lanes. -/
def twoCalls : Bool → ReplayCall
  | false => {
      graph := ⟨[cpuNode { nodeId := ⟨0, 1⟩, category := .memorySet, memoryBytes := 4 }], [⟨0, 1⟩]⟩
      buffers := ⟨[⟨0, 0⟩], [⟨1, 0⟩], [8], [4]⟩ }
  | true => {
      graph := ⟨[cpuNode { nodeId := ⟨0, 1⟩, memoryBytes := 8 }], [⟨0, 1⟩]⟩
      buffers := ⟨[⟨0, 0⟩], [⟨2, 0⟩], [8], [8]⟩ }

/-- The fill between the lanes. -/
def twoInterleaved : List (Bool × Operation) :=
  [(true, laneAt id ⟨0, 0⟩ ⟨2, 0⟩ 0), (false, .fill ⟨1, 0⟩ 4 0),
    (true, laneAt id ⟨0, 0⟩ ⟨2, 0⟩ 1), (true, .hash ⟨2, 0⟩ 8)]

theorem replays_interleaved_two : ∃ ws mem',
    perform (threaded Operation.act) twoInterleaved [List.replicate 8 1, [2, 2, 2, 2],
      List.replicate 8 3] = some (ws, mem') ∧
    ∀ t, ∃ mt, cpuReplay .unit (twoCalls t).graph (twoCalls t).buffers (twoCalls t).descriptor
        [List.replicate 8 1, [2, 2, 2, 2], List.replicate 8 3] =
      some (mt, answer (twoCalls t).descriptor (program .unit (twoCalls t).graph.nodes
        (twoCalls t).buffers (twoCalls t).graph.order).2 (share t ws)) ∧
      Memory.view.Agree (rangeCells (replayWrites .unit (twoCalls t).graph (twoCalls t).buffers))
        mem' mt := by
  have hclear : CallsClear .unit twoCalls := by
    unfold CallsClear
    decide
  have hl : Interleaves .unit twoCalls twoInterleaved := by
    rintro (_ | _) <;> rfl
  refine ⟨_, _, rfl, ?_⟩
  exact ((replays_interleaved hclear hl).2 _ rfl).1

end GraphCache
