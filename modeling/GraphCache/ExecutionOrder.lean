import GraphCache.CpuBackend
import GraphCache.KahnLoop

/-!
# The order of execution

The order in which `CpuBackend::capture` puts the nodes. A node can be placed once its predecessors
are (`CanPlace`); a greedy order places at each position the smallest id that can be placed. There
is at most one greedy order of a graph (`Greedy.unique`), and the capture finds it (`greedy_order`).

So the order does not depend on how hash containers are iterated or on how nodes and edges are
listed, and neither does a replay (`cpuCapture_canonical`).
-/

namespace GraphCache

/-! ## Greedy orders -/

/-- The node is not placed yet, and all its predecessors are. -/
structure CanPlace (g : GraphDescriptor) (placed : List GraphNodeId) (v : GraphNodeId) : Prop where
  listed : v ∈ g.nodes.map (·.nodeId)
  fresh : v ∉ placed
  predecessors : ∀ e ∈ g.edges, e.toNode = v → e.fromNode ∈ placed

/-- All nodes, each once, edges forward, and at each position the smallest id that can be placed. -/
structure Greedy (g : GraphDescriptor) (order : List GraphNodeId) : Prop where
  perm : order.Perm (g.nodes.map (·.nodeId))
  nodup : order.Nodup
  forward : ∀ e ∈ g.edges, order.idxOf e.fromNode < order.idxOf e.toNode
  least : ∀ l₁ v l₂, order = l₁ ++ v :: l₂ →
    CanPlace g l₁ v ∧ ∀ w, CanPlace g l₁ w → w = v ∨ v.less w

variable {g : GraphDescriptor}

/-- Greedy orders agree from the start on. -/
theorem Greedy.unique {l l' : List GraphNodeId} (h : Greedy g l) (h' : Greedy g l') : l = l' := by
  have hagree : ∀ (m m' p : List GraphNodeId), l = p ++ m → l' = p ++ m' → m = m' := by
    intro m
    induction m with
    | nil =>
      intro m' p hl hl'
      have hlen := h.perm.length_eq.trans h'.perm.length_eq.symm
      have hm' : m'.length = 0 := by
        rw [hl, hl', List.length_append, List.length_append, List.length_nil] at hlen
        omega
      exact (List.eq_nil_of_length_eq_zero hm').symm
    | cons v m ih =>
      intro m' p hl hl'
      cases m' with
      | nil =>
        have hlen := h.perm.length_eq.trans h'.perm.length_eq.symm
        simp [hl, hl'] at hlen
      | cons w m' =>
        obtain ⟨hv, hvleast⟩ := h.least p v m hl
        obtain ⟨hw, hwleast⟩ := h'.least p w m' hl'
        have hvw : w = v := by
          rcases hvleast w hw with heq | hless
          · exact heq
          · rcases hwleast v hv with heq | hless'
            · exact heq.symm
            · rw [Id128.less_asymm hless] at hless'
              cases hless'
        subst hvw
        rw [ih m' (p ++ [w]) (by simpa using hl) (by simpa using hl')]
  exact hagree l l' [] rfl rfl

/-- A node can be placed in a graph when it can be in any listing of it. -/
theorem CanPlace.of_perm {g' : GraphDescriptor} (hn : g'.nodes.Perm g.nodes)
    (he : g'.edges.Perm g.edges) {placed : List GraphNodeId} {v : GraphNodeId}
    (h : CanPlace g placed v) : CanPlace g' placed v where
  listed := (hn.map _).mem_iff.mpr h.listed
  fresh := h.fresh
  predecessors := fun e hmem => h.predecessors e (he.mem_iff.mp hmem)

theorem Greedy.of_perm {g' : GraphDescriptor} (hn : g'.nodes.Perm g.nodes)
    (he : g'.edges.Perm g.edges) {order : List GraphNodeId} (h : Greedy g order) :
    Greedy g' order where
  perm := h.perm.trans (hn.map _).symm
  nodup := h.nodup
  forward := fun e hmem => h.forward e (he.mem_iff.mp hmem)
  least := fun l₁ v l₂ hsplit => by
    obtain ⟨hv, hleast⟩ := h.least l₁ v l₂ hsplit
    exact ⟨hv.of_perm hn he, fun w hw => hleast w (hw.of_perm hn.symm he.symm)⟩

/-! ## What a capture finds -/

/-- A sorted list starts with its smallest id. -/
theorem takesLeast_sortById :
    Kahn.TakesLeast (fun v w : GraphNodeId => w.less v = false) (sortById id) := by
  intro l cur rest hsort x hx
  have hpair := pairwise_sortById id l
  rw [hsort] at hpair
  rcases List.mem_cons.mp (hsort ▸ (sortById_perm id l).symm.subset hx) with rfl | hrest
  · exact Id128.less_irrefl x
  · exact (List.pairwise_cons.mp hpair).1 x hrest

theorem greedy_order (o : IterationOrder GraphNodeId) (h : WellFormed g.nodes g.edges) :
    Greedy g (executionOrder o g) := by
  have hperm := executionOrder_perm (o := o) h
  have hnodup : (executionOrder o g).Nodup := hperm.nodup_iff.mpr h.nodeIds
  have harrange := o.perm (g.nodes.map (·.nodeId))
  have hnd := harrange.nodup_iff.mpr h.nodeIds
  have hsort : ∀ l : List GraphNodeId, (sortById id l).Perm l := sortById_perm id
  have hends := fun e he => (ends_mem_arrange (o := o) h.proper e he).2
  obtain ⟨-, -, hsorted, -⟩ := Kahn.order_spec hsort hnd hends
  refine ⟨hperm, hnodup, fun e he => ?_, fun l₁ v l₂ hsplit => ⟨⟨?_, ?_, ?_⟩, fun w hw => ?_⟩⟩
  · have hto := hperm.mem_iff.mpr (h.proper e he).2.2
    exact hsorted.idxOf_lt hnodup (List.mem_map.mpr ⟨e, he, rfl⟩) hto
  · exact hperm.subset (by simp [hsplit])
  · rw [hsplit] at hnodup
    exact fun hmem => (List.nodup_append.mp hnodup).2.2 v hmem v (by simp) rfl
  · rintro e he rfl
    simpa using hsorted.mem_of_split hsplit e.fromNode (List.mem_map.mpr ⟨e, he, rfl⟩)
  · have hless := Kahn.order_least hsort takesLeast_sortById hnd hends hsplit w
      (harrange.mem_iff.mpr hw.listed) hw.fresh fun u hu => by
        obtain ⟨e, he, hends⟩ := List.mem_map.mp hu
        obtain ⟨rfl, rfl⟩ := Prod.mk.inj hends
        exact hw.predecessors e he rfl
    by_cases heq : w = v
    · exact .inl heq
    · exact .inr ((Id128.less_total heq).resolve_left (by simp [hless]))

/-! ## Replays of a captured graph -/

/-- A node that is not replayed has an index out of range. -/
theorem code_of_replayNode {ops : FloatOps} {b : ReplayBuffers} {node : CpuNode} {st : ReplayState}
    {e : Error} (h : replayNode ops b node st = some (.error e)) : e.code = .invalidArgument := by
  unfold replayNode at h
  dsimp only at h
  split_ifs at h
  all_goals first
    | split at h
      · simp [Option.bind_eq_some_iff, pure] at h
      · simp only [fail, Option.some.injEq, Except.error.injEq] at h
        rw [← h]
    | simp at h

/-- Where every id of the order is found, no replay ends with an unknown node. -/
theorem code_of_replayLoop {ops : FloatOps} {nodes : List CpuNode} {b : ReplayBuffers} :
    ∀ {order : List GraphNodeId} {st : ReplayState} {mem : Memory} {e : Error},
      (∀ nid ∈ order, (nodes.find? fun n => n.id = nid).isSome) →
        replayLoop ops nodes b order st = some (mem, .error e) → e.code = .invalidArgument
  | [], _, _, _, _, h => by simp [replayLoop] at h
  | nid :: rest, st, mem, e, hfound, h => by
    obtain ⟨node, hnode⟩ := Option.isSome_iff_exists.mp (hfound nid (by simp))
    rw [replayLoop] at h
    simp only [hnode] at h
    split at h
    · cases h
    · rename_i hreplay
      obtain ⟨-, herror⟩ := Prod.mk.inj (Option.some.inj h)
      exact Except.error.inj herror ▸ code_of_replayNode hreplay
    · exact code_of_replayLoop (fun nid hnid => hfound nid (by simp [hnid])) h

/-- The order of a captured graph is the greedy one. It is the order of every capture of every
listing of the graph, with the same replays, and none of these meets an unknown node. -/
theorem cpuCapture_canonical {o : IterationOrder GraphNodeId}
    (h : validateTopology o g.nodes g.edges = .ok ()) (o₁ : IterationOrder GraphNodeId) :
    ∃ x, cpuCapture o₁ g = .ok x ∧ Greedy g x.order ∧
      (∀ (o₂ : IterationOrder GraphNodeId) (ns : List GraphNodeDescriptor)
        (es : List GraphEdgeDescriptor), ns.Perm g.nodes → es.Perm g.edges →
          ∃ x', cpuCapture o₂ { g with nodes := ns, edges := es } = .ok x' ∧ x'.order = x.order ∧
            ∀ ops b rd mem, cpuReplay ops x' b rd mem = cpuReplay ops x b rd mem) ∧
      ∀ ops b rd mem mem', cpuReplay ops x b rd mem ≠
        some (mem', fail .topologyInvalid "unknown node in replay order") := by
  have hwf := validateTopology_ok_iff.mp h
  have hgreedy := greedy_order o₁ hwf
  refine ⟨_, cpuCapture_ok_iff.mpr ⟨hwf, rfl⟩, hgreedy, fun o₂ ns es hn he => ?_, ?_⟩
  · have hwf' : WellFormed ns es := hwf.perm (hn.map _).symm he.symm
    have horder := (greedy_order (g := { g with nodes := ns, edges := es }) o₂ hwf').unique
      (hgreedy.of_perm hn he)
    have hids : (ns.map cpuNode).map (·.id) = ns.map (·.nodeId) := by rw [List.map_map]; rfl
    have hfind := fun nid => find_eq_of_perm (hn.map cpuNode) (hids ▸ hwf'.nodeIds) nid
    refine ⟨_, cpuCapture_ok_iff.mpr ⟨hwf', rfl⟩, horder, fun ops b rd mem => ?_⟩
    simp only [cpuReplay, horder]
    rw [replayLoop_congr_of_nodes fun nid => ?_]
    rw [hfind nid]
    cases (g.nodes.map cpuNode).find? fun n => n.id = nid with
    | none => exact .none
    | some n => exact .some fun _ => rfl
  · intro ops b rd mem mem' hreplay
    obtain ⟨⟨m, r⟩, hloop, heq⟩ := Option.map_eq_some_iff.mp hreplay
    obtain ⟨rfl, hr⟩ := Prod.mk.inj heq
    cases r with
    | ok st => cases hr
    | error e =>
      have hcode := code_of_replayLoop (fun nid hnid => ?_) hloop
      · rw [Except.error.inj hr] at hcode
        cases hcode
      · obtain ⟨n, hn, rfl⟩ := List.mem_map.mp (hgreedy.perm.subset hnid)
        exact List.find?_isSome.mpr ⟨cpuNode n, List.mem_map_of_mem hn, by simp [cpuNode]⟩

/-- Three nodes and an edge from the third to the first. -/
def detour : GraphDescriptor where
  nodes := [{ nodeId := ⟨0, 1⟩ }, { nodeId := ⟨0, 2⟩ }, { nodeId := ⟨0, 3⟩ }]
  edges := [{ edgeId := ⟨0, 1⟩, fromNode := ⟨0, 3⟩, toNode := ⟨0, 1⟩ }]

theorem cpuCapture_canonical_detour : ∃ x, cpuCapture (.insertion _) detour = .ok x ∧
    Greedy detour x.order ∧ x.order = [⟨0, 2⟩, ⟨0, 3⟩, ⟨0, 1⟩] := by
  have hvalid : validateTopology (.insertion _) detour.nodes detour.edges = .ok () := by rfl
  obtain ⟨x, hx, hgreedy, -⟩ := cpuCapture_canonical hvalid (.insertion _)
  have horder : x.order = executionOrder (.insertion _) detour := by
    rw [(cpuCapture_ok_iff.mp hx).2]
  exact ⟨x, hx, hgreedy, horder.trans (by rfl)⟩

end GraphCache
