import GraphCache.Finalization
import GraphCache.Lanes

/-!
# The CUDA backend

`cuda_backend.cu` : a capture builds a graph of the CUDA runtime, a copy to the device, the kernels
in the order of the descriptor's nodes, and a copy back; each node depends on the one before. A
replay points the two copies at the caller's buffers and launches the graph.

The runtime is a parameter : which of its calls succeed (`CudaRuntime`), and in which order it runs
the nodes of a graph, each after those that it depends on (`Schedule`). Device buffers are byte
strings that keep what was left in them.

The edges of the descriptor are not read. In a finalized descriptor the nodes stand in the order of
their ids, so the kernels respect the edges exactly when the ids do (`cudaCapture_order_iff`).
-/

namespace GraphCache

/-! ## Capture -/

def opCode (name : Str) : ℕ :=
  if name = str "scale" then 1
  else if name = str "addscalar" then 2
  else if name = str "linear" then 3
  else if name = str "square" then 4
  else if name = str "relu" then 5
  else 0

/-- One thread of `gc_generic_kernel`. -/
def genericKernel (ops : FloatOps) (op : ℕ) (a b x : UInt32) : UInt32 :=
  match op with
  | 0 => x
  | 1 => ops.mul x a
  | 2 => ops.add x a
  | 3 => ops.add (ops.mul x b) a
  | 4 => ops.mul x x
  | 5 => if ops.positive x then x else 0
  | _ => 0

/-- What a node of a CUDA graph does. Device buffers are known by their index. The host side of a
copy is set before every launch. -/
inductive CudaOp
  | copyToDevice (dst : ℕ)
  | kernel (src dst : ℕ) (n : Int32) (a b : UInt32) (op : ℕ)
  | copyToHost (src : ℕ)
  deriving DecidableEq, Repr

/-- A node of a CUDA graph. `deps` are the nodes that it was added with as dependencies. -/
structure CudaNode where
  op : CudaOp
  deps : List ℕ
  deriving DecidableEq, Repr

/-- `CudaGraphState`. A node is known by its index in `graph`. -/
structure CudaGraphState where
  graph : List CudaNode
  buffers : ℕ
  h2dNode : ℕ
  d2hNode : ℕ
  kernelNodes : List ℕ
  bytes : ℕ
  n : Int32
  deriving DecidableEq, Repr

/-- The calls of the runtime that succeed. -/
structure CudaRuntime where
  streamCreate : Bool := true
  malloc : ℕ → Bool := fun _ => true
  graphCreate : Bool := true
  addH2d : Bool := true
  addKernel : ℕ → Bool := fun _ => true
  addD2h : Bool := true
  instantiate : Bool := true
  rebindH2d : Bool := true
  rebindD2h : Bool := true
  launch : Bool := true
  synchronize : Bool := true

def cudaKernels (g : GraphDescriptor) : List GraphNodeDescriptor :=
  g.nodes.filter fun n => n.category = .kernel

/-- The largest `memory_bytes` of a kernel, or 64. -/
def cudaBytes (g : GraphDescriptor) : ℕ :=
  let bytes := (cudaKernels g).foldl
    (fun bytes n => if n.memoryBytes.toNat > bytes then n.memoryBytes.toNat else bytes) 0
  if bytes = 0 then 64 else bytes

/-- `bytes / sizeof(float)`. -/
def cudaElements (g : GraphDescriptor) : ℕ := cudaBytes g / 4

/-- The node of the kernel at index `i`. The nodes before it are the copy and the kernels so far. -/
def kernelNode (ops : FloatOps) (n : Int32) (i : ℕ) (k : GraphNodeDescriptor) : CudaNode where
  op := .kernel i (i + 1) n (ops.ofDouble k.scalar.floatValue) (ops.ofInt k.scalar.intValue)
    (opCode k.kernel.name)
  deps := [i]

/-- The graph that is built. -/
def cudaGraph (ops : FloatOps) (n : Int32) (kernels : List GraphNodeDescriptor) : List CudaNode :=
  ⟨.copyToDevice 0, []⟩ :: kernels.mapIdx (kernelNode ops n) ++
    [⟨.copyToHost kernels.length, [kernels.length]⟩]

/-- What a capture leaves. The number of elements is cast to `int`. -/
def cudaState (ops : FloatOps) (g : GraphDescriptor) : CudaGraphState where
  graph := cudaGraph ops (Int32.ofNat (cudaElements g)) (cudaKernels g)
  buffers := (cudaKernels g).length + 1
  h2dNode := 0
  d2hNode := (cudaKernels g).length + 1
  kernelNodes := List.range' 1 (cudaKernels g).length
  bytes := cudaBytes g
  n := Int32.ofNat (cudaElements g)

/-- `CudaBackend::capture`. -/
def cudaCapture (ops : FloatOps) (rt : CudaRuntime) (g : GraphDescriptor) :
    Result CudaGraphState :=
  let kernels := cudaKernels g
  if kernels = [] then fail .invalidArgument "CUDA graph requires at least one kernel node"
  else if cudaElements g = 0 then fail .invalidArgument "CUDA graph workload has zero elements"
  else if ¬rt.streamCreate then fail .deviceUnavailable "cudaStreamCreate failed"
  else if ¬∀ i < kernels.length + 1, rt.malloc i then fail .outOfMemory "cudaMalloc failed"
  else if ¬rt.graphCreate then fail .internal "cudaGraphCreate failed"
  else if ¬rt.addH2d then fail .internal "cudaGraphAddMemcpyNode H2D failed"
  else if ¬∀ i < kernels.length, rt.addKernel i then fail .internal "cudaGraphAddKernelNode failed"
  else if ¬rt.addD2h then fail .internal "cudaGraphAddMemcpyNode D2H failed"
  else if ¬rt.instantiate then fail .internal "cudaGraphInstantiate failed"
  else .ok (cudaState ops g)

/-! ## Replay -/

/-- The lanes that a launch covers : no thread runs for a negative count. -/
def laneCount (n : Int32) : ℕ := n.toInt.toNat

/-- A node of the graph, over host memory and device buffers. -/
def runNode (ops : FloatOps) (bytes : ℕ) (src dst : Ptr) (s : Memory × List Bytes) :
    CudaOp → Option (Memory × List Bytes)
  | .copyToDevice i => (s.1.read src bytes).map fun data => (s.1, s.2.set i data)
  | .kernel i j n a b op =>
    let lanes := mapLanes (genericKernel ops op a b) (laneCount n) (s.2.getD i [])
    some (s.1, s.2.set j (lanes ++ (s.2.getD j []).drop lanes.length))
  | .copyToHost i => (s.1.write dst (s.2.getD i [])).map fun mem => (mem, s.2)

/-- An order in which the runtime runs the nodes of a graph, each after those that it depends on. A
node depends on nodes that were added before. -/
structure Schedule where
  order : List CudaNode → List ℕ
  perm : ∀ graph, (order graph).Perm (List.range graph.length)
  dependencies : ∀ graph : List CudaNode,
    (∀ (v : ℕ) (node : CudaNode), graph[v]? = some node → ∀ u ∈ node.deps, u < v) →
      ∀ (v : ℕ) (node : CudaNode), graph[v]? = some node → ∀ u ∈ node.deps,
        (order graph).idxOf u < (order graph).idxOf v

/-- `cudaGraphLaunch` and `cudaStreamSynchronize`. -/
def runGraph (ops : FloatOps) (sched : Schedule) (st : CudaGraphState) (src dst : Ptr)
    (s : Memory × List Bytes) : Option (Memory × List Bytes) :=
  (sched.order st.graph).foldlM (fun s v =>
    match st.graph[v]? with
    | some node => runNode ops st.bytes src dst s node.op
    | none => some s) s

/-- `CudaBackend::replay`, with the device buffers before and after. -/
def cudaReplay (ops : FloatOps) (rt : CudaRuntime) (sched : Schedule) (st : CudaGraphState)
    (b : ReplayBuffers) (rd : ReplayDescriptor) (mem : Memory) (device : List Bytes) :
    Option (Memory × List Bytes × Result GraphReplayResult) :=
  match b.inputs, b.outputs with
  | src :: _, dst :: _ =>
    if ¬rt.rebindH2d then some (mem, device, fail .internal "rebind h2d failed")
    else if ¬rt.rebindD2h then some (mem, device, fail .internal "rebind d2h failed")
    else if ¬rt.launch then some (mem, device, fail .internal "cudaGraphLaunch failed")
    else do
      let (mem, device) ← runGraph ops sched st src dst (mem, device)
      if ¬rt.synchronize then
        return (mem, device, fail .internal "cudaStreamSynchronize failed")
      else
        let digest := Sha256.compute (← mem.read dst st.bytes)
        return (mem, device, .ok ⟨true, rd.replayAttempt, UInt64.ofNat (st.kernelNodes.length + 2),
          digest, Sha256.hex digest⟩)
  | _, _ => some (mem, device,
      fail .invalidArgument "cuda replay requires input and output buffers")

/-! ## The chain of kernels -/

/-- A node of the graph was added with another as a dependency. -/
def CudaGraphState.DependsOn (st : CudaGraphState) (u v : ℕ) : Prop :=
  ∃ node, st.graph[v]? = some node ∧ u ∈ node.deps

/-- The kernel of one node of the descriptor comes before that of another in the chain. -/
def CudaGraphState.RunsBefore (st : CudaGraphState) (g : GraphDescriptor)
    (a b : GraphNodeDescriptor) : Prop :=
  ∃ i j u v : ℕ, (cudaKernels g)[i]? = some a ∧ (cudaKernels g)[j]? = some b ∧
    st.kernelNodes[i]? = some u ∧ st.kernelNodes[j]? = some v ∧ Relation.TransGen st.DependsOn u v

/-- There is a path of edges from one node to another. -/
def GraphDescriptor.Path (g : GraphDescriptor) : GraphNodeId → GraphNodeId → Prop :=
  Relation.TransGen fun u v => (u, v) ∈ g.edges.map (·.ends)

section

variable {ops : FloatOps} {rt : CudaRuntime} {g : GraphDescriptor} {st : CudaGraphState}

theorem cudaCapture_ok (h : cudaCapture ops rt g = .ok st) :
    cudaKernels g ≠ [] ∧ cudaElements g ≠ 0 ∧ st = cudaState ops g := by
  obtain ⟨hkernels, h⟩ := of_check h
  obtain ⟨helements, h⟩ := of_check h
  obtain ⟨-, h⟩ := of_check h
  obtain ⟨-, h⟩ := of_check h
  obtain ⟨-, h⟩ := of_check h
  obtain ⟨-, h⟩ := of_check h
  obtain ⟨-, h⟩ := of_check h
  obtain ⟨-, h⟩ := of_check h
  obtain ⟨-, h⟩ := of_check h
  exact ⟨hkernels, helements, (Except.ok.inj h).symm⟩

/-- A capture where no call of the runtime fails. -/
theorem cudaCapture_working (ops : FloatOps) (hk : cudaKernels g ≠ []) (hn : cudaElements g ≠ 0) :
    cudaCapture ops {} g = .ok (cudaState ops g) := by
  unfold cudaCapture
  simp [hk, hn]

/-- Every node but the first depends on the one before. -/
theorem deps_cudaGraph {n : Int32} {kernels : List GraphNodeDescriptor} {v : ℕ} {node : CudaNode}
    (h : (cudaGraph ops n kernels)[v]? = some node) :
    node.deps = if v = 0 then [] else [v - 1] := by
  rw [cudaGraph, List.cons_append] at h
  cases v with
  | zero =>
    obtain rfl := Option.some.inj h
    rfl
  | succ v =>
    rw [List.getElem?_cons_succ] at h
    rw [if_neg (Nat.succ_ne_zero v), Nat.add_sub_cancel]
    rcases lt_or_ge v kernels.length with hv | hv
    · rw [List.getElem?_append_left (by rwa [List.length_mapIdx]), List.getElem?_mapIdx,
        List.getElem?_eq_getElem hv] at h
      rw [← Option.some.inj h]
      rfl
    · rw [List.getElem?_append_right (by rwa [List.length_mapIdx]), List.length_mapIdx] at h
      obtain ⟨hlast, rfl⟩ := List.getElem?_eq_some_iff.mp h
      rw [List.length_singleton] at hlast
      obtain rfl : v = kernels.length := by omega
      simp

theorem length_cudaGraph (ops : FloatOps) (n : Int32) (kernels : List GraphNodeDescriptor) :
    (cudaGraph ops n kernels).length = kernels.length + 2 := by
  simp [cudaGraph]

theorem dependsOn_iff {u v : ℕ} : (cudaState ops g).DependsOn u v ↔
    v = u + 1 ∧ v < (cudaKernels g).length + 2 := by
  constructor
  · rintro ⟨node, hnode, hu⟩
    have hlt := (List.getElem?_eq_some_iff.mp hnode).1
    rw [cudaState, length_cudaGraph] at hlt
    rw [deps_cudaGraph hnode] at hu
    split_ifs at hu with hv
    · simp at hu
    · exact ⟨by simp at hu; omega, hlt⟩
  · rintro ⟨rfl, hlt⟩
    have hlt : u + 1 < (cudaState ops g).graph.length := by rwa [cudaState, length_cudaGraph]
    refine ⟨_, List.getElem?_eq_getElem hlt, ?_⟩
    rw [deps_cudaGraph (List.getElem?_eq_getElem hlt)]
    simp

theorem transGen_dependsOn_iff {u v : ℕ} : Relation.TransGen (cudaState ops g).DependsOn u v ↔
    u < v ∧ v < (cudaKernels g).length + 2 := by
  constructor
  · intro h
    induction h with
    | single h =>
      obtain ⟨rfl, hlt⟩ := dependsOn_iff.mp h
      exact ⟨Nat.lt_succ_self _, hlt⟩
    | tail _ h ih =>
      obtain ⟨rfl, hlt⟩ := dependsOn_iff.mp h
      exact ⟨by omega, hlt⟩
  · rintro ⟨huv, hlt⟩
    induction v with
    | zero => omega
    | succ v ih =>
      have hlast : (cudaState ops g).DependsOn v (v + 1) := dependsOn_iff.mpr ⟨rfl, hlt⟩
      rcases Nat.lt_or_ge u v with hu | hu
      · exact (ih hu (by omega)).tail hlast
      · obtain rfl : u = v := by omega
        exact .single hlast

theorem getElem?_kernelNodes {i : ℕ} (hi : i < (cudaKernels g).length) :
    (cudaState ops g).kernelNodes[i]? = some (i + 1) := by
  rw [cudaState, List.getElem?_range' hi]
  congr 1
  omega

/-- One kernel comes before another in the chain when it does among the kernels. -/
theorem runsBefore_iff {a b : GraphNodeDescriptor} : (cudaState ops g).RunsBefore g a b ↔
    ∃ i j : ℕ, (cudaKernels g)[i]? = some a ∧ (cudaKernels g)[j]? = some b ∧ i < j := by
  constructor
  · rintro ⟨i, j, u, v, ha, hb, hu, hv, hpath⟩
    rw [getElem?_kernelNodes (List.getElem?_eq_some_iff.mp ha).1] at hu
    rw [getElem?_kernelNodes (List.getElem?_eq_some_iff.mp hb).1] at hv
    obtain rfl := Option.some.inj hu
    obtain rfl := Option.some.inj hv
    have hlt := (transGen_dependsOn_iff.mp hpath).1
    exact ⟨i, j, ha, hb, by omega⟩
  · rintro ⟨i, j, ha, hb, hij⟩
    have hj := (List.getElem?_eq_some_iff.mp hb).1
    refine ⟨i, j, i + 1, j + 1, ha, hb, getElem?_kernelNodes (by omega),
      getElem?_kernelNodes hj, transGen_dependsOn_iff.mpr ⟨by omega, by omega⟩⟩

end

section

variable {o : IterationOrder GraphNodeId} {d g : GraphDescriptor}

/-- The kernels of a finalized descriptor stand in the order of their ids. -/
theorem pairwise_cudaKernels (h : d.finalize o = .ok g) :
    (cudaKernels g).Pairwise fun a b => a.nodeId.less b.nodeId = true := by
  obtain ⟨hwf, rfl⟩ := finalize_ok_iff.mp h
  have hnodes : d.finalized.nodes = sortById (·.nodeId) d.nodes := rfl
  have hids : ((sortById (·.nodeId) d.nodes).map (·.nodeId)).Nodup :=
    ((sortById_perm _ d.nodes).map _).nodup_iff.mpr hwf.nodeIds
  have hne := List.pairwise_map.mp hids
  have hle := pairwise_sortById (·.nodeId) d.nodes
  rw [cudaKernels, hnodes]
  refine ((hle.and hne).imp ?_).filter _
  rintro a b ⟨hab, hne⟩
  exact (Id128.less_total hne).resolve_right (by simpa [atMost] using hab)

/-- So the order of the chain is that of the ids. -/
theorem runsBefore_iff_less (h : d.finalize o = .ok g) {ops : FloatOps}
    {a b : GraphNodeDescriptor} (ha : a ∈ cudaKernels g) (hb : b ∈ cudaKernels g) :
    (cudaState ops g).RunsBefore g a b ↔ a.nodeId.less b.nodeId = true := by
  have hsorted := List.pairwise_iff_getElem.mp (pairwise_cudaKernels h)
  rw [runsBefore_iff]
  constructor
  · rintro ⟨i, j, hai, hbj, hij⟩
    obtain ⟨hi, rfl⟩ := List.getElem?_eq_some_iff.mp hai
    obtain ⟨hj, rfl⟩ := List.getElem?_eq_some_iff.mp hbj
    exact hsorted i j hi hj hij
  · intro hless
    obtain ⟨i, hi, rfl⟩ := List.getElem_of_mem ha
    obtain ⟨j, hj, rfl⟩ := List.getElem_of_mem hb
    refine ⟨i, j, List.getElem?_eq_getElem hi, List.getElem?_eq_getElem hj, ?_⟩
    rcases lt_trichotomy i j with hij | rfl | hji
    · exact hij
    · rw [Id128.less_irrefl] at hless
      cases hless
    · have hasymm := Id128.less_asymm (hsorted j i hj hi hji)
      rw [hasymm] at hless
      cases hless

/-- The chain respects the edges between kernels exactly when the ids do, or when there is no chain
because the kernels have no elements. -/
theorem cudaCapture_order_iff (h : d.finalize o = .ok g)
    (hk : ∃ n ∈ g.nodes, n.category = .kernel) :
    (∀ ops rt st, cudaCapture ops rt g = .ok st → ∀ a ∈ cudaKernels g, ∀ b ∈ cudaKernels g,
      g.Path a.nodeId b.nodeId → st.RunsBefore g a b) ↔
    cudaElements g = 0 ∨ ∀ a ∈ cudaKernels g, ∀ b ∈ cudaKernels g,
      g.Path a.nodeId b.nodeId → a.nodeId.less b.nodeId = true := by
  have hkernels : cudaKernels g ≠ [] := by
    obtain ⟨n, hn, hkernel⟩ := hk
    exact List.ne_nil_of_mem (List.mem_filter.mpr ⟨hn, by simpa using hkernel⟩)
  constructor
  · intro hchain
    by_cases helements : cudaElements g = 0
    · exact .inl helements
    · have hcapture := cudaCapture_working .unit hkernels helements
      exact .inr fun a ha b hb hpath =>
        (runsBefore_iff_less h ha hb).mp (hchain _ _ _ hcapture a ha b hb hpath)
  · rintro (helements | hids) ops rt st hcapture a ha b hb hpath
    · exact absurd helements (cudaCapture_ok hcapture).2.1
    · obtain ⟨-, -, rfl⟩ := cudaCapture_ok hcapture
      exact (runsBefore_iff_less h ha hb).mpr (hids a ha b hb hpath)

/-- Two kernels, with an edge from the first to the second. -/
def kernelPair (first second : GraphNodeId) : GraphDescriptor where
  nodes := [{ nodeId := first }, { nodeId := second }]
  edges := [{ edgeId := ⟨0, 1⟩, fromNode := first, toNode := second }]

theorem path_kernelPair {first second u v : GraphNodeId}
    (h : (kernelPair first second).finalized.Path u v) : u = first ∧ v = second := by
  have hedge : ∀ {u v}, (u, v) ∈ (kernelPair first second).finalized.edges.map (·.ends) →
      u = first ∧ v = second := by
    intro u v hmem
    exact Prod.mk.inj (List.mem_singleton.mp hmem)
  obtain ⟨w, hfirst, -⟩ := Relation.TransGen.head'_iff.mp h
  obtain ⟨w, -, hsecond⟩ := Relation.TransGen.tail'_iff.mp h
  exact ⟨(hedge hfirst).1, (hedge hsecond).2⟩

/-- Ids in the order of the edges. -/
theorem cudaCapture_order_forward : ∃ g st a b,
    (kernelPair ⟨0, 1⟩ ⟨0, 2⟩).finalize (.insertion _) = .ok g ∧
      cudaCapture .unit {} g = .ok st ∧ g.Path a.nodeId b.nodeId ∧ st.RunsBefore g a b := by
  have hfin : (kernelPair ⟨0, 1⟩ ⟨0, 2⟩).finalize (.insertion _) = .ok _ :=
    finalize_of_valid (by rfl)
  have hfirst : ({ nodeId := ⟨0, 1⟩ } : GraphNodeDescriptor) ∈
      cudaKernels (kernelPair ⟨0, 1⟩ ⟨0, 2⟩).finalized := by decide
  have hsecond : ({ nodeId := ⟨0, 2⟩ } : GraphNodeDescriptor) ∈
      cudaKernels (kernelPair ⟨0, 1⟩ ⟨0, 2⟩).finalized := by decide
  have hcapture := cudaCapture_working .unit (List.ne_nil_of_mem hfirst) (by decide)
  have hpath : (kernelPair ⟨0, 1⟩ ⟨0, 2⟩).finalized.Path ⟨0, 1⟩ ⟨0, 2⟩ :=
    .single (List.mem_singleton.mpr rfl)
  refine ⟨_, _, { nodeId := ⟨0, 1⟩ }, { nodeId := ⟨0, 2⟩ }, hfin, hcapture, hpath, ?_⟩
  refine (cudaCapture_order_iff hfin ⟨_, List.mem_of_mem_filter hfirst, rfl⟩).mpr (.inr ?_) _ _ _
    hcapture _ hfirst _ hsecond hpath
  intro a _ b _ hpath
  obtain ⟨ha, hb⟩ := path_kernelPair hpath
  rw [ha, hb]
  decide

/-- Ids against the order of the edges. -/
theorem cudaCapture_unordered : ∃ g st a b,
    (kernelPair ⟨0, 2⟩ ⟨0, 1⟩).finalize (.insertion _) = .ok g ∧
      cudaCapture .unit {} g = .ok st ∧ a ∈ cudaKernels g ∧ b ∈ cudaKernels g ∧
        g.Path a.nodeId b.nodeId ∧ ¬st.RunsBefore g a b := by
  have hfin : (kernelPair ⟨0, 2⟩ ⟨0, 1⟩).finalize (.insertion _) = .ok _ :=
    finalize_of_valid (by rfl)
  have hfirst : ({ nodeId := ⟨0, 2⟩ } : GraphNodeDescriptor) ∈
      cudaKernels (kernelPair ⟨0, 2⟩ ⟨0, 1⟩).finalized := by decide
  have hsecond : ({ nodeId := ⟨0, 1⟩ } : GraphNodeDescriptor) ∈
      cudaKernels (kernelPair ⟨0, 2⟩ ⟨0, 1⟩).finalized := by decide
  refine ⟨_, _, _, _, hfin, cudaCapture_working _ (List.ne_nil_of_mem hfirst) (by decide), hfirst,
    hsecond, .single (List.mem_singleton.mpr rfl), fun hbefore => ?_⟩
  have hless := (runsBefore_iff_less hfin hfirst hsecond).mp hbefore
  revert hless
  decide

end

end GraphCache
