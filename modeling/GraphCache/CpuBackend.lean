import GraphCache.Backend

/-!
# The CPU backend

`cpu_backend.cpp` : a capture turns a descriptor into the list of its operations and a topological
order, smallest ready id first; a replay runs them in that order over the caller's buffers and
hashes what the kernels wrote.

Arithmetic on `float` is a parameter (`FloatOps`). Kernels go lane by lane, so overlapping buffers
behave as in the program.

`cpuReplay_congr` : a replay depends on an operation only through what its category reads.
-/

open BigEndian

namespace GraphCache

/-! ## Capture -/

inductive CpuKernel
  | identity
  | scale
  | addScalar
  | linear
  | square
  | relu
  deriving DecidableEq, Repr

structure CpuNode where
  id : GraphNodeId
  category : NodeCategory
  kernel : CpuKernel
  srcIndex : UInt32
  dstIndex : UInt32
  bytes : UInt64
  memsetValue : UInt8
  scalar : ScalarSpecialization
  deriving DecidableEq, Repr

structure CpuGraph where
  nodes : List CpuNode
  order : List GraphNodeId
  deriving DecidableEq, Repr

def classifyKernel (n : GraphNodeDescriptor) : CpuKernel :=
  if n.kernel.name = str "identity" then .identity
  else if n.kernel.name = str "scale" then .scale
  else if n.kernel.name = str "addscalar" then .addScalar
  else if n.kernel.name = str "linear" then .linear
  else if n.kernel.name = str "square" then .square
  else if n.kernel.name = str "relu" then .relu
  else .identity

def cpuNode (n : GraphNodeDescriptor) : CpuNode where
  id := n.nodeId
  category := n.category
  kernel := classifyKernel n
  srcIndex := n.reactiveInputIndices.headD 0
  dstIndex := n.reactiveOutputIndices.headD 0
  bytes := n.memoryBytes
  memsetValue := n.memsetValue
  scalar := n.scalar

/-- `if (!seen.insert(n.node_id).second) continue;` -/
def captureNodes : List GraphNodeId → List GraphNodeDescriptor → List CpuNode
  | _, [] => []
  | seen, n :: ns =>
    if n.nodeId ∈ seen then captureNodes seen ns
    else cpuNode n :: captureNodes (n.nodeId :: seen) ns

/-- The order of execution : ready nodes are sorted by id before each is taken. -/
def executionOrder (o : IterationOrder GraphNodeId) (g : GraphDescriptor) : List GraphNodeId :=
  Kahn.order (sortById id) (o.arrange (g.nodes.map (·.nodeId))) (g.edges.map (·.ends))

def cpuCapture (o : IterationOrder GraphNodeId) (g : GraphDescriptor) : Result CpuGraph := do
  validateTopology o g.nodes g.edges
  return ⟨captureNodes [] g.nodes, executionOrder o g⟩

/-! ## Replay -/

/-- The operations on `float`, by its bits. -/
structure FloatOps where
  mul : UInt32 → UInt32 → UInt32
  add : UInt32 → UInt32 → UInt32
  ofDouble : Double → UInt32
  toDouble : UInt32 → Double
  ofInt : Int64 → UInt32
  positive : UInt32 → Bool

/-- Arithmetic where an operand is one, on the doubles one, two and three. -/
def FloatOps.unit : FloatOps where
  mul x y := if x = 0x3F800000 then y else x
  add x _ := x
  ofDouble d := if d.bits = 0x4000000000000000 then 0x40000000
    else if d.bits = 0x4008000000000000 then 0x40400000 else 0x3F800000
  toDouble x := ⟨if x = 0x40000000 then 0x4000000000000000
    else if x = 0x40400000 then 0x4008000000000000 else 0x3FF0000000000000⟩
  ofInt _ := 0x3F800000
  positive _ := true

/-- One lane of a kernel : `a` is the float scalar, `b` the integer one. -/
def kernelLane (ops : FloatOps) (k : CpuKernel) (sc : ScalarSpecialization) (x : UInt32) : UInt32 :=
  let a := ops.ofDouble sc.floatValue
  let b := ops.ofInt sc.intValue
  match k with
  | .identity => x
  | .scale => ops.mul x a
  | .addScalar => ops.add x a
  | .linear => ops.add (ops.mul x b) a
  | .square => ops.mul x x
  | .relu => if ops.positive x then x else 0

/-- A lane in memory, little-endian. -/
def loadLane (b : Bytes) : UInt32 := UInt32.ofNat (beNat b.reverse)

def storeLane (x : UInt32) : Bytes := (encU32 x).reverse

/-- Lanes `i, i + 1, ...` of `run_cpu_kernel`. -/
def runCpuKernel (lane : UInt32 → UInt32) (src dst : Ptr) : ℕ → ℕ → Memory → Option Memory
  | 0, _, m => some m
  | n + 1, i, m => do
    let x ← m.read (src.add (4 * i)) 4
    let m ← m.write (dst.add (4 * i)) (storeLane (lane (loadLane x)))
    runCpuKernel lane src dst n (i + 1) m

structure ReplayState where
  mem : Memory
  hash : Sha256
  replayedNodes : UInt64
  deriving DecidableEq, Repr

/-- One node of the order; an error leaves the memory as it is. -/
def replayNode (ops : FloatOps) (b : ReplayBuffers) (node : CpuNode) (st : ReplayState) :
    Option (Result ReplayState) :=
  let src := b.inputs[node.srcIndex.toNat]?
  let dst := b.outputs[node.dstIndex.toNat]?
  if node.category = .memoryCopy then
    match src, dst with
    | some src, some dst => do
      let data ← st.mem.read src node.bytes.toNat
      let mem ← st.mem.write dst data
      return .ok ⟨mem, st.hash, st.replayedNodes + 1⟩
    | _, _ => some (fail .invalidArgument "memory copy buffer out of range")
  else if node.category = .memorySet then
    match dst with
    | some dst => do
      let mem ← st.mem.write dst (List.replicate node.bytes.toNat node.memsetValue)
      return .ok ⟨mem, st.hash, st.replayedNodes + 1⟩
    | none => some (fail .invalidArgument "memset buffer out of range")
  else if node.category = .kernel then
    match src, dst with
    | some src, some dst => do
      let mem ← runCpuKernel (kernelLane ops node.kernel node.scalar) src dst
        (node.bytes.toNat / 4) 0 st.mem
      let data ← mem.read dst node.bytes.toNat
      return .ok ⟨mem, st.hash.update data, st.replayedNodes + 1⟩
    | _, _ => some (fail .invalidArgument "kernel buffer out of range")
  else some (.ok st)

/-- The loop over `g->order`. -/
def replayLoop (ops : FloatOps) (nodes : List CpuNode) (b : ReplayBuffers) :
    List GraphNodeId → ReplayState → Option (Memory × Result ReplayState)
  | [], st => some (st.mem, .ok st)
  | nid :: rest, st =>
    match nodes.find? fun n => n.id = nid with
    | none => some (st.mem, fail .topologyInvalid "unknown node in replay order")
    | some node =>
      match replayNode ops b node st with
      | none => none
      | some (.error e) => some (st.mem, .error e)
      | some (.ok st) => replayLoop ops nodes b rest st

def cpuReplay (ops : FloatOps) (g : CpuGraph) (b : ReplayBuffers) (rd : ReplayDescriptor)
    (mem : Memory) : Option (Memory × Result GraphReplayResult) :=
  (replayLoop ops g.nodes b g.order ⟨mem, .reset, 0⟩).map fun (mem, r) => (mem, do
    let st ← r
    let digest := st.hash.final
    return ⟨true, rd.replayAttempt, st.replayedNodes, digest, Sha256.hex digest⟩)

/-- The backend `CpuBackend`. A capture does not depend on the attempt. -/
def cpuBackend (o : IterationOrder GraphNodeId) (ops : FloatOps) : GraphBackend CpuGraph where
  capture := fun g _ => cpuCapture o g
  validate := fun g _ => validateTopology o g.nodes g.edges
  replay := fun _ exec b rd mem => cpuReplay ops exec b rd mem
  unload := fun _ _ => (.ok (), none)

/-! ## What a replay depends on -/

/-- The scalars that a kernel reads. -/
def CpuKernel.SameScalars (k : CpuKernel) (s s' : ScalarSpecialization) : Prop :=
  match k with
  | .scale | .addScalar => s.floatValue = s'.floatValue
  | .linear => s.floatValue = s'.floatValue ∧ s.intValue = s'.intValue
  | .identity | .square | .relu => True

/-- Two operations that read the same. -/
structure CpuNode.SameEffect (n n' : CpuNode) : Prop where
  id : n.id = n'.id
  category : n.category = n'.category
  srcIndex : n.srcIndex = n'.srcIndex
  dstIndex : n.dstIndex = n'.dstIndex
  bytes : n.bytes = n'.bytes
  memset : n.category = .memorySet → n.memsetValue = n'.memsetValue
  kernel : n.category = .kernel → n.kernel = n'.kernel
  scalar : n.category = .kernel → n.kernel.SameScalars n.scalar n'.scalar

theorem kernelLane_congr (ops : FloatOps) {k : CpuKernel} {s s' : ScalarSpecialization}
    (h : k.SameScalars s s') : kernelLane ops k s = kernelLane ops k s' := by
  funext x
  cases k <;> simp_all [CpuKernel.SameScalars, kernelLane]

theorem replayNode_congr {ops : FloatOps} {b : ReplayBuffers} {n n' : CpuNode}
    (h : n.SameEffect n') (st : ReplayState) : replayNode ops b n st = replayNode ops b n' st := by
  simp only [replayNode, ← h.srcIndex, ← h.dstIndex, ← h.bytes, ← h.category]
  split_ifs with hcopy hset hker
  · rfl
  · rw [h.memset hset]
  · rw [← h.kernel hker, kernelLane_congr ops (h.scalar hker)]
  · rfl

/-- Looking up an id finds nothing in both lists, or the same effect. -/
def SameLookups (ns ns' : List CpuNode) : Prop :=
  ∀ nid, Option.Rel CpuNode.SameEffect (ns.find? fun n => n.id = nid) (ns'.find? fun n => n.id = nid)

/-- A lookup in two lists related node by node finds related nodes. -/
theorem find_rel {R : CpuNode → CpuNode → Prop} (hid : ∀ n n', R n n' → n.id = n'.id)
    {ns ns' : List CpuNode} (h : List.Forall₂ R ns ns') (nid : GraphNodeId) :
    Option.Rel R (ns.find? fun n => n.id = nid) (ns'.find? fun n => n.id = nid) := by
  induction h with
  | nil => exact .none
  | @cons n n' ns ns' hn _ ih =>
    by_cases heq : n.id = nid
    · simp [heq, ← hid n n' hn, hn]
    · simpa [heq, ← hid n n' hn] using ih

theorem SameLookups.of_forall₂ {ns ns' : List CpuNode}
    (h : List.Forall₂ CpuNode.SameEffect ns ns') : SameLookups ns ns' :=
  find_rel (fun _ _ hn => hn.id) h

/-- With distinct ids a lookup does not see the order of the nodes. -/
theorem find_eq_of_perm {ns ns' : List CpuNode} (hp : ns.Perm ns') (hnd : (ns.map (·.id)).Nodup)
    (nid : GraphNodeId) :
    (ns.find? fun n => n.id = nid) = ns'.find? fun n => n.id = nid := by
  refine Option.ext fun n => ?_
  have hiff : ∀ {l : List CpuNode}, (l.map (·.id)).Nodup →
      ((l.find? fun n => n.id = nid) = some n ↔ n ∈ l ∧ n.id = nid) := by
    intro l hl
    constructor
    · exact fun h => ⟨List.mem_of_find?_eq_some h, by simpa using List.find?_some h⟩
    · rintro ⟨hmem, hid⟩
      have hsome : (l.find? fun n => n.id = nid).isSome = true :=
        List.find?_isSome.mpr ⟨n, hmem, by simpa using hid⟩
      obtain ⟨m, hm⟩ := Option.isSome_iff_exists.mp hsome
      have hmid : m.id = nid := by simpa using List.find?_some hm
      rw [hm, List.inj_on_of_nodup_map hl (List.mem_of_find?_eq_some hm) hmem (hmid.trans hid.symm)]
  rw [hiff hnd, hiff ((hp.map _).nodup_iff.mp hnd), hp.mem_iff]

/-- Loops that find nodes with the same behavior do the same. -/
theorem replayLoop_congr_of_nodes {ops : FloatOps} {b : ReplayBuffers} {ns ns' : List CpuNode}
    (h : ∀ nid, Option.Rel (fun n n' => ∀ st, replayNode ops b n st = replayNode ops b n' st)
      (ns.find? fun n => n.id = nid) (ns'.find? fun n => n.id = nid)) :
    ∀ (order : List GraphNodeId) (st : ReplayState),
      replayLoop ops ns b order st = replayLoop ops ns' b order st
  | [], _ => rfl
  | nid :: rest, st => by
    simp only [replayLoop]
    have hfind := h nid
    generalize (ns.find? fun n => decide (n.id = nid)) = x at hfind ⊢
    generalize (ns'.find? fun n => decide (n.id = nid)) = y at hfind ⊢
    cases hfind with
    | none => rfl
    | some hn =>
      simp only [hn st, replayLoop_congr_of_nodes h rest]

theorem replayLoop_congr {ops : FloatOps} {b : ReplayBuffers} {ns ns' : List CpuNode}
    (h : SameLookups ns ns') (order : List GraphNodeId) (st : ReplayState) :
    replayLoop ops ns b order st = replayLoop ops ns' b order st := by
  refine replayLoop_congr_of_nodes (fun nid => ?_) order st
  have hfind := h nid
  generalize (ns.find? fun n => decide (n.id = nid)) = x at hfind ⊢
  generalize (ns'.find? fun n => decide (n.id = nid)) = y at hfind ⊢
  cases hfind with
  | none => exact .none
  | some hn => exact .some fun st => replayNode_congr hn st

/-- Captures with the same order and the same effects replay alike. -/
theorem cpuReplay_congr {ops : FloatOps} {g g' : CpuGraph} (hnodes : SameLookups g.nodes g'.nodes)
    (horder : g.order = g'.order) (b : ReplayBuffers) (rd : ReplayDescriptor) (mem : Memory) :
    cpuReplay ops g b rd mem = cpuReplay ops g' b rd mem := by
  simp only [cpuReplay, horder, replayLoop_congr hnodes]

/-- The order does not depend on how tables are iterated, nor on how nodes and edges are listed. -/
theorem executionOrder_eq (o o' : IterationOrder GraphNodeId) {g g' : GraphDescriptor}
    (hn : (g.nodes.map (·.nodeId)).Perm (g'.nodes.map (·.nodeId)))
    (he : (g.edges.map (·.ends)).Perm (g'.edges.map (·.ends))) :
    executionOrder o g = executionOrder o' g' :=
  Kahn.order_perm (fun _ _ h => sortById_eq_of_perm id h fun _ _ _ _ => id)
    ((o.perm _).trans (hn.trans (o'.perm _).symm)) he

theorem captureNodes_eq : ∀ {seen : List GraphNodeId} {ns : List GraphNodeDescriptor},
    (∀ n ∈ ns, n.nodeId ∉ seen) → (ns.map (·.nodeId)).Nodup →
      captureNodes seen ns = ns.map cpuNode
  | _, [], _, _ => rfl
  | seen, n :: ns, hseen, hnd => by
    obtain ⟨hn, hnd⟩ := List.nodup_cons.mp hnd
    rw [captureNodes, if_neg (hseen n (by simp)), List.map_cons, captureNodes_eq _ hnd]
    intro m hm hmem
    rcases List.mem_cons.mp hmem with heq | hmem
    · exact hn (List.mem_map.mpr ⟨m, hm, heq⟩)
    · exact hseen m (by simp [hm]) hmem

theorem cpuCapture_ok_iff {o : IterationOrder GraphNodeId} {d : GraphDescriptor} {x : CpuGraph} :
    cpuCapture o d = .ok x ↔ WellFormed d.nodes d.edges ∧
      x = ⟨d.nodes.map cpuNode, executionOrder o d⟩ := by
  rw [← validateTopology_ok_iff (o := o), cpuCapture]
  rcases hv : validateTopology o d.nodes d.edges with err | u
  · simp [bind, Except.bind]
  · have hnd := (validateTopology_ok_iff.mp hv).nodeIds
    have hnodes : captureNodes [] d.nodes = d.nodes.map cpuNode :=
      captureNodes_eq (by simp) hnd
    simp [bind, Except.bind, pure, Except.pure, hnodes, eq_comm]

/-- All nodes of a well-formed graph are executed. -/
theorem executionOrder_perm {o : IterationOrder GraphNodeId} {g : GraphDescriptor}
    (h : WellFormed g.nodes g.edges) : (executionOrder o g).Perm (g.nodes.map (·.nodeId)) := by
  have hperm := o.perm (g.nodes.map (·.nodeId))
  have hnd := hperm.nodup_iff.mpr h.nodeIds
  have hends := ends_mem_arrange (o := o) h.proper
  have hsort : ∀ l : List GraphNodeId, (sortById id l).Perm l := sortById_perm id
  obtain ⟨hnodup, hsub, -⟩ := Kahn.order_spec hsort hnd fun e he => (hends e he).2
  have hlen := (Kahn.length_order_iff (sortById id) hsort hnd hends).mpr h.acyclic
  exact ((hnodup.subperm hsub).perm_of_length_le hlen.ge).trans hperm

end GraphCache
