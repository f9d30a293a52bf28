import GraphCache.CudaBackend
import GraphCache.ExecutionOrder

/-!
# The two backends on a chain of kernels

A chain of kernels that all read input 0 and write output 0. On the CPU each kernel reads the
caller's input, so the output is that of the last kernel of the chain (`cpuReplay_chain`). On the
device each kernel reads what the one before has written, in the order of the ids, so the output is
that of all kernels composed (`cudaReplay_chain`).

The outputs agree for all arithmetic on floats and all inputs exactly when the kernels other than
the last one change nothing : they are identities, or relus before a relu (`backends_agree_iff`).
-/

namespace GraphCache

/-- The nodes are kernels of one size over input 0 and output 0, and the edges lead from each node
of `c` to the next. -/
structure KernelChain (g : GraphDescriptor) (bytes : ℕ) (c : List GraphNodeId) : Prop where
  kernels : ∀ n ∈ g.nodes, n.category = .kernel
  sizes : ∀ n ∈ g.nodes, n.memoryBytes.toNat = bytes
  inputs : ∀ n ∈ g.nodes, n.reactiveInputIndices.headD 0 = 0
  outputs : ∀ n ∈ g.nodes, n.reactiveOutputIndices.headD 0 = 0
  nodes : c.Perm (g.nodes.map (·.nodeId))
  edges : ∀ e, e ∈ g.edges.map (·.ends) ↔ e ∈ c.zip c.tail
  nonempty : c ≠ []
  positive : 0 < bytes
  lanes : 4 ∣ bytes
  small : bytes < 2 ^ 33

/-- What the kernel of a node computes of a lane. -/
def nodeLane (ops : FloatOps) (n : GraphNodeDescriptor) : UInt32 → UInt32 :=
  kernelLane ops (classifyKernel n) n.scalar

/-- The kernels one after the other. -/
def runKernels (ops : FloatOps) (ns : List GraphNodeDescriptor) (x : UInt32) : UInt32 :=
  ns.foldl (fun x n => nodeLane ops n x) x

theorem runKernels_cons (ops : FloatOps) (n : GraphNodeDescriptor) (ns : List GraphNodeDescriptor)
    (x : UInt32) : runKernels ops (n :: ns) x = runKernels ops ns (nodeLane ops n x) := rfl

theorem runKernels_append (ops : FloatOps) (ns ms : List GraphNodeDescriptor) (x : UInt32) :
    runKernels ops (ns ++ ms) x = runKernels ops ms (runKernels ops ns x) :=
  List.foldl_append

/-- Every device buffer is there, with whatever was left in it. -/
def Allocated (st : CudaGraphState) (device : List Bytes) : Prop :=
  device.length = st.buffers ∧ ∀ buffer ∈ device, buffer.length = st.bytes

/-- Both captures succeed, and from an input buffer and an output buffer that do not overlap both
replays succeed and write the same. -/
def BackendsAgree (g : GraphDescriptor) (bytes : ℕ) : Prop :=
  ∀ (ops : FloatOps) (o : IterationOrder GraphNodeId) (sched : Schedule) (b : ReplayBuffers)
    (rd : ReplayDescriptor) (mem : Memory) (src dst : Ptr),
    b.inputs[0]? = some src → b.outputs[0]? = some dst → src.Apart dst bytes →
      bytes ≤ mem.room src → bytes ≤ mem.room dst →
        ∃ x st, cpuCapture o g = .ok x ∧ cudaCapture ops {} g = .ok st ∧
          ∀ device, Allocated st device → ∃ mem₁ mem₂ device' res₁ res₂ out,
            cpuReplay ops x b rd mem = some (mem₁, .ok res₁) ∧
              cudaReplay ops {} sched st b rd mem device = some (mem₂, device', .ok res₂) ∧
                mem₁.read dst bytes = some out ∧ mem₂.read dst bytes = some out

/-! ## On the CPU -/

section

variable {ops : FloatOps} {b : ReplayBuffers} {src dst : Ptr} {N : ℕ} {data : Bytes}
  {g : GraphDescriptor} {c : List GraphNodeId}

/-- One kernel over input 0 and output 0. -/
theorem replayNode_kernel (ops : FloatOps) {n : CpuNode} {st : ReplayState}
    (hk : n.category = .kernel) (hi : n.srcIndex = 0 ∧ n.dstIndex = 0)
    (hbytes : n.bytes.toNat = 4 * N) (hsrc : b.inputs[0]? = some src)
    (hdst : b.outputs[0]? = some dst) (hapart : src.Apart dst (4 * N))
    (hread : st.mem.read src (4 * N) = some data) (hroom : 4 * N ≤ st.mem.room dst) :
    ∃ st', replayNode ops b n st = some (.ok st') ∧
      st'.mem.read src (4 * N) = some data ∧ 4 * N ≤ st'.mem.room dst ∧
        st'.mem.read dst (4 * N) = some (mapLanes (kernelLane ops n.kernel n.scalar) N data) := by
  have hcopy : NodeCategory.kernel ≠ .memoryCopy := by decide
  have hset : NodeCategory.kernel ≠ .memorySet := by decide
  obtain ⟨mem, hrun, hout⟩ := runCpuKernel_eq (kernelLane ops n.kernel n.scalar)
    (n := N) (i := 0) (m := st.mem) (by rwa [Nat.zero_add]) hread (by omega)
  have hkept : mem.read src (4 * N) = some data := by
    rw [read_runCpuKernel hrun, hread]
    simp only [Ptr.Apart] at hapart
    omega
  have hout : mem.read dst (4 * N) = some (mapLanes (kernelLane ops n.kernel n.scalar) N data) :=
    hout
  have hlanes : 4 * N / 4 = N := by omega
  refine ⟨⟨mem, st.hash.update (mapLanes (kernelLane ops n.kernel n.scalar) N data),
    st.replayedNodes + 1⟩, ?_, hkept, by rwa [room_runCpuKernel hrun], hout⟩
  unfold replayNode
  simp only [hk, if_neg hcopy, if_neg hset, if_true, hi.1, hi.2, UInt32.toNat_zero, hsrc, hdst,
    hbytes, hlanes, hrun, hout, Option.bind_eq_bind, Option.bind_some, Option.pure_def]

/-- A node is found by its id. -/
theorem find_mem_nodes (hnd : (g.nodes.map (·.nodeId)).Nodup) {n : GraphNodeDescriptor}
    (hn : n ∈ g.nodes) :
    (g.nodes.map cpuNode).find? (fun m => m.id = n.nodeId) = some (cpuNode n) := by
  rw [List.find?_map]
  have hsome : (g.nodes.find? ((fun m : CpuNode => decide (m.id = n.nodeId)) ∘ cpuNode)).isSome :=
    List.find?_isSome.mpr ⟨n, hn, by simp [cpuNode]⟩
  obtain ⟨m, hm⟩ := Option.isSome_iff_exists.mp hsome
  have hid : m.nodeId = n.nodeId := by simpa [cpuNode] using List.find?_some hm
  rw [hm, List.inj_on_of_nodup_map hnd (List.mem_of_find?_eq_some hm) hn hid, Option.map_some]

/-- Each kernel reads the input, so the last one decides. -/
theorem replayLoop_chain (ops : FloatOps) (h : KernelChain g (4 * N) c)
    (hnd : (g.nodes.map (·.nodeId)).Nodup)
    (hsrc : b.inputs[0]? = some src) (hdst : b.outputs[0]? = some dst)
    (hapart : src.Apart dst (4 * N)) {l : GraphNodeDescriptor} (hl : l ∈ g.nodes) :
    ∀ (order : List GraphNodeId) (st : ReplayState), (∀ v ∈ order, v ∈ g.nodes.map (·.nodeId)) →
      order.getLast? = some l.nodeId → st.mem.read src (4 * N) = some data →
        4 * N ≤ st.mem.room dst →
          ∃ mem st', replayLoop ops (g.nodes.map cpuNode) b order st = some (mem, .ok st') ∧
            mem.read dst (4 * N) = some (mapLanes (nodeLane ops l) N data) := by
  intro order
  induction order with
  | nil =>
    intro st _ hlast
    cases hlast
  | cons v rest ih =>
    intro st hmem hlast hread hroom
    obtain ⟨n, hn, rfl⟩ := List.mem_map.mp (hmem v (by simp))
    obtain ⟨st', hstep, hread', hroom', hout⟩ := replayNode_kernel ops (n := cpuNode n)
      (h.kernels n hn) ⟨h.inputs n hn, h.outputs n hn⟩ (h.sizes n hn) hsrc hdst hapart hread hroom
    simp only [replayLoop, find_mem_nodes hnd hn, hstep]
    cases rest with
    | nil =>
      have hid : n.nodeId = l.nodeId := by simpa using hlast
      obtain rfl := List.inj_on_of_nodup_map hnd hn hl hid
      exact ⟨st'.mem, st', rfl, hout⟩
    | cons w rest =>
      exact ih st' (fun u hu => hmem u (by simp [hu])) (by simpa using hlast) hread' hroom'

/-- The order of execution is that of the chain. -/
theorem executionOrder_chain {bytes : ℕ} (h : KernelChain g bytes c)
    (hwf : WellFormed g.nodes g.edges) (o : IterationOrder GraphNodeId) :
    executionOrder o g = c := by
  have hgreedy := greedy_order o hwf
  refine Kahn.eq_of_consecutive (hgreedy.perm.trans h.nodes.symm) hgreedy.nodup fun e he => ?_
  obtain ⟨edge, hedge, rfl⟩ := List.mem_map.mp ((h.edges e).mpr he)
  exact hgreedy.forward edge hedge

/-- The output is that of the last kernel of the chain. -/
theorem cpuReplay_chain (ops : FloatOps) (h : KernelChain g (4 * N) c)
    (hwf : WellFormed g.nodes g.edges) (o : IterationOrder GraphNodeId) (rd : ReplayDescriptor)
    {mem : Memory} (hsrc : b.inputs[0]? = some src) (hdst : b.outputs[0]? = some dst)
    (hapart : src.Apart dst (4 * N)) {l : GraphNodeDescriptor} (hl : l ∈ g.nodes)
    (hlast : c.getLast? = some l.nodeId) (hread : mem.read src (4 * N) = some data)
    (hroom : 4 * N ≤ mem.room dst) :
    ∃ mem' res, cpuReplay ops ⟨g.nodes.map cpuNode, executionOrder o g⟩ b rd mem =
        some (mem', .ok res) ∧
      mem'.read dst (4 * N) = some (mapLanes (nodeLane ops l) N data) := by
  obtain ⟨mem', st', hloop, hout⟩ := replayLoop_chain ops h hwf.nodeIds hsrc hdst hapart hl
    (executionOrder o g) ⟨mem, .reset, 0⟩
    (fun v hv => (greedy_order o hwf).perm.mem_iff.mp hv)
    (by rwa [executionOrder_chain h hwf]) hread hroom
  rw [cpuReplay, hloop]
  exact ⟨mem', _, rfl, hout⟩

end

/-! ## On the device -/

section

variable {ops : FloatOps} {b : ReplayBuffers} {src dst : Ptr} {N : ℕ} {data : Bytes}
  {g : GraphDescriptor} {c : List GraphNodeId}

/-- A thread of the device kernel computes what the CPU does. -/
theorem genericKernel_eq (ops : FloatOps) (n : GraphNodeDescriptor) :
    genericKernel ops (opCode n.kernel.name) (ops.ofDouble n.scalar.floatValue)
      (ops.ofInt n.scalar.intValue) = nodeLane ops n := by
  funext x
  unfold nodeLane classifyKernel
  by_cases hid : n.kernel.name = str "identity"
  · have hcode : opCode (str "identity") = 0 := by decide
    rw [if_pos hid, hid, hcode]
    rfl
  · rw [if_neg hid]
    unfold opCode
    split_ifs <;> rfl

/-- Each node depends on the one before, so there is one order only. -/
theorem schedule_order (sched : Schedule) (ops : FloatOps) (n : Int32)
    (kernels : List GraphNodeDescriptor) :
    sched.order (cudaGraph ops n kernels) = List.range (cudaGraph ops n kernels).length := by
  have hperm := sched.perm (cudaGraph ops n kernels)
  refine Kahn.eq_of_consecutive hperm (hperm.nodup_iff.mpr List.nodup_range) ?_
  have hdeps : ∀ (v : ℕ) (node : CudaNode), (cudaGraph ops n kernels)[v]? = some node →
      ∀ u ∈ node.deps, u < v := by
    intro v node hnode u hu
    rw [deps_cudaGraph hnode] at hu
    split_ifs at hu with hv
    · cases hu
    · rw [List.mem_singleton.mp hu]
      omega
  rintro ⟨u, v⟩ he
  obtain ⟨i, hi, hget⟩ := List.getElem_of_mem he
  have hlt : i + 1 < (cudaGraph ops n kernels).length := by
    simp only [List.length_zip, List.length_tail, List.length_range] at hi
    omega
  simp only [List.getElem_zip, List.getElem_tail, List.getElem_range, Prod.mk.injEq] at hget
  obtain ⟨rfl, rfl⟩ := hget
  refine sched.dependencies _ hdeps _ _ (List.getElem?_eq_getElem hlt) _ ?_
  rw [deps_cudaGraph (List.getElem?_eq_getElem hlt)]
  simp

/-- A loop over the indices of a list is a loop over the list. -/
theorem foldlM_range {α β : Type} {f : β → ℕ → Option β} {g : β → α → Option β} (l : List α) (s : β)
    (h : ∀ s v a, l[v]? = some a → f s v = g s a) :
    (List.range l.length).foldlM f s = l.foldlM g s := by
  induction l using List.reverseRecOn generalizing s with
  | nil => rfl
  | append_singleton l a ih =>
    have hlast : ∀ s, f s l.length = g s a := fun s => h s _ a List.getElem?_concat_length
    have hinit : ∀ s v b, l[v]? = some b → f s v = g s b := by
      intro s v b hv
      refine h s v b ?_
      rw [List.getElem?_append_left (List.getElem?_eq_some_iff.mp hv).1, hv]
    rw [List.length_append, List.length_singleton, List.range_succ, List.foldlM_append,
      List.foldlM_append, ih s hinit]
    simp only [List.foldlM_cons, List.foldlM_nil, hlast]

/-- The nodes of a chain run in their order. -/
theorem runGraph_cudaState (sched : Schedule) (ops : FloatOps) (g : GraphDescriptor)
    (s : Memory × List Bytes) : runGraph ops sched (cudaState ops g) src dst s =
      (cudaState ops g).graph.foldlM
        (fun s node => runNode ops (cudaState ops g).bytes src dst s node.op) s := by
  rw [runGraph, show sched.order (cudaState ops g).graph = _ from schedule_order sched ops _ _]
  refine foldlM_range (cudaState ops g).graph s fun s v node hnode => ?_
  rw [hnode]

theorem laneCount_ofNat (h : N < 2 ^ 31) : laneCount (Int32.ofNat N) = N := by
  rw [laneCount, Int32.toInt_ofNat_of_lt h]
  rfl

/-- Kernels from the device buffer `i` on. -/
theorem foldlM_kernels (ops : FloatOps) (src dst : Ptr) (hN : N < 2 ^ 31) (bytes : ℕ)
    (mem : Memory) : ∀ (kernels : List GraphNodeDescriptor) (i : ℕ) (device : List Bytes)
      (data : Bytes), (∀ buffer ∈ device, buffer.length = 4 * N) →
        i + kernels.length < device.length → device[i]? = some data →
          ∃ device', (kernels.mapIdx fun j => kernelNode ops (Int32.ofNat N) (j + i)).foldlM
              (fun s node => runNode ops bytes src dst s node.op) (mem, device) =
                some (mem, device') ∧
            device'[i + kernels.length]? = some (mapLanes (runKernels ops kernels) N data) := by
  intro kernels
  induction kernels with
  | nil =>
    intro i device data hsizes _ hdata
    have hlen := hsizes data (List.mem_of_getElem? hdata)
    exact ⟨device, rfl, hdata.trans (congrArg some (mapLanes_id hlen).symm)⟩
  | cons k kernels ih =>
    intro i device data hsizes hroom hdata
    rw [List.length_cons] at hroom
    have hnext : i + 1 < device.length := by omega
    have hold := hsizes _ (List.getElem_mem hnext)
    have hstep : runNode ops bytes src dst (mem, device)
        (kernelNode ops (Int32.ofNat N) (0 + i) k).op =
          some (mem, device.set (i + 1) (mapLanes (nodeLane ops k) N data)) := by
      have hdrop : (device.getD (i + 1) []).drop (4 * N) = [] := by
        rw [List.getD_eq_getElem?_getD, List.getElem?_eq_getElem hnext, Option.getD_some]
        exact List.drop_eq_nil_of_le hold.le
      have hget : device.getD i [] = data := by
        rw [List.getD_eq_getElem?_getD, hdata, Option.getD_some]
      simp only [kernelNode, runNode, Nat.zero_add, genericKernel_eq, laneCount_ofNat hN, hget,
        length_mapLanes, hdrop, List.append_nil]
    obtain ⟨device', hrun, hout⟩ := ih (i + 1) (device.set (i + 1) _)
      (mapLanes (nodeLane ops k) N data)
      (fun buffer hb => (List.mem_or_eq_of_mem_set hb).elim (hsizes buffer)
        fun heq => by rw [heq, length_mapLanes])
      (by rw [List.length_set]; omega) (List.getElem?_set_self hnext)
    refine ⟨device', ?_, ?_⟩
    · rw [List.mapIdx_cons, List.foldlM_cons, hstep, Option.bind_eq_bind, Option.bind_some]
      simpa only [Nat.add_assoc, Nat.add_comm 1] using hrun
    · have hcompose := mapLanes_mapLanes (runKernels ops kernels) (nodeLane ops k) N data []
      rw [List.append_nil] at hcompose
      rw [List.length_cons, ← Nat.add_assoc, Nat.add_right_comm, hout, hcompose]
      rfl

theorem cudaKernels_chain {bytes : ℕ} (h : KernelChain g bytes c) : cudaKernels g = g.nodes :=
  List.filter_eq_self.mpr fun n hn => by simpa using h.kernels n hn

theorem nodes_ne_nil {bytes : ℕ} (h : KernelChain g bytes c) : g.nodes ≠ [] := by
  intro hnil
  have hperm := h.nodes
  rw [hnil] at hperm
  exact h.nonempty hperm.eq_nil

theorem cudaBytes_chain {bytes : ℕ} (h : KernelChain g bytes c) : cudaBytes g = bytes := by
  have hfold : ∀ (ns : List GraphNodeDescriptor) (m : ℕ), m = bytes ∨ m = 0 ∧ ns ≠ [] →
      (∀ n ∈ ns, n.memoryBytes.toNat = bytes) →
        ns.foldl (fun m n => if n.memoryBytes.toNat > m then n.memoryBytes.toNat else m) m =
          bytes := by
    intro ns
    induction ns with
    | nil =>
      intro m hm _
      exact hm.resolve_right (by simp)
    | cons n ns ih =>
      intro m hm hsizes
      have hn := hsizes n (by simp)
      have hpos := h.positive
      rw [List.foldl_cons, hn]
      refine ih _ (.inl ?_) fun n hmem => hsizes n (by simp [hmem])
      split_ifs <;> omega
  have hpos := h.positive
  rw [cudaBytes, cudaKernels_chain h, hfold g.nodes 0 (.inr ⟨rfl, nodes_ne_nil h⟩) h.sizes,
    if_neg (by omega)]

/-- What a capture of a chain leaves. -/
theorem cudaState_chain (h : KernelChain g (4 * N) c) (ops : FloatOps) :
    (cudaState ops g).graph = cudaGraph ops (Int32.ofNat N) g.nodes ∧
      (cudaState ops g).bytes = 4 * N ∧ (cudaState ops g).buffers = g.nodes.length + 1 := by
  have helements : cudaElements g = N := by
    rw [cudaElements, cudaBytes_chain h]
    omega
  exact ⟨by rw [cudaState, helements, cudaKernels_chain h], cudaBytes_chain h,
    by rw [cudaState, cudaKernels_chain h]⟩

/-- The output is that of all kernels, in the order of the nodes. -/
theorem cudaReplay_chain (h : KernelChain g (4 * N) c) (sched : Schedule) (rd : ReplayDescriptor)
    {mem : Memory} {device : List Bytes} (hsrc : b.inputs[0]? = some src)
    (hdst : b.outputs[0]? = some dst) (hread : mem.read src (4 * N) = some data)
    (hroom : 4 * N ≤ mem.room dst) (hdevice : Allocated (cudaState ops g) device) :
    ∃ mem' device' res, cudaReplay ops {} sched (cudaState ops g) b rd mem device =
        some (mem', device', .ok res) ∧
      mem'.read dst (4 * N) = some (mapLanes (runKernels ops g.nodes) N data) := by
  obtain ⟨hgraph, hbytes, hbuffers⟩ := cudaState_chain h ops
  obtain ⟨hlen, hsizes⟩ := hdevice
  rw [hbuffers] at hlen
  rw [hbytes] at hsizes
  have hdata := Memory.length_read hread
  have hsmall := h.small
  obtain ⟨device', hrun, hout⟩ := foldlM_kernels ops src dst
    (show N < 2 ^ 31 by omega) (4 * N) mem g.nodes 0 (device.set 0 data) data
    (fun buffer hb => (List.mem_or_eq_of_mem_set hb).elim (hsizes buffer)
      fun heq => by rw [heq, hdata])
    (by rw [List.length_set]; omega) (List.getElem?_set_self (by omega))
  rw [Nat.zero_add] at hout
  obtain ⟨mem', hwrite⟩ := Memory.exists_write (m := mem) (p := dst)
    (mapLanes (runKernels ops g.nodes) N data) (by rwa [length_mapLanes])
  have hfinal : mem'.read dst (4 * N) = some (mapLanes (runKernels ops g.nodes) N data) := by
    simpa only [length_mapLanes] using Memory.read_write_self hwrite
  have hloop : runGraph ops sched (cudaState ops g) src dst (mem, device) =
      some (mem', device') := by
    have hin : runNode ops (4 * N) src dst (mem, device) (.copyToDevice 0) =
        some (mem, device.set 0 data) := by
      rw [runNode, hread, Option.map_some]
    have hback : runNode ops (4 * N) src dst (mem, device') (.copyToHost g.nodes.length) =
        some (mem', device') := by
      rw [runNode, List.getD_eq_getElem?_getD, hout, Option.getD_some, hwrite, Option.map_some]
    rw [runGraph_cudaState, hgraph, hbytes, cudaGraph, List.cons_append, List.foldlM_cons, hin,
      Option.bind_eq_bind, Option.bind_some, List.foldlM_append]
    simp only [Nat.add_zero] at hrun
    rw [hrun, Option.bind_eq_bind, Option.bind_some, List.foldlM_cons, hback]
    rfl
  obtain ⟨inputs, hinputs⟩ : ∃ ps, b.inputs = src :: ps := by
    cases hb : b.inputs with
    | nil => simp [hb] at hsrc
    | cons p ps => exact ⟨ps, by simpa [hb] using hsrc⟩
  obtain ⟨outputs, houtputs⟩ : ∃ ps, b.outputs = dst :: ps := by
    cases hb : b.outputs with
    | nil => simp [hb] at hdst
    | cons p ps => exact ⟨ps, by simpa [hb] using hdst⟩
  simp only [cudaReplay, hinputs, houtputs, hloop, hbytes, not_true, if_false, Option.bind_eq_bind,
    Option.bind_some]
  rw [hfinal, Option.bind_some]
  exact ⟨mem', device', _, rfl, hfinal⟩

end

/-! ## Kernels composed -/

section

variable {g : GraphDescriptor} {bytes : ℕ} {c : List GraphNodeId} {l : GraphNodeDescriptor}

/-- Nodes run in the order in which they were added. -/
def Schedule.added : Schedule where
  order graph := List.range graph.length
  perm _ := .rfl
  dependencies graph hdeps v node hnode u hu := by
    have huv := hdeps v node hnode u hu
    have hv := (List.getElem?_eq_some_iff.mp hnode).1
    have hidx : ∀ i < graph.length, (List.range graph.length).idxOf i = i := fun i hi => by
      have hget := (List.nodup_range (n := graph.length)).idxOf_getElem i (by simpa)
      rwa [List.getElem_range] at hget
    rw [hidx u (by omega), hidx v hv]
    exact huv

/-- Equal outputs have equal first lanes. -/
theorem lane_eq_of_mapLanes {f f' : UInt32 → UInt32} {N : ℕ} {x : UInt32} {rest : Bytes}
    (hN : 0 < N) (h : mapLanes f N (storeLane x ++ rest) = mapLanes f' N (storeLane x ++ rest)) :
    f x = f' x := by
  obtain ⟨n, rfl⟩ := Nat.exists_eq_succ_of_ne_zero hN.ne'
  have hhead : (storeLane x ++ rest).take 4 = storeLane x := List.take_left' (length_storeLane x)
  rw [mapLanes, mapLanes, hhead, loadLane_storeLane] at h
  exact storeLane_injective (List.append_inj_left h (by simp))

/-- An input whose first lane is `x`, and an output of zeros. -/
def laneMemory (x : UInt32) (bytes : ℕ) : Memory :=
  [storeLane x ++ List.replicate (bytes - 4) 0, List.replicate bytes 0]

theorem read_laneMemory (x : UInt32) (bytes : ℕ) (h : 4 ≤ bytes) :
    (laneMemory x bytes).read ⟨0, 0⟩ bytes =
      some (storeLane x ++ List.replicate (bytes - 4) 0) := by
  have hlen : (storeLane x ++ List.replicate (bytes - 4) (0 : UInt8)).length = bytes := by
    rw [List.length_append, length_storeLane, List.length_replicate]
    omega
  refine (Memory.read_eq_some (by omega)).mpr ⟨_, rfl, by rw [hlen, Nat.zero_add], ?_⟩
  rw [List.drop_zero, List.take_of_length_le hlen.le]

/-- Where the backends agree, all kernels composed compute what the last one does. -/
theorem BackendsAgree.lanes (hagree : BackendsAgree g bytes) (hwf : WellFormed g.nodes g.edges)
    (h : KernelChain g bytes c) (hl : l ∈ g.nodes) (hlast : c.getLast? = some l.nodeId)
    (ops : FloatOps) (x : UInt32) : runKernels ops g.nodes x = nodeLane ops l x := by
  obtain ⟨N, rfl⟩ := h.lanes
  have hpos := h.positive
  have hread := read_laneMemory x (4 * N) (by omega)
  have hroom : 4 * N ≤ (laneMemory x (4 * N)).room ⟨0, 0⟩ :=
    Memory.isSome_read_iff.mp (by rw [hread]; rfl)
  have hroom' : 4 * N ≤ (laneMemory x (4 * N)).room ⟨1, 0⟩ := (List.length_replicate ..).ge
  have hapart : Ptr.Apart ⟨0, 0⟩ ⟨1, 0⟩ (4 * N) := .inl (by decide)
  let b : ReplayBuffers := ⟨[⟨0, 0⟩], [⟨1, 0⟩], [4 * N], [4 * N]⟩
  have hsrc : b.inputs[0]? = some ⟨0, 0⟩ := rfl
  have hdst : b.outputs[0]? = some ⟨1, 0⟩ := rfl
  have hdevice : Allocated (cudaState ops g)
      (List.replicate (cudaState ops g).buffers (List.replicate (cudaState ops g).bytes 0)) :=
    ⟨List.length_replicate, fun buffer hb => by
      rw [List.eq_of_mem_replicate hb, List.length_replicate]⟩
  obtain ⟨y, st, hcpu, hcuda, hout⟩ := hagree ops (.insertion _) .added b {} _ _ _ hsrc hdst hapart
    hroom hroom'
  obtain ⟨-, rfl⟩ := cpuCapture_ok_iff.mp hcpu
  obtain ⟨-, -, rfl⟩ := cudaCapture_ok hcuda
  obtain ⟨mem₁, mem₂, device', res₁, res₂, out, hrun₁, hrun₂, hout₁, hout₂⟩ := hout _ hdevice
  obtain ⟨mem₁', res₁', hrun₁', hout₁'⟩ := cpuReplay_chain ops h hwf (.insertion _) {}
    hsrc hdst hapart hl hlast hread hroom'
  obtain ⟨mem₂', device₂, res₂', hrun₂', hout₂'⟩ := cudaReplay_chain h .added {} hsrc hdst hread
    hroom' hdevice
  have hmem₁ : mem₁ = mem₁' := (Prod.mk.inj (Option.some.inj (hrun₁.symm.trans hrun₁'))).1
  have hmem₂ : mem₂ = mem₂' := (Prod.mk.inj (Option.some.inj (hrun₂.symm.trans hrun₂'))).1
  subst hmem₁ hmem₂
  have heq := Option.some.inj ((hout₂'.symm.trans hout₂).trans (hout₁.symm.trans hout₁'))
  exact lane_eq_of_mapLanes (by omega) heq

theorem backendsAgree_of_lanes (hwf : WellFormed g.nodes g.edges) (h : KernelChain g bytes c)
    (hl : l ∈ g.nodes) (hlast : c.getLast? = some l.nodeId)
    (hlanes : ∀ ops x, runKernels ops g.nodes x = nodeLane ops l x) : BackendsAgree g bytes := by
  obtain ⟨N, rfl⟩ := h.lanes
  have hpos := h.positive
  intro ops o sched b rd mem src dst hsrc hdst hapart hroom hroom'
  obtain ⟨data, hread, -⟩ := Memory.exists_read hroom
  have hkernels : cudaKernels g ≠ [] := by
    rw [cudaKernels_chain h]
    exact nodes_ne_nil h
  have helements : cudaElements g ≠ 0 := by
    rw [cudaElements, cudaBytes_chain h]
    omega
  refine ⟨_, _, cpuCapture_ok_iff.mpr ⟨hwf, rfl⟩, cudaCapture_working _ hkernels helements,
    fun device hdevice => ?_⟩
  obtain ⟨mem₁, res₁, hrun₁, hout₁⟩ := cpuReplay_chain ops h hwf o rd hsrc hdst hapart hl
    hlast hread hroom'
  obtain ⟨mem₂, device', res₂, hrun₂, hout₂⟩ := cudaReplay_chain h sched rd hsrc hdst hread hroom'
    hdevice
  rw [funext (hlanes ops)] at hout₂
  exact ⟨mem₁, mem₂, device', res₁, res₂, _, hrun₁, hrun₂, hout₁, hout₂⟩

/-! ## Kernels that change nothing -/

/-- After such a kernel or before it, the last one computes what it does alone. -/
def Idle (l n : GraphNodeDescriptor) : Prop :=
  classifyKernel n = .identity ∨ classifyKernel n = .relu ∧ classifyKernel l = .relu

theorem Idle.nodeLane_before {n : GraphNodeDescriptor} (h : Idle l n) (ops : FloatOps)
    (x : UInt32) : nodeLane ops l (nodeLane ops n x) = nodeLane ops l x := by
  rcases h with hn | ⟨hn, hl⟩
  · simp only [nodeLane, hn, kernelLane]
  · simp only [nodeLane, hn, hl, kernelLane]
    split_ifs <;> rfl

theorem Idle.nodeLane_after {n : GraphNodeDescriptor} (h : Idle l n) (ops : FloatOps)
    (x : UInt32) : nodeLane ops n (nodeLane ops l x) = nodeLane ops l x := by
  rcases h with hn | ⟨hn, hl⟩
  · simp only [nodeLane, hn, kernelLane]
  · simp only [nodeLane, hn, hl, kernelLane]
    split_ifs <;> rfl

theorem runKernels_before (ops : FloatOps) : ∀ {ns : List GraphNodeDescriptor} {x : UInt32},
    (∀ n ∈ ns, Idle l n) → nodeLane ops l (runKernels ops ns x) = nodeLane ops l x
  | [], _, _ => rfl
  | n :: ns, x, h => by
    rw [runKernels_cons, runKernels_before ops fun m hm => h m (List.mem_cons_of_mem n hm),
      (h n List.mem_cons_self).nodeLane_before]

theorem runKernels_after (ops : FloatOps) (x : UInt32) : ∀ {ns : List GraphNodeDescriptor},
    (∀ n ∈ ns, Idle l n) → runKernels ops ns (nodeLane ops l x) = nodeLane ops l x
  | [], _ => rfl
  | n :: ns, h => by
    rw [runKernels_cons, (h n List.mem_cons_self).nodeLane_after,
      runKernels_after ops x fun m hm => h m (List.mem_cons_of_mem n hm)]

/-- Arithmetic that counts operations, up to three. -/
def FloatOps.counting : FloatOps :=
  let count := fun x _ => UInt32.ofNat (min 3 (x.toNat + 1))
  { FloatOps.unit with mul := count, add := count, positive := fun _ => true }

/-- Arithmetic that keeps the first operand. Nothing is positive. -/
def FloatOps.first : FloatOps :=
  { FloatOps.unit with mul := fun x _ => x, add := fun x _ => x, positive := fun _ => false }

/-- The operations of a kernel. -/
def CpuKernel.operations : CpuKernel → ℕ
  | .identity | .relu => 0
  | .scale | .addScalar | .square => 1
  | .linear => 2

def countOperations : List GraphNodeDescriptor → ℕ
  | [] => 0
  | n :: ns => (classifyKernel n).operations + countOperations ns

theorem nodeLane_counting (n : GraphNodeDescriptor) {x : UInt32} (hx : x.toNat ≤ 3) :
    (nodeLane .counting n x).toNat = min 3 (x.toNat + (classifyKernel n).operations) := by
  have hcount : ∀ m, (UInt32.ofNat (min 3 m)).toNat = min 3 m := fun m =>
    UInt32.toNat_ofNat_of_lt' (by simp only [UInt32.size]; omega)
  unfold nodeLane
  cases classifyKernel n <;>
    simp only [kernelLane, FloatOps.counting, CpuKernel.operations, hcount, if_true] <;> omega

theorem runKernels_counting : ∀ (ns : List GraphNodeDescriptor) {x : UInt32}, x.toNat ≤ 3 →
    (runKernels .counting ns x).toNat = min 3 (x.toNat + countOperations ns)
  | [], x, hx => by
    rw [runKernels, List.foldl_nil, countOperations]
    omega
  | n :: ns, x, hx => by
    have hn := nodeLane_counting n hx
    rw [runKernels_cons, runKernels_counting ns (by omega), countOperations]
    omega

theorem countOperations_append (ns ms : List GraphNodeDescriptor) :
    countOperations (ns ++ ms) = countOperations ns + countOperations ms := by
  induction ns with
  | nil => simp [countOperations]
  | cons n ns ih =>
    rw [List.cons_append, countOperations, countOperations, ih]
    omega

theorem operations_le_count {ns : List GraphNodeDescriptor} {n : GraphNodeDescriptor}
    (hn : n ∈ ns) : (classifyKernel n).operations ≤ countOperations ns := by
  obtain ⟨pre, post, rfl⟩ := List.append_of_mem hn
  rw [countOperations_append, countOperations]
  omega

theorem nodeLane_first (n : GraphNodeDescriptor) (x : UInt32) :
    nodeLane .first n x = if classifyKernel n = .relu then 0 else x := by
  unfold nodeLane
  cases classifyKernel n <;> rfl

/-- A relu among the kernels makes zero of everything. -/
theorem runKernels_first (ns : List GraphNodeDescriptor) (x : UInt32) :
    runKernels .first ns x = if ∃ n ∈ ns, classifyKernel n = .relu then 0 else x := by
  induction ns generalizing x with
  | nil => simp [runKernels]
  | cons n ns ih =>
    rw [runKernels_cons, ih, nodeLane_first]
    by_cases hn : classifyKernel n = .relu
    · simp [hn]
    · simp [hn]

/-- Where all kernels composed compute what the last one does, the others change nothing. -/
theorem idle_of_lanes (hl : l ∈ g.nodes)
    (hlanes : ∀ ops x, runKernels ops g.nodes x = nodeLane ops l x) {n : GraphNodeDescriptor}
    (hn : n ∈ g.nodes) (hne : n ≠ l) : Idle l n := by
  obtain ⟨pre, post, hsplit⟩ := List.append_of_mem hl
  have hcount := congrArg UInt32.toNat (hlanes .counting 0)
  rw [runKernels_counting _ (by decide), nodeLane_counting _ (by decide), hsplit,
    countOperations_append, countOperations] at hcount
  have hother : (classifyKernel n).operations ≤ countOperations pre + countOperations post := by
    rw [hsplit, List.mem_append, List.mem_cons] at hn
    rcases hn with hpre | rfl | hpost
    · exact (operations_le_count hpre).trans (Nat.le_add_right _ _)
    · exact absurd rfl hne
    · exact (operations_le_count hpost).trans (Nat.le_add_left _ _)
  have hfew : (classifyKernel l).operations ≤ 2 := by cases classifyKernel l <;> decide
  have hnone : (classifyKernel n).operations = 0 := by
    rw [UInt32.toNat_zero] at hcount
    omega
  have hfirst := hlanes .first 1
  rw [runKernels_first, nodeLane_first] at hfirst
  cases hkernel : classifyKernel n with
  | identity => exact .inl hkernel
  | relu =>
    rw [if_pos ⟨n, hn, hkernel⟩] at hfirst
    refine .inr ⟨hkernel, by_contra fun hrelu => ?_⟩
    rw [if_neg hrelu] at hfirst
    exact absurd hfirst (by decide)
  | scale | addScalar | square | linear => simp [hkernel, CpuKernel.operations] at hnone

/-- On a chain of kernels the backends agree for all arithmetic and all inputs exactly when every
kernel but the last one is an identity, or a relu before a relu. -/
theorem backends_agree_iff {o : IterationOrder GraphNodeId} {d : GraphDescriptor}
    (hfin : d.finalize o = .ok g) (h : KernelChain g bytes c) (hl : l ∈ g.nodes)
    (hlast : c.getLast? = some l.nodeId) :
    BackendsAgree g bytes ↔ ∀ n ∈ g.nodes, n ≠ l →
      classifyKernel n = .identity ∨ classifyKernel n = .relu ∧ classifyKernel l = .relu := by
  have hwf := wellFormed_of_finalize hfin
  constructor
  · intro hagree n hn hne
    exact idle_of_lanes hl (hagree.lanes hwf h hl hlast) hn hne
  · intro hidle
    refine backendsAgree_of_lanes hwf h hl hlast fun ops x => ?_
    obtain ⟨pre, post, hsplit⟩ := List.append_of_mem hl
    have hnd := List.Nodup.of_map _ hwf.nodeIds
    rw [hsplit, List.nodup_append, List.nodup_cons] at hnd
    have hpre : ∀ n ∈ pre, Idle l n := fun n hn =>
      hidle n (by simp [hsplit, hn]) (hnd.2.2 n hn l List.mem_cons_self)
    have hpost : ∀ n ∈ post, Idle l n := fun n hn =>
      hidle n (by simp [hsplit, hn]) fun heq => hnd.2.1.1 (heq ▸ hn)
    rw [hsplit, runKernels_append, runKernels_cons, runKernels_before ops hpre,
      runKernels_after ops x hpost]

/-- Two kernels of one lane, one after the other. -/
def namedPair (first second : Str) : GraphDescriptor where
  nodes := [
    { nodeId := ⟨0, 1⟩, kernel := { name := first }, memoryBytes := 4 },
    { nodeId := ⟨0, 2⟩, kernel := { name := second }, memoryBytes := 4 }]
  edges := [{ edgeId := ⟨0, 1⟩, fromNode := ⟨0, 1⟩, toNode := ⟨0, 2⟩ }]

theorem kernelChain_namedPair (first second : Str) :
    KernelChain (namedPair first second).finalized 4 [⟨0, 1⟩, ⟨0, 2⟩] := by
  have hnodes : (namedPair first second).finalized.nodes = (namedPair first second).nodes := rfl
  have hedges : (namedPair first second).finalized.edges = (namedPair first second).edges := rfl
  refine ⟨?_, ?_, ?_, ?_, ?_, ?_, by simp, by omega, by omega, by omega⟩
  all_goals simp only [hnodes, hedges]
  all_goals simp [namedPair, GraphEdgeDescriptor.ends]

/-- An identity before a scale. -/
theorem backends_agree_identity : ∃ g,
    (namedPair (str "identity") (str "scale")).finalize (.insertion _) = .ok g ∧
      BackendsAgree g 4 := by
  have hfin : (namedPair (str "identity") (str "scale")).finalize (.insertion _) = .ok _ :=
    finalize_of_valid (by rfl)
  refine ⟨_, hfin, (backends_agree_iff hfin (kernelChain_namedPair _ _)
    (l := (namedPair (str "identity") (str "scale")).nodes.getLast (by decide)) ?_ ?_).mpr ?_⟩
  · decide
  · decide
  · decide

/-- A scale before an addition : the device multiplies and adds, the CPU adds only. -/
theorem backends_disagree : ∃ g,
    (namedPair (str "scale") (str "addscalar")).finalize (.insertion _) = .ok g ∧
      KernelChain g 4 [⟨0, 1⟩, ⟨0, 2⟩] ∧ ¬BackendsAgree g 4 := by
  have hfin : (namedPair (str "scale") (str "addscalar")).finalize (.insertion _) = .ok _ :=
    finalize_of_valid (by rfl)
  refine ⟨_, hfin, kernelChain_namedPair _ _, fun hagree => ?_⟩
  have hlanes := hagree.lanes (wellFormed_of_finalize hfin) (kernelChain_namedPair _ _)
    (l := (namedPair (str "scale") (str "addscalar")).nodes.getLast (by decide)) (by decide)
    (by decide) .counting 0
  revert hlanes
  decide

end

end GraphCache
