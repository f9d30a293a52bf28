import GraphCache.Lanes
import GraphCache.Worker

/-!
# The bounds of a replay

A replay of the CPU backend takes sizes from the nodes of the graph and buffers from the caller, and
does not compare them. Where each buffer has exactly the bytes that are stated for it, the replay
stays within the buffers exactly when every node that it reaches fits (`Within`,
`cpuReplay_within_iff`); a node whose index is out of range ends it with an error.

The worker replays what one message has captured over buffers that another message sizes, so the
same condition decides there.
-/

namespace GraphCache

/-- Each buffer has the bytes that are stated for it, up to the end of its array. -/
structure ReplayBuffers.Sized (b : ReplayBuffers) (mem : Memory) : Prop where
  inputs : b.inputs.map mem.room = b.inputBytes
  outputs : b.outputs.map mem.room = b.outputBytes

/-- There are buffers at the indices that the node uses. -/
def CpuNode.Indexed (n : CpuNode) (b : ReplayBuffers) : Prop :=
  let src := n.srcIndex.toNat < b.inputBytes.length
  let dst := n.dstIndex.toNat < b.outputBytes.length
  if n.category = .memoryCopy then src ∧ dst
  else if n.category = .memorySet then dst
  else if n.category = .kernel then src ∧ dst
  else True

/-- These buffers hold what the node accesses : a kernel reads whole lanes, and its output is hashed
to the last byte. -/
def CpuNode.Fits (n : CpuNode) (b : ReplayBuffers) : Prop :=
  let src := b.inputBytes.getD n.srcIndex.toNat 0
  let dst := b.outputBytes.getD n.dstIndex.toNat 0
  if n.category = .memoryCopy then n.bytes.toNat ≤ src ∧ n.bytes.toNat ≤ dst
  else if n.category = .memorySet then n.bytes.toNat ≤ dst
  else if n.category = .kernel then 4 * (n.bytes.toNat / 4) ≤ src ∧ n.bytes.toNat ≤ dst
  else True

/-- Every node of the order fits, up to the first one without a buffer. -/
def Within (nodes : List CpuNode) (b : ReplayBuffers) : List GraphNodeId → Prop
  | [] => True
  | nid :: rest =>
    match nodes.find? fun n => n.id = nid with
    | none => True
    | some node => node.Indexed b → node.Fits b ∧ Within nodes b rest

/-! ## One node -/

/-- Where a buffer is, its size is the room behind its pointer. -/
theorem size_of_some {mem : Memory} {ps : List Ptr} {sizes : List ℕ}
    (h : ps.map mem.room = sizes) {i : ℕ} {p : Ptr} (hp : ps[i]? = some p) :
    i < sizes.length ∧ sizes.getD i 0 = mem.room p := by
  have hget : sizes[i]? = some (mem.room p) := by
    rw [← h, List.getElem?_map, hp, Option.map_some]
  exact ⟨(List.getElem?_eq_some_iff.mp hget).1, by rw [List.getD_eq_getElem?_getD, hget]; rfl⟩

theorem size_of_none {mem : Memory} {ps : List Ptr} {sizes : List ℕ}
    (h : ps.map mem.room = sizes) {i : ℕ} (hp : ps[i]? = none) : ¬i < sizes.length := by
  rw [← h, List.length_map]
  exact not_lt.mpr (List.getElem?_eq_none_iff.mp hp)

section

variable {ops : FloatOps} {b : ReplayBuffers} {n : CpuNode} {st : ReplayState} {mem : Memory}

/-- Buffers keep their sizes. -/
theorem ReplayBuffers.Sized.of_room {mem' : Memory} (h : b.Sized mem)
    (hroom : ∀ q, mem'.room q = mem.room q) : b.Sized mem' := by
  have hfun : mem'.room = mem.room := funext hroom
  exact ⟨by rw [hfun, h.inputs], by rw [hfun, h.outputs]⟩

/-- Without one of its two buffers, a node ends the replay with an error. -/
theorem error_of_not_paired (hb : b.Sized mem) {i j : ℕ}
    (h : ¬(i < b.inputBytes.length ∧ j < b.outputBytes.length)) (message : String)
    (k : Ptr → Ptr → Option (Result ReplayState)) : ∃ e,
      (match b.inputs[i]?, b.outputs[j]? with
        | some src, some dst => k src dst
        | _, _ => some (fail .invalidArgument message)) = some (.error e) := by
  cases hsrc : b.inputs[i]? with
  | none => exact ⟨_, rfl⟩
  | some src =>
    cases hdst : b.outputs[j]? with
    | none => exact ⟨_, rfl⟩
    | some dst =>
      exact absurd ⟨(size_of_some hb.inputs hsrc).1, (size_of_some hb.outputs hdst).1⟩ h

/-- A node without a buffer ends the replay with an error. -/
theorem replayNode_of_not_indexed (ops : FloatOps) (hb : b.Sized st.mem) (h : ¬n.Indexed b) :
    ∃ e, replayNode ops b n st = some (.error e) := by
  unfold CpuNode.Indexed at h
  unfold replayNode
  dsimp only at h ⊢
  split_ifs at h ⊢ with hcopy hset hkernel
  · exact error_of_not_paired hb h _ _
  · cases hdst : b.outputs[n.dstIndex.toNat]? with
    | none => exact ⟨_, rfl⟩
    | some dst => exact absurd (size_of_some hb.outputs hdst).1 h
  · exact error_of_not_paired hb h _ _
  · exact absurd trivial h

/-- A node with its buffers is replayed when it fits, and not otherwise. -/
theorem replayNode_of_indexed (ops : FloatOps) (hb : b.Sized st.mem) (h : n.Indexed b) :
    (replayNode ops b n st = none ∧ ¬n.Fits b) ∨
      ∃ st', replayNode ops b n st = some (.ok st') ∧ n.Fits b ∧ b.Sized st'.mem := by
  have hsrc : n.srcIndex.toNat < b.inputBytes.length → ∃ src,
      b.inputs[n.srcIndex.toNat]? = some src ∧
        b.inputBytes.getD n.srcIndex.toNat 0 = st.mem.room src := by
    intro hlt
    cases hsrc : b.inputs[n.srcIndex.toNat]? with
    | none => exact absurd hlt (size_of_none hb.inputs hsrc)
    | some src => exact ⟨src, rfl, (size_of_some hb.inputs hsrc).2⟩
  have hdst : n.dstIndex.toNat < b.outputBytes.length → ∃ dst,
      b.outputs[n.dstIndex.toNat]? = some dst ∧
        b.outputBytes.getD n.dstIndex.toNat 0 = st.mem.room dst := by
    intro hlt
    cases hdst : b.outputs[n.dstIndex.toNat]? with
    | none => exact absurd hlt (size_of_none hb.outputs hdst)
    | some dst => exact ⟨dst, rfl, (size_of_some hb.outputs hdst).2⟩
  unfold CpuNode.Indexed at h
  unfold replayNode CpuNode.Fits
  dsimp only at h ⊢
  split_ifs at h ⊢ with hcopy hset hkernel
  · obtain ⟨src, hin, hsrc⟩ := hsrc h.1
    obtain ⟨dst, hout, hdst⟩ := hdst h.2
    rw [hin, hout, hsrc, hdst]
    simp only [Option.bind_eq_bind]
    by_cases hread : n.bytes.toNat ≤ st.mem.room src
    · obtain ⟨data, hdata, hlen⟩ := Memory.exists_read hread
      rw [hdata, Option.bind_some]
      by_cases hwrite : n.bytes.toNat ≤ st.mem.room dst
      · obtain ⟨mem, hmem⟩ := Memory.exists_write data (hlen.symm ▸ hwrite)
        rw [hmem, Option.bind_some]
        exact .inr ⟨_, rfl, ⟨hread, hwrite⟩, hb.of_room (Memory.room_write hmem)⟩
      · rw [Memory.write_eq_none.mpr (hlen.symm ▸ hwrite)]
        exact .inl ⟨rfl, fun hfits => hwrite hfits.2⟩
    · rw [Memory.read_eq_none.mpr hread]
      exact .inl ⟨rfl, fun hfits => hread hfits.1⟩
  · obtain ⟨dst, hout, hdst⟩ := hdst h
    rw [hout, hdst]
    simp only [Option.bind_eq_bind]
    have hlen : (List.replicate n.bytes.toNat n.memsetValue).length = n.bytes.toNat :=
      List.length_replicate
    by_cases hwrite : n.bytes.toNat ≤ st.mem.room dst
    · obtain ⟨mem, hmem⟩ := Memory.exists_write _ (hlen.symm ▸ hwrite)
      rw [hmem, Option.bind_some]
      exact .inr ⟨_, rfl, hwrite, hb.of_room (Memory.room_write hmem)⟩
    · rw [Memory.write_eq_none.mpr (hlen.symm ▸ hwrite)]
      exact .inl ⟨rfl, hwrite⟩
  · obtain ⟨src, hin, hsrc⟩ := hsrc h.1
    obtain ⟨dst, hout, hdst⟩ := hdst h.2
    rw [hin, hout, hsrc, hdst]
    simp only [Option.bind_eq_bind]
    have hrun : (runCpuKernel (kernelLane ops n.kernel n.scalar) src dst (n.bytes.toNat / 4) 0
        st.mem).isSome ↔ _ := isSome_runCpuKernel_iff
    cases hmem : runCpuKernel (kernelLane ops n.kernel n.scalar) src dst (n.bytes.toNat / 4) 0
        st.mem with
    | none =>
      rw [hmem, Option.isSome_none] at hrun
      refine .inl ⟨rfl, fun hfits => ?_⟩
      have := hrun.mpr (.inr ⟨by omega, by omega⟩)
      cases this
    | some mem =>
      have hroom := room_runCpuKernel hmem
      rw [hmem] at hrun
      have hlanes := hrun.mp rfl
      rw [Option.bind_some]
      by_cases hread : n.bytes.toNat ≤ st.mem.room dst
      · obtain ⟨data, hdata, -⟩ := Memory.exists_read ((hroom dst).symm ▸ hread)
        rw [hdata, Option.bind_some]
        exact .inr ⟨_, rfl, ⟨by omega, hread⟩, hb.of_room hroom⟩
      · rw [Memory.read_eq_none.mpr ((hroom dst).symm ▸ hread)]
        exact .inl ⟨rfl, fun hfits => hread hfits.2⟩
  · exact .inr ⟨st, rfl, trivial, hb⟩

end

/-! ## A replay -/

/-- The loop has an outcome exactly when every node that it reaches fits. -/
theorem replayLoop_ne_none_iff {ops : FloatOps} {nodes : List CpuNode} {b : ReplayBuffers} :
    ∀ {order : List GraphNodeId} {st : ReplayState}, b.Sized st.mem →
      (replayLoop ops nodes b order st ≠ none ↔ Within nodes b order)
  | [], st, _ => by simp [replayLoop, Within]
  | nid :: rest, st, hb => by
    rw [replayLoop, Within]
    cases hnode : nodes.find? fun n => n.id = nid with
    | none => simp
    | some node =>
      dsimp only
      by_cases hindex : node.Indexed b
      · rcases replayNode_of_indexed ops hb hindex with ⟨hnone, hfits⟩ | ⟨st', hok, hfits, hb'⟩
        · rw [hnone]
          simp [hindex, hfits]
        · rw [hok]
          simp only [hindex, hfits, true_and, forall_const]
          exact replayLoop_ne_none_iff hb'
      · obtain ⟨e, he⟩ := replayNode_of_not_indexed ops hb hindex
        rw [he]
        simp [hindex]

theorem cpuReplay_ne_none_iff (ops : FloatOps) (rd : ReplayDescriptor) {x : CpuGraph}
    {b : ReplayBuffers} {mem : Memory} (hb : b.Sized mem) :
    cpuReplay ops x b rd mem ≠ none ↔ Within x.nodes b x.order := by
  rw [cpuReplay, Ne, Option.map_eq_none_iff]
  exact replayLoop_ne_none_iff (show b.Sized (ReplayState.mem ⟨mem, .reset, 0⟩) from hb)

/-! ## The worker -/

namespace Worker

/-- The buffers of the worker have their sizes. -/
theorem sized_replayBuffers (input : List UInt32) :
    (replayBuffers input.length).Sized (replayMemory input) := by
  have hlen : (input.flatMap storeLane).length = 4 * input.length := by
    rw [List.length_flatMap]
    simp [Nat.mul_comm]
  constructor
  · simp [replayBuffers, replayMemory, Memory.room, hlen]
  · simp [replayBuffers, replayMemory, Memory.room]

/-- The instruction makes the worker replay an executable over an input. -/
def Replays (ops : FloatOps) (w : Worker) (m : ProtocolMessage) (exec : CpuGraph)
    (input : List UInt32) : Prop :=
  ∃ artifactHex target g, decodeReplayInstruct ops m.payload = some (artifactHex, input) ∧
    (w.descs.entries.find? fun d => d.1.toStr = artifactHex) = some ⟨target, g⟩ ∧
    w.execs.lookup target = some exec

/-- The response is there unless the replay leaves its buffers. -/
theorem handleReplay_ne_none_iff {o : IterationOrder GraphNodeId} {ops : FloatOps} {w : Worker}
    {m : ProtocolMessage} : w.handleReplay o ops m ≠ none ↔ ∀ exec input,
      w.Replays ops m exec input → Within exec.nodes (replayBuffers input.length) exec.order := by
  unfold handleReplay
  cases hdecode : decodeReplayInstruct ops m.payload with
  | none =>
    refine iff_of_true nofun fun exec input ⟨_, _, _, hread, _⟩ => ?_
    rw [hdecode] at hread
    cases hread
  | some x =>
    obtain ⟨artifactHex, input⟩ := x
    dsimp only
    cases hfind : w.descs.entries.find? fun d => d.1.toStr = artifactHex with
    | none =>
      refine iff_of_true nofun fun exec input ⟨_, _, _, hread, hfound, _⟩ => ?_
      rw [hdecode] at hread
      cases hread
      rw [hfind] at hfound
      cases hfound
    | some d =>
      obtain ⟨target, g⟩ := d
      have hreplays : ∀ {exec' input'}, w.Replays ops m exec' input' →
          input' = input ∧ w.execs.lookup target = some exec' := by
        rintro exec' input' ⟨_, _, _, hread, hfound, hlook⟩
        rw [hdecode] at hread
        cases hread
        rw [hfind] at hfound
        cases hfound
        exact ⟨rfl, hlook⟩
      dsimp only
      cases hexec : w.execs.lookup target with
      | none =>
        refine iff_of_true nofun fun exec' input' h => ?_
        have hlook := (hreplays h).2
        rw [hexec] at hlook
        cases hlook
      | some exec =>
        have hall : (∀ exec' input', w.Replays ops m exec' input' →
            Within exec'.nodes (replayBuffers input'.length) exec'.order) ↔
              Within exec.nodes (replayBuffers input.length) exec.order := by
          constructor
          · exact fun h => h exec input ⟨_, _, _, hdecode, hfind, hexec⟩
          · intro h exec' input' hreplay
            obtain ⟨rfl, hlook⟩ := hreplays hreplay
            rw [hexec] at hlook
            cases hlook
            exact h
        rw [hall, ← cpuReplay_ne_none_iff ops ⟨m.replayAttempt⟩ (sized_replayBuffers input)]
        dsimp only [cpuBackend]
        cases cpuReplay ops exec (replayBuffers input.length) ⟨m.replayAttempt⟩
            (replayMemory input) with
        | none => simp
        | some r =>
          obtain ⟨mem, r | r⟩ := r
          · simp
          · simp

end Worker

/-- A replay of a captured graph stays in its buffers exactly when every node that it reaches fits;
for the worker that is so when the instruction is refused before the replay, or every node fits in
as many lanes as the instruction brings. -/
theorem cpuReplay_within_iff (o : IterationOrder GraphNodeId) (ops : FloatOps) :
    (∀ (d : GraphDescriptor) (x : CpuGraph), cpuCapture o d = .ok x → ∀ b rd mem, b.Sized mem →
      (cpuReplay ops x b rd mem ≠ none ↔ Within x.nodes b x.order)) ∧
    ∀ (w : Worker) (m : ProtocolMessage),
      w.handleReplay o ops m ≠ none ↔ ∀ exec input, w.Replays ops m exec input →
        Within exec.nodes (Worker.replayBuffers input.length) exec.order :=
  ⟨fun _ _ _ _ _ _ hb => cpuReplay_ne_none_iff ops _ hb,
    fun _ _ => Worker.handleReplay_ne_none_iff⟩

/-- One kernel over sixteen lanes. -/
def kernelGraph : GraphDescriptor where
  artifactId := ⟨0, 1⟩
  nodes := [{ nodeId := ⟨0, 1⟩, memoryBytes := 64 }]

/-- A worker that has captured the graph. -/
def kernelWorker : Worker where
  descs := AList.singleton ⟨0, 1⟩ kernelGraph
  execs := AList.singleton ⟨0, 1⟩ ⟨kernelGraph.nodes.map cpuNode, [⟨0, 1⟩]⟩
  workerId := 1
  bootId := 1

/-- An instruction to replay it over no lane. -/
def emptyReplay : ProtocolMessage where
  type := .replayInstruct
  payload := CanonicalWriter.take [putStr 1 kernelGraph.artifactId.toStr, putU32 2 0]

theorem cpuReplay_outside : ∃ x, cpuCapture (.insertion _) kernelGraph = .ok x ∧
    kernelWorker.execs.lookup kernelGraph.artifactId = some x ∧
      kernelWorker.handleReplay (.insertion _) .unit emptyReplay = none := by
  refine ⟨_, rfl, rfl, ?_⟩
  decide +kernel

end GraphCache
