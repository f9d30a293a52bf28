import GraphCache.CpuBackend
import GraphCache.Protocol
import Mathlib.Data.List.AList

/-!
# The worker

`worker_main.cpp`. A worker registers, waits for the acknowledgement, and then answers the
coordinator's instructions one at a time : it captures a descriptor on the CPU backend and keeps
descriptor and executable under the artifact id, or replays an executable it keeps.

A response echoes the authority and the ids of its instruction (`receive_echoes`). A replay that
leaves its buffers has no result, as in `Backend`; the process then ends.
-/

namespace GraphCache

/-- `WorkerState`; `registered` once the acknowledgement is read. -/
structure Worker where
  descs : AList (fun _ : GraphArtifactId => GraphDescriptor) := ∅
  execs : AList (fun _ : GraphArtifactId => CpuGraph) := ∅
  workerId : WorkerId
  bootId : WorkerBootId
  registered : Bool := false

namespace Worker

/-- A new process. The boot id comes from the process id. -/
def start (workerId : WorkerId) (pid : UInt64) : Worker where
  workerId
  bootId := (pid <<< 1) ^^^ 0x9E3779B97F4A7C15

def registerMessage (w : Worker) : ProtocolMessage where
  type := .register
  workerId := w.workerId
  workerBoot := w.bootId
  epoch := 1

/-- The response before the instruction is carried out. -/
def response (w : Worker) (m : ProtocolMessage) : ProtocolMessage where
  type := if m.type = .captureInstruct then .captureResult else .replayResult
  requestId := m.requestId
  epoch := m.epoch
  cacheGen := m.cacheGen
  workerId := w.workerId
  workerBoot := w.bootId
  captureAttempt := m.captureAttempt
  replayAttempt := m.replayAttempt
  graphGen := m.graphGen
  status := .ok

def decodeCapture (payload : Bytes) : Option (GraphDescriptor × WorkloadIdentity) :=
  (readCapture () () payload).toOption

/-- The payload of a finished capture. -/
def capturePayload (g : GraphDescriptor) : Bytes :=
  CanonicalWriter.take [putStr 1 g.artifactId.toStr, putU32 2 (UInt32.ofNat g.nodes.length)]

/-- `finalize`, `capture` and `validate` in turn. -/
def capture (o : IterationOrder GraphNodeId) (ops : FloatOps) (g : GraphDescriptor)
    (a : CaptureAttemptId) : Result (GraphDescriptor × CpuGraph) := do
  let g ← g.finalize o
  let exec ← (cpuBackend o ops).capture g a
  (cpuBackend o ops).validate g exec
  return (g, exec)

def handleCapture (o : IterationOrder GraphNodeId) (ops : FloatOps) (w : Worker)
    (m : ProtocolMessage) : Worker × ProtocolMessage :=
  match decodeCapture m.payload with
  | none => (w, { w.response m with status := .captureFailed })
  | some (g, _) =>
    match capture o ops g m.captureAttempt with
    | .error _ => (w, { w.response m with status := .captureFailed })
    | .ok (g, exec) =>
      ({ w with descs := w.descs.insert g.artifactId g, execs := w.execs.insert g.artifactId exec },
        { w.response m with payload := capturePayload g })

/-! ## Replay -/

/-- The artifact and the input of a replay : a count and that many doubles, cast to floats. -/
def decodeReplayInstruct (ops : FloatOps) (payload : Bytes) : Option (Str × List UInt32) :=
  let read : StateT Bytes (Except Unit) (Str × List UInt32) := do
    let artifactHex ← nextField 1 decodeStr () ()
    let n ← nextField 2 (decodeCount (2 ^ 20)) () ()
    let input ← nextFields 3 decodeF64 () () n
    return (artifactHex, input.map ops.ofDouble)
  match read payload with
  | .ok (r, _) => some r
  | .error _ => none

def encodeReplayOutput (ops : FloatOps) (out : List UInt32) : Bytes :=
  CanonicalWriter.take
    (putU32 1 (UInt32.ofNat out.length) :: out.map fun v => ⟨2, encF64 (ops.toDouble v)⟩)

/-- The lanes of a buffer of `n` floats. -/
def lanes (n : ℕ) (b : Bytes) : List UInt32 :=
  (List.range n).map fun i => loadLane ((b.drop (4 * i)).take 4)

/-- The input and the output buffer of a replay. -/
def replayMemory (input : List UInt32) : Memory :=
  [input.flatMap storeLane, List.replicate (4 * input.length) 0]

def replayBuffers (n : ℕ) : ReplayBuffers where
  inputs := [⟨0, 0⟩]
  outputs := [⟨1, 0⟩]
  inputBytes := [4 * n]
  outputBytes := [4 * n]

/-- The response to a replay instruction; none where the replay leaves its buffers. -/
def handleReplay (o : IterationOrder GraphNodeId) (ops : FloatOps) (w : Worker)
    (m : ProtocolMessage) : Option ProtocolMessage :=
  let failed := { w.response m with status := .replayFailed }
  match decodeReplayInstruct ops m.payload with
  | none => some failed
  | some (artifactHex, input) =>
    match w.descs.entries.find? fun d => d.1.toStr = artifactHex with
    | none => some failed
    | some ⟨target, g⟩ =>
      match w.execs.lookup target with
      | none => some failed
      | some exec =>
        match (cpuBackend o ops).replay g exec (replayBuffers input.length) ⟨m.replayAttempt⟩
          (replayMemory input) with
        | none => none
        | some (_, .error _) => some failed
        | some (mem, .ok _) =>
          some { w.response m with
            payload := encodeReplayOutput ops (lanes input.length (mem.getD 1 [])) }

/-- One message from the coordinator : the new state and what is sent back, or the end of the
process. -/
def receive (o : IterationOrder GraphNodeId) (ops : FloatOps) (w : Worker) (m : ProtocolMessage) :
    Option (Worker × Option ProtocolMessage) :=
  if w.registered then
    match m.type with
    | .shutdown => none
    | .captureInstruct =>
      let (w, resp) := w.handleCapture o ops m
      some (w, some resp)
    | .replayInstruct => (w.handleReplay o ops m).map fun resp => (w, some resp)
    | _ => some (w, none)
  else if m.type = .registerAck ∧ m.status = .ok then some ({ w with registered := true }, none)
  else none

/-! ## What a response carries -/

/-- `resp` answers the instruction `m` : the result of a capture or of a replay, under the epoch,
the cache generation and the ids of `m`. A capture that went well names an artifact. -/
structure Echoes (m resp : ProtocolMessage) : Prop where
  type : m.type = .captureInstruct ∧ resp.type = .captureResult ∨
    m.type = .replayInstruct ∧ resp.type = .replayResult
  requestId : resp.requestId = m.requestId
  epoch : resp.epoch = m.epoch
  cacheGen : resp.cacheGen = m.cacheGen
  captureAttempt : resp.captureAttempt = m.captureAttempt
  artifact : resp.type = .captureResult → resp.status = .ok →
    ∃ g : GraphDescriptor, resp.payload = capturePayload g

variable {o : IterationOrder GraphNodeId} {ops : FloatOps} {w w' : Worker}
  {m resp : ProtocolMessage}

theorem handleCapture_echoes (hm : m.type = .captureInstruct) :
    Echoes m (w.handleCapture o ops m).2 := by
  have hne : ProtocolStatus.captureFailed ≠ .ok := by decide
  have htype : (w.response m).type = .captureResult := by simp [response, hm]
  unfold handleCapture
  split
  · exact ⟨.inl ⟨hm, htype⟩, rfl, rfl, rfl, rfl, fun _ hok => absurd hok hne⟩
  · split
    · exact ⟨.inl ⟨hm, htype⟩, rfl, rfl, rfl, rfl, fun _ hok => absurd hok hne⟩
    · exact ⟨.inl ⟨hm, htype⟩, rfl, rfl, rfl, rfl, fun _ _ => ⟨_, rfl⟩⟩

theorem handleReplay_echoes (hm : m.type = .replayInstruct)
    (h : w.handleReplay o ops m = some resp) : Echoes m resp := by
  have htype : (w.response m).type = .replayResult := by simp [response, hm]
  -- every branch is the response with another status or payload
  have hresp : ∃ status payload, resp = { w.response m with status, payload } := by
    unfold handleReplay at h
    dsimp only at h
    repeat' split at h
    all_goals first
      | exact ⟨_, _, (Option.some.inj h).symm⟩
      | cases h
  obtain ⟨status, payload, rfl⟩ := hresp
  refine ⟨.inr ⟨hm, htype⟩, rfl, rfl, rfl, rfl, fun hcap => ?_⟩
  have hcap : (w.response m).type = .captureResult := hcap
  rw [htype] at hcap
  cases hcap

/-- What a worker sends answers the instruction it just read. -/
theorem receive_echoes (h : w.receive o ops m = some (w', some resp)) : Echoes m resp := by
  unfold receive at h
  split_ifs at h
  · split at h
    · cases h
    · rename_i hm
      obtain ⟨-, hresp⟩ := Prod.mk.inj (Option.some.inj h)
      rw [← Option.some.inj hresp]
      exact handleCapture_echoes hm
    · rename_i hm
      obtain ⟨r, hr, heq⟩ := Option.map_eq_some_iff.mp h
      obtain ⟨-, hresp⟩ := Prod.mk.inj heq
      rw [← Option.some.inj hresp]
      exact handleReplay_echoes hm hr
    · cases h
  · cases h

end Worker

end GraphCache
