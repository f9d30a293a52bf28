import GraphCache.Compatibility
import GraphCache.History
import GraphCache.Protocol

/-!
# The coordinator

`coordinator_main.cpp`. The process owns the epoch, the cache generation and the graph
generations, answers lookups from a table of graphs or has a worker capture, and routes replays.
A graph is stored twice, under the key of the lookup and under `artifact:` and the text of its id.

The loop handles one input at a time : an accepted connection, a decoded message, a body that does
not decode, a connection that ends. `Coordinator.step` is one input; it sends at most one message.
Messages of one read are handled even after a `Shutdown`, so `running` only records it.

The last section says what a step can do to the tables : it publishes a graph (`Publishes`),
invalidates (`Invalidates`), dispatches a capture (`Dispatches`), or leaves all graphs alone.
-/

namespace GraphCache

/-- A socket handle. -/
abbrev Sock := ℕ

structure Conn where
  isWorker : Bool := false
  isClient : Bool := false
  workerId : WorkerId := 0
  workerBoot : WorkerBootId := 0
  deriving DecidableEq, Repr

structure Entry where
  artifact : GraphArtifactId
  generation : GraphGeneration
  workerId : WorkerId
  cacheGenAtPublish : CacheGeneration
  deriving DecidableEq, Repr

structure PendingCapture where
  clientSock : Sock
  workerId : WorkerId
  requestId : UInt64
  key : Str
  deriving DecidableEq, Repr

/-- `State`, with the connections and the flag of the loop. -/
structure Coordinator where
  epoch : CoordinatorEpoch := 1
  cacheGen : CacheGeneration := 1
  graphGenCounter : UInt64 := 1
  captureCounter : UInt64 := 0
  workerBoot : WorkerId → Option WorkerBootId := fun _ => none
  workerConnected : List WorkerId := []
  workerSock : WorkerId → Option Sock := fun _ => none
  graphs : Str → Option Entry := fun _ => none
  invalidated : Str → Bool := fun _ => false
  pending : CaptureAttemptId → Option PendingCapture := fun _ => none
  pendingReplays : UInt64 → Option Sock := fun _ => none
  conns : Sock → Option Conn := fun _ => none
  running : Bool := true

/-- A message sent to a connection. -/
abbrev Send := Sock × ProtocolMessage

/-- `std::string("artifact:") + artifact_hex`. -/
def artifactKey (artifactHex : Str) : Str :=
  str "artifact:" ++ artifactHex

/-- The facts that a lookup is keyed by. -/
def lookupFacts (g : GraphDescriptor) (wl : WorkloadIdentity) : CompatibilityFacts :=
  g.nodes.foldl
    (fun f n =>
      if n.datatype ≠ .none then
        { f with
          datatypes := f.datatypes ++ [n.datatype]
          layouts := f.layouts ++ [n.layout]
          scalar := if n.scalar.specialized then n.scalar else f.scalar }
      else f)
    { workload := wl
      backend := g.backend
      runtime := g.runtime
      device := g.device
      topologyCanonical := canonicalTopology g.nodes g.edges
      dependencies := g.dependencies
      modelOperatorRevision := wl.modelOperatorRevision
      policyGeneration := wl.policyGeneration }

def lookupKey (g : GraphDescriptor) (wl : WorkloadIdentity) : Str :=
  (GraphCompatibilityKey.build (lookupFacts g wl)).digestHex

namespace Coordinator

/-- `send_status`. Every caller passes the current epoch. -/
def statusMessage (st : Coordinator) (type : ProtocolMessageType) (requestId : UInt64)
    (status : ProtocolStatus) (cg : CacheGeneration := 0) : ProtocolMessage where
  type
  requestId
  epoch := st.epoch
  cacheGen := if cg ≠ 0 then cg else st.cacheGen
  status

def bootFor (st : Coordinator) (wid : WorkerId) : WorkerBootId :=
  (st.workerBoot wid).getD 0

/-- `st.worker_boot[wid]`, which inserts a zero where there is nothing. -/
def insertBoot (st : Coordinator) (wid : WorkerId) : Coordinator :=
  { st with workerBoot := Function.update st.workerBoot wid (some (st.bootFor wid)) }

/-- `st.worker_sock[wid]`, likewise. -/
def insertSock (st : Coordinator) (wid : WorkerId) : Coordinator :=
  { st with workerSock := Function.update st.workerSock wid (some ((st.workerSock wid).getD 0)) }

/-! ## Authority -/

def staleEpoch (st : Coordinator) (m : ProtocolMessage) : Bool :=
  m.epoch ≠ 0 ∧ m.epoch ≠ st.epoch

def staleCacheGen (st : Coordinator) (m : ProtocolMessage) : Bool :=
  m.cacheGen ≠ 0 ∧ m.cacheGen ≠ st.cacheGen

def staleBoot (st : Coordinator) (m : ProtocolMessage) : Bool :=
  m.workerId ≠ 0 ∧ st.bootFor m.workerId ≠ 0 ∧ m.workerBoot ≠ 0 ∧
    m.workerBoot ≠ st.bootFor m.workerId

/-- The authority checks : the type and the status of the refusal. -/
def authorityError (st : Coordinator) (m : ProtocolMessage) :
    Option (ProtocolMessageType × ProtocolStatus) :=
  if st.staleEpoch m then
    some (if m.type = .replayInstruct then .replayResult else .lookupResult, .staleEpoch)
  else if st.staleCacheGen m then some (.lookupResult, .staleCacheGeneration)
  else if st.staleBoot m then some (.lookupResult, .staleWorkerBoot)
  else none

/-! ## Handlers -/

def handleRegister (st : Coordinator) (s : Sock) (c : Conn) (m : ProtocolMessage) :
    Coordinator × Option Send :=
  if st.staleEpoch m then (st, some (s, st.statusMessage .registerAck m.requestId .staleEpoch))
  else if m.workerId ∈ st.workerConnected ∧ st.bootFor m.workerId ≠ 0 ∧
      st.bootFor m.workerId ≠ m.workerBoot then
    (st, some (s, st.statusMessage .registerAck m.requestId .staleWorkerBoot))
  else
    ({ st with
        conns := Function.update st.conns s
          (some { c with isWorker := true, workerId := m.workerId, workerBoot := m.workerBoot })
        workerBoot := Function.update st.workerBoot m.workerId (some m.workerBoot)
        workerConnected := st.workerConnected.insert m.workerId
        workerSock := Function.update st.workerSock m.workerId (some s) },
      some (s, st.statusMessage .registerAck m.requestId .ok st.cacheGen))

def handleHello (st : Coordinator) (s : Sock) (c : Conn) (m : ProtocolMessage) :
    Coordinator × Option Send :=
  ({ st with conns := Function.update st.conns s (some { c with isClient := true }) },
    some (s, if st.staleEpoch m then st.statusMessage .welcome m.requestId .staleEpoch
      else st.statusMessage .welcome m.requestId .ok st.cacheGen))

/-- The answer to a lookup, or to the request of a capture : an artifact and its generation. -/
def hitMessage (st : Coordinator) (requestId : UInt64) (generation : GraphGeneration)
    (artifactHex : Str) : ProtocolMessage where
  type := .lookupResult
  requestId
  epoch := st.epoch
  cacheGen := st.cacheGen
  graphGen := generation
  status := .ok
  payload := CanonicalWriter.take [putStr 1 artifactHex]

/-- The instruction for attempt `a` to worker `wid`. -/
def captureInstruct (st : Coordinator) (wid : WorkerId) (a : CaptureAttemptId)
    (g : GraphDescriptor) (wl : WorkloadIdentity) : ProtocolMessage where
  type := .captureInstruct
  epoch := st.epoch
  cacheGen := st.cacheGen
  workerId := wid
  workerBoot := st.bootFor wid
  captureAttempt := a
  payload := encodeCapture g wl

/-- Capture attempt `a` dispatched to worker `wid`, the least one connected. -/
def dispatch (st : Coordinator) (s : Sock) (m : ProtocolMessage) (g : GraphDescriptor)
    (wl : WorkloadIdentity) (wid : WorkerId) : Coordinator × Option Send :=
  let a := st.captureCounter + 1
  ({ (st.insertBoot wid).insertSock wid with
      captureCounter := a
      pending := Function.update st.pending a
        (some ⟨s, wid, m.requestId, lookupKey g wl⟩) },
    some ((st.workerSock wid).getD 0, st.captureInstruct wid a g wl))

def handleLookup (st : Coordinator) (s : Sock) (m : ProtocolMessage) : Coordinator × Option Send :=
  match readCapture .invalidRequest .malformed m.payload with
  | .error status => (st, some (s, st.statusMessage .lookupResult m.requestId status))
  | .ok (g, wl) =>
    match st.graphs (lookupKey g wl), st.invalidated (lookupKey g wl) with
    | some e, false => (st, some (s, st.hitMessage m.requestId e.generation e.artifact.toStr))
    | _, _ =>
      match st.workerConnected.min? with
      | none => (st, some (s, st.statusMessage .lookupResult m.requestId .workerUnavailable))
      | some wid => st.dispatch s m g wl wid

/-- The graph of a finished capture, stored under its artifact and under the key of the lookup. -/
def publish (st : Coordinator) (pc : PendingCapture) (artifactHex : Str) : Coordinator :=
  let e : Entry := ⟨scanArtifact artifactHex, st.graphGenCounter, pc.workerId, st.cacheGen⟩
  let graphs := Function.update st.graphs (artifactKey artifactHex) (some e)
  let invalidated := Function.update st.invalidated (artifactKey artifactHex) false
  if pc.key ≠ [] then
    { st with
      graphs := Function.update graphs pc.key (some e)
      invalidated := Function.update invalidated pc.key false }
  else { st with graphs, invalidated }

def handleCaptureResult (st : Coordinator) (s : Sock) (m : ProtocolMessage) :
    Coordinator × Option Send :=
  match st.pending m.captureAttempt with
  | none => (st, some (s, st.statusMessage .lookupResult m.requestId .duplicateCaptureCompletion))
  | some pc =>
    let st := { st with pending := Function.update st.pending m.captureAttempt none }
    if m.status ≠ .ok then
      (st, some (pc.clientSock, st.statusMessage .lookupResult pc.requestId .captureFailed st.cacheGen))
    else
      let st := { st with graphGenCounter := st.graphGenCounter + 1 }
      match decodeArtifact m.payload with
      | none =>
        (st, some (pc.clientSock,
          st.statusMessage .lookupResult pc.requestId .captureFailed st.cacheGen))
      | some artifactHex =>
        (st.publish pc artifactHex,
          some (pc.clientSock, st.hitMessage pc.requestId st.graphGenCounter artifactHex))

/-- The instruction that a replay is forwarded as. -/
def replayInstruct (st : Coordinator) (m : ProtocolMessage) (e : Entry) : ProtocolMessage where
  type := .replayInstruct
  requestId := m.requestId
  epoch := st.epoch
  cacheGen := st.cacheGen
  workerId := e.workerId
  workerBoot := st.bootFor e.workerId
  graphGen := e.generation
  replayAttempt := m.replayAttempt
  payload := m.payload

def handleReplayInstruct (st : Coordinator) (s : Sock) (m : ProtocolMessage) :
    Coordinator × Option Send :=
  match decodeArtifact m.payload with
  | none => (st, some (s, st.statusMessage .replayResult m.requestId .invalidRequest))
  | some artifactHex =>
    match st.graphs (artifactKey artifactHex), st.invalidated (artifactKey artifactHex) with
    | some e, false =>
      if m.graphGen ≠ 0 ∧ m.graphGen ≠ e.generation then
        (st, some (s, st.statusMessage .replayResult m.requestId .staleGraphGeneration))
      else
        match st.workerSock e.workerId with
        | none => (st, some (s, st.statusMessage .replayResult m.requestId .workerUnavailable))
        | some target =>
          ({ st.insertBoot e.workerId with
              pendingReplays := Function.update st.pendingReplays m.requestId (some s) },
            some (target, st.replayInstruct m e))
    | _, _ => (st, some (s, st.statusMessage .replayResult m.requestId .staleGraphGeneration))

def handleReplayResult (st : Coordinator) (s : Sock) (m : ProtocolMessage) :
    Coordinator × Option Send :=
  let resp : ProtocolMessage :=
    { type := .replayResult, requestId := m.requestId, epoch := st.epoch, cacheGen := st.cacheGen
      status := m.status, payload := m.payload }
  ({ st with pendingReplays := Function.update st.pendingReplays m.requestId none },
    some ((st.pendingReplays m.requestId).getD s, resp))

/-- The cache generation advances, the epoch too on request, and every graph is invalidated. -/
def invalidateAll (st : Coordinator) (rollEpoch : Bool) : Coordinator :=
  { st with
    cacheGen := st.cacheGen + 1
    epoch := if rollEpoch then st.epoch + 1 else st.epoch
    invalidated := fun k => st.invalidated k || (st.graphs k).isSome }

def handleInvalidate (st : Coordinator) (s : Sock) (m : ProtocolMessage) :
    Coordinator × Option Send :=
  let st := st.invalidateAll (m.flags &&& 1 ≠ 0)
  (st, some (s, { type := .invalidateAck, requestId := m.requestId, epoch := st.epoch
                  cacheGen := st.cacheGen, status := .ok }))

/-- A message that passed the authority checks. Types the coordinator does not serve are
ignored. -/
def serve (st : Coordinator) (s : Sock) (m : ProtocolMessage) : Coordinator × Option Send :=
  match m.type with
  | .lookup => st.handleLookup s m
  | .captureResult => st.handleCaptureResult s m
  | .replayInstruct => st.handleReplayInstruct s m
  | .replayResult => st.handleReplayResult s m
  | .invalidate => st.handleInvalidate s m
  | .shutdown => ({ st with running := false }, none)
  | _ => (st, none)

/-- A decoded message on connection `c` with handle `s`. -/
def handle (st : Coordinator) (s : Sock) (c : Conn) (m : ProtocolMessage) :
    Coordinator × Option Send :=
  if m.type = .register then st.handleRegister s c m
  else if m.type = .hello then st.handleHello s c m
  else
    match st.authorityError m with
    | some (type, status) => (st, some (s, st.statusMessage type m.requestId status))
    | none => st.serve s m

/-- An input of the loop. -/
inductive Event
  | accept (s : Sock)
  | message (s : Sock) (m : ProtocolMessage)
  | malformed (s : Sock)
  | close (s : Sock)
  deriving DecidableEq, Repr

/-- One input. A handle that is open is not accepted again, and only an open one is read. -/
def step (st : Coordinator) : Event → Coordinator × Option Send
  | .accept s =>
    match st.conns s with
    | some _ => (st, none)
    | none => ({ st with conns := Function.update st.conns s (some {}) }, none)
  | .message s m =>
    match st.conns s with
    | none => (st, none)
    | some c => st.handle s c m
  | .malformed s =>
    match st.conns s with
    | none => (st, none)
    | some _ => (st, some (s, st.statusMessage .lookupResult 0 .malformed))
  | .close s =>
    match st.conns s with
    | none => (st, none)
    | some c =>
      ({ st with
          workerConnected := if c.isWorker then st.workerConnected.filter (· ≠ c.workerId)
            else st.workerConnected
          conns := Function.update st.conns s none }, none)

/-- The state after an input. -/
def next (st : Coordinator) (ev : Event) : Coordinator := (st.step ev).1

/-- The message sent on an input. -/
def sent (st : Coordinator) (ev : Event) : Option Send := (st.step ev).2

/-! ## What a step does to the graphs -/

variable {st : Coordinator} {s : Sock} {m : ProtocolMessage} {ev : Event}

/-- The authority checks pass : what a message names of the epoch, the cache generation and a
worker's boot is current. Zero names nothing. -/
def Current (st : Coordinator) (m : ProtocolMessage) : Prop :=
  (m.epoch = 0 ∨ m.epoch = st.epoch) ∧ (m.cacheGen = 0 ∨ m.cacheGen = st.cacheGen) ∧
    (m.workerId = 0 ∨ st.bootFor m.workerId = 0 ∨ m.workerBoot = 0 ∨
      m.workerBoot = st.bootFor m.workerId)

instance : Decidable (st.Current m) :=
  inferInstanceAs (Decidable (_ ∧ _))

theorem authorityError_eq_none : st.authorityError m = none ↔ st.Current m := by
  simp only [authorityError, Current, staleEpoch, staleCacheGen, staleBoot, decide_eq_true_eq]
  split_ifs <;> simp <;> tauto

/-- The entry stored under `k`, where it is not invalidated. -/
def Live (st : Coordinator) (k : Str) (e : Entry) : Prop :=
  st.graphs k = some e ∧ st.invalidated k = false

/-- Message `m` completes the capture `pc` with an artifact. -/
structure Publishes (st : Coordinator) (s : Sock) (m : ProtocolMessage) (pc : PendingCapture)
    (artifactHex : Str) : Prop where
  isOpen : (st.conns s).isSome
  type : m.type = .captureResult
  current : st.Current m
  pending : st.pending m.captureAttempt = some pc
  status : m.status = .ok
  artifact : decodeArtifact m.payload = some artifactHex

/-- An `Invalidate` is processed. -/
def Invalidates (st : Coordinator) (ev : Event) : Prop :=
  ∃ s m, ev = .message s m ∧ (st.conns s).isSome ∧ m.type = .invalidate ∧ st.Current m

instance : Decidable (st.Invalidates ev) :=
  match ev with
  | .message s m => decidable_of_iff ((st.conns s).isSome ∧ m.type = .invalidate ∧ st.Current m)
      ⟨fun h => ⟨s, m, rfl, h⟩, fun ⟨_, _, heq, h⟩ => by cases heq; exact h⟩
  | .accept _ => isFalse nofun
  | .malformed _ => isFalse nofun
  | .close _ => isFalse nofun

/-- A lookup `m` that misses is dispatched to worker `wid`. -/
structure Dispatches (st : Coordinator) (s : Sock) (m : ProtocolMessage) (g : GraphDescriptor)
    (wl : WorkloadIdentity) (wid : WorkerId) : Prop where
  isOpen : (st.conns s).isSome
  type : m.type = .lookup
  current : st.Current m
  payload : readCapture ProtocolStatus.invalidRequest .malformed m.payload = .ok (g, wl)
  miss : ∀ e, ¬ st.Live (lookupKey g wl) e
  worker : st.workerConnected.min? = some wid

/-- A message that is neither a registration nor a greeting and that passes the checks is
served. -/
theorem step_served (hopen : (st.conns s).isSome) (hr : m.type ≠ .register) (hh : m.type ≠ .hello)
    (hc : st.Current m) : st.step (.message s m) = st.serve s m := by
  obtain ⟨c, hs⟩ := Option.isSome_iff_exists.mp hopen
  simp [step, hs, handle, hr, hh, authorityError_eq_none.mpr hc]

/-- One that does not pass them is refused, and nothing changes. -/
theorem step_refused (hopen : (st.conns s).isSome) (hr : m.type ≠ .register)
    (hh : m.type ≠ .hello) (hc : ¬ st.Current m) : ∃ type status,
    st.authorityError m = some (type, status) ∧
      st.step (.message s m) = (st, some (s, st.statusMessage type m.requestId status)) := by
  obtain ⟨c, hs⟩ := Option.isSome_iff_exists.mp hopen
  obtain ⟨⟨type, status⟩, he⟩ := Option.ne_none_iff_exists'.mp (mt authorityError_eq_none.mp hc)
  exact ⟨type, status, he, by simp [step, hs, handle, hr, hh, he]⟩

/-- The states that differ in the connections and the workers only. -/
def Aside (st st' : Coordinator) : Prop :=
  ∃ conns workerConnected workerBoot workerSock,
    st' = { st with conns, workerConnected, workerBoot, workerSock }

theorem Aside.rfl : st.Aside st :=
  ⟨_, _, _, _, Eq.refl _⟩

variable (st ev) in
/-- An input is a message that is served, or it touches connections and workers only. -/
theorem next_cases : (∃ s m, ev = .message s m ∧ (st.conns s).isSome ∧ st.Current m ∧
    st.step ev = st.serve s m) ∨ st.Aside (st.next ev) := by
  cases ev with
  | accept s =>
    simp only [next, step]
    split
    · exact .inr .rfl
    · exact .inr ⟨_, _, _, _, Eq.refl _⟩
  | malformed s =>
    simp only [next, step]
    split <;> exact .inr .rfl
  | close s =>
    simp only [next, step]
    split
    · exact .inr .rfl
    · exact .inr ⟨_, _, _, _, Eq.refl _⟩
  | message s m =>
    rcases hconn : st.conns s with _ | c
    · simp only [next, step, hconn]
      exact .inr .rfl
    have hopen : (st.conns s).isSome := by simp [hconn]
    by_cases hr : m.type = .register
    · simp only [next, step, hconn, handle, hr, if_true, handleRegister]
      split_ifs
      · exact .inr .rfl
      · exact .inr .rfl
      · exact .inr ⟨_, _, _, _, Eq.refl _⟩
    by_cases hh : m.type = .hello
    · simp only [next, step, hconn, handle, hh, if_true, reduceCtorEq, if_false, handleHello]
      exact .inr ⟨_, _, _, _, Eq.refl _⟩
    by_cases hc : st.Current m
    · exact .inl ⟨s, m, Eq.refl _, hopen, hc, step_served hopen hr hh hc⟩
    · obtain ⟨_, _, -, hstep⟩ := step_refused hopen hr hh hc
      rw [next, hstep]
      exact .inr .rfl

/-- The state in which the graph of a finished capture is published. -/
def completed (st : Coordinator) (a : CaptureAttemptId) : Coordinator :=
  { st with
    pending := Function.update st.pending a none
    graphGenCounter := st.graphGenCounter + 1 }

theorem Publishes.step_eq {pc : PendingCapture} {artifactHex : Str}
    (h : st.Publishes s m pc artifactHex) :
    st.step (.message s m) = ((st.completed m.captureAttempt).publish pc artifactHex,
      some (pc.clientSock, st.hitMessage pc.requestId (st.graphGenCounter + 1) artifactHex)) := by
  rw [step_served h.isOpen (by simp [h.type]) (by simp [h.type]) h.current]
  simp [serve, h.type, handleCaptureResult, h.pending, h.status, h.artifact, completed, hitMessage]

theorem Invalidates.next_eq (h : st.Invalidates ev) :
    ∃ rollEpoch, st.next ev = st.invalidateAll rollEpoch := by
  obtain ⟨s, m, rfl, hopen, htype, hc⟩ := h
  rw [next, step_served hopen (by simp [htype]) (by simp [htype]) hc]
  exact ⟨m.flags &&& 1 ≠ 0, by simp only [serve, htype, handleInvalidate]⟩

theorem Dispatches.step_eq {g : GraphDescriptor} {wl : WorkloadIdentity} {wid : WorkerId}
    (h : st.Dispatches s m g wl wid) : st.step (.message s m) = st.dispatch s m g wl wid := by
  rw [step_served h.isOpen (by simp [h.type]) (by simp [h.type]) h.current]
  simp only [serve, h.type, handleLookup, h.payload, h.worker]
  split
  · rename_i e hg hi
    exact absurd ⟨hg, hi⟩ (h.miss e)
  · rfl

/-- A registration on connection `c` that is acknowledged. -/
structure Joins (st : Coordinator) (s : Sock) (c : Conn) (m : ProtocolMessage) : Prop where
  conn : st.conns s = some c
  type : m.type = .register
  epoch : st.staleEpoch m = false
  boot : ¬ (m.workerId ∈ st.workerConnected ∧ st.bootFor m.workerId ≠ 0 ∧
    st.bootFor m.workerId ≠ m.workerBoot)

theorem Joins.next_eq {c : Conn} (h : st.Joins s c m) : st.next (.message s m) =
    { st with
      conns := Function.update st.conns s
        (some { c with isWorker := true, workerId := m.workerId, workerBoot := m.workerBoot })
      workerBoot := Function.update st.workerBoot m.workerId (some m.workerBoot)
      workerConnected := st.workerConnected.insert m.workerId
      workerSock := Function.update st.workerSock m.workerId (some s) } := by
  simp [next, step, h.conn, handle, h.type, handleRegister, h.epoch, if_neg h.boot]

/-- Any other registration changes nothing. -/
theorem next_register (hr : m.type = .register) (hj : ∀ c, ¬ st.Joins s c m) :
    st.next (.message s m) = st := by
  rcases hconn : st.conns s with _ | c
  · simp [next, step, hconn]
  simp only [next, step, hconn, handle, hr, if_true, handleRegister]
  split_ifs with hepoch hboot
  · rfl
  · rfl
  · exact absurd ⟨hconn, hr, by simpa using hepoch, hboot⟩ (hj c)

/-- What lookups and replays are answered from. -/
structure Shelf where
  epoch : CoordinatorEpoch
  cacheGen : CacheGeneration
  graphs : Str → Option Entry
  invalidated : Str → Bool

def shelf (st : Coordinator) : Shelf := ⟨st.epoch, st.cacheGen, st.graphs, st.invalidated⟩

theorem handleLookup_shelf : (st.handleLookup s m).1.shelf = st.shelf := by
  unfold handleLookup
  split
  · rfl
  · split
    · rfl
    · split <;> rfl

theorem handleReplayInstruct_shelf : (st.handleReplayInstruct s m).1.shelf = st.shelf := by
  unfold handleReplayInstruct
  split
  · rfl
  · split
    · split_ifs
      · rfl
      · split <;> rfl
    · rfl

theorem handleCaptureResult_shelf
    (h : ∀ pc artifactHex, st.pending m.captureAttempt = some pc → m.status = .ok →
      decodeArtifact m.payload ≠ some artifactHex) :
    (st.handleCaptureResult s m).1.shelf = st.shelf := by
  unfold handleCaptureResult
  split
  · rfl
  · rename_i pc hpc
    dsimp only
    split_ifs with hst
    · rfl
    · split
      · rfl
      · rename_i artifactHex hart
        exact absurd hart (h pc artifactHex hpc (not_not.mp hst))

/-- The keys that a capture is published under. -/
def Names (pc : PendingCapture) (artifactHex k : Str) : Prop :=
  k = artifactKey artifactHex ∨ k = pc.key ∧ pc.key ≠ []

instance (pc : PendingCapture) (artifactHex k : Str) : Decidable (Names pc artifactHex k) :=
  inferInstanceAs (Decidable (_ ∨ _))

theorem publish_graphs (pc : PendingCapture) (artifactHex k : Str) :
    (st.publish pc artifactHex).graphs k = if Names pc artifactHex k then
      some ⟨scanArtifact artifactHex, st.graphGenCounter, pc.workerId, st.cacheGen⟩
    else st.graphs k := by
  unfold publish Names
  split_ifs <;> grind [Function.update_apply]

theorem publish_invalidated (pc : PendingCapture) (artifactHex k : Str) :
    (st.publish pc artifactHex).invalidated k =
      if Names pc artifactHex k then false else st.invalidated k := by
  unfold publish Names
  split_ifs <;> grind [Function.update_apply]

/-- Only a publication and an `Invalidate` change them. -/
theorem shelf_next (hp : ∀ s m pc artifactHex, ev = .message s m →
    ¬ st.Publishes s m pc artifactHex) (hi : ¬ st.Invalidates ev) :
    (st.next ev).shelf = st.shelf := by
  rcases next_cases st ev with ⟨s, m, rfl, hopen, hc, hstep⟩ | haside
  · rw [next, hstep, serve]
    split
    · exact handleLookup_shelf
    · rename_i htype
      exact handleCaptureResult_shelf fun pc artifactHex hpc hst hart =>
        hp s m pc artifactHex rfl ⟨hopen, htype, hc, hpc, hst, hart⟩
    · exact handleReplayInstruct_shelf
    · rfl
    · rename_i htype
      exact absurd ⟨s, m, rfl, hopen, htype, hc⟩ hi
    all_goals rfl
  · obtain ⟨_, _, _, _, hnext⟩ := haside
    rw [hnext]
    rfl

/-! ## What a step does to the connections -/

/-- Serving a message leaves the connections and the connected workers as they are. Of the
handles of workers it can only read the one it dispatches to. -/
theorem links_serve : (st.serve s m).1.conns = st.conns ∧
    (st.serve s m).1.workerConnected = st.workerConnected ∧
    ((st.serve s m).1.workerSock = st.workerSock ∨
      ∃ wid ∈ st.workerConnected, (st.serve s m).1.workerSock = (st.insertSock wid).workerSock) := by
  unfold serve
  split
  · unfold handleLookup
    split
    · exact ⟨rfl, rfl, .inl rfl⟩
    · split
      · exact ⟨rfl, rfl, .inl rfl⟩
      · split
        · exact ⟨rfl, rfl, .inl rfl⟩
        · rename_i wid hwid
          exact ⟨rfl, rfl, .inr ⟨wid, List.min?_mem hwid, rfl⟩⟩
  · unfold handleCaptureResult
    split
    · exact ⟨rfl, rfl, .inl rfl⟩
    · dsimp only
      split_ifs
      · exact ⟨rfl, rfl, .inl rfl⟩
      · split
        · exact ⟨rfl, rfl, .inl rfl⟩
        · unfold publish
          split_ifs <;> exact ⟨rfl, rfl, .inl rfl⟩
  · unfold handleReplayInstruct
    split
    · exact ⟨rfl, rfl, .inl rfl⟩
    · split
      · split_ifs
        · exact ⟨rfl, rfl, .inl rfl⟩
        · split <;> exact ⟨rfl, rfl, .inl rfl⟩
      · exact ⟨rfl, rfl, .inl rfl⟩
  all_goals exact ⟨rfl, rfl, .inl rfl⟩

variable (st s) in
/-- A message other than a registration leaves it as it is which connections are open, and which
of them are workers. -/
theorem isWorker_next (hr : m.type ≠ .register) (t : Sock) :
    ((st.next (.message s m)).conns t).map Conn.isWorker = (st.conns t).map Conn.isWorker := by
  rcases hconn : st.conns s with _ | c
  · simp [next, step, hconn]
  have hopen : (st.conns s).isSome := by simp [hconn]
  by_cases hh : m.type = .hello
  · simp only [next, step, hconn, handle, hh, if_true, reduceCtorEq, if_false, handleHello]
    by_cases hts : t = s
    · simp [hts, hconn]
    · rw [Function.update_of_ne hts]
  by_cases hc : st.Current m
  · rw [next, step_served hopen hr hh hc, links_serve.1]
  · obtain ⟨_, _, -, hstep⟩ := step_refused hopen hr hh hc
    rw [next, hstep]

/-- An open connection that does not register or close stays as it is in this. -/
theorem isWorker_next_of_ne {t : Sock} (hopen : (st.conns t).isSome) (hclose : ev ≠ .close t)
    (hreg : ∀ m, ev = .message t m → m.type ≠ .register) :
    ((st.next ev).conns t).map Conn.isWorker = (st.conns t).map Conn.isWorker := by
  cases ev with
  | accept s =>
    simp only [next, step]
    split
    · rfl
    · rename_i hconn
      have hts : t ≠ s := by
        rintro rfl
        simp [hconn] at hopen
      show (Function.update st.conns s _ t).map Conn.isWorker = _
      rw [Function.update_of_ne hts]
  | malformed s =>
    simp only [next, step]
    split <;> rfl
  | close s =>
    have hts : t ≠ s := by
      rintro rfl
      exact hclose rfl
    simp only [next, step]
    split
    · rfl
    · show (Function.update st.conns s none t).map Conn.isWorker = _
      rw [Function.update_of_ne hts]
  | message s m =>
    by_cases hr : m.type = .register
    · have hts : t ≠ s := by
        rintro rfl
        exact hreg m rfl hr
      simp only [next, step]
      split
      · rfl
      · simp only [handle, hr, if_true, handleRegister]
        split_ifs
        · rfl
        · rfl
        · show (Function.update st.conns s _ t).map Conn.isWorker = _
          rw [Function.update_of_ne hts]
    · exact isWorker_next st s hr t

/-- A connection stays open until it is closed. -/
theorem isSome_conns_next {t : Sock} (h : (st.conns t).isSome) (hev : ev ≠ .close t) :
    ((st.next ev).conns t).isSome := by
  have hupdate : ∀ s c, (Function.update st.conns s (some c) t).isSome := by
    intro s c
    by_cases hts : t = s
    · simp [hts]
    · rwa [Function.update_of_ne hts]
  cases ev with
  | accept s =>
    simp only [next, step]
    split
    · exact h
    · exact hupdate s _
  | malformed s =>
    simp only [next, step]
    split <;> exact h
  | close s =>
    have hts : t ≠ s := by
      rintro rfl
      exact hev rfl
    simp only [next, step]
    split
    · exact h
    · show (Function.update st.conns s none t).isSome
      rwa [Function.update_of_ne hts]
  | message s m =>
    by_cases hr : m.type = .register
    · simp only [next, step]
      split
      · exact h
      · simp only [handle, hr, if_true, handleRegister]
        split_ifs
        · exact h
        · exact h
        · exact hupdate s _
    · have := congrArg Option.isSome (isWorker_next st s hr t)
      rwa [Option.isSome_map, Option.isSome_map, eq_comm, h, eq_comm] at this

/-- A connection that is open was open before, or has just been accepted. -/
theorem isSome_conns_of_next {t : Sock} (h : ((st.next ev).conns t).isSome) :
    (ev ≠ .close t ∧ (st.conns t).isSome) ∨ ev = .accept t := by
  cases ev with
  | accept s =>
    simp only [next, step] at h
    split at h
    · exact .inl ⟨nofun, h⟩
    · by_cases hts : t = s
      · exact .inr (by rw [hts])
      · refine .inl ⟨nofun, ?_⟩
        have h : (Function.update st.conns s _ t).isSome := h
        rwa [Function.update_of_ne hts] at h
  | malformed s =>
    simp only [next, step] at h
    split at h <;> exact .inl ⟨nofun, h⟩
  | close s =>
    by_cases hts : t = s
    · subst hts
      simp only [next, step] at h
      split at h
      · simp_all
      · simp at h
    · refine .inl ⟨fun heq => hts (Event.close.inj heq).symm, ?_⟩
      simp only [next, step] at h
      split at h
      · exact h
      · have h : (Function.update st.conns s none t).isSome := h
        rwa [Function.update_of_ne hts] at h
  | message s m =>
    refine .inl ⟨nofun, ?_⟩
    by_cases hr : m.type = .register
    · simp only [next, step] at h
      split at h
      · exact h
      · rename_i c hconn
        simp only [handle, hr, if_true, handleRegister] at h
        by_cases hts : t = s
        · simp [hts, hconn]
        · split_ifs at h
          · exact h
          · exact h
          · have h : (Function.update st.conns s _ t).isSome := h
            rwa [Function.update_of_ne hts] at h
    · have := congrArg Option.isSome (isWorker_next st s hr t)
      rwa [Option.isSome_map, Option.isSome_map, h, eq_comm] at this

/-! ## What a step sends -/

/-- A replay `m` of the live graph `e`, forwarded to the connection `target` of its worker. -/
structure Forwards (st : Coordinator) (s : Sock) (m : ProtocolMessage) (e : Entry) (target : Sock) :
    Prop where
  isOpen : (st.conns s).isSome
  type : m.type = .replayInstruct
  current : st.Current m
  live : ∃ artifactHex, decodeArtifact m.payload = some artifactHex ∧
    st.Live (artifactKey artifactHex) e
  generation : m.graphGen = 0 ∨ m.graphGen = e.generation
  worker : st.workerSock e.workerId = some target

/-- Every message that the coordinator sends on message `m` from `s`. -/
inductive Sends (st : Coordinator) (s : Sock) (m : ProtocolMessage) : Send → Prop
  | greeting {type : ProtocolMessageType} {status : ProtocolStatus} {cg : CacheGeneration}
      (htype : type = .registerAck ∨ type = .welcome) :
      Sends st s m (s, st.statusMessage type m.requestId status cg)
  | refusal {type : ProtocolMessageType} {status : ProtocolStatus}
      (htype : type = .lookupResult ∨ type = .replayResult ∧ m.type = .replayInstruct)
      (hstatus : status ≠ .ok) : Sends st s m (s, st.statusMessage type m.requestId status)
  | hit {g : GraphDescriptor} {wl : WorkloadIdentity} {e : Entry} (htype : m.type = .lookup)
      (hnext : st.next (.message s m) = st)
      (hpayload : readCapture ProtocolStatus.invalidRequest .malformed m.payload = .ok (g, wl))
      (hlive : st.Live (lookupKey g wl) e) :
      Sends st s m (s, st.hitMessage m.requestId e.generation e.artifact.toStr)
  | dispatched {g : GraphDescriptor} {wl : WorkloadIdentity} {wid : WorkerId}
      (h : st.Dispatches s m g wl wid) :
      Sends st s m ((st.workerSock wid).getD 0, st.captureInstruct wid (st.captureCounter + 1) g wl)
  | failed {pc : PendingCapture} (hpending : st.pending m.captureAttempt = some pc) :
      Sends st s m (pc.clientSock,
        st.statusMessage .lookupResult pc.requestId .captureFailed st.cacheGen)
  | published {pc : PendingCapture} {artifactHex : Str} (h : st.Publishes s m pc artifactHex) :
      Sends st s m (pc.clientSock,
        st.hitMessage pc.requestId (st.graphGenCounter + 1) artifactHex)
  | forwarded {e : Entry} {target : Sock} (h : st.Forwards s m e target) :
      Sends st s m (target, st.replayInstruct m e)
  | result (htype : m.type = .replayResult) :
      Sends st s m ((st.pendingReplays m.requestId).getD s,
        { type := .replayResult, requestId := m.requestId, epoch := st.epoch
          cacheGen := st.cacheGen, status := m.status, payload := m.payload })
  | ack {resp : ProtocolMessage} (htype : resp.type = .invalidateAck) : Sends st s m (s, resp)

theorem authorityError_status {type : ProtocolMessageType} {status : ProtocolStatus}
    (h : st.authorityError m = some (type, status)) :
    (type = .lookupResult ∨ type = .replayResult ∧ m.type = .replayInstruct) ∧ status ≠ .ok := by
  have hne : ProtocolStatus.staleEpoch ≠ .ok ∧ ProtocolStatus.staleCacheGeneration ≠ .ok ∧
      ProtocolStatus.staleWorkerBoot ≠ .ok := by decide
  unfold authorityError at h
  split_ifs at h with h₁ h₂ h₃ h₄
  · simp_all
  · simp_all
  · simp_all
  · simp_all

theorem sends_lookup {snd : Send} (hopen : (st.conns s).isSome) (htype : m.type = .lookup)
    (hc : st.Current m) (h : (st.handleLookup s m).2 = some snd) : Sends st s m snd := by
  have hne : ProtocolStatus.workerUnavailable ≠ .ok ∧ ProtocolStatus.invalidRequest ≠ .ok ∧
      ProtocolStatus.malformed ≠ .ok := by decide
  have hnext : st.next (.message s m) = (st.handleLookup s m).1 := by
    simp [next, step_served hopen (by simp [htype]) (by simp [htype]) hc, serve, htype]
  unfold handleLookup at h hnext
  split at h
  · rename_i status herr
    obtain rfl := Option.some.inj h
    rcases readCapture_error herr with rfl | rfl
    · exact .refusal (.inl rfl) hne.2.1
    · exact .refusal (.inl rfl) hne.2.2
  · rename_i g wl hpayload
    rw [hpayload] at hnext
    split at h
    · rename_i e hg hi
      simp only [hg, hi] at hnext
      obtain rfl := Option.some.inj h
      exact .hit htype hnext hpayload ⟨hg, hi⟩
    · rename_i hmiss
      split at h
      · obtain rfl := Option.some.inj h
        exact .refusal (.inl rfl) hne.1
      · rename_i wid hwid
        obtain rfl := Option.some.inj h
        exact .dispatched ⟨hopen, htype, hc, hpayload, fun e he => hmiss e he.1 he.2, hwid⟩

theorem sends_captureResult {snd : Send} (hopen : (st.conns s).isSome)
    (htype : m.type = .captureResult) (hc : st.Current m)
    (h : (st.handleCaptureResult s m).2 = some snd) : Sends st s m snd := by
  have hne : ProtocolStatus.duplicateCaptureCompletion ≠ .ok := by decide
  unfold handleCaptureResult at h
  split at h
  · obtain rfl := Option.some.inj h
    exact .refusal (.inl rfl) hne
  · rename_i pc hpc
    dsimp only at h
    split_ifs at h with hst
    · obtain rfl := Option.some.inj h
      exact .failed hpc
    · split at h
      · obtain rfl := Option.some.inj h
        exact .failed hpc
      · rename_i artifactHex hart
        obtain rfl := Option.some.inj h
        exact .published ⟨hopen, htype, hc, hpc, not_not.mp hst, hart⟩

theorem sends_replayInstruct {snd : Send} (hopen : (st.conns s).isSome)
    (htype : m.type = .replayInstruct) (hc : st.Current m)
    (h : (st.handleReplayInstruct s m).2 = some snd) : Sends st s m snd := by
  have hne : ProtocolStatus.invalidRequest ≠ .ok ∧ ProtocolStatus.staleGraphGeneration ≠ .ok ∧
      ProtocolStatus.workerUnavailable ≠ .ok := by decide
  unfold handleReplayInstruct at h
  split at h
  · obtain rfl := Option.some.inj h
    exact .refusal (.inr ⟨rfl, htype⟩) hne.1
  · rename_i artifactHex hart
    split at h
    · rename_i e hg hi
      split_ifs at h with hgen
      · obtain rfl := Option.some.inj h
        exact .refusal (.inr ⟨rfl, htype⟩) hne.2.1
      · split at h
        · obtain rfl := Option.some.inj h
          exact .refusal (.inr ⟨rfl, htype⟩) hne.2.2
        · rename_i target htarget
          obtain rfl := Option.some.inj h
          exact .forwarded ⟨hopen, htype, hc, ⟨artifactHex, hart, hg, hi⟩, by tauto, htarget⟩
    · obtain rfl := Option.some.inj h
      exact .refusal (.inr ⟨rfl, htype⟩) hne.2.1

theorem sends_serve {snd : Send} (hopen : (st.conns s).isSome) (hc : st.Current m)
    (h : (st.serve s m).2 = some snd) : Sends st s m snd := by
  unfold serve at h
  split at h
  · rename_i htype
    exact sends_lookup hopen htype hc h
  · rename_i htype
    exact sends_captureResult hopen htype hc h
  · rename_i htype
    exact sends_replayInstruct hopen htype hc h
  · rename_i htype
    obtain rfl := Option.some.inj h
    exact .result htype
  · obtain rfl := Option.some.inj h
    exact .ack rfl
  all_goals cases h

/-- A message is answered in one of these ways. -/
theorem sends_of_sent {snd : Send} (h : st.sent (.message s m) = some snd) : Sends st s m snd := by
  rcases hconn : st.conns s with _ | c
  · simp [sent, step, hconn] at h
  have hopen : (st.conns s).isSome := by simp [hconn]
  by_cases hr : m.type = .register
  · simp only [sent, step, hconn, handle, hr, if_true, handleRegister] at h
    split_ifs at h <;> obtain rfl := Option.some.inj h <;> exact .greeting (.inl rfl)
  by_cases hh : m.type = .hello
  · simp only [sent, step, hconn, handle, hh, if_true, reduceCtorEq, if_false, handleHello] at h
    split_ifs at h <;> obtain rfl := Option.some.inj h <;> exact .greeting (.inr rfl)
  by_cases hc : st.Current m
  · rw [sent, step_served hopen hr hh hc] at h
    exact sends_serve hopen hc h
  · obtain ⟨type, status, herr, hstep⟩ := step_refused hopen hr hh hc
    rw [sent, hstep] at h
    obtain rfl := Option.some.inj h
    obtain ⟨htype, hstatus⟩ := authorityError_status herr
    exact .refusal htype hstatus

/-- Of the inputs that are no message, only a body that does not decode is answered. -/
theorem sent_cases {snd : Send} (h : st.sent ev = some snd) :
    (∃ s m, ev = .message s m ∧ Sends st s m snd) ∨
      ∃ s, snd = (s, st.statusMessage .lookupResult 0 .malformed) := by
  cases ev with
  | message s m => exact .inl ⟨s, m, rfl, sends_of_sent h⟩
  | accept s =>
    simp only [sent, step] at h
    split at h <;> cases h
  | close s =>
    simp only [sent, step] at h
    split at h <;> cases h
  | malformed s =>
    simp only [sent, step] at h
    split at h
    · cases h
    · exact .inr ⟨s, (Option.some.inj h).symm⟩

/-- An `Ok` answer to a lookup is a hit, or the graph of a capture published by this input. -/
def HitBy (st : Coordinator) (ev : Event) (t : Sock) (resp : ProtocolMessage) : Prop :=
  ∃ s m, ev = .message s m ∧
    ((∃ g wl e, m.type = .lookup ∧ st.next ev = st ∧
      readCapture ProtocolStatus.invalidRequest .malformed m.payload = .ok (g, wl) ∧
      st.Live (lookupKey g wl) e ∧ t = s ∧
      resp = st.hitMessage m.requestId e.generation e.artifact.toStr) ∨
    ∃ pc artifactHex, st.Publishes s m pc artifactHex ∧ t = pc.clientSock ∧
      resp = st.hitMessage pc.requestId (st.graphGenCounter + 1) artifactHex)

/-- What a message of each type is sent for. -/
def SentFor (st : Coordinator) (ev : Event) (t : Sock) (msg : ProtocolMessage) : Prop :=
  match msg.type with
  | .lookupResult => msg.status = .ok → st.HitBy ev t msg
  | .replayInstruct =>
    ∃ s m e, ev = .message s m ∧ st.Forwards s m e t ∧ msg = st.replayInstruct m e
  | .captureInstruct => ∃ s m g wl wid, ev = .message s m ∧ st.Dispatches s m g wl wid ∧
      msg = st.captureInstruct wid (st.captureCounter + 1) g wl
  | .replayResult => ∃ s m, ev = .message s m ∧ (m.type = .replayInstruct ∧ t = s ∨
      m.type = .replayResult ∧ t = (st.pendingReplays m.requestId).getD s)
  | _ => True

theorem Sends.sentFor {t : Sock} {msg : ProtocolMessage} (h : Sends st s m (t, msg)) :
    st.SentFor (.message s m) t msg := by
  cases h with
  | greeting htype => rcases htype with rfl | rfl <;> exact trivial
  | refusal htype hstatus =>
    rcases htype with rfl | ⟨rfl, hm⟩
    · exact fun hok => absurd hok hstatus
    · exact ⟨s, m, rfl, .inl ⟨hm, rfl⟩⟩
  | hit htype hnext hpayload hlive =>
    exact fun _ => ⟨s, m, rfl, .inl ⟨_, _, _, htype, hnext, hpayload, hlive, rfl, rfl⟩⟩
  | dispatched hd => exact ⟨s, m, _, _, _, rfl, hd, rfl⟩
  | failed _ =>
    intro hok
    have hfailed : ProtocolStatus.captureFailed = .ok := hok
    cases hfailed
  | published hp => exact fun _ => ⟨s, m, rfl, .inr ⟨_, _, hp, rfl, rfl⟩⟩
  | forwarded hf => exact ⟨s, m, _, rfl, hf, rfl⟩
  | result hm => exact ⟨s, m, rfl, .inr ⟨hm, rfl⟩⟩
  | ack hack =>
    unfold SentFor
    rw [hack]
    exact trivial

theorem sentFor_of_sent {t : Sock} {msg : ProtocolMessage} (h : st.sent ev = some (t, msg)) :
    st.SentFor ev t msg := by
  rcases sent_cases h with ⟨s, m, rfl, hsends⟩ | ⟨s, heq⟩
  · exact hsends.sentFor
  · obtain ⟨rfl, rfl⟩ := Prod.mk.inj heq
    intro hok
    have hmalformed : ProtocolStatus.malformed = .ok := hok
    cases hmalformed

theorem hit_of_sent {t : Sock} {resp : ProtocolMessage} (h : st.sent ev = some (t, resp))
    (htype : resp.type = .lookupResult) (hok : resp.status = .ok) : st.HitBy ev t resp := by
  have hfor := sentFor_of_sent h
  rw [SentFor, htype] at hfor
  exact hfor hok

/-- A replay instruction is sent only for a replay that is forwarded. -/
theorem forwards_of_sent {t : Sock} {inst : ProtocolMessage} (h : st.sent ev = some (t, inst))
    (htype : inst.type = .replayInstruct) :
    ∃ s m e, ev = .message s m ∧ st.Forwards s m e t ∧ inst = st.replayInstruct m e := by
  have hfor := sentFor_of_sent h
  rwa [SentFor, htype] at hfor

/-- A capture instruction is sent only for a capture that is dispatched. -/
theorem dispatches_of_sent {t : Sock} {inst : ProtocolMessage} (h : st.sent ev = some (t, inst))
    (htype : inst.type = .captureInstruct) :
    ∃ s m g wl wid, ev = .message s m ∧ st.Dispatches s m g wl wid ∧
      inst = st.captureInstruct wid (st.captureCounter + 1) g wl := by
  have hfor := sentFor_of_sent h
  rwa [SentFor, htype] at hfor

/-- A replay result is sent to the sender of a replay, or on a replay result. -/
theorem replayResult_of_sent {t : Sock} {resp : ProtocolMessage} (h : st.sent ev = some (t, resp))
    (htype : resp.type = .replayResult) :
    ∃ s m, ev = .message s m ∧ (m.type = .replayInstruct ∧ t = s ∨
      m.type = .replayResult ∧ t = (st.pendingReplays m.requestId).getD s) := by
  have hfor := sentFor_of_sent h
  rwa [SentFor, htype] at hfor

/-! ## What a step does to the replays -/

theorem pendingReplays_handleLookup : (st.handleLookup s m).1.pendingReplays = st.pendingReplays := by
  unfold handleLookup
  split
  · rfl
  · split
    · rfl
    · split <;> rfl

theorem pendingReplays_handleCaptureResult :
    (st.handleCaptureResult s m).1.pendingReplays = st.pendingReplays := by
  unfold handleCaptureResult
  split
  · rfl
  · dsimp only
    split_ifs
    · rfl
    · split
      · rfl
      · unfold publish
        split_ifs <;> rfl

variable (st ev) in
/-- A replay is entered when it is forwarded, and its entry goes with a result under its id. -/
theorem pendingReplays_next (r : UInt64) :
    (st.next ev).pendingReplays r = st.pendingReplays r ∨
    (∃ s m e target, ev = .message s m ∧ st.Forwards s m e target ∧ r = m.requestId) ∨
    ∃ s m, ev = .message s m ∧ m.type = .replayResult ∧ r = m.requestId ∧
      (st.next ev).pendingReplays r = none := by
  rcases next_cases st ev with ⟨s, m, rfl, hopen, hc, hstep⟩ | haside
  · rw [next, hstep, serve]
    split
    · exact .inl (congrFun pendingReplays_handleLookup r)
    · exact .inl (congrFun pendingReplays_handleCaptureResult r)
    · rename_i htype
      unfold handleReplayInstruct
      split
      · exact .inl rfl
      · rename_i artifactHex hart
        split
        · rename_i e hg hi
          split_ifs with hgen
          · exact .inl rfl
          · split
            · exact .inl rfl
            · rename_i target htarget
              by_cases hr : r = m.requestId
              · exact .inr (.inl ⟨s, m, e, target, rfl, ⟨hopen, htype, hc,
                  ⟨artifactHex, hart, hg, hi⟩, by tauto, htarget⟩, hr⟩)
              · exact .inl (Function.update_of_ne hr _ _)
        · exact .inl rfl
    · rename_i htype
      by_cases hr : r = m.requestId
      · exact .inr (.inr ⟨s, m, rfl, htype, hr, hr ▸ Function.update_self _ _ _⟩)
      · exact .inl (Function.update_of_ne hr _ _)
    all_goals exact .inl rfl
  · obtain ⟨_, _, _, _, hnext⟩ := haside
    rw [hnext]
    exact .inl rfl

theorem Forwards.step_eq {e : Entry} {target : Sock} (h : st.Forwards s m e target) :
    st.step (.message s m) = ({ st.insertBoot e.workerId with
        pendingReplays := Function.update st.pendingReplays m.requestId (some s) },
      some (target, st.replayInstruct m e)) := by
  obtain ⟨artifactHex, hart, hg, hi⟩ := h.live
  have hgen : ¬ (m.graphGen ≠ 0 ∧ m.graphGen ≠ e.generation) := by
    have := h.generation
    tauto
  rw [step_served h.isOpen (by simp [h.type]) (by simp [h.type]) h.current]
  simp only [serve, h.type, handleReplayInstruct, hart, hg, hi, if_neg hgen, h.worker]

end Coordinator

end GraphCache
