import GraphCache.Contents
import GraphCache.ExactHit
import GraphCache.Fleet

/-!
# Replays on a worker

A client that has sent a descriptor refers to it by the text of an artifact id from then on. A worker
finds the descriptor and the executable under this text among those that it has captured, which came
from any client, and were finalized and captured in an order of its own.

`remote_replay` : in every run of the fleet a worker answers a replay as the client would that
replays its own descriptor. This takes that ids tell the graphs apart that are looked up, and so do
their encodings (`Identified`).
-/

namespace GraphCache

/-! ## Looking up an id by its text -/

theorem Id128.toStr_injective : Function.Injective Id128.toStr := fun i j h => by
  have hscan := congrArg scanArtifact h
  rwa [scanArtifact_toStr, scanArtifact_toStr] at hscan

theorem find_entries {β : Type} (l : AList fun _ : GraphArtifactId => β) (id : GraphArtifactId) :
    (l.entries.find? fun d => d.1.toStr = id.toStr) = (l.lookup id).map (Sigma.mk id) := by
  cases hfind : l.entries.find? fun d => d.1.toStr = id.toStr with
  | none =>
    have hnone : l.lookup id = none := by
      rw [AList.lookup_eq_none]
      intro hmem
      obtain ⟨⟨i, v⟩, hv, rfl⟩ := List.mem_map.mp hmem
      exact List.find?_eq_none.mp hfind _ hv (by simp)
    rw [hnone, Option.map_none]
  | some d =>
    obtain ⟨i, v⟩ := d
    have hid : i = id := Id128.toStr_injective (by simpa using List.find?_some hfind)
    subst hid
    have hlookup : l.lookup i = some v :=
      AList.mem_lookup_iff.mpr (List.mem_of_find?_eq_some hfind)
    rw [hlookup, Option.map_some]

namespace Worker

/-! ## What a worker holds -/

/-- Under an id there is a descriptor of `D`, finalized under this id, with its capture. -/
def Keeps (o : IterationOrder GraphNodeId) (D : Set GraphDescriptor) (w : Worker) : Prop :=
  ∀ id g, w.descs.lookup id = some g → ∃ d ∈ D, d.finalize o = .ok g ∧ g.artifactId = id ∧
    ∃ x, w.execs.lookup id = some x ∧ cpuCapture o g = .ok x

variable {o : IterationOrder GraphNodeId} {ops : FloatOps} {w w' : Worker} {m : ProtocolMessage}
  {resp : Option ProtocolMessage} {D : Set GraphDescriptor} {d g : GraphDescriptor} {x : CpuGraph}

theorem capture_ok {a : CaptureAttemptId} (h : capture o ops d a = .ok (g, x)) :
    d.finalize o = .ok g ∧ cpuCapture o g = .ok x := by
  unfold capture at h
  cases hfinal : d.finalize o with
  | error e => simp [hfinal, bind, Except.bind] at h
  | ok g' =>
    simp only [hfinal, bind, Except.bind] at h
    cases hcap : (cpuBackend o ops).capture g' a with
    | error e => simp [hcap] at h
    | ok x' =>
      simp only [hcap] at h
      cases hvalid : (cpuBackend o ops).validate g' x' with
      | error e => simp [hvalid] at h
      | ok u =>
        simp only [hvalid, pure, Except.pure] at h
        obtain ⟨rfl, rfl⟩ := Prod.mk.inj (Except.ok.inj h)
        exact ⟨rfl, hcap⟩

theorem Keeps.handleCapture (h : w.Keeps o D)
    (hsent : ∀ d wl, decodeCapture m.payload = some (d, wl) → d ∈ D) : (w.handleCapture o ops m).1.Keeps o D := by
  unfold Worker.handleCapture
  split
  · exact h
  · rename_i d wl hdecode
    split
    · exact h
    · rename_i g x hcapture
      obtain ⟨hfinal, hcap⟩ := capture_ok hcapture
      have hd : d ∈ D := hsent d wl hdecode
      intro id g' hg'
      by_cases hid : id = g.artifactId
      · subst hid
        rw [AList.lookup_insert] at hg' ⊢
        obtain rfl := Option.some.inj hg'
        exact ⟨d, hd, hfinal, rfl, x, rfl, hcap⟩
      · rw [AList.lookup_insert_ne hid] at hg' ⊢
        exact h id g' hg'

theorem Keeps.receive (h : w.Keeps o D) (hm : w.receive o ops m = some (w', resp))
    (hsent : m.type = .captureInstruct → ∀ d wl, decodeCapture m.payload = some (d, wl) → d ∈ D) :
    w'.Keeps o D := by
  unfold Worker.receive at hm
  split_ifs at hm with hreg hack
  · split at hm
    · cases hm
    · rename_i htype
      obtain ⟨rfl, -⟩ := Prod.mk.inj (Option.some.inj hm)
      exact h.handleCapture (hsent htype)
    · obtain ⟨r, -, heq⟩ := Option.map_eq_some_iff.mp hm
      obtain ⟨rfl, -⟩ := Prod.mk.inj heq
      exact h
    · obtain ⟨rfl, -⟩ := Prod.mk.inj (Option.some.inj hm)
      exact h
  · obtain ⟨rfl, -⟩ := Prod.mk.inj (Option.some.inj hm)
    exact h

end Worker

/-! ## Graphs that are told apart -/

/-- Descriptors whose encodings tell their graphs apart, and their ids the encodings : none brings
the id of another, no digests collide, no encoding is too long for its length field, and scalars
that are not encoded agree. -/
structure Identified (D : Set GraphDescriptor) : Prop where
  fresh : ∀ d ∈ D, ∀ d' ∈ D, canonicalSemantic d ≠ canonicalSemantic d' → ¬d.BringsIdOf d'
  digests : Set.InjOn (fun b => Id128.ofDigest (Sha256.compute b)) (canonicalSemantic '' D)
  short : ∀ d ∈ D, (canonicalTopology d.nodes d.edges).length < 2 ^ 32
  scalars : ∀ d ∈ D, ∀ d' ∈ D, canonicalSemantic d = canonicalSemantic d' → ScalarsAgree d d'

variable {o o' : IterationOrder GraphNodeId} {ops : FloatOps} {D : Set GraphDescriptor}
  {d d' g g' : GraphDescriptor} {x x' : CpuGraph}

theorem encodable_of_short (h : (canonicalTopology d.nodes d.edges).length < 2 ^ 32) :
    Encodable d.nodes d.edges :=
  fun _ hf => (length_le_take hf).trans_lt h

/-- The first field of the semantic encoding. -/
theorem canonicalTopology_of_semantic (h : (canonicalTopology d.nodes d.edges).length < 2 ^ 32)
    (h' : (canonicalTopology d'.nodes d'.edges).length < 2 ^ 32)
    (heq : canonicalSemantic d = canonicalSemantic d') :
    canonicalTopology d.nodes d.edges = canonicalTopology d'.nodes d'.edges := by
  have hread : ∀ {d : GraphDescriptor}, (canonicalTopology d.nodes d.edges).length < 2 ^ 32 →
      (CanonicalReader.mk (canonicalSemantic d) false).next.1 =
        some (putBytes 201 (canonicalTopology d.nodes d.edges)) := by
    intro d h
    rw [canonicalSemantic, CanonicalWriter.take, List.cons_append, List.cons_append,
      List.flatMap_cons, CanonicalReader.next_bytes _ h]
  have hfield := (hread h).symm.trans ((congrArg (fun b => (CanonicalReader.mk b false).next.1)
    heq).trans (hread h'))
  exact congrArg Field.payload (Option.some.inj hfield)

/-- Graphs that are finalized under one id are one graph for the executor. -/
theorem Identified.replay_eq (h : Identified D) (hd : d ∈ D) (hd' : d' ∈ D)
    (hg : d.finalize o = .ok g) (hx : cpuCapture o g = .ok x) (hg' : d'.finalize o' = .ok g')
    (hx' : cpuCapture o' g' = .ok x') (hid : g.artifactId = g'.artifactId) (ops : FloatOps)
    (b : ReplayBuffers) (rd : ReplayDescriptor) (mem : Memory) :
    cpuReplay ops x b rd mem = cpuReplay ops x' b rd mem := by
  have hsemantic : canonicalSemantic d = canonicalSemantic d' := by
    have hcontent := (finalize_identity hg).1
    have hcontent' := (finalize_identity hg').1
    have hdigests : Set.InjOn (fun b => Id128.ofDigest (Sha256.compute b))
        {g.semanticCanonical, g'.semanticCanonical} := by
      refine h.digests.mono ?_
      rw [hcontent, hcontent']
      rintro _ (rfl | rfl)
      · exact ⟨d, hd, rfl⟩
      · exact ⟨d', hd', rfl⟩
    rw [← hcontent, ← hcontent']
    refine (artifactId_derived_iff hg hg' hdigests).mpr (fun hne => ?_) hid
    exact ⟨h.fresh d hd d' hd' hne, h.fresh d' hd' d hd (Ne.symm hne)⟩
  have htopology := canonicalTopology_of_semantic (h.short d hd) (h.short d' hd') hsemantic
  obtain ⟨hwf, rfl⟩ := finalize_ok_iff.mp hg
  obtain ⟨hwf', rfl⟩ := finalize_ok_iff.mp hg'
  -- The executor's order is that of the graph, so both captures can be taken in one order.
  have hcap' : cpuCapture o d'.finalized = .ok x' := by
    obtain ⟨hwell, rfl⟩ := cpuCapture_ok_iff.mp hx'
    rw [cpuCapture_ok_iff, executionOrder_eq o o' (List.Perm.refl _) (List.Perm.refl _)]
    exact ⟨hwell, rfl⟩
  have hscalars : ScalarsAgree d.finalized d' := by
    intro n hn
    exact h.scalars d hd d' hd' hsemantic n ((sortById_perm _ _).subset hn)
  have hshort : Encodable d.finalized.nodes d.finalized.edges :=
    encodable_sortById (encodable_of_short (h.short d hd))
  have hsorted : canonicalTopology d.finalized.nodes d.finalized.edges =
      canonicalTopology d'.nodes d'.edges := (canonicalTopology_sortById _ _).trans htopology
  obtain ⟨x'', hcap, heq⟩ := replay_eq_of_canonicalTopology ops hx
    (finalize_ok_iff.mpr ⟨hwf', rfl⟩) hshort (encodable_of_short (h.short d' hd')) hsorted hscalars
  obtain rfl : x'' = x' := Except.ok.inj (hcap.symm.trans hcap')
  exact heq b rd mem

/-! ## The answer -/

/-- The payload that a replay on fresh buffers gives; none where it leaves them. -/
def replayPayload (ops : FloatOps) (x : CpuGraph) (a : ReplayAttemptId) (input : List UInt32) :
    Option (Option Bytes) :=
  (cpuReplay ops x (Worker.replayBuffers input.length) ⟨a⟩ (Worker.replayMemory input)).map
    fun (mem, r) => match r with
      | .ok _ => some (Worker.encodeReplayOutput ops (Worker.lanes input.length (mem.getD 1 [])))
      | .error _ => none

namespace Worker

variable {w : Worker} {m : ProtocolMessage} {input : List UInt32}

/-- A response with a payload, or with a failure. -/
def reply (w : Worker) (m : ProtocolMessage) : Option Bytes → ProtocolMessage
  | some payload => { w.response m with payload }
  | none => { w.response m with status := .replayFailed }

/-- What a replay of `x` gives, on a worker that holds the artifact; on another one a failure. -/
def replayAnswer (ops : FloatOps) (w : Worker) (id : GraphArtifactId) (x : CpuGraph)
    (a : ReplayAttemptId) (input : List UInt32) : Option (Option Bytes) :=
  if id ∈ w.descs then replayPayload ops x a input else some none

theorem Keeps.receive_replay (h : w.Keeps o D) (hregistered : w.registered) (hD : Identified D)
    (hd : d ∈ D) (hg : d.finalize o' = .ok g) (hx : cpuCapture o' g = .ok x)
    (hm : m.type = .replayInstruct)
    (hinput : decodeReplayInstruct ops m.payload = some (g.artifactId.toStr, input)) :
    w.receive o ops m = (w.replayAnswer ops g.artifactId x m.replayAttempt input).map fun answer =>
      (w, some (w.reply m answer)) := by
  have hreceive : w.receive o ops m = (w.handleReplay o ops m).map fun resp => (w, some resp) := by
    rw [Worker.receive, if_pos hregistered, hm]
  rw [hreceive, handleReplay, hinput, replayAnswer]
  simp only [find_entries]
  cases hlookup : w.descs.lookup g.artifactId with
  | none =>
    rw [if_neg (AList.lookup_eq_none.mp hlookup)]
    rfl
  | some g₁ =>
    obtain ⟨d₁, hd₁, hg₁, hid, x₁, hexec, hcap⟩ := h _ _ hlookup
    have hmem : g.artifactId ∈ w.descs := by
      rw [← AList.lookup_isSome, hlookup]
      rfl
    have hreplay : (cpuBackend o ops).replay g₁ x₁ (replayBuffers input.length) ⟨m.replayAttempt⟩
        (replayMemory input) = cpuReplay ops x (replayBuffers input.length) ⟨m.replayAttempt⟩
          (replayMemory input) := hD.replay_eq hd₁ hd hg₁ hcap hg hx hid ops _ _ _
    rw [if_pos hmem, Option.map_some]
    simp only [hexec, hreplay, replayPayload]
    rcases cpuReplay ops x (replayBuffers input.length) ⟨m.replayAttempt⟩ (replayMemory input) with
      _ | ⟨mem, _ | r⟩
    · rfl
    · rfl
    · rfl

end Worker

/-! ## The fleet -/

namespace Fleet

open History

variable {f : Fleet} {e : Event} {evs : List Event}

/-- The descriptors that clients look up, as workers receive them. -/
def LookedUp (evs : List Event) : Set GraphDescriptor :=
  {d | ∃ s m g wl wl', .client s m ∈ evs ∧ m.type = .lookup ∧
    readCapture ProtocolStatus.invalidRequest .malformed m.payload = .ok (g, wl) ∧
      Worker.decodeCapture (encodeCapture g wl) = some (d, wl')}

/-- Instructions to capture come from lookups of clients, and workers keep what these sent. -/
structure Sourced (o : IterationOrder GraphNodeId) (D : Set GraphDescriptor) (f : Fleet) : Prop where
  instructs : ∀ p ∈ f.instructs, p.msg.type = .captureInstruct →
    ∀ d wl, Worker.decodeCapture p.msg.payload = some (d, wl) → d ∈ D
  replies : ∀ p ∈ f.replies, p.msg.type ≠ .lookup
  peers : ∀ s w, f.peers s = .worker w → w.Keeps o D

theorem Sourced.after_step (h : f.Sourced o D)
    (hlookup : ∀ s m g wl d wl', e = .client s m → m.type = .lookup →
      readCapture ProtocolStatus.invalidRequest .malformed m.payload = .ok (g, wl) →
        Worker.decodeCapture (encodeCapture g wl) = some (d, wl') → d ∈ D) :
    (f.step o ops e).Sourced o D where
  instructs p hp htype d wl hdecode := by
    rcases mem_instructs hp with hp | hp
    · exact h.instructs p hp htype d wl hdecode
    · obtain ⟨hsent, -, -⟩ := mem_posted hp
      obtain ⟨ev, hin, hsent⟩ := Option.bind_eq_some_iff.mp hsent
      obtain ⟨s, m, g, wl', wid, rfl, hd, hmsg⟩ := Coordinator.dispatches_of_sent hsent htype
      rw [hmsg] at hdecode
      rcases input_message hin with ⟨rfl, -⟩ | ⟨i, q, rfl, hq, -, rfl⟩
      · exact hlookup s m g wl' d wl rfl hd.type hd.payload hdecode
      · exact absurd hd.type (h.replies q (List.mem_of_getElem? hq))
  replies p hp := by
    rcases mem_replies hp with ⟨hp, -⟩ | ⟨-, -, -, -, hregister, -⟩ | ⟨q, -, -, -, hechoes, -⟩
    · exact h.replies p hp
    · rw [hregister]
      nofun
    · rcases hechoes.type with ⟨-, htype⟩ | ⟨-, htype⟩
      · rw [htype]
        nofun
      · rw [htype]
        nofun
  peers s w hw := by
    rcases peers_step hw nofun with ⟨-, ⟨-, hclient⟩ | ⟨wid, pid, -, hworker⟩⟩ | ⟨-, hold | hread⟩
    · cases hclient
    · obtain rfl := Peer.worker.inj hworker
      exact fun id g hg => by cases hg
    · exact h.peers s w hold
    · obtain ⟨w₀, w', hw₀, heq, i, q, resp, -, hq, -, hreceive⟩ := hread
      obtain rfl := Peer.worker.inj heq
      exact (h.peers s w₀ hw₀).receive hreceive (h.instructs q (List.mem_of_getElem? hq))

theorem sourced_run (hlookups : LookedUp evs ⊆ D) : (run o ops evs).Sourced o D := by
  induction evs using List.reverseRecOn with
  | nil => exact ⟨nofun, nofun, nofun⟩
  | append_singleton evs e ih =>
    have hbefore : LookedUp evs ⊆ D := by
      rintro d ⟨s, m, g, wl, wl', hmem, hd⟩
      exact hlookups ⟨s, m, g, wl, wl', List.mem_append_left _ hmem, hd⟩
    rw [run, after_concat]
    refine (ih hbefore).after_step ?_
    rintro s m g wl d wl' rfl htype hread hdecode
    exact hlookups ⟨s, m, g, wl, wl', by simp, htype, hread, hdecode⟩

/-- A worker that reads a replay of an artifact that it holds answers what the client would compute
from its own descriptor, whoever had the graph captured and in whatever order either goes through
its tables; and it fails the replay of an artifact that it does not hold. Only where the client's own
replay would leave its buffers there is no answer, and the worker is gone. -/
theorem remote_replay (o o' : IterationOrder GraphNodeId) (ops : FloatOps) (evs : List Event)
    {D : Set GraphDescriptor} (hD : Identified D) (hlookups : LookedUp evs ⊆ D)
    {d g : GraphDescriptor} {x : CpuGraph} (hd : d ∈ D) (hg : d.finalize o' = .ok g)
    (hx : cpuCapture o' g = .ok x) {i : ℕ} {p : Packet} {w : Worker}
    (hp : (run o ops evs).instructs[i]? = some p) (hw : (run o ops evs).peers p.sock = .worker w)
    (hregistered : w.registered) (htype : p.msg.type = .replayInstruct) {input : List UInt32}
    (hinput : Worker.decodeReplayInstruct ops p.msg.payload = some (g.artifactId.toStr, input)) :
    (∀ answer, w.replayAnswer ops g.artifactId x p.msg.replayAttempt input = some answer →
      (run o ops (evs ++ [.work i])).replies =
        (run o ops evs).replies ++ [⟨p.sock, p.born, w.reply p.msg answer⟩]) ∧
    (w.replayAnswer ops g.artifactId x p.msg.replayAttempt input = none →
      (run o ops (evs ++ [.work i])).peers p.sock = .gone) := by
  have hkeeps : w.Keeps o D := (sourced_run hlookups).peers p.sock w hw
  have hreceive := hkeeps.receive_replay hregistered hD hd hg hx htype hinput
  rw [run, after_concat]
  constructor
  · intro answer hanswer
    rw [hanswer, Option.map_some] at hreceive
    simp only [step_replies, surroundings, work, hp, hw, hreceive]
    rfl
  · intro hnone
    rw [hnone, Option.map_none] at hreceive
    simp [step, surroundings, work, hp, hw, hreceive, drop]

/-- A graph that scales one float, sent with an id. -/
def scaleGraph (id : GraphArtifactId) (factor : Double) : GraphDescriptor where
  artifactId := id
  nodes := [{
    nodeId := ⟨0, 1⟩
    kernel := { name := str "scale" }
    memoryBytes := 4
    scalar := ⟨true, 0, factor⟩
    reactiveInputIndices := [0]
    reactiveOutputIndices := [0] }]

def doubleGraph : GraphDescriptor := scaleGraph ⟨0, 7⟩ ⟨0x4000000000000000⟩

def tripleGraph : GraphDescriptor := scaleGraph ⟨0, 9⟩ ⟨0x4008000000000000⟩

/-- A replay of the first on the float one. -/
def doubleReplay : ProtocolMessage where
  type := .replayInstruct
  payload := CanonicalWriter.take [putStr 1 doubleGraph.artifactId.toStr, putU32 2 1,
    ⟨3, encF64 ⟨0x3FF0000000000000⟩⟩]

/-- A lookup of a client. -/
def lookupOf (s : ℕ) (g : GraphDescriptor) : Event :=
  .client s { type := .lookup, requestId := 5, payload := encodeCapture g {} }

/-- Worker 7 has captured a graph for each of two clients. The first has its own replayed. -/
def doubleRun : List Event :=
  [.launch 1 7 5, .deliver 0, .work 0, .connect 2, .connect 3,
    lookupOf 2 doubleGraph, .work 0, .deliver 0, lookupOf 3 tripleGraph, .work 0, .deliver 0,
    .client 2 doubleReplay]

/-- The digests of the two graphs differ. -/
theorem derivedId_double_ne : doubleGraph.derivedId ≠ tripleGraph.derivedId := by
  decide +kernel

theorem identified_pair : Identified {doubleGraph, tripleGraph} where
  fresh := by
    rintro d (rfl | rfl) d' (rfl | rfl) hne
    · exact absurd rfl hne
    · rintro ⟨-, hid | ⟨hvalid, -⟩⟩
      · exact absurd hid (by decide)
      · cases hvalid
    · rintro ⟨-, hid | ⟨hvalid, -⟩⟩
      · exact absurd hid (by decide)
      · cases hvalid
    · exact absurd rfl hne
  digests := by
    rw [Set.image_pair, Set.injOn_pair]
    exact fun h => absurd h derivedId_double_ne
  short := by
    rintro d (rfl | rfl)
    · decide +kernel
    · decide +kernel
  scalars := by
    -- All scalars are specialized.
    rintro d hd d' - - n hn n' - - - hspec
    have hscalar : n.scalar.specialized = true := by
      rcases hd with rfl | rfl
      · rw [List.mem_singleton.mp hn]
      · rw [List.mem_singleton.mp hn]
    cases hscalar.symm.trans hspec

/-- What a worker reads of a descriptor is the descriptor. -/
theorem decode_scaleGraph {g : GraphDescriptor} (hg : g = doubleGraph ∨ g = tripleGraph) :
    readCapture ProtocolStatus.invalidRequest .malformed (encodeCapture g {}) = .ok (g, {}) ∧
      Worker.decodeCapture (encodeCapture g {}) = some (g, {}) := by
  rcases hg with rfl | rfl
  · decide +kernel
  · decide +kernel

theorem lookedUp_doubleRun : LookedUp doubleRun ⊆ {doubleGraph, tripleGraph} := by
  rintro d ⟨s, m, g, wl, wl', hmem, htype, hpayload, hd⟩
  have hm : (∃ g', (g' = doubleGraph ∨ g' = tripleGraph) ∧ m.payload = encodeCapture g' {}) ∨
      m.type = .replayInstruct := by
    simp only [doubleRun, lookupOf, List.mem_cons, List.not_mem_nil, reduceCtorEq, false_or, or_false,
      Event.client.injEq] at hmem
    rcases hmem with ⟨-, rfl⟩ | ⟨-, rfl⟩ | ⟨-, rfl⟩
    · exact .inl ⟨_, .inl rfl, rfl⟩
    · exact .inl ⟨_, .inr rfl, rfl⟩
    · exact .inr rfl
  rcases hm with ⟨g', hg', hm⟩ | hm
  · obtain ⟨hread, hdecode⟩ := decode_scaleGraph hg'
    rw [hm, hread] at hpayload
    obtain ⟨rfl, rfl⟩ := Prod.mk.inj (Except.ok.inj hpayload)
    obtain rfl := congrArg Prod.fst (Option.some.inj (hd.symm.trans hdecode))
    exact hg'
  · cases htype.symm.trans hm

/-- The packet is the replay that the client asked for, and its worker holds the artifact. -/
def doubleReady (f : Fleet) (p : Packet) : Bool :=
  match f.peers p.sock with
  | .worker w => decide (w.registered ∧ p.msg.type = .replayInstruct ∧
      p.msg.payload = doubleReplay.payload ∧ doubleGraph.artifactId ∈ w.descs)
  | _ => false

theorem worker_of_doubleReady {p : Packet} (h : doubleReady f p = true) : ∃ w,
    f.peers p.sock = .worker w ∧ w.registered ∧ p.msg.type = .replayInstruct ∧
      p.msg.payload = doubleReplay.payload ∧ doubleGraph.artifactId ∈ w.descs := by
  unfold doubleReady at h
  split at h
  · rename_i w hw
    exact ⟨w, hw, of_decide_eq_true h⟩
  · cases h

set_option maxRecDepth 100000 in
theorem doubleRun_ready : (run (.insertion _) .unit doubleRun).instructs[0]?.map
    (doubleReady (run (.insertion _) .unit doubleRun)) = some true := by
  decide +kernel

theorem remote_replay_double : ∃ (p : Packet) (w : Worker) (x : CpuGraph),
    cpuCapture (.insertion _) doubleGraph.finalized = .ok x ∧
      ∀ answer, replayPayload .unit x p.msg.replayAttempt [0x3F800000] = some answer →
        (run (.insertion _) .unit (doubleRun ++ [.work 0])).replies =
          (run (.insertion _) .unit doubleRun).replies ++ [⟨p.sock, p.born, w.reply p.msg answer⟩] := by
  obtain ⟨p, hp, hready⟩ := Option.map_eq_some_iff.mp doubleRun_ready
  obtain ⟨w, hw, hregistered, htype, hpayload, hmem⟩ := worker_of_doubleReady hready
  have hvalid : validateTopology (.insertion _) doubleGraph.finalized.nodes
      doubleGraph.finalized.edges = .ok () := by decide +kernel
  have hfinal : doubleGraph.finalize (.insertion _) = .ok doubleGraph.finalized :=
    finalize_of_valid (by decide +kernel)
  have hid : doubleGraph.finalized.artifactId = doubleGraph.artifactId :=
    finalized_of_valid _ (by decide)
  obtain ⟨x, hx⟩ : ∃ x, cpuCapture (.insertion _) doubleGraph.finalized = .ok x :=
    ⟨_, cpuCapture_ok_iff.mpr ⟨validateTopology_ok_iff.mp hvalid, rfl⟩⟩
  have hinput : Worker.decodeReplayInstruct .unit p.msg.payload =
      some (doubleGraph.finalized.artifactId.toStr, [0x3F800000]) := by
    rw [hpayload, hid]
    decide +kernel
  refine ⟨p, w, x, hx, fun answer hanswer => ?_⟩
  refine (remote_replay (.insertion _) (.insertion _) .unit doubleRun identified_pair
    lookedUp_doubleRun (Set.mem_insert _ _) hfinal hx hp hw hregistered htype hinput).1 answer ?_
  rw [Worker.replayAnswer, hid, if_pos hmem, hanswer]

end Fleet

end GraphCache
