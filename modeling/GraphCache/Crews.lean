import GraphCache.Connections
import GraphCache.Fleet

/-!
# Who is behind a connection

A worker process is known to the coordinator by a worker id and a boot id. A `Crew` names, for every
handle, the process last launched on it; `crew_run` : as long as no client registers and no two
processes share both ids, a connection is registered under the ids of its process, `worker_sock`
and `worker_boot` hold its handle and its boot, and no other connection is registered under its
worker id.
-/

namespace GraphCache

open History

/-! ## The boot on record -/

namespace Coordinator

variable {st : Coordinator} {s : Sock} {m : ProtocolMessage} {ev : Event}

@[simp] theorem bootFor_insertBoot (wid : WorkerId) :
    (st.insertBoot wid).bootFor = st.bootFor := by
  funext w
  by_cases hw : w = wid
  · subst hw
    simp [insertBoot, bootFor]
  · simp [insertBoot, bootFor, Function.update_of_ne hw]

/-- Serving a message reads a boot at most. -/
theorem bootFor_serve : (st.serve s m).1.bootFor = st.bootFor := by
  unfold serve
  split
  · unfold handleLookup
    split
    · rfl
    · split
      · rfl
      · split
        · rfl
        · exact bootFor_insertBoot _
  · unfold handleCaptureResult
    split
    · rfl
    · dsimp only
      split_ifs
      · rfl
      · split
        · rfl
        · unfold publish
          split_ifs <;> rfl
  · unfold handleReplayInstruct
    split
    · rfl
    · split
      · split_ifs
        · rfl
        · split
          · rfl
          · exact bootFor_insertBoot _
      · rfl
  all_goals rfl

/-- Unless a worker joins, the boots on record stay as they are. -/
theorem bootFor_next (hjoin : ∀ s c m, ev = .message s m → ¬ st.Joins s c m) :
    (st.next ev).bootFor = st.bootFor := by
  cases ev with
  | accept s =>
    simp only [next, step]
    split <;> rfl
  | malformed s =>
    simp only [next, step]
    split <;> rfl
  | close s =>
    simp only [next, step]
    split <;> rfl
  | message s m =>
    by_cases hr : m.type = .register
    · rw [next_register hr fun c => hjoin s c m rfl]
    rcases hconn : st.conns s with _ | c
    · simp only [next, step, hconn]
    have hopen : (st.conns s).isSome := by simp [hconn]
    by_cases hh : m.type = .hello
    · simp only [next, step, hconn, handle, hh, reduceCtorEq, if_false, if_true, handleHello]
      rfl
    by_cases hc : st.Current m
    · rw [next, step_served hopen hr hh hc, bootFor_serve]
    · obtain ⟨_, _, -, hstep⟩ := step_refused hopen hr hh hc
      rw [next, hstep]

end Coordinator

/-! ## Processes -/

namespace Worker

variable {o : IterationOrder GraphNodeId} {ops : FloatOps} {w w' : Worker} {m : ProtocolMessage}
  {resp : Option ProtocolMessage}

/-- A process keeps the descriptor and the executable of an artifact. -/
def Holds (w : Worker) (a : GraphArtifactId) : Prop :=
  (w.descs.lookup a).isSome ∧ (w.execs.lookup a).isSome

/-- A new process holds nothing. -/
theorem not_holds_start (wid : WorkerId) (pid : UInt64) (a : GraphArtifactId) :
    ¬ (start wid pid).Holds a := by
  rintro ⟨hd, -⟩
  exact absurd hd (by simp [start])

/-- The result of a capture that went well, of artifact `a`. -/
def Reports (r : ProtocolMessage) (a : GraphArtifactId) : Prop :=
  r.type = .captureResult ∧ r.status = .ok ∧
    ∃ g : GraphDescriptor, r.payload = capturePayload g ∧ g.artifactId = a

/-- What a message leaves of a process : its ids, and all it holds. A capture that it reports as
gone well is of an artifact that it now holds, and it holds nothing new but that. -/
structure Serves (w w' : Worker) (resp : Option ProtocolMessage) : Prop where
  workerId : w'.workerId = w.workerId
  bootId : w'.bootId = w.bootId
  keeps : ∀ a, w.Holds a → w'.Holds a
  gains : ∀ a, w'.Holds a → w.Holds a ∨ ∃ r, resp = some r ∧ Reports r a
  captured : ∀ r ∈ resp, r.type = .captureResult → r.status = .ok →
    ∃ g : GraphDescriptor, r.payload = capturePayload g ∧ w'.Holds g.artifactId

theorem holds_insert {a b : GraphArtifactId} {g : GraphDescriptor} {exec : CpuGraph} :
    ({ w with descs := w.descs.insert b g, execs := w.execs.insert b exec } : Worker).Holds a ↔
      a = b ∨ w.Holds a := by
  unfold Holds
  by_cases hab : a = b
  · subst hab
    simp [AList.lookup_insert]
  · simp [hab, AList.lookup_insert_ne hab]

theorem serves_handleCapture (hm : m.type = .captureInstruct) :
    w.Serves (w.handleCapture o ops m).1 (some (w.handleCapture o ops m).2) := by
  have hne : ProtocolStatus.captureFailed ≠ .ok := by decide
  have hfailed : w.Serves w (some { w.response m with status := .captureFailed }) := by
    refine ⟨rfl, rfl, fun _ h => h, fun _ => .inl, fun r hr _ hok => ?_⟩
    obtain rfl := Option.some.inj hr
    exact absurd hok hne
  unfold handleCapture
  split
  · exact hfailed
  · split
    · exact hfailed
    · rename_i g exec hcap
      refine ⟨rfl, rfl, fun a h => holds_insert.mpr (.inr h), fun a h => ?_, fun r hr _ _ => ?_⟩
      · rcases holds_insert.mp h with rfl | hold
        · exact .inr ⟨_, rfl, by simp [response, hm], rfl, g, rfl, rfl⟩
        · exact .inl hold
      · obtain rfl := Option.some.inj hr
        exact ⟨g, rfl, holds_insert.mpr (.inl rfl)⟩

theorem serves_of_receive (h : w.receive o ops m = some (w', resp)) : w.Serves w' resp := by
  have hsame : w.Serves w none := ⟨rfl, rfl, fun _ h => h, fun _ => .inl, nofun⟩
  unfold receive at h
  split_ifs at h
  · split at h
    · cases h
    · obtain ⟨rfl, rfl⟩ := Prod.mk.inj (Option.some.inj h)
      rename_i hm
      exact serves_handleCapture hm
    · rename_i hm
      obtain ⟨r, hr, heq⟩ := Option.map_eq_some_iff.mp h
      obtain ⟨rfl, rfl⟩ := Prod.mk.inj heq
      refine ⟨rfl, rfl, fun _ h => h, fun _ => .inl, fun r' hr' hcap => ?_⟩
      obtain rfl := Option.some.inj hr'
      rcases (handleReplay_echoes hm hr).type with ⟨hinst, -⟩ | ⟨-, hreplay⟩
      · cases hinst.symm.trans hm
      · cases hreplay.symm.trans hcap
    · obtain ⟨rfl, rfl⟩ := Prod.mk.inj (Option.some.inj h)
      exact hsame
  · obtain ⟨rfl, rfl⟩ := Prod.mk.inj (Option.some.inj h)
    exact ⟨rfl, rfl, fun _ h => h, fun _ => .inl, nofun⟩

end Worker

namespace Fleet

variable {o : IterationOrder GraphNodeId} {ops : FloatOps} {f : Fleet} {e : Event}
  {evs : List Event}

/-- A process at the far end was just launched, or it was there before and has read at most a
message, to which it may have responded. -/
theorem worker_step {s : Sock} {w' : Worker} (h : (f.step o ops e).peers s = .worker w') :
    (f.coord.conns s = none ∧ ∃ wid pid, e = .launch s wid pid ∧ w' = .start wid pid) ∨
    ∃ w resp, f.peers s = .worker w ∧ w.Serves w' resp ∧ ∀ r, resp = some r →
      ∃ i q, e = .work i ∧ f.instructs[i]? = some q ∧ q.sock = s ∧
        w.receive o ops q.msg = some (w', some r) := by
  rcases peers_step h nofun with
    ⟨hconn, hnew⟩ | ⟨-, hold | ⟨w, w'', hold, hx, i, q, resp, he, hq, hsock, hrecv⟩⟩
  · rcases hnew with ⟨-, hx⟩ | ⟨wid, pid, he, hx⟩
    · cases hx
    · exact .inl ⟨hconn, wid, pid, he, Peer.worker.inj hx⟩
  · exact .inr ⟨w', none, hold, ⟨rfl, rfl, fun _ h => h, fun _ => .inl, nofun⟩, nofun⟩
  · obtain rfl := Peer.worker.inj hx
    refine .inr ⟨w, resp, hold, Worker.serves_of_receive hrecv, ?_⟩
    rintro r rfl
    exact ⟨i, q, he, hq, hsock, hrecv⟩

variable (o ops e) in
/-- What an event does to the coordinator's tables of workers : nothing, unless a worker joins or a
connection closes. -/
theorem roster_step (hsock : ∀ wid ∈ f.coord.workerConnected, (f.coord.workerSock wid).isSome) :
    (f.coord.Settled (f.step o ops e).coord ∧ (f.step o ops e).coord.bootFor = f.coord.bootFor ∧
      ∀ s, e = .close s → f.coord.conns s = none) ∨
    (∃ s c m, f.input e = some (.message s m) ∧ f.coord.Joins s c m ∧
      (f.step o ops e).coord = f.coord.next (.message s m)) ∨
    ∃ s c, e = .close s ∧ f.coord.conns s = some c ∧
      (f.step o ops e).coord = f.coord.next (.close s) := by
  rcases hin : f.input e with _ | ev
  · have hcoord : (f.step o ops e).coord = f.coord := by simp [step, hin]
    rw [hcoord]
    refine .inl ⟨⟨rfl, rfl, rfl⟩, rfl, ?_⟩
    rintro s rfl
    cases hin
  rw [step_coord_of_input hin]
  by_cases hclose : ∃ s c, ev = .close s ∧ f.coord.conns s = some c
  · obtain ⟨s, c, rfl, hc⟩ := hclose
    exact .inr (.inr ⟨s, c, input_close hin, hc, rfl⟩)
  by_cases hjoin : ∃ s c m, ev = .message s m ∧ f.coord.Joins s c m
  · obtain ⟨s, c, m, rfl, hj⟩ := hjoin
    exact .inr (.inl ⟨s, c, m, rfl, hj, rfl⟩)
  · have hno : ∀ s c m, ev = .message s m → ¬ f.coord.Joins s c m :=
      fun s c m hev hj => hjoin ⟨s, c, m, hev, hj⟩
    refine .inl ⟨Coordinator.settled_next hsock (fun s c hev hc => hclose ⟨s, c, hev, hc⟩) hno,
      Coordinator.bootFor_next hno, ?_⟩
    rintro s rfl
    by_contra hsome
    obtain ⟨c, hc⟩ := Option.ne_none_iff_exists'.mp hsome
    exact hclose ⟨s, c, (Option.some.inj hin).symm, hc⟩

/-! ## Crews -/

/-- `who` names the process behind each connection : the ids of the one last launched there. -/
structure Crew (who : Sock → Option (WorkerId × WorkerBootId)) (f : Fleet) : Prop where
  worker : ∀ s w, f.peers s = .worker w → who s = some (w.workerId, w.bootId)
  client : ∀ s, f.peers s = .client → who s = none
  register : ∀ p ∈ f.replies, p.msg.type = .register →
    who p.sock = some (p.msg.workerId, p.msg.workerBoot)
  role : ∀ s wid, f.coord.roleAt s = some wid → wid ∈ f.coord.workerConnected ∧
    f.coord.workerSock wid = some s ∧ who s = some (wid, f.coord.bootFor wid)
  connected : ∀ wid ∈ f.coord.workerConnected, ∃ s, f.coord.roleAt s = some wid
  unique : ∀ s t x, who s = some x → who t = some x → s = t
  boot : ∀ s wid, who s ≠ some (wid, 0)

/-- The ids of the processes launched in a run. -/
def launches (evs : List Event) : List (WorkerId × WorkerBootId) :=
  evs.filterMap fun e => match e with
    | .launch _ wid pid => some (wid, (Worker.start wid pid).bootId)
    | _ => none

/-- The crew after an event : a handle that is accepted has a new process, or a client. -/
def nextCrew (f : Fleet) (who : Sock → Option (WorkerId × WorkerBootId)) :
    Event → Sock → Option (WorkerId × WorkerBootId)
  | .launch s wid pid =>
    if (f.coord.conns s).isSome then who
    else Function.update who s (some (wid, (Worker.start wid pid).bootId))
  | .connect s => if (f.coord.conns s).isSome then who else Function.update who s none
  | _ => who

variable {who : Sock → Option (WorkerId × WorkerBootId)}

theorem Crew.sighted (h : f.Crew who) :
    ∀ wid ∈ f.coord.workerConnected, (f.coord.workerSock wid).isSome := by
  intro wid hwid
  obtain ⟨s, hs⟩ := h.connected wid hwid
  simp [(h.role s wid hs).2.1]

/-- Boot ids are odd. -/
theorem bootId_start_ne_zero (wid : WorkerId) (pid : UInt64) :
    (Worker.start wid pid).bootId ≠ 0 := by
  intro h
  have hbit := congrArg (fun x : UInt64 => x.toBitVec.getLsbD 0) h
  simp [Worker.start] at hbit

/-- Of an open connection the crew stays. -/
theorem nextCrew_of_open {s : Sock} (h : (f.coord.conns s).isSome) : f.nextCrew who e s = who s := by
  have hne : ∀ {t x}, ¬ (f.coord.conns t).isSome → Function.update who t x s = who s := by
    rintro t x ht
    refine Function.update_of_ne ?_ _ _
    rintro rfl
    exact ht h
  cases e with
  | launch t wid pid =>
    simp only [nextCrew]
    split_ifs with ht
    · rfl
    · exact hne ht
  | connect t =>
    simp only [nextCrew]
    split_ifs with ht
    · rfl
    · exact hne ht
  | _ => rfl

/-- A crew is the old one, or the process launched just now. -/
theorem nextCrew_cases (f : Fleet) (who : Sock → Option (WorkerId × WorkerBootId)) (e : Event)
    (s : Sock) : f.nextCrew who e s = who s ∨ f.nextCrew who e s = none ∨
    ∃ wid pid, e = .launch s wid pid ∧
      f.nextCrew who e s = some (wid, (Worker.start wid pid).bootId) := by
  cases e with
  | launch t wid pid =>
    simp only [nextCrew]
    split_ifs
    · exact .inl rfl
    · by_cases hst : s = t
      · subst hst
        exact .inr (.inr ⟨wid, pid, rfl, Function.update_self ..⟩)
      · exact .inl (Function.update_of_ne hst ..)
  | connect t =>
    simp only [nextCrew]
    split_ifs
    · exact .inl rfl
    · by_cases hst : s = t
      · subst hst
        exact .inr (.inl (Function.update_self ..))
      · exact .inl (Function.update_of_ne hst ..)
  | _ => exact .inl rfl

theorem nextCrew_launch {s : Sock} {wid : WorkerId} {pid : UInt64} (h : f.coord.conns s = none) :
    f.nextCrew who (.launch s wid pid) s = some (wid, (Worker.start wid pid).bootId) := by
  simp [nextCrew, h]

theorem nextCrew_connect {s : Sock} (h : f.coord.conns s = none) :
    f.nextCrew who (.connect s) s = none := by
  simp [nextCrew, h]

/-- A registration comes from the process behind the connection. -/
theorem Crew.who_of_joins (h : f.Crew who)
    (hclient : ∀ s m, e = .client s m → m.type ≠ .register) {s : Sock} {c : Conn}
    {m : ProtocolMessage} (hin : f.input e = some (.message s m)) (hj : f.coord.Joins s c m) :
    who s = some (m.workerId, m.workerBoot) ∧ f.nextCrew who e = who := by
  rcases input_message hin with ⟨rfl, -⟩ | ⟨i, p, rfl, hp, rfl, rfl⟩
  · exact absurd hj.type (hclient _ _ rfl)
  · exact ⟨h.register p (List.mem_of_getElem? hp) hj.type, rfl⟩

/-- No other connection is registered under the id of a worker that joins. -/
theorem Crew.eq_of_joins (h : f.Crew who) {s t : Sock} {c : Conn} {m : ProtocolMessage}
    (hwho : who s = some (m.workerId, m.workerBoot)) (hj : f.coord.Joins s c m)
    (ht : f.coord.roleAt t = some m.workerId) : t = s := by
  obtain ⟨hconn, -, hwho'⟩ := h.role t m.workerId ht
  have hboot : f.coord.bootFor m.workerId ≠ 0 := fun hzero => h.boot t m.workerId (hzero ▸ hwho')
  by_contra hne
  refine hj.boot ⟨hconn, hboot, fun heq => hne (h.unique t s _ hwho' ?_)⟩
  rw [hwho, heq]

theorem isSome_of_roleAt {st : Coordinator} {s : Sock} {wid : WorkerId}
    (h : st.roleAt s = some wid) : (st.conns s).isSome := by
  obtain ⟨c, hc, -⟩ := Option.bind_eq_some_iff.mp h
  simp [hc]

/-- The tables of workers match the crew after an event. -/
theorem Crew.roster_step (h : f.Crew who)
    (hclient : ∀ s m, e = .client s m → m.type ≠ .register) :
    (∀ s wid, (f.step o ops e).coord.roleAt s = some wid →
      wid ∈ (f.step o ops e).coord.workerConnected ∧
        (f.step o ops e).coord.workerSock wid = some s ∧
        f.nextCrew who e s = some (wid, (f.step o ops e).coord.bootFor wid)) ∧
      ∀ wid ∈ (f.step o ops e).coord.workerConnected,
        ∃ s, (f.step o ops e).coord.roleAt s = some wid := by
  rcases Fleet.roster_step o ops e h.sighted with
    ⟨hset, hboot, -⟩ | ⟨s, c, m, hin, hj, hnext⟩ | ⟨s, c, rfl, hc, hnext⟩
  · rw [hset.roleAt, hset.workerConnected, hset.workerSock, hboot]
    refine ⟨fun s wid hrole => ?_, h.connected⟩
    rw [nextCrew_of_open (isSome_of_roleAt hrole)]
    exact h.role s wid hrole
  · obtain ⟨hwho, hcrew⟩ := h.who_of_joins hclient hin hj
    have hrole := hj.roleAt_next
    have hmem : ∀ wid, wid ∈ (f.coord.next (.message s m)).workerConnected ↔
        wid = m.workerId ∨ wid ∈ f.coord.workerConnected := by
      intro wid
      rw [hj.next_eq]
      exact List.mem_insert_iff
    rw [hnext, hcrew, hrole]
    constructor
    · intro t wid ht
      by_cases hts : t = s
      · subst hts
        rw [Function.update_self] at ht
        obtain rfl := Option.some.inj ht
        refine ⟨(hmem _).mpr (.inl rfl), ?_, ?_⟩
        · rw [hj.next_eq]
          exact Function.update_self ..
        · rw [hwho, hj.next_eq]
          simp [Coordinator.bootFor]
      · rw [Function.update_of_ne hts] at ht
        have hne : wid ≠ m.workerId := by
          rintro rfl
          exact hts (h.eq_of_joins hwho hj ht)
        obtain ⟨hconn, hsock, hwho'⟩ := h.role t wid ht
        refine ⟨(hmem _).mpr (.inr hconn), ?_, ?_⟩
        · rw [hj.next_eq]
          exact (Function.update_of_ne hne ..).trans hsock
        · rw [hwho', hj.next_eq]
          simp [Coordinator.bootFor, Function.update_of_ne hne]
    · intro wid hwid
      by_cases hne : wid = m.workerId
      · exact ⟨s, by rw [Function.update_self, hne]⟩
      · obtain ⟨t, ht⟩ := h.connected wid (((hmem wid).mp hwid).resolve_left hne)
        have hts : t ≠ s := by
          rintro rfl
          -- the ids of the process are those it registers with
          have := (h.role t wid ht).2.2.symm.trans hwho
          simp only [Option.some.injEq, Prod.mk.injEq] at this
          exact hne this.1
        exact ⟨t, by rwa [Function.update_of_ne hts]⟩
  · rw [hnext, Coordinator.roleAt_close hc]
    have hsock : (f.coord.next (.close s)).workerSock = f.coord.workerSock := by
      rw [Coordinator.next_close hc]
    have hboot : (f.coord.next (.close s)).bootFor = f.coord.bootFor :=
      Coordinator.bootFor_next fun _ _ _ hev => by cases hev
    rw [hsock, hboot]
    constructor
    · intro t wid ht
      have hts : t ≠ s := by
        rintro rfl
        rw [Function.update_self] at ht
        cases ht
      rw [Function.update_of_ne hts] at ht
      obtain ⟨hconn, hsock, hwho⟩ := h.role t wid ht
      refine ⟨(Coordinator.mem_connected_close hc).mpr ⟨hconn, fun hs => hts ?_⟩, hsock, hwho⟩
      exact Option.some.inj (hsock.symm.trans (h.role s wid hs).2.1)
    · intro wid hwid
      obtain ⟨hconn, hs⟩ := (Coordinator.mem_connected_close hc).mp hwid
      obtain ⟨t, ht⟩ := h.connected wid hconn
      refine ⟨t, ?_⟩
      rwa [Function.update_of_ne]
      rintro rfl
      exact hs ht

/-- A connection stays registered until it closes. -/
theorem Crew.roleAt_step (h : f.Crew who)
    (hclient : ∀ s m, e = .client s m → m.type ≠ .register) {s : Sock} {wid : WorkerId}
    (hrole : f.coord.roleAt s = some wid) (he : e ≠ .close s) :
    (f.step o ops e).coord.roleAt s = some wid := by
  rcases Fleet.roster_step o ops e h.sighted with
    ⟨hset, -⟩ | ⟨t, c, m, hin, hj, hnext⟩ | ⟨t, c, rfl, hc, hnext⟩
  · rw [hset.roleAt, hrole]
  · rw [hnext, hj.roleAt_next]
    by_cases hst : s = t
    · subst hst
      have hids := (h.role s wid hrole).2.2.symm.trans (h.who_of_joins hclient hin hj).1
      simp only [Option.some.injEq, Prod.mk.injEq] at hids
      rw [Function.update_self, hids.1]
    · rw [Function.update_of_ne hst, hrole]
  · rw [hnext, Coordinator.roleAt_close hc, Function.update_of_ne, hrole]
    rintro rfl
    exact he rfl

/-- A worker is connected that was before, or that joins. -/
theorem Crew.connected_step (h : f.Crew who) {wid : WorkerId}
    (hwid : wid ∈ (f.step o ops e).coord.workerConnected) :
    (wid ∈ f.coord.workerConnected ∧ ∀ s, f.coord.roleAt s = some wid → e ≠ .close s) ∨
    ∃ s c m, f.input e = some (.message s m) ∧ f.coord.Joins s c m ∧ m.workerId = wid := by
  rcases Fleet.roster_step o ops e h.sighted with
    ⟨hset, -, hclose⟩ | ⟨t, c, m, hin, hj, hnext⟩ | ⟨t, c, rfl, hc, hnext⟩
  · rw [hset.workerConnected] at hwid
    refine .inl ⟨hwid, fun s hs he => ?_⟩
    have hopen := isSome_of_roleAt hs
    rw [hclose s he] at hopen
    cases hopen
  · rw [hnext, hj.next_eq] at hwid
    rcases List.mem_insert_iff.mp hwid with rfl | hwid
    · exact .inr ⟨t, c, m, hin, hj, rfl⟩
    · refine .inl ⟨hwid, ?_⟩
      rintro s hs rfl
      cases hin
  · rw [hnext] at hwid
    obtain ⟨hold, hrole⟩ := (Coordinator.mem_connected_close hc).mp hwid
    refine .inl ⟨hold, ?_⟩
    rintro s hs ⟨⟩
    exact hrole hs

/-- One event keeps the crew, unless a client registers or a process has the ids of another. -/
theorem Crew.after_step (h : f.Crew who) (hlinked : f.Linked)
    (hclient : ∀ s m, e = .client s m → m.type ≠ .register)
    (hnew : ∀ s wid pid, e = .launch s wid pid →
      ∀ t, who t ≠ some (wid, (Worker.start wid pid).bootId)) :
    (f.step o ops e).Crew (f.nextCrew who e) where
  worker s w hw := by
    rcases worker_step hw with ⟨hconn, wid, pid, rfl, rfl⟩ | ⟨w₀, resp, hold, hserves, -⟩
    · exact nextCrew_launch hconn
    · rw [nextCrew_of_open (hlinked.peers s (by rw [hold]; nofun)), hserves.workerId,
        hserves.bootId, h.worker s w₀ hold]
  client s hs := by
    rcases peers_step hs nofun with ⟨hconn, ⟨rfl, -⟩ | ⟨wid, pid, -, hx⟩⟩ |
      ⟨-, hold | ⟨w, w', -, hx, -⟩⟩
    · exact nextCrew_connect hconn
    · cases hx
    · rw [nextCrew_of_open (hlinked.peers s (by rw [hold]; nofun)), h.client s hold]
    · cases hx
  register p hp htype := by
    rcases mem_replies hp with ⟨hold, -⟩ | ⟨wid, pid, rfl, hconn, -, -, hmsg⟩ |
      ⟨q, -, -, -, hechoes, -⟩
    · rw [nextCrew_of_open (hlinked.replies p hold), h.register p hold htype]
    · rw [nextCrew_launch hconn, hmsg]
      rfl
    · rcases hechoes.type with ⟨-, hres⟩ | ⟨-, hres⟩ <;> cases hres.symm.trans htype
  role := (h.roster_step hclient).1
  connected := (h.roster_step hclient).2
  unique s t x hs ht := by
    rcases nextCrew_cases f who e s with hs' | hs' | ⟨wid, pid, he, hs'⟩ <;>
      rcases nextCrew_cases f who e t with ht' | ht' | ⟨wid', pid', he', ht'⟩
    · exact h.unique s t x (hs' ▸ hs) (ht' ▸ ht)
    · rw [ht'] at ht
      cases ht
    · rw [ht', Option.some.injEq] at ht
      exact absurd (hs'.symm.trans (ht ▸ hs)) (hnew t wid' pid' he' s)
    · rw [hs'] at hs
      cases hs
    · rw [hs'] at hs
      cases hs
    · rw [hs'] at hs
      cases hs
    · rw [hs', Option.some.injEq] at hs
      exact absurd (ht'.symm.trans (hs ▸ ht)) (hnew s wid pid he t)
    · rw [ht'] at ht
      cases ht
    · cases he.symm.trans he'
      rfl
  boot s wid hs := by
    rcases nextCrew_cases f who e s with hs' | hs' | ⟨wid', pid, -, hs'⟩
    · exact h.boot s wid (hs' ▸ hs)
    · rw [hs'] at hs
      cases hs
    · rw [hs', Option.some.injEq, Prod.mk.injEq] at hs
      exact bootId_start_ne_zero wid' pid hs.2

theorem launches_concat (evs : List Event) (e : Event) :
    launches (evs ++ [e]) = launches evs ++ launches [e] :=
  List.filterMap_append ..

/-- With different ids, a process that is launched is none of the crew. -/
theorem launched_new (hboots : (launches (evs ++ [e])).Nodup)
    (hmem : ∀ s x, who s = some x → x ∈ launches evs) {s : Sock} {wid : WorkerId} {pid : UInt64}
    (he : e = .launch s wid pid) (t : Sock) :
    who t ≠ some (wid, (Worker.start wid pid).bootId) := by
  subst he
  rw [launches_concat] at hboots
  intro ht
  exact (List.nodup_append.mp hboots).2.2 _ (hmem t _ ht) _ (by simp [launches]) rfl

/-- The crew of a run in which no client registers and no process has the ids of another. -/
theorem crew_run (evs : List Event) (hclients : ClientsAvoid [.register] evs)
    (hboots : (launches evs).Nodup) :
    ∃ who, (run o ops evs).Crew who ∧ ∀ s x, who s = some x → x ∈ launches evs := by
  induction evs using List.reverseRecOn with
  | nil => exact ⟨fun _ => none, ⟨nofun, nofun, nofun, nofun, nofun, nofun, nofun⟩, nofun⟩
  | append_singleton evs e ih =>
    have hold : (launches evs).Nodup := (launches_concat evs e ▸ hboots).of_append_left
    obtain ⟨who, hcrew, hmem⟩ := ih (fun s m hm => hclients s m (List.mem_append_left _ hm)) hold
    have hclient : ∀ s m, e = .client s m → m.type ≠ .register :=
      fun s m he => by simpa using hclients s m (by simp [he])
    have hrun : run o ops (evs ++ [e]) = (run o ops evs).step o ops e := after_concat ..
    refine ⟨(run o ops evs).nextCrew who e, ?_, fun s x hs => ?_⟩
    · rw [hrun]
      exact hcrew.after_step (linked_run evs) hclient fun s wid pid => launched_new hboots hmem
    · rw [launches_concat]
      rcases nextCrew_cases (run o ops evs) who e s with hs' | hs' | ⟨wid, pid, rfl, hs'⟩
      · exact List.mem_append_left _ (hmem s x (hs' ▸ hs))
      · rw [hs'] at hs
        cases hs
      · rw [hs', Option.some.injEq] at hs
        exact List.mem_append_right _ (by simp [launches, hs])

end Fleet

end GraphCache
