import GraphCache.Crews
import GraphCache.Replayable

/-!
# Published graphs and their workers

An entry names the worker that captured its graph by the worker id, without the boot. Where no
worker registers while an entry under its id is live, the entry keeps naming a graph that the
process on record captured and, as long as it runs, holds (`published_held`).

A restarted worker is accepted under its old id, and the entries of the process before it stay :
`restarted` is a run with a live entry that the process on record never captured.
-/

namespace GraphCache

open History

namespace Fleet

variable {o : IterationOrder GraphNodeId} {ops : FloatOps} {f : Fleet} {e : Event} {p : Packet}
  {evs : List Event} {who : Sock → Option (WorkerId × WorkerBootId)}

/-- A capture in flight : its instruction, or its result. -/
def Capturing (f : Fleet) (p : Packet) : Prop :=
  p ∈ f.instructs ∧ p.msg.type = .captureInstruct ∨ p ∈ f.replies ∧ p.msg.type = .captureResult

/-- No worker registers under an id that a live entry names, and no capture is dispatched under the
attempt id of one in flight. -/
structure Orderly (f : Fleet) (e : Event) : Prop where
  restarts : ∀ s c m, f.input e = some (.message s m) → f.coord.Joins s c m →
    ∀ k ent, f.coord.Live k ent → ent.workerId ≠ m.workerId
  attempts : ∀ ev a pc, f.input e = some ev → Coordinator.DispatchesAs a pc f.coord ev →
    ∀ p, f.Capturing p → p.msg.captureAttempt ≠ a

/-- No process of a live entry has ended with the coordinator not knowing : behind the connection
of each connected worker that a live entry names, there is one. -/
def Attended (f : Fleet) : Prop :=
  ∀ k ent s, f.coord.Live k ent → ent.workerId ∈ f.coord.workerConnected →
    f.coord.workerSock ent.workerId = some s → f.peers s ≠ .gone

/-- The process behind the connection `s` has worker id `wid` and the boot on record, and it holds
artifact `a`. -/
def HeldAt (f : Fleet) (s : Sock) (wid : WorkerId) (a : GraphArtifactId) : Prop :=
  ∃ w, f.peers s = .worker w ∧ w.workerId = wid ∧ w.bootId = f.coord.bootFor wid ∧ w.Holds a

/-- The process behind the connection `s` carries out an instruction, and reports the capture of
artifact `a`. -/
def CapturesAt (o : IterationOrder GraphNodeId) (ops : FloatOps) (s : Sock) (a : GraphArtifactId)
    (f : Fleet) (e : Event) : Prop :=
  ∃ i q w w' r, e = .work i ∧ f.instructs[i]? = some q ∧ q.sock = s ∧ f.peers s = .worker w ∧
    w.receive o ops q.msg = some (w', some r) ∧ Worker.Reports r a

/-- A process is launched on the handle `s`. -/
def LaunchesAt (s : Sock) (f : Fleet) (e : Event) : Prop :=
  f.coord.conns s = none ∧ ∃ wid pid, e = .launch s wid pid

/-- Every live entry of a connected worker names an artifact that the process of the worker and the
boot on record captured, since it was launched, and holds. -/
def PublishedHeld (o : IterationOrder GraphNodeId) (ops : FloatOps) (evs : List Event) : Prop :=
  ∀ k ent, (run o ops evs).coord.Live k ent →
    ent.workerId ∈ (run o ops evs).coord.workerConnected →
    ∃ s, (run o ops evs).coord.workerSock ent.workerId = some s ∧
      (run o ops evs).HeldAt s ent.workerId ent.artifact ∧
      Since (step o ops) {} (CapturesAt o ops s ent.artifact) (LaunchesAt s) evs

/-- What a process holds it has captured since it was launched. -/
theorem captured_of_holds {s : Sock} {w : Worker} {a : GraphArtifactId}
    (hw : (run o ops evs).peers s = .worker w) (hholds : w.Holds a) :
    Since (step o ops) {} (CapturesAt o ops s a) (LaunchesAt s) evs := by
  induction evs using List.reverseRecOn generalizing w with
  | nil => cases hw
  | append_singleton evs e ih =>
    have hrun : run o ops (evs ++ [e]) = (run o ops evs).step o ops e := after_concat ..
    rw [hrun] at hw
    rcases worker_step hw with ⟨-, wid, pid, -, rfl⟩ | ⟨w₀, resp, hold, hserves, hresp⟩
    · exact absurd hholds (Worker.not_holds_start wid pid a)
    · rcases hserves.gains a hholds with hbefore | ⟨r, hr, hreports⟩
      · refine since_concat.mpr (.inr ⟨ih hold hbefore, ?_⟩)
        rintro ⟨hclosed, -⟩
        have hopen := (linked_run evs).peers s (by rw [hold]; nofun)
        exact absurd hopen (by rw [hclosed]; nofun)
      · obtain ⟨i, q, he, hq, hsock, hrecv⟩ := hresp r hr
        exact since_concat.mpr (.inl ⟨i, q, w₀, w, r, he, hq, hsock, hold, hrecv, hreports⟩)

/-! ## Captures in flight -/

/-- A capture in flight is on the connection of the worker that it was dispatched to. -/
def Assigned (f : Fleet) (p : Packet) : Prop :=
  ∃ wid, f.coord.roleAt p.sock = some wid ∧
    ∀ pc, f.coord.pending p.msg.captureAttempt = some pc → pc.workerId = wid

theorem not_mem_instructs_close : p ∉ (f.step o ops (.close p.sock)).instructs := by
  have hsent : f.sent (.close p.sock) = none := by
    simp only [sent, input, Option.bind_some, Coordinator.sent, Coordinator.step]
    split <;> rfl
  simp [step, surroundings, drop, posted, hsent]

/-- A capture in flight was in flight before, or is dispatched now. -/
theorem capturing_step (h : (f.step o ops e).Capturing p) :
    (∃ q, f.Capturing q ∧ q.sock = p.sock ∧ q.msg.captureAttempt = p.msg.captureAttempt ∧
      e ≠ .close p.sock) ∨
    ∃ s m g wl wid, f.input e = some (.message s m) ∧ f.coord.Dispatches s m g wl wid ∧
      p.sock = (f.coord.workerSock wid).getD 0 ∧
      p.msg.captureAttempt = f.coord.captureCounter + 1 := by
  rcases h with ⟨hp, htype⟩ | ⟨hp, htype⟩
  · have hclose : e ≠ .close p.sock := by
      rintro rfl
      exact not_mem_instructs_close hp
    rcases mem_instructs hp with hp | hp
    · exact .inl ⟨p, .inl ⟨hp, htype⟩, rfl, rfl, hclose⟩
    · obtain ⟨hsent, -, -⟩ := mem_posted hp
      obtain ⟨ev, hin, hsent⟩ := Option.bind_eq_some_iff.mp hsent
      obtain ⟨s, m, g, wl, wid, rfl, hd, hmsg⟩ := Coordinator.dispatches_of_sent hsent htype
      rw [Coordinator.sent, hd.step_eq] at hsent
      have hsock : (f.coord.workerSock wid).getD 0 = p.sock := (Prod.mk.inj (Option.some.inj hsent)).1
      exact .inr ⟨s, m, g, wl, wid, hin, hd, hsock.symm, by rw [hmsg]; rfl⟩
  · rcases mem_replies hp with ⟨hp, he⟩ | ⟨-, -, -, -, hreg, -⟩ |
      ⟨q, hq, hsock, -, hechoes, i, -, rfl, -⟩
    · exact .inl ⟨p, .inr ⟨hp, htype⟩, rfl, rfl, he⟩
    · cases hreg.symm.trans htype
    · rcases hechoes.type with ⟨hinst, -⟩ | ⟨-, hreplay⟩
      · exact .inl ⟨q, .inl ⟨hq, hinst⟩, hsock.symm, hechoes.captureAttempt.symm, by simp⟩
      · cases hreplay.symm.trans htype

/-- Captures in flight stay with their workers. -/
theorem Assigned.after_step (hcrew : f.Crew who)
    (hclient : ∀ s m, e = .client s m → m.type ≠ .register) (horderly : f.Orderly e)
    (h : ∀ p, f.Capturing p → f.Assigned p) (hp : (f.step o ops e).Capturing p) :
    (f.step o ops e).Assigned p := by
  rcases capturing_step hp with ⟨q, hq, hsock, hattempt, he⟩ |
    ⟨s, m, g, wl, wid, hin, hd, hsock, hattempt⟩
  · obtain ⟨wid, hrole, hpending⟩ := h q hq
    refine ⟨wid, hcrew.roleAt_step hclient (hsock ▸ hrole) he, fun pc hpc => hpending pc ?_⟩
    rw [hattempt]
    rcases hin : f.input e with _ | ev
    · simpa [step, hin] using hpc
    · rw [step_coord_of_input hin] at hpc
      rcases Coordinator.pending_next hpc with hd | ⟨hold, -⟩
      · exact absurd hattempt (horderly.attempts ev _ pc hin hd q hq)
      · exact hold
  · have hconn : wid ∈ f.coord.workerConnected := List.min?_mem hd.worker
    obtain ⟨t, hrole⟩ := hcrew.connected wid hconn
    have ht : p.sock = t := by rw [hsock, (hcrew.role t wid hrole).2.1, Option.getD_some]
    refine ⟨wid, ?_, fun pc hpc => ?_⟩
    · rw [ht]
      refine hcrew.roleAt_step hclient hrole ?_
      rintro rfl
      cases hin
    · have hnew := Coordinator.DispatchesAs.pending ⟨s, m, g, wl, wid, rfl, hd, hattempt, rfl⟩
      rw [step_coord_of_input hin, hnew] at hpc
      rw [← Option.some.inj hpc]

/-! ## What is kept -/

/-- The process behind `s` holds artifact `a`, unless it has ended. -/
def Kept (f : Fleet) (s : Sock) (wid : WorkerId) (a : GraphArtifactId) : Prop :=
  f.peers s = .gone ∨ f.HeldAt s wid a

/-- A process that is behind a registered connection keeps what it holds. -/
theorem Kept.after_step {s : Sock} {wid : WorkerId} {a : GraphArtifactId} (h : f.Kept s wid a)
    (hcrew : f.Crew who) (hcrew' : (f.step o ops e).Crew (f.nextCrew who e))
    (hrole : f.coord.roleAt s = some wid)
    (hrole' : (f.step o ops e).coord.roleAt s = some wid) : (f.step o ops e).Kept s wid a := by
  have hopen := isSome_of_roleAt hrole
  have hboot : (f.step o ops e).coord.bootFor wid = f.coord.bootFor wid := by
    have hwho := (hcrew'.role s wid hrole').2.2
    rw [nextCrew_of_open hopen, (hcrew.role s wid hrole).2.2] at hwho
    simp only [Option.some.injEq, Prod.mk.injEq, true_and] at hwho
    exact hwho.symm
  cases hpeer : (f.step o ops e).peers s with
  | gone => exact .inl hpeer
  | client =>
    rcases peers_step hpeer nofun with ⟨hconn, -⟩ | ⟨-, hold | ⟨w, w', -, hx, -⟩⟩
    · simp [hconn] at hopen
    · rcases h with hgone | ⟨w, hw, -⟩
      · cases hold.symm.trans hgone
      · cases hold.symm.trans hw
    · cases hx
  | worker w' =>
    rcases worker_step hpeer with ⟨hconn, -⟩ | ⟨w, resp, hold, hserves, -⟩
    · simp [hconn] at hopen
    · rcases h with hgone | ⟨w₀, hw, hid, hbootid, hholds⟩
      · cases hold.symm.trans hgone
      · obtain rfl := Peer.worker.inj (hold.symm.trans hw)
        exact .inr ⟨w', hpeer, hserves.workerId.trans hid,
          (hserves.bootId.trans hbootid).trans hboot.symm, hserves.keeps a hholds⟩

/-- What stands behind the entries : captures are with their workers, a result that is in flight
is of a graph that its process has kept, and so is every live entry of a connected worker. -/
structure Vouched (f : Fleet) : Prop where
  assigned : ∀ p, f.Capturing p → f.Assigned p
  results : ∀ p ∈ f.replies, p.msg.type = .captureResult → p.msg.status = .ok →
    ∃ g : GraphDescriptor, p.msg.payload = Worker.capturePayload g ∧
      ∀ wid, f.coord.roleAt p.sock = some wid → f.Kept p.sock wid g.artifactId
  entries : ∀ k ent, f.coord.Live k ent → ent.workerId ∈ f.coord.workerConnected →
    ∃ s, f.coord.workerSock ent.workerId = some s ∧ f.Kept s ent.workerId ent.artifact

/-- A graph that is published is one that the process on record has kept. -/
theorem Vouched.kept_of_publishes (h : f.Vouched)
    (hclient : ∀ s m, e = .client s m → m.type ≠ .captureResult) {k : Str} {ent : Entry}
    {ev : Coordinator.Event} (hin : f.input e = some ev)
    (hpub : Coordinator.PublishesAs k ent f.coord ev) :
    ∃ s, f.coord.roleAt s = some ent.workerId ∧ e ≠ .close s ∧
      f.Kept s ent.workerId ent.artifact := by
  obtain ⟨s, m, pc, artifactHex, rfl, hp, -, rfl⟩ := hpub
  obtain ⟨i, p, rfl, hi, rfl, rfl⟩ := deliver_of_captureResult hclient hin hp.type
  have hmem := List.mem_of_getElem? hi
  obtain ⟨g, hpayload, hkept⟩ := h.results p hmem hp.type hp.status
  obtain ⟨wid, hrole, hpending⟩ := h.assigned p (.inr ⟨hmem, hp.type⟩)
  obtain rfl : pc.workerId = wid := hpending pc hp.pending
  have hart : artifactHex = g.artifactId.toStr := by
    refine Option.some.inj (hp.artifact.symm.trans ?_)
    rw [hpayload]
    exact decodeArtifact_toStr g.artifactId _
  refine ⟨p.sock, hrole, nofun, ?_⟩
  rw [hart, scanArtifact_toStr]
  exact hkept _ hrole

section

variable (hcrew : f.Crew who) (hcrew' : (f.step o ops e).Crew (f.nextCrew who e))
  (hclient : ∀ s m, e = .client s m → m.type ∉ [.register, .captureResult]) (h : f.Vouched)

include hcrew hcrew' hclient h

/-- A result in flight is of a graph that its process has just captured, or has kept. -/
theorem Vouched.results_step (hp : p ∈ (f.step o ops e).replies)
    (htype : p.msg.type = .captureResult) (hok : p.msg.status = .ok) :
    ∃ g : GraphDescriptor, p.msg.payload = Worker.capturePayload g ∧
      ∀ wid, (f.step o ops e).coord.roleAt p.sock = some wid →
        (f.step o ops e).Kept p.sock wid g.artifactId := by
  have hreg : ∀ s m, e = .client s m → m.type ≠ .register :=
    fun s m he hm => hclient s m he (by simp [hm])
  rcases mem_replies hp with ⟨hold, he⟩ | ⟨-, -, -, -, hregister, -⟩ |
    ⟨q, -, -, -, -, i, w, -, -, w', hrecv, hpeers⟩
  · obtain ⟨g, hpayload, hkept⟩ := h.results p hold htype hok
    refine ⟨g, hpayload, fun wid hrole' => ?_⟩
    obtain ⟨wid', hrole, -⟩ := h.assigned p (.inr ⟨hold, htype⟩)
    have hstays : (f.step o ops e).coord.roleAt p.sock = some wid' :=
      hcrew.roleAt_step hreg hrole he
    rw [hrole'] at hstays
    obtain rfl := Option.some.inj hstays
    exact (hkept wid hrole).after_step hcrew hcrew' hrole hrole'
  · cases hregister.symm.trans htype
  · obtain ⟨g, hpayload, hholds⟩ :=
      (Worker.serves_of_receive hrecv).captured p.msg rfl htype hok
    refine ⟨g, hpayload, fun wid hrole' => ?_⟩
    have hids := (hcrew'.worker p.sock w' hpeers).symm.trans (hcrew'.role p.sock wid hrole').2.2
    simp only [Option.some.injEq, Prod.mk.injEq] at hids
    exact .inr ⟨w', hpeers, hids.1, hids.2, hholds⟩

/-- A live entry of a connected worker was so before, or is published now. -/
theorem Vouched.entries_step (horderly : f.Orderly e) {k : Str} {ent : Entry}
    (hlive : (f.step o ops e).coord.Live k ent)
    (hconn : ent.workerId ∈ (f.step o ops e).coord.workerConnected) :
    ∃ s, (f.step o ops e).coord.workerSock ent.workerId = some s ∧
      (f.step o ops e).Kept s ent.workerId ent.artifact := by
  have hreg : ∀ s m, e = .client s m → m.type ≠ .register :=
    fun s m he hm => hclient s m he (by simp [hm])
  -- on a connection that stays registered, what was kept is kept
  suffices ∃ s, f.coord.roleAt s = some ent.workerId ∧ e ≠ .close s ∧
      f.Kept s ent.workerId ent.artifact by
    obtain ⟨s, hrole, he, hkept⟩ := this
    have hrole' : (f.step o ops e).coord.roleAt s = some ent.workerId :=
      hcrew.roleAt_step hreg hrole he
    exact ⟨s, (hcrew'.role s _ hrole').2.1, hkept.after_step hcrew hcrew' hrole hrole'⟩
  have hold : f.coord.Live k ent → ∃ s, f.coord.roleAt s = some ent.workerId ∧ e ≠ .close s ∧
      f.Kept s ent.workerId ent.artifact := by
    intro hlive
    rcases hcrew.connected_step hconn with ⟨hconn, hclose⟩ | ⟨s, c, m, hin, hj, hwid⟩
    · obtain ⟨s, hrole⟩ := hcrew.connected _ hconn
      obtain ⟨t, ht, hkept⟩ := h.entries k ent hlive hconn
      obtain rfl := Option.some.inj (ht.symm.trans (hcrew.role s _ hrole).2.1)
      exact ⟨t, hrole, hclose t hrole, hkept⟩
    · exact absurd hwid.symm (horderly.restarts s c m hin hj k ent hlive)
  rcases hin : f.input e with _ | ev
  · exact hold (by simpa [step, hin] using hlive)
  · rw [step_coord_of_input hin] at hlive
    rcases Coordinator.live_next hlive with hpub | ⟨hlive, -⟩
    · exact h.kept_of_publishes (fun s m he hm => hclient s m he (by simp [hm])) hin hpub
    · exact hold hlive

end

theorem vouched_run (evs : List Event) (hclients : ClientsAvoid [.register, .captureResult] evs)
    (hboots : (launches evs).Nodup) (horderly : Throughout (step o ops) {} Orderly evs) :
    (run o ops evs).Vouched := by
  induction evs using List.reverseRecOn with
  | nil =>
    refine ⟨?_, fun p hp => absurd hp List.not_mem_nil, ?_⟩
    · rintro p (⟨hp, -⟩ | ⟨hp, -⟩) <;> cases hp
    · rintro k ent ⟨hg, -⟩
      cases hg
  | append_singleton evs e ih =>
    obtain ⟨hevs, hlast⟩ := throughout_concat.mp horderly
    have hold : (launches evs).Nodup := (launches_concat evs e ▸ hboots).of_append_left
    have hclients' : ClientsAvoid [.register, .captureResult] evs :=
      fun s m hm => hclients s m (List.mem_append_left _ hm)
    have hclient : ∀ s m, e = .client s m → m.type ∉ [.register, .captureResult] :=
      fun s m he => hclients s m (by simp [he])
    have hreg : ∀ s m, e = .client s m → m.type ≠ .register :=
      fun s m he hm => hclient s m he (by simp [hm])
    have hrun : run o ops (evs ++ [e]) = (run o ops evs).step o ops e := after_concat ..
    obtain ⟨who, hcrew, hmem⟩ := crew_run evs
      (fun s m hm ht => hclients' s m hm (by simp [List.mem_singleton.mp ht])) hold
    have hcrew' : ((run o ops evs).step o ops e).Crew ((run o ops evs).nextCrew who e) :=
      hcrew.after_step (linked_run evs) hreg fun s wid pid => launched_new hboots hmem
    have hvouched := ih hclients' hold hevs
    rw [hrun]
    exact ⟨fun p => Assigned.after_step hcrew hreg hlast hvouched.assigned,
      fun p => hvouched.results_step hcrew hcrew' hclient,
      fun k ent => hvouched.entries_step hcrew hcrew' hclient hlast⟩

/-- As long as clients neither register nor report captures, no two processes share their ids, and
every event is orderly : in every state in which the processes are there, each live entry of a
connected worker names a graph that the process on record captured and holds. -/
theorem published_held (o : IterationOrder GraphNodeId) (ops : FloatOps) (evs : List Event)
    (hclients : ClientsAvoid [.register, .captureResult] evs) (hboots : (launches evs).Nodup)
    (horderly : Throughout (step o ops) {} Orderly evs) :
    ∀ pre post, evs = pre ++ post → (run o ops pre).Attended → PublishedHeld o ops pre := by
  rintro pre post rfl hattended k ent hlive hconn
  rw [launches, List.filterMap_append] at hboots
  have hvouched := vouched_run pre (fun s m hm => hclients s m (List.mem_append_left _ hm))
    hboots.of_append_left horderly.of_append
  obtain ⟨s, hs, hkept⟩ := hvouched.entries k ent hlive hconn
  rcases hkept with hgone | ⟨w, hw, hid, hboot, hholds⟩
  · exact absurd hgone (hattended k ent s hlive hconn hs)
  · exact ⟨s, hs, ⟨w, hw, hid, hboot, hholds⟩, captured_of_holds hw hholds⟩

/-- An event that is orderly at sight : no worker registers once a result has come in, and nothing
is looked up while a capture is in flight. -/
def calm (f : Fleet) (e : Event) : Bool :=
  match f.input e with
  | some (.message _ m) =>
    (m.type ≠ .register || f.log.all fun ev => match ev with
      | .message _ m => m.type ≠ .captureResult
      | _ => true) &&
    (m.type ≠ .lookup || f.instructs.all (·.msg.type ≠ .captureInstruct) &&
      f.replies.all (·.msg.type ≠ .captureResult))
  | _ => true

theorem orderly_of_calm (hcoord : f.coord = Coordinator.run f.log) (h : f.calm e = true) :
    f.Orderly e := by
  constructor
  · intro s c m hin hj k ent hlive
    simp only [calm, hin, Bool.and_eq_true, Bool.or_eq_true, hj.type] at h
    have hnone := not_publishes_of_log f.log fun s m hmem => by
      simpa using List.all_eq_true.mp (h.1.resolve_left (by simp)) _ hmem
    -- nothing is live, for nothing was published
    obtain ⟨pre, ev, post, hsplit, ⟨s, m, pc, artifactHex, hev, hpub, -⟩, -⟩ :=
      Coordinator.publishedSince_of_live f.log (hcoord ▸ hlive)
    exact absurd hpub (hnone pre ev post hsplit s m pc artifactHex hev)
  · rintro ev a pc hin ⟨s, m, g, wl, wid, rfl, hd, -, -⟩ p hp
    simp only [calm, hin, Bool.and_eq_true, Bool.or_eq_true, hd.type] at h
    obtain ⟨hinst, hrep⟩ := h.2.resolve_left (by simp)
    rcases hp with ⟨hp, htype⟩ | ⟨hp, htype⟩
    · simpa [htype] using List.all_eq_true.mp hinst p hp
    · simpa [htype] using List.all_eq_true.mp hrep p hp

/-- Every connected worker has its process : `Attended`, by a look at each. -/
def attended (f : Fleet) : Bool :=
  f.coord.workerConnected.all fun wid => (f.coord.workerSock wid).all fun s =>
    match f.peers s with
    | .gone => false
    | _ => true

theorem attended_of_all (h : f.attended = true) : f.Attended := by
  intro k ent s _ hconn hs hgone
  have hall := List.all_eq_true.mp h _ hconn
  simp [hs, hgone] at hall

set_option maxRecDepth 100000 in
theorem published_held_first :
    PublishedHeld (.insertion _) .unit (captureRun ++ [.deliver 0]) := by
  have hcalm : Throughout (step (.insertion _) .unit) {} (fun f e => f.calm e = true)
      (captureRun ++ [.deliver 0]) := by decide +kernel
  have hattended : (run (.insertion _) .unit (captureRun ++ [.deliver 0])).attended = true := by
    decide +kernel
  exact published_held _ _ _ (by decide) (by decide)
    (fun pre e post hsplit => orderly_of_calm (coord_eq pre) (hcalm pre e post hsplit)) _ []
    (List.append_nil _).symm (attended_of_all hattended)

/-! ## A worker restarts -/

/-- The graph of `captureRun` is published, its worker goes away, and a new process with the same
worker id registers. -/
def restartedRun : List Event :=
  captureRun ++ [.deliver 0, .close 1, .launch 1 7 6, .deliver 0]

/-- The fleet after it. -/
def restarted : Fleet := run (.insertion _) .unit restartedRun

set_option maxRecDepth 100000 in
/-- The entry is live under the key of its artifact, and the new process holds nothing. -/
theorem restarted_facts : ∃ k ent w, restarted.coord.Live k ent ∧
    ent.workerId ∈ restarted.coord.workerConnected ∧
    restarted.coord.workerSock ent.workerId = some 1 ∧ restarted.peers 1 = .worker w ∧
    w.descs.entries = [] := by
  have hlive : ((restarted.coord.graphs
      (artifactKey (str "4e665454ed9cf45c:06008474acab38c0"))).map fun ent =>
        decide (restarted.coord.invalidated
            (artifactKey (str "4e665454ed9cf45c:06008474acab38c0")) = false ∧
          ent.workerId ∈ restarted.coord.workerConnected ∧
          restarted.coord.workerSock ent.workerId = some 1)) = some true := by decide +kernel
  have hpeer : (restarted.peers 1).holdsNothing = true := by decide +kernel
  obtain ⟨ent, hent, hfacts⟩ := Option.map_eq_some_iff.mp hlive
  obtain ⟨hinvalidated, hconn, hsock⟩ := of_decide_eq_true hfacts
  cases hw : restarted.peers 1 with
  | worker w => exact ⟨_, ent, w, ⟨hent, hinvalidated⟩, hconn, hsock, rfl,
      by simpa [hw, Peer.holdsNothing] using hpeer⟩
  | client => simp [hw, Peer.holdsNothing] at hpeer
  | gone => simp [hw, Peer.holdsNothing] at hpeer

set_option maxRecDepth 100000 in
/-- With every process there, the live entry is of a graph that the process on record does not
hold. -/
theorem published_not_held :
    ¬ ∀ (o : IterationOrder GraphNodeId) (ops : FloatOps) (evs : List Event),
      ClientsAvoid [.register, .captureResult] evs → (launches evs).Nodup →
      (run o ops evs).Attended → PublishedHeld o ops evs := by
  intro h
  have hattended : restarted.attended = true := by decide +kernel
  have hheld := h (.insertion _) .unit restartedRun (by decide) (by decide)
    (attended_of_all hattended)
  obtain ⟨k, ent, w, hlive, hconn, hsock, hw, hempty⟩ := restarted_facts
  unfold restarted at hlive hconn hsock hw
  obtain ⟨s, hs, ⟨w', hw', -, -, hdescs, -⟩, -⟩ := hheld k ent hlive hconn
  obtain rfl := Option.some.inj (hs.symm.trans hsock)
  obtain rfl := Peer.worker.inj (hw'.symm.trans hw)
  simp [AList.lookup, hempty] at hdescs

end Fleet

end GraphCache
