import GraphCache.Fleet

/-!
# Completions

Where the captures of a fleet end up. `PendingCapture` records neither epoch nor cache generation,
so an invalidation is kept out of the graphs only by the generation that the instruction carries
and the worker echoes. As long as the generation has not come round to zero, a result that is
accepted was dispatched since the last `Invalidate` (`no_late_completion`). Generations are 64-bit
words, and 2 ^ 64 invalidations make an old one current again (`late_completion`).

A result that the authority checks refuse is answered to the worker, and its lookup stays
pending. One that they let through is answered on the handle of the client that asked : where its
connection was closed in the meantime, nobody gets the answer, or another client that was accepted
on the handle. `completion_resolves` says that these are the only ways to be left without one.
-/

namespace GraphCache

open History

namespace Coordinator

variable {st : Coordinator} {ev : Event} {evs : List Event}

/-- The number of `Invalidate`s that a run processes. -/
def invalidations (evs : List Event) : ℕ :=
  count next Invalidates {} evs

theorem invalidations_concat : invalidations (evs ++ [ev]) =
    invalidations evs + if (run evs).Invalidates ev then 1 else 0 := by
  rw [invalidations, invalidations, count_concat]

theorem cacheGen_eq (evs : List Event) :
    (run evs).cacheGen = UInt64.ofNat (1 + invalidations evs) := by
  induction evs using List.reverseRecOn with
  | nil => rfl
  | append_singleton evs ev ih =>
    rw [invalidations_concat, run, after_concat]
    by_cases hi : (run evs).Invalidates ev
    · obtain ⟨b, hnext⟩ := hi.next_eq
      rw [if_pos hi, hnext, ← Nat.add_assoc, UInt64.ofNat_add, ← ih]
      rfl
    · rw [if_neg hi, cacheGen_next hi, ih]
      rfl

/-- Message `m` carries the generation of a dispatch of its attempt; if that generation is still
the last one, the dispatch came after the last `Invalidate`. -/
def TiedToDispatch (evs : List Event) (m : ProtocolMessage) : Prop :=
  ∃ n ≤ invalidations evs, m.cacheGen = UInt64.ofNat (1 + n) ∧
    (n = invalidations evs →
      Since next {} (fun st ev => ∃ pc, DispatchesAs m.captureAttempt pc st ev) Invalidates evs)

theorem TiedToDispatch.concat {m : ProtocolMessage} (h : TiedToDispatch evs m) (ev : Event) :
    TiedToDispatch (evs ++ [ev]) m := by
  obtain ⟨n, hn, hgen, hsince⟩ := h
  by_cases hi : (run evs).Invalidates ev
  · refine ⟨n, ?_, hgen, ?_⟩ <;> rw [invalidations_concat, if_pos hi] <;> omega
  · refine ⟨n, ?_, hgen, ?_⟩ <;> rw [invalidations_concat, if_neg hi]
    · exact hn
    · exact fun heq => since_concat.mpr (.inr ⟨hsince heq, hi⟩)

/-- A capture instruction carries the generation under which it is sent. -/
theorem tiedToDispatch_of_sent {t : Sock} {inst : ProtocolMessage}
    (h : (run evs).sent ev = some (t, inst)) (htype : inst.type = .captureInstruct) :
    TiedToDispatch (evs ++ [ev]) inst := by
  obtain ⟨s, m, g, wl, wid, rfl, hd, rfl⟩ := dispatches_of_sent h htype
  refine ⟨invalidations evs, ?_, cacheGen_eq evs, fun _ => ?_⟩
  · rw [invalidations_concat]
    exact Nat.le_add_right _ _
  · exact since_concat.mpr (.inl ⟨_, s, m, g, wl, wid, rfl, hd, rfl, rfl⟩)

end Coordinator

namespace Fleet

variable {o : IterationOrder GraphNodeId} {ops : FloatOps} {f : Fleet} {e : Event}
  {evs : List Event}

/-- Captures in flight carry the generation of their dispatch. -/
structure Tied (f : Fleet) : Prop where
  instructs : ∀ p ∈ f.instructs, p.msg.type = .captureInstruct →
    Coordinator.TiedToDispatch f.log p.msg
  replies : ∀ p ∈ f.replies, p.msg.type = .captureResult →
    Coordinator.TiedToDispatch f.log p.msg

theorem tied_log {m : ProtocolMessage} (h : Coordinator.TiedToDispatch f.log m) :
    Coordinator.TiedToDispatch (f.step o ops e).log m := by
  rcases hin : f.input e with _ | ev
  · simpa [step, hin] using h
  · simpa [step, hin] using h.concat ev

/-- One event keeps captures tied : a new instruction is tied to its dispatch, and a response to
the dispatch of its instruction. -/
theorem Tied.after_step (h : f.Tied) (hcoord : f.coord = Coordinator.run f.log) :
    (f.step o ops e).Tied := by
  constructor
  · intro p hp htype
    rcases mem_instructs hp with hp | hp
    · exact tied_log (h.instructs p hp htype)
    · obtain ⟨hsent, -, -⟩ := mem_posted hp
      obtain ⟨ev, hin, hsent⟩ := Option.bind_eq_some_iff.mp hsent
      rw [hcoord] at hsent
      simpa [step, hin] using Coordinator.tiedToDispatch_of_sent hsent htype
  · intro p hp htype
    rcases mem_replies hp with ⟨hp, -⟩ | ⟨-, -, -, -, hreg, -⟩ | ⟨q, hq, -, -, hechoes, -⟩
    · exact tied_log (h.replies p hp htype)
    · cases hreg.symm.trans htype
    · rcases hechoes.type with ⟨hinst, -⟩ | ⟨-, hreplay⟩
      · obtain ⟨n, hn, hgen, hsince⟩ : Coordinator.TiedToDispatch (f.step o ops e).log q.msg :=
          tied_log (h.instructs q hq hinst)
        exact ⟨n, hn, hechoes.cacheGen.trans hgen, by rwa [hechoes.captureAttempt]⟩
      · cases hreplay.symm.trans htype

theorem tied_run (evs : List Event) : (run o ops evs).Tied := by
  induction evs using List.reverseRecOn with
  | nil => exact ⟨nofun, nofun⟩
  | append_singleton evs e ih =>
    rw [run, after_concat]
    exact ih.after_step (coord_eq evs)

/-- The result of a capture reaches the coordinator from a worker only. -/
theorem deliver_of_captureResult {s : Sock} {m : ProtocolMessage}
    (hclient : ∀ s m, e = .client s m → m.type ≠ .captureResult)
    (hin : f.input e = some (.message s m)) (htype : m.type = .captureResult) :
    ∃ i p, e = .deliver i ∧ f.replies[i]? = some p ∧ p.sock = s ∧ p.msg = m := by
  rcases input_message hin with ⟨rfl, -⟩ | h
  · exact absurd htype (hclient _ _ rfl)
  · exact h

/-- With fewer than 2 ^ 64 - 1 invalidations, a result that is published was dispatched since the
last `Invalidate` : its attempt was recorded by a dispatch that no `Invalidate`, and no other
dispatch of the attempt, followed. -/
theorem no_late_completion (o : IterationOrder GraphNodeId) (ops : FloatOps) (evs : List Event)
    (e : Event) (hclients : ClientsAvoid [.captureResult] (evs ++ [e])) (s : Sock) (m : ProtocolMessage)
    (pc : PendingCapture) (artifactHex : Str)
    (hbound : Coordinator.invalidations (run o ops evs).log < 2 ^ 64 - 1)
    (hin : (run o ops evs).input e = some (.message s m))
    (hpub : (run o ops evs).coord.Publishes s m pc artifactHex) :
    Since Coordinator.next {} (Coordinator.DispatchesAs m.captureAttempt pc)
      (fun st ev => st.Invalidates ev ∨
        ∃ pc', Coordinator.DispatchesAs m.captureAttempt pc' st ev) (run o ops evs).log := by
  have hcoord : (run o ops evs).coord = Coordinator.run (run o ops evs).log := coord_eq evs
  obtain ⟨i, p, rfl, hp, rfl, rfl⟩ := deliver_of_captureResult
    (fun s m he => by simpa using hclients s m (by simp [he])) hin hpub.type
  obtain ⟨n, hn, hgen, hsince⟩ := (tied_run evs).replies p (List.mem_of_getElem? hp) hpub.type
  -- the echoed generation is not zero, so it is the current one
  have hcurrent := hpub.current.2.1
  rw [hcoord, Coordinator.cacheGen_eq, hgen] at hcurrent
  have heq : n = Coordinator.invalidations (run o ops evs).log := by
    rcases hcurrent with hzero | heq
    · have := congrArg UInt64.toNat hzero
      simp at this
      omega
    · have := congrArg UInt64.toNat heq
      simp at this
      omega
  refine (hsince heq).and (fun st ev h => h) ?_
  exact Coordinator.dispatchedAs_of_pending _ (hcoord ▸ hpub.pending)

/-- Worker 7 registers on handle 1; a client on handle 2 looks up the empty graph, and the worker
captures it. -/
def captureRun : List Event :=
  [.launch 1 7 5, .deliver 0, .work 0, .connect 2,
    .client 2 { type := .lookup, requestId := 5, payload := encodeCapture {} {} }, .work 0]

/-- The fleet after it. -/
def captured : Fleet := run (.insertion _) .unit captureRun

set_option maxRecDepth 100000 in
/-- The result is in flight, and the coordinator would publish it. -/
theorem captured_publishes : ∃ p pc artifactHex, captured.replies[0]? = some p ∧
    captured.coord.Publishes p.sock p.msg pc artifactHex := by
  have hfacts : (captured.replies[0]?.bind fun p =>
      (captured.coord.pending p.msg.captureAttempt).bind fun pc =>
        (decodeArtifact p.msg.payload).map fun _ => decide ((captured.coord.conns p.sock).isSome ∧
          p.msg.type = .captureResult ∧ captured.coord.Current p.msg ∧ p.msg.status = .ok)) =
      some true := by decide +kernel
  obtain ⟨p, hp, hfacts⟩ := Option.bind_eq_some_iff.mp hfacts
  obtain ⟨pc, hpc, hfacts⟩ := Option.bind_eq_some_iff.mp hfacts
  obtain ⟨artifactHex, hart, hfacts⟩ := Option.map_eq_some_iff.mp hfacts
  obtain ⟨hopen, htype, hcur, hok⟩ := of_decide_eq_true hfacts
  exact ⟨p, pc, artifactHex, hp, hopen, htype, hcur, hpc, hok, hart⟩

theorem clientsAvoid_captureRun : ClientsAvoid [.captureResult] (captureRun ++ [.deliver 0]) := by
  decide

set_option maxRecDepth 100000 in
theorem no_late_completion_first : ∃ (m : ProtocolMessage) (pc : PendingCapture),
    Since Coordinator.next {} (Coordinator.DispatchesAs m.captureAttempt pc)
      (fun st ev => st.Invalidates ev ∨
        ∃ pc', Coordinator.DispatchesAs m.captureAttempt pc' st ev) captured.log := by
  obtain ⟨p, pc, artifactHex, hp, hpub⟩ := captured_publishes
  have hbound : Coordinator.invalidations captured.log < 2 ^ 64 - 1 := by decide +kernel
  have hin : captured.input (.deliver 0) = some (.message p.sock p.msg) := by simp [input, hp]
  exact ⟨p.msg, pc, no_late_completion _ _ captureRun (.deliver 0) clientsAvoid_captureRun p.sock
    p.msg pc artifactHex hbound hin hpub⟩

/-! ## Generations come round -/

/-- No result is published that was dispatched before an `Invalidate`. -/
def NoLateCompletion : Prop :=
  ∀ (o : IterationOrder GraphNodeId) (ops : FloatOps) (evs : List Event) (e : Event),
    ClientsAvoid [.captureResult] (evs ++ [e]) → ∀ (s : Sock) (m : ProtocolMessage) (pc : PendingCapture)
    (artifactHex : Str), (run o ops evs).input e = some (.message s m) →
    (run o ops evs).coord.Publishes s m pc artifactHex →
    Since Coordinator.next {} (Coordinator.DispatchesAs m.captureAttempt pc)
      (fun st ev => st.Invalidates ev ∨
        ∃ pc', Coordinator.DispatchesAs m.captureAttempt pc' st ev) (run o ops evs).log

/-- An `Invalidate` from the client on handle 2. -/
def rollEvent : Event := .client 2 { type := .invalidate }

/-- `f'` is `f` after `n` such events, as far as a completion can see. -/
structure Rolled (n : ℕ) (f f' : Fleet) : Prop where
  peers : f'.peers = f.peers
  replies : f'.replies = f.replies
  conns : f'.coord.conns = f.coord.conns
  pending : f'.coord.pending = f.coord.pending
  workerBoot : f'.coord.workerBoot = f.coord.workerBoot
  epoch : f'.coord.epoch = f.coord.epoch
  cacheGen : f'.coord.cacheGen = f.coord.cacheGen + UInt64.ofNat n

theorem invalidates_rollEvent {st : Coordinator} (hopen : (st.conns 2).isSome) :
    st.Invalidates (.message 2 { type := .invalidate }) :=
  ⟨2, _, rfl, hopen, rfl, .inl rfl, .inl rfl, .inl rfl⟩

theorem input_rollEvent (hpeer : f.peers 2 = .client) :
    f.input rollEvent = some (.message 2 { type := .invalidate }) := by
  simp [rollEvent, input, hpeer]

theorem next_rollEvent {st : Coordinator} (hopen : (st.conns 2).isSome) :
    st.next (.message 2 { type := .invalidate }) = st.invalidateAll false := by
  rw [Coordinator.next, Coordinator.step_served hopen (by simp) (by simp)
    ⟨.inl rfl, .inl rfl, .inl rfl⟩]
  rfl

theorem rolled_replicate (hpeer : f.peers 2 = .client) (hopen : (f.coord.conns 2).isSome) :
    ∀ n, Rolled n f (after (step o ops) f (List.replicate n rollEvent))
  | 0 => by constructor <;> simp
  | n + 1 => by
    have ih := rolled_replicate hpeer hopen n
    rw [List.replicate_succ', after_concat]
    set g := after (step o ops) f (List.replicate n rollEvent)
    have hin := input_rollEvent (ih.peers ▸ hpeer)
    have hcoord : (g.step o ops rollEvent).coord = g.coord.invalidateAll false := by
      simp only [step, hin, Option.map_some, Option.getD_some]
      exact next_rollEvent (by rw [ih.conns]; exact hopen)
    refine ⟨ih.peers, ih.replies, ?_, ?_, ?_, ?_, ?_⟩ <;> rw [hcoord]
    · exact ih.conns
    · exact ih.pending
    · exact ih.workerBoot
    · exact ih.epoch
    · rw [UInt64.ofNat_add, ← UInt64.add_assoc, ← ih.cacheGen]
      rfl

/-- When the generation has come round, a result is accepted again. -/
theorem Rolled.publishes {f' : Fleet} {n : ℕ} (h : Rolled n f f') (hn : UInt64.ofNat n = 0)
    {s : Sock} {m : ProtocolMessage} {pc : PendingCapture} {artifactHex : Str}
    (hpub : f.coord.Publishes s m pc artifactHex) : f'.coord.Publishes s m pc artifactHex := by
  refine ⟨h.conns ▸ hpub.isOpen, hpub.type, ?_, h.pending ▸ hpub.pending, hpub.status,
    hpub.artifact⟩
  have hgen : f'.coord.cacheGen = f.coord.cacheGen := by rw [h.cacheGen, hn, UInt64.add_zero]
  have hcur := hpub.current
  unfold Coordinator.Current Coordinator.bootFor at hcur ⊢
  rwa [h.epoch, hgen, h.workerBoot]

/-- A run that ends with such an event has an `Invalidate` after every dispatch. -/
theorem not_since_rollEvent (hpeer : (run o ops evs).peers 2 = .client)
    (hopen : ((run o ops evs).coord.conns 2).isSome) {a : CaptureAttemptId} {pc : PendingCapture} :
    ¬ Since Coordinator.next {} (Coordinator.DispatchesAs a pc)
      (fun st ev => st.Invalidates ev ∨ ∃ pc', Coordinator.DispatchesAs a pc' st ev)
      (run o ops (evs ++ [rollEvent])).log := by
  have hlog : (run o ops (evs ++ [rollEvent])).log =
      (run o ops evs).log ++ [.message 2 { type := .invalidate }] := by
    simp [run, after_concat, step, input_rollEvent hpeer]
  rw [hlog, since_concat]
  rintro (⟨s, m, g, wl, wid, heq, hd, -⟩ | ⟨-, hno⟩)
  · cases heq
    cases hd.type
  · rw [coord_eq] at hopen
    exact hno (.inl (invalidates_rollEvent hopen))

/-- After 2 ^ 64 invalidations the generation of the first dispatch is current again. -/
theorem late_completion : ¬ NoLateCompletion := by
  intro h
  obtain ⟨p, pc, artifactHex, hp, hpub⟩ := captured_publishes
  have hfacts : (captured.coord.conns 2).isSome ∧
      (captured.peers 2).isClient = true := by decide +kernel
  have hpeer : captured.peers 2 = .client := by
    revert hfacts
    cases captured.peers 2 <;> simp [Peer.isClient]
  have hrolled : ∀ n, Rolled n captured (after (step (.insertion _) .unit) captured
      (List.replicate n rollEvent)) := rolled_replicate hpeer hfacts.1
  have hrun : ∀ n, run (.insertion _) .unit (captureRun ++ List.replicate n rollEvent) =
      after (step (.insertion _) .unit) captured (List.replicate n rollEvent) :=
    fun n => after_append captureRun _
  -- one event fewer than 2 ^ 64, and the last
  set n := 2 ^ 64 - 1 with hn
  clear_value n
  have hwrap : UInt64.ofNat (n + 1) = 0 := by
    subst hn
    decide
  have hclients : ClientsAvoid [.captureResult]
      ((captureRun ++ List.replicate (n + 1) rollEvent) ++ [.deliver 0]) := by
    intro s m hmem
    simp only [List.mem_append, List.mem_replicate, captureRun, List.mem_cons, rollEvent,
      reduceCtorEq, Event.client.injEq, List.not_mem_nil, false_or, or_false] at hmem
    rcases hmem with ⟨-, rfl⟩ | ⟨-, -, rfl⟩ <;> simp
  have hrolled₁ := hrolled (n + 1)
  rw [← hrun] at hrolled₁
  have hlate := h (.insertion _) .unit (captureRun ++ List.replicate (n + 1) rollEvent) (.deliver 0)
    hclients p.sock p.msg pc artifactHex (by simp [input, hrolled₁.replies, hp])
    (hrolled₁.publishes hwrap hpub)
  have hrolled₀ := hrolled n
  rw [← hrun] at hrolled₀
  rw [List.replicate_succ', ← List.append_assoc] at hlate
  refine not_since_rollEvent ?_ ?_ hlate
  · rw [hrolled₀.peers, hpeer]
  · rw [hrolled₀.conns]
    exact hfacts.1

end Fleet

/-! ## Every completion answers -/

namespace Coordinator

variable {st : Coordinator} {s : Sock} {m : ProtocolMessage} {ev : Event} {evs : List Event}
  {a : CaptureAttemptId} {pc pc' : PendingCapture}

/-- A `LookupResult` for the request of `pc` is sent on the handle that asked for it. Whose handle
that is by now is not said : see `Asking`. -/
def Answers (pc : PendingCapture) (st : Coordinator) (ev : Event) : Prop :=
  ∃ resp, st.sent ev = some (pc.clientSock, resp) ∧ resp.type = .lookupResult ∧
    resp.requestId = pc.requestId

/-- The last dispatch of attempt `a` was for `pc`, and the connection that asked has not been closed
since, so that its handle is still its own. -/
def Asking (a : CaptureAttemptId) (pc : PendingCapture) (evs : List Event) : Prop :=
  Since next {} (DispatchesAs a pc)
    (fun st ev => ev = .close pc.clientSock ∨ ∃ pc', DispatchesAs a pc' st ev) evs

/-- The last dispatch of attempt `a` was for `pc`, and the connection that asked has not been closed
while the attempt was pending. -/
def AskerStays (a : CaptureAttemptId) (pc : PendingCapture) (evs : List Event) : Prop :=
  Since next {} (DispatchesAs a pc) (fun st ev =>
    (st.pending a).isSome ∧ ev = .close pc.clientSock ∨ ∃ pc', DispatchesAs a pc' st ev) evs

/-- Attempt `a` has been taken out of `pending`, where it has not come back, and with this its
`LookupResult` was sent to the connection that asked. -/
def Resolved (a : CaptureAttemptId) (pc : PendingCapture) (evs : List Event) : Prop :=
  ∃ pre ev post, evs = pre ++ ev :: post ∧ (run pre).pending a = some pc ∧ Asking a pc pre ∧
    Answers pc (run pre) ev ∧ ∀ mid, mid <+: post → (run (pre ++ ev :: mid)).pending a = none

/-- The handler of a result takes the attempt out, and answers its client. -/
theorem handleCaptureResult_spec (hp : st.pending m.captureAttempt = some pc) :
    (st.handleCaptureResult s m).1.pending m.captureAttempt = none ∧
      (∀ a, a ≠ m.captureAttempt → (st.handleCaptureResult s m).1.pending a = st.pending a) ∧
      ∃ resp, (st.handleCaptureResult s m).2 = some (pc.clientSock, resp) ∧
        resp.type = .lookupResult ∧ resp.requestId = pc.requestId := by
  simp only [handleCaptureResult, hp]
  split_ifs
  · exact ⟨by simp, fun a ha => Function.update_of_ne ha _ _, _, rfl, rfl, rfl⟩
  · split
    · exact ⟨by simp, fun a ha => Function.update_of_ne ha _ _, _, rfl, rfl, rfl⟩
    · rw [pending_publish]
      exact ⟨by simp, fun a ha => Function.update_of_ne ha _ _, _, rfl, rfl, rfl⟩

theorem handleLookup_pending (h : st.pending a = some pc) :
    (st.handleLookup s m).1.pending a ≠ none := by
  unfold handleLookup
  split
  · simp [h]
  · split
    · simp [h]
    · split
      · simp [h]
      · by_cases ha : a = st.captureCounter + 1 <;> simp [dispatch, ha, h]

/-- An attempt stops being pending with an answer to its client. -/
theorem answers_of_taken (hp : st.pending a = some pc) (hn : (st.next ev).pending a = none) :
    Answers pc st ev := by
  rcases next_cases st ev with ⟨s, m, rfl, -, -, hstep⟩ | haside
  · rw [next, hstep, serve] at hn
    split at hn
    · exact absurd hn (handleLookup_pending hp)
    · rename_i htype
      rcases hpm : st.pending m.captureAttempt with _ | pc'
      · simp only [handleCaptureResult, hpm] at hn
        simp [hp] at hn
      · obtain ⟨-, hother, resp, hresp, hrest⟩ := handleCaptureResult_spec (s := s) hpm
        by_cases ha : a = m.captureAttempt
        · subst ha
          obtain rfl := Option.some.inj (hp.symm.trans hpm)
          refine ⟨resp, ?_, hrest⟩
          rw [sent, hstep, serve, htype]
          exact hresp
        · rw [hother a ha, hp] at hn
          cases hn
    · rw [pending_handleReplayInstruct, hp] at hn
      cases hn
    all_goals exact absurd (hp.symm.trans hn) (by simp)
  · obtain ⟨_, _, _, _, hnext⟩ := haside
    rw [hnext] at hn
    exact absurd (hp.symm.trans hn) (by simp)

theorem DispatchesAs.pending (h : DispatchesAs a pc st ev) : (st.next ev).pending a = some pc := by
  obtain ⟨s, m, g, wl, wid, rfl, hd, rfl, rfl⟩ := h
  rw [next, hd.step_eq]
  simp [dispatch]

/-- The last dispatch of an attempt recorded one capture. -/
theorem DispatchedAs.unique (h : DispatchedAs a pc evs) (h' : DispatchedAs a pc' evs) :
    pc = pc' := by
  induction evs using List.reverseRecOn with
  | nil => exact absurd h not_since_nil
  | append_singleton evs ev ih =>
    rcases since_concat.mp h with hd | ⟨hevs, hno⟩ <;>
      rcases since_concat.mp h' with hd' | ⟨hevs', hno'⟩
    · exact Option.some.inj (hd.pending.symm.trans hd'.pending)
    · exact absurd ⟨pc, hd⟩ hno'
    · exact absurd ⟨pc', hd'⟩ hno
    · exact ih hevs hevs'

/-- A result that passes the checks takes its attempt out. -/
theorem pending_of_result (hopen : (st.conns s).isSome) (htype : m.type = .captureResult)
    (h : st.pending m.captureAttempt = none ∨ st.Current m) :
    (st.next (.message s m)).pending m.captureAttempt = none := by
  by_contra hsome
  obtain ⟨pc, hsome⟩ := Option.ne_none_iff_exists'.mp hsome
  rcases pending_next hsome with ⟨s', m', g, wl, wid, heq, hd, -⟩ | ⟨hpc, -⟩
  · cases heq
    cases htype.symm.trans hd.type
  · rcases h with hnone | hc
    · rw [hpc] at hnone
      cases hnone
    · rw [next, step_served hopen (by simp [htype]) (by simp [htype]) hc, serve, htype] at hsome
      rw [(handleCaptureResult_spec hpc).1] at hsome
      cases hsome

/-- While an attempt is pending, its asker has stayed if it is still there. -/
theorem askerStays_iff_asking (evs : List Event) (hp : (run evs).pending a = some pc') :
    AskerStays a pc evs ↔ Asking a pc evs := by
  constructor
  · intro h
    induction evs using List.reverseRecOn generalizing pc' with
    | nil => exact absurd h not_since_nil
    | append_singleton evs ev ih =>
      rw [run, after_concat] at hp
      rcases since_concat.mp h with hd | ⟨hevs, hno⟩
      · exact since_concat.mpr (.inl hd)
      · obtain ⟨hstays, hdis⟩ := not_or.mp hno
        rcases pending_next hp with hd | ⟨hold, -⟩
        · exact absurd ⟨pc', hd⟩ hdis
        · refine since_concat.mpr (.inr ⟨ih hold hevs, not_or.mpr ⟨fun hclose => ?_, hdis⟩⟩)
          exact hstays ⟨Option.isSome_iff_exists.mpr ⟨pc', hold⟩, hclose⟩
  · rintro ⟨pre, ev, post, rfl, hd, hno⟩
    refine ⟨pre, ev, post, rfl, hd, fun pre' ev' post' hsplit h => hno pre' ev' post' hsplit ?_⟩
    exact h.imp_left And.right

theorem Resolved.not_pending (h : Resolved a pc evs) : (run evs).pending a = none := by
  obtain ⟨pre, ev, post, rfl, -, -, -, hnone⟩ := h
  exact hnone post List.prefix_rfl

/-- An attempt is resolved by the last input, or it was before and is not dispatched again. -/
theorem resolved_concat : Resolved a pc (evs ++ [ev]) ↔
    (run (evs ++ [ev])).pending a = none ∧
      ((run evs).pending a = some pc ∧ Asking a pc evs ∧ Answers pc (run evs) ev ∨
        Resolved a pc evs) := by
  constructor
  · intro h
    refine ⟨h.not_pending, ?_⟩
    obtain ⟨pre, ev', post, hsplit, hp, hask, hans, hnone⟩ := h
    rcases concat_eq_split hsplit with ⟨rfl, rfl, -⟩ | ⟨post', rfl, rfl⟩
    · exact .inl ⟨hp, hask, hans⟩
    · refine .inr ⟨pre, ev', post', rfl, hp, hask, hans, fun mid hmid => hnone mid ?_⟩
      exact hmid.trans (List.prefix_append _ _)
  · rintro ⟨hlast, ⟨hp, hask, hans⟩ | ⟨pre, ev', post, rfl, hp, hask, hans, hnone⟩⟩
    · refine ⟨evs, ev, [], rfl, hp, hask, hans, fun mid hmid => ?_⟩
      rw [List.prefix_nil.mp hmid]
      exact hlast
    · refine ⟨pre, ev', post ++ [ev], by simp, hp, hask, hans, fun mid hmid => ?_⟩
      rcases List.prefix_concat_iff.mp hmid with rfl | hmid
      · rw [← List.cons_append, ← List.append_assoc]
        exact hlast
      · exact hnone mid hmid

/-- A dispatched attempt that is no longer pending is resolved exactly if its asker stayed. -/
theorem resolved_iff_askerStays (evs : List Event) (hd : DispatchedAs a pc evs)
    (hn : (run evs).pending a = none) : Resolved a pc evs ↔ AskerStays a pc evs := by
  induction evs using List.reverseRecOn with
  | nil => exact absurd hd not_since_nil
  | append_singleton evs ev ih =>
    rcases since_concat.mp hd with hlast | ⟨hevs, hno⟩
    · rw [run, after_concat, hlast.pending] at hn
      cases hn
    have hstays : AskerStays a pc (evs ++ [ev]) ↔ AskerStays a pc evs ∧
        ¬(((run evs).pending a).isSome ∧ ev = .close pc.clientSock) := by
      refine since_concat.trans ?_
      rw [or_iff_right fun hdis => hno ⟨pc, hdis⟩, not_or, and_iff_left hno]
      exact Iff.rfl
    rw [resolved_concat, and_iff_right hn, hstays]
    rw [run, after_concat] at hn
    rcases hpending : (run evs).pending a with _ | pc'
    · rw [← ih hevs hpending]
      simp
    · -- the input takes the attempt out, so it is not the asker's close
      obtain rfl := DispatchedAs.unique hevs (dispatchedAs_of_pending evs hpending)
      have hans := answers_of_taken hpending hn
      have hopen : ev ≠ .close pc.clientSock := by
        rintro rfl
        obtain ⟨resp, hsent, -⟩ := hans
        simp only [sent, step] at hsent
        split at hsent <;> cases hsent
      have hbefore : ¬Resolved a pc evs := fun h => by
        rw [h.not_pending] at hpending
        cases hpending
      simp [hans, hopen, hbefore, askerStays_iff_asking evs hpending]

/-- The result of a dispatched attempt resolves its lookup exactly if it passes the checks, or the
attempt is not pending any more, and the asker stayed. -/
theorem resolved_concat_iff (hopen : ((run evs).conns s).isSome) (htype : m.type = .captureResult)
    (hd : DispatchedAs m.captureAttempt pc evs) :
    Resolved m.captureAttempt pc (evs ++ [.message s m]) ↔
      ((run evs).pending m.captureAttempt = none ∨ (run evs).Current m) ∧
        AskerStays m.captureAttempt pc evs := by
  have hnext : run (evs ++ [.message s m]) = (run evs).next (.message s m) := after_concat
  have hno : ¬∃ pc', DispatchesAs m.captureAttempt pc' (run evs) (.message s m) := by
    rintro ⟨pc', s', m', g, wl, wid, heq, hdis, -⟩
    cases heq
    cases htype.symm.trans hdis.type
  by_cases h : (run evs).pending m.captureAttempt = none ∨ (run evs).Current m
  · have hstays : AskerStays m.captureAttempt pc (evs ++ [.message s m]) ↔
        AskerStays m.captureAttempt pc evs := by
      refine since_concat.trans ?_
      rw [or_iff_right fun hdis => hno ⟨pc, hdis⟩]
      refine and_iff_left (not_or.mpr ⟨?_, hno⟩)
      rintro ⟨-, hclose⟩
      cases hclose
    rw [and_iff_right h, ← hstays]
    refine resolved_iff_askerStays _ (since_concat.mpr (.inr ⟨hd, hno⟩)) ?_
    rw [hnext]
    exact pending_of_result hopen htype h
  · refine iff_of_false (fun hres => ?_) fun hcond => h hcond.1
    obtain ⟨hpending, hcur⟩ := not_or.mp h
    obtain ⟨_, _, -, hstep⟩ := step_refused hopen (by simp [htype]) (by simp [htype]) hcur
    have hn := hres.not_pending
    rw [hnext, next, hstep] at hn
    exact hpending hn

end Coordinator

namespace Fleet

variable {o : IterationOrder GraphNodeId} {ops : FloatOps} {evs : List Event}

theorem log_deliver {i : ℕ} {p : Packet} (hp : (run o ops evs).replies[i]? = some p) :
    (run o ops (evs ++ [.deliver i])).log = (run o ops evs).log ++ [.message p.sock p.msg] := by
  simp only [run] at hp
  simp [run, after_concat, step, input, hp]

/-- A connection is closed by its own event. -/
theorem close_of_log {s : Sock} (h : .close s ∈ (run o ops evs).log) : .close s ∈ evs := by
  induction evs using List.reverseRecOn with
  | nil => exact absurd h List.not_mem_nil
  | append_singleton evs e ih =>
    have hlog : (run o ops (evs ++ [e])).log =
        (run o ops evs).log ++ ((run o ops evs).input e).toList := by
      simp [run, after_concat, step]
    rw [hlog] at h
    rcases List.mem_append.mp h with h | h
    · exact List.mem_append_left _ (ih h)
    · rw [input_close (Option.mem_toList.mp h)]
      exact List.mem_append_right _ (List.mem_singleton_self _)

/-- In every run, when the result of a dispatched attempt has been processed, its lookup is
resolved exactly if the result passed the authority checks, or the attempt was not pending any
more, and the client that asked did not close its connection while it was pending. -/
theorem completion_resolves (o : IterationOrder GraphNodeId) (ops : FloatOps) (evs : List Event)
    (i : ℕ) (p : Packet) (pc : PendingCapture) (hp : (run o ops evs).replies[i]? = some p)
    (htype : p.msg.type = .captureResult)
    (hd : Coordinator.DispatchedAs p.msg.captureAttempt pc (run o ops evs).log) :
    Coordinator.Resolved p.msg.captureAttempt pc (run o ops (evs ++ [.deliver i])).log ↔
      ((run o ops evs).coord.pending p.msg.captureAttempt = none ∨
        (run o ops evs).coord.Current p.msg) ∧
      Coordinator.AskerStays p.msg.captureAttempt pc (run o ops evs).log := by
  have hopen := (linked_run evs).replies p (List.mem_of_getElem? hp)
  rw [coord_eq] at hopen
  rw [log_deliver hp, Coordinator.resolved_concat_iff hopen htype hd, coord_eq]

theorem completion_resolves_first : ∃ a pc, Coordinator.Resolved a pc
    (run (.insertion _) .unit (captureRun ++ [.deliver 0])).log := by
  obtain ⟨p, pc, artifactHex, hp, hpub⟩ := captured_publishes
  have hd := Coordinator.dispatchedAs_of_pending captured.log
    ((coord_eq captureRun) ▸ hpub.pending)
  have hstays : Coordinator.AskerStays p.msg.captureAttempt pc captured.log := by
    obtain ⟨pre, ev, post, hsplit, hdis, hno⟩ := hd
    refine ⟨pre, ev, post, hsplit, hdis, fun pre' ev' post' hpost h => ?_⟩
    rcases h with ⟨-, rfl⟩ | hdis'
    · have hmem : .close pc.clientSock ∈ captured.log := by simp [hsplit, hpost]
      have hclose := close_of_log hmem
      simp [captureRun] at hclose
    · exact hno pre' ev' post' hpost hdis'
  exact ⟨_, pc, (completion_resolves _ _ captureRun 0 p pc hp hpub.type hd).mpr
    ⟨.inr hpub.current, hstays⟩⟩

/-- The result of a dispatched attempt resolves its lookup. -/
def CompletionResolves : Prop :=
  ∀ (o : IterationOrder GraphNodeId) (ops : FloatOps) (evs : List Event) (i : ℕ) (p : Packet)
    (pc : PendingCapture), (run o ops evs).replies[i]? = some p → p.msg.type = .captureResult →
    Coordinator.DispatchedAs p.msg.captureAttempt pc (run o ops evs).log →
    Coordinator.Resolved p.msg.captureAttempt pc (run o ops (evs ++ [.deliver i])).log

/-- The fleet when an `Invalidate` comes between the dispatch and the result. -/
def overtaken : Fleet := run (.insertion _) .unit (captureRun ++ [rollEvent])

set_option maxRecDepth 100000 in
/-- The result is in flight, its attempt pending, and its generation stale. -/
theorem overtaken_stale : ∃ p pc, overtaken.replies[0]? = some p ∧
    overtaken.coord.pending p.msg.captureAttempt = some pc ∧ p.msg.type = .captureResult ∧
    ¬ overtaken.coord.Current p.msg := by
  have hfacts : (overtaken.replies[0]?.bind fun p =>
      (overtaken.coord.pending p.msg.captureAttempt).map fun _ =>
        decide (p.msg.type = .captureResult ∧ ¬ overtaken.coord.Current p.msg)) = some true := by
    decide +kernel
  obtain ⟨p, hp, hfacts⟩ := Option.bind_eq_some_iff.mp hfacts
  obtain ⟨pc, hpc, hfacts⟩ := Option.map_eq_some_iff.mp hfacts
  obtain ⟨htype, hcur⟩ := of_decide_eq_true hfacts
  exact ⟨p, pc, hp, hpc, htype, hcur⟩

/-- Its client is left without an answer. -/
theorem completion_unresolved : ¬ CompletionResolves := by
  intro h
  obtain ⟨p, pc, hp, hpc, htype, hcur⟩ := overtaken_stale
  have hcoord : overtaken.coord = Coordinator.run overtaken.log := coord_eq _
  have hlinked : overtaken.Linked := linked_run _
  have hopen := hlinked.replies p (List.mem_of_getElem? hp)
  rw [hcoord] at hpc hcur hopen
  have hd := Coordinator.dispatchedAs_of_pending overtaken.log hpc
  have hlog : (run (.insertion _) .unit (captureRun ++ [rollEvent] ++ [.deliver 0])).log =
      overtaken.log ++ [.message p.sock p.msg] := log_deliver hp
  have hres := h (.insertion _) .unit (captureRun ++ [rollEvent]) 0 p pc hp htype hd
  rw [hlog] at hres
  rcases ((Coordinator.resolved_concat_iff hopen htype hd).mp hres).1 with hnone | hc
  · rw [hpc] at hnone
    cases hnone
  · exact hcur hc

end Fleet

end GraphCache
