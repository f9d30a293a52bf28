import GraphCache.Coordinator

/-!
# Freshness at the coordinator

What holds of the coordinator alone, whatever messages arrive. An entry that is not invalidated
was published since the last `Invalidate` (`publishedSince_of_live`) : an `Invalidate` marks every
key there is, and only a publication takes a mark away. So no lookup is answered from, and no
replay forwarded for, an older entry (`coordinator_fresh`).

A capture is completed by whoever names its attempt : the handler looks at the attempt id and at
the authority fields of the message, never at the connection. `publication_authorized` says what
those fields guarantee.
-/

namespace GraphCache

namespace Coordinator

open History

/-- The state after a run of inputs. -/
abbrev run (evs : List Event) : Coordinator := after next {} evs

/-- An input publishes the entry `e` under the key `k`. -/
def PublishesAs (k : Str) (e : Entry) (st : Coordinator) (ev : Event) : Prop :=
  ∃ s m pc artifactHex, ev = .message s m ∧ st.Publishes s m pc artifactHex ∧
    Names pc artifactHex k ∧
    e = ⟨scanArtifact artifactHex, st.graphGenCounter + 1, pc.workerId, st.cacheGen⟩

/-- The run published `e` under `k`, and processed no `Invalidate` after that. -/
def PublishedSince (k : Str) (e : Entry) (evs : List Event) : Prop :=
  Since next {} (PublishesAs k e) Invalidates evs

variable {st : Coordinator} {s : Sock} {m : ProtocolMessage} {ev : Event} {evs : List Event}
  {k : Str} {e : Entry} {pc : PendingCapture} {artifactHex : Str}

theorem live_of_shelf {st' : Coordinator} (h : st'.shelf = st.shelf) :
    st'.Live k e ↔ st.Live k e := by
  simp only [shelf, Shelf.mk.injEq] at h
  simp [Live, h]

/-- After a publication its keys hold the new entry, and the others what they held. -/
theorem live_publish : (st.publish pc artifactHex).Live k e ↔
    (Names pc artifactHex k ∧
      e = ⟨scanArtifact artifactHex, st.graphGenCounter, pc.workerId, st.cacheGen⟩) ∨
    (¬ Names pc artifactHex k ∧ st.Live k e) := by
  unfold Live
  rw [publish_graphs, publish_invalidated]
  split_ifs with hk
  · simp only [hk, Option.some.injEq, and_true, true_and, not_true, false_and, or_false]
    exact eq_comm
  · simp only [hk, false_and, not_false_eq_true, true_and, false_or]

theorem not_live_invalidateAll {b : Bool} : ¬ (st.invalidateAll b).Live k e := by
  rintro ⟨hg, hi⟩
  have hg : st.graphs k = some e := hg
  simp [invalidateAll, hg] at hi

/-- An entry that is live after an input was published by it, or was live before and the input
is no `Invalidate`. -/
theorem live_next (h : (st.next ev).Live k e) :
    PublishesAs k e st ev ∨ st.Live k e ∧ ¬ st.Invalidates ev := by
  by_cases hi : st.Invalidates ev
  · obtain ⟨b, hnext⟩ := hi.next_eq
    exact absurd (hnext ▸ h) not_live_invalidateAll
  by_cases hp : ∃ s m pc artifactHex, ev = .message s m ∧ st.Publishes s m pc artifactHex
  · obtain ⟨s, m, pc, artifactHex, rfl, hp⟩ := hp
    rw [next, hp.step_eq] at h
    rcases live_publish.mp h with ⟨hk, he⟩ | ⟨-, hlive⟩
    · exact .inl ⟨s, m, pc, artifactHex, rfl, hp, hk, he⟩
    · exact .inr ⟨hlive, hi⟩
  · have hshelf := shelf_next (fun s m pc artifactHex hev hpub =>
      hp ⟨s, m, pc, artifactHex, hev, hpub⟩) hi
    exact .inr ⟨(live_of_shelf hshelf).mp h, hi⟩

/-- An entry that is not invalidated was published since the last `Invalidate`. -/
theorem publishedSince_of_live (evs : List Event) (h : (run evs).Live k e) :
    PublishedSince k e evs := by
  induction evs using List.reverseRecOn with
  | nil => exact absurd h.1 (by simp [run, after])
  | append_singleton evs ev ih =>
    rw [run, after_concat] at h
    rcases live_next h with hp | ⟨hlive, hi⟩
    · exact since_concat.mpr (.inl hp)
    · exact since_concat.mpr (.inr ⟨ih hlive, hi⟩)

/-- The cache generation moves with an `Invalidate` only. -/
theorem cacheGen_next (hi : ¬ st.Invalidates ev) : (st.next ev).cacheGen = st.cacheGen := by
  by_cases hp : ∃ s m pc artifactHex, ev = .message s m ∧ st.Publishes s m pc artifactHex
  · obtain ⟨s, m, pc, artifactHex, rfl, hp⟩ := hp
    rw [next, hp.step_eq, publish]
    split_ifs <;> rfl
  · have hshelf := shelf_next (fun s m pc artifactHex hev hpub =>
      hp ⟨s, m, pc, artifactHex, hev, hpub⟩) hi
    exact (congrArg Shelf.cacheGen hshelf :)

theorem cacheGenAtPublish_of_live (evs : List Event) (h : (run evs).Live k e) :
    e.cacheGenAtPublish = (run evs).cacheGen := by
  induction evs using List.reverseRecOn with
  | nil => exact absurd h.1 (by simp [run, after])
  | append_singleton evs ev ih =>
    rw [run, after_concat] at h ⊢
    rcases live_next h with ⟨s, m, pc, artifactHex, rfl, hp, -, rfl⟩ | ⟨hlive, hi⟩
    · refine (cacheGen_next ?_).symm
      rintro ⟨s', m', heq, -, htype, -⟩
      cases heq
      cases hp.type.symm.trans htype
    · rw [cacheGen_next hi]
      exact ih hlive

/-- In every run, whatever is sent : an entry that is not invalidated carries the current cache
generation; an `Ok` answer to a lookup comes from the entry of the lookup's key, or from a capture
that is published by the same input; a replay is forwarded for the entry of its artifact; and these
entries were published since the last `Invalidate`. -/
theorem coordinator_fresh (evs : List Event) :
    (∀ k e, (run evs).graphs k = some e → (run evs).invalidated k = false →
      e.cacheGenAtPublish = (run evs).cacheGen) ∧
    (∀ ev t resp, (run evs).sent ev = some (t, resp) → resp.type = .lookupResult →
      resp.status = .ok →
      (∃ s m g wl e, ev = .message s m ∧ m.type = .lookup ∧
        readCapture ProtocolStatus.invalidRequest .malformed m.payload = .ok (g, wl) ∧
        (run evs).graphs (lookupKey g wl) = some e ∧
        resp = (run evs).hitMessage m.requestId e.generation e.artifact.toStr ∧
        PublishedSince (lookupKey g wl) e evs) ∨
      ∃ k e, PublishesAs k e (run evs) ev ∧ resp.graphGen = e.generation) ∧
    (∀ ev t inst, (run evs).sent ev = some (t, inst) → inst.type = .replayInstruct →
      ∃ s m artifactHex e, ev = .message s m ∧ decodeArtifact m.payload = some artifactHex ∧
        (run evs).graphs (artifactKey artifactHex) = some e ∧
        inst = (run evs).replayInstruct m e ∧
        PublishedSince (artifactKey artifactHex) e evs) := by
  refine ⟨fun k e hg hi => cacheGenAtPublish_of_live evs ⟨hg, hi⟩, ?_, ?_⟩
  · intro ev t resp hsent htype hok
    obtain ⟨s, m, rfl, ⟨g, wl, e, hlookup, -, hpayload, hlive, -, hresp⟩ |
      ⟨pc, artifactHex, hp, -, hresp⟩⟩ := hit_of_sent hsent htype hok
    · exact .inl ⟨s, m, g, wl, e, rfl, hlookup, hpayload, hlive.1, hresp,
        publishedSince_of_live evs hlive⟩
    · exact .inr ⟨artifactKey artifactHex, _, ⟨s, m, pc, artifactHex, rfl, hp, .inl rfl, rfl⟩,
        by rw [hresp]; rfl⟩
  · intro ev t inst hsent htype
    obtain ⟨s, m, e, rfl, hf, hinst⟩ := forwards_of_sent hsent htype
    obtain ⟨artifactHex, hart, hlive⟩ := hf.live
    exact ⟨s, m, artifactHex, e, rfl, hart, hlive.1, hinst, publishedSince_of_live evs hlive⟩

/-! ## Completions -/

/-- An input dispatches capture attempt `a`, recorded as `pc`. -/
def DispatchesAs (a : CaptureAttemptId) (pc : PendingCapture) (st : Coordinator) (ev : Event) :
    Prop :=
  ∃ s m g wl wid, ev = .message s m ∧ st.Dispatches s m g wl wid ∧ a = st.captureCounter + 1 ∧
    pc = ⟨s, wid, m.requestId, lookupKey g wl⟩

/-- The last dispatch of attempt `a` in the run recorded it as `pc`. -/
def DispatchedAs (a : CaptureAttemptId) (pc : PendingCapture) (evs : List Event) : Prop :=
  Since next {} (DispatchesAs a pc) (fun st ev => ∃ pc', DispatchesAs a pc' st ev) evs

variable {a : CaptureAttemptId}

theorem pending_publish : (st.publish pc artifactHex).pending = st.pending := by
  unfold publish
  split_ifs <;> rfl

theorem pending_handleCaptureResult
    (h : (st.handleCaptureResult s m).1.pending a = some pc) : st.pending a = some pc := by
  have herase : ∀ {b}, Function.update st.pending b none a = some pc → st.pending a = some pc := by
    intro b hb
    by_cases hab : a = b
    · simp [hab] at hb
    · rwa [Function.update_of_ne hab] at hb
  unfold handleCaptureResult at h
  split at h
  · exact h
  · dsimp only at h
    split_ifs at h
    · exact herase h
    · split at h
      · exact herase h
      · rw [pending_publish] at h
        exact herase h

theorem pending_handleLookup (hd : ∀ g wl wid, ¬ st.Dispatches s m g wl wid)
    (hopen : (st.conns s).isSome) (htype : m.type = .lookup) (hc : st.Current m) :
    (st.handleLookup s m).1.pending = st.pending := by
  unfold handleLookup
  split
  · rfl
  · rename_i g wl hpayload
    split
    · rfl
    · rename_i hmiss
      split
      · rfl
      · rename_i wid hwid
        exact absurd ⟨hopen, htype, hc, hpayload, fun e he => hmiss e he.1 he.2, hwid⟩ (hd g wl wid)

theorem pending_handleReplayInstruct : (st.handleReplayInstruct s m).1.pending = st.pending := by
  unfold handleReplayInstruct
  split
  · rfl
  · split
    · split_ifs
      · rfl
      · split <;> rfl
    · rfl

/-- Without a dispatch no capture becomes pending. -/
theorem pending_of_next (hd : ∀ s m g wl wid, ev = .message s m → ¬ st.Dispatches s m g wl wid)
    (h : (st.next ev).pending a = some pc) : st.pending a = some pc := by
  rcases next_cases st ev with ⟨s, m, rfl, hopen, hc, hstep⟩ | haside
  · rw [next, hstep, serve] at h
    split at h
    · rename_i htype
      rwa [pending_handleLookup (fun g wl wid => hd s m g wl wid rfl) hopen htype hc] at h
    · exact pending_handleCaptureResult h
    · rwa [pending_handleReplayInstruct] at h
    all_goals exact h
  · obtain ⟨_, _, _, _, hnext⟩ := haside
    rwa [hnext] at h

theorem pending_next (h : (st.next ev).pending a = some pc) :
    DispatchesAs a pc st ev ∨ st.pending a = some pc ∧ ¬ ∃ pc', DispatchesAs a pc' st ev := by
  by_cases hd : ∃ s m g wl wid, ev = .message s m ∧ st.Dispatches s m g wl wid
  · obtain ⟨s, m, g, wl, wid, rfl, hd⟩ := hd
    rw [next, hd.step_eq] at h
    have h : Function.update st.pending (st.captureCounter + 1)
      (some ⟨s, wid, m.requestId, lookupKey g wl⟩) a = some pc := h
    by_cases ha : a = st.captureCounter + 1
    · subst ha
      rw [Function.update_self, Option.some.injEq] at h
      exact .inl ⟨s, m, g, wl, wid, rfl, hd, rfl, h.symm⟩
    · rw [Function.update_of_ne ha] at h
      refine .inr ⟨h, ?_⟩
      rintro ⟨pc', -, -, -, -, -, -, -, ha', -⟩
      exact ha ha'
  · have hno : ∀ s m g wl wid, ev = .message s m → ¬ st.Dispatches s m g wl wid :=
      fun s m g wl wid hev hdis => hd ⟨s, m, g, wl, wid, hev, hdis⟩
    refine .inr ⟨pending_of_next hno h, ?_⟩
    rintro ⟨pc', s, m, g, wl, wid, hev, hdis, -⟩
    exact hno s m g wl wid hev hdis

/-- A pending capture was recorded by the last dispatch of its attempt. -/
theorem dispatchedAs_of_pending (evs : List Event) (h : (run evs).pending a = some pc) :
    DispatchedAs a pc evs := by
  induction evs using List.reverseRecOn with
  | nil => simp [run, after] at h
  | append_singleton evs ev ih =>
    rw [run, after_concat] at h
    rcases pending_next h with hd | ⟨hpending, hno⟩
    · exact since_concat.mpr (.inl hd)
    · exact since_concat.mpr (.inr ⟨ih hpending, hno⟩)

/-- A message that stores an entry is a publication. -/
theorem publishes_of_stored (hnew : (st.next (.message s m)).graphs k = some e)
    (hold : st.graphs k ≠ some e) : ∃ pc artifactHex, st.Publishes s m pc artifactHex ∧
      e = ⟨scanArtifact artifactHex, st.graphGenCounter + 1, pc.workerId, st.cacheGen⟩ := by
  by_cases hi : st.Invalidates (.message s m)
  · obtain ⟨b, hnext⟩ := hi.next_eq
    rw [hnext] at hnew
    exact absurd hnew hold
  by_cases hp : ∃ pc artifactHex, st.Publishes s m pc artifactHex
  · obtain ⟨pc, artifactHex, hp⟩ := hp
    refine ⟨pc, artifactHex, hp, ?_⟩
    rw [next, hp.step_eq, publish_graphs] at hnew
    split_ifs at hnew
    · exact (Option.some.inj hnew).symm
    · exact absurd hnew hold
  · have hshelf := shelf_next (fun s' m' pc artifactHex hev hpub => hp ⟨pc, artifactHex, by
      cases hev
      exact hpub⟩) hi
    have hgraphs : (st.next (.message s m)).graphs = st.graphs := (congrArg Shelf.graphs hshelf :)
    rw [hgraphs] at hnew
    exact absurd hnew hold

/-- A message that stores a graph completes a capture that is pending : it names the attempt,
which an earlier lookup of the run dispatched, carries no authority that is stale, and the entry is
attributed to the worker of that dispatch. The attempt is then no longer pending. Which connection
brings the message does not matter. -/
theorem publication_authorized (evs : List Event) (s : Sock) (m : ProtocolMessage) (k : Str)
    (e : Entry) (hnew : ((run evs).next (.message s m)).graphs k = some e)
    (hold : (run evs).graphs k ≠ some e) :
    ∃ pc, m.type = .captureResult ∧ (run evs).pending m.captureAttempt = some pc ∧
      DispatchedAs m.captureAttempt pc evs ∧ e.workerId = pc.workerId ∧
      ((run evs).next (.message s m)).pending m.captureAttempt = none ∧
      (m.epoch = 0 ∨ m.epoch = (run evs).epoch) ∧
      (m.cacheGen = 0 ∨ m.cacheGen = (run evs).cacheGen) ∧
      (m.workerId = 0 ∨ (run evs).bootFor m.workerId = 0 ∨ m.workerBoot = 0 ∨
        m.workerBoot = (run evs).bootFor m.workerId) := by
  obtain ⟨pc, artifactHex, hp, rfl⟩ := publishes_of_stored hnew hold
  refine ⟨pc, hp.type, hp.pending, dispatchedAs_of_pending evs hp.pending, rfl, ?_, hp.current⟩
  rw [next, hp.step_eq, pending_publish]
  simp [completed]

/-- Worker 7 registers on handle 1, a client on handle 2 looks up the empty graph, and handle 3
connects. -/
def dispatchRun : List Event :=
  [.accept 1, .message 1 { type := .register, workerId := 7, workerBoot := 9 }, .accept 2,
    .message 2 { type := .lookup, requestId := 5, payload := encodeCapture {} {} }, .accept 3]

/-- A result for attempt 1, without authority fields. -/
def resultMessage : ProtocolMessage where
  type := .captureResult
  captureAttempt := 1
  payload := CanonicalWriter.take [putStr 1 (Id128.toStr ⟨3, 4⟩)]

set_option maxRecDepth 10000 in
/-- What handle `s` stores with it. -/
theorem stores_resultMessage (s : Sock) (hs : s = 1 ∨ s = 3) :
    ((run dispatchRun).next (.message s resultMessage)).graphs (artifactKey (Id128.toStr ⟨3, 4⟩)) =
        some ⟨⟨3, 4⟩, 2, 7, 1⟩ ∧
      (run dispatchRun).graphs (artifactKey (Id128.toStr ⟨3, 4⟩)) ≠ some ⟨⟨3, 4⟩, 2, 7, 1⟩ := by
  rcases hs with rfl | rfl <;> decide +kernel

theorem publication_authorized_worker :
    ∃ pc, resultMessage.type = .captureResult ∧
      (run dispatchRun).pending resultMessage.captureAttempt = some pc ∧
      DispatchedAs resultMessage.captureAttempt pc dispatchRun ∧ (7 : WorkerId) = pc.workerId ∧
      ((run dispatchRun).next (.message 1 resultMessage)).pending resultMessage.captureAttempt =
        none ∧
      (run dispatchRun).Current resultMessage :=
  have h := stores_resultMessage 1 (.inl rfl)
  publication_authorized dispatchRun 1 resultMessage _ _ h.1 h.2

/-- A message that completes a pending capture comes from the worker it was dispatched to, under
that worker's current boot. -/
def CompletedByWorker : Prop :=
  ∀ (evs : List Event) (s : Sock) (m : ProtocolMessage) (pc : PendingCapture) (k : Str) (e : Entry),
    (run evs).pending m.captureAttempt = some pc →
    ((run evs).next (.message s m)).graphs k = some e → (run evs).graphs k ≠ some e →
    ∃ c, (run evs).conns s = some c ∧ c.isWorker = true ∧ c.workerId = pc.workerId ∧
      c.workerBoot = (run evs).bootFor pc.workerId

set_option maxRecDepth 10000 in
/-- Handle 3 never registered and completes the capture of worker 7. -/
theorem completed_by_stranger : ¬ CompletedByWorker := by
  intro h
  obtain ⟨hnew, hold⟩ := stores_resultMessage 3 (.inr rfl)
  have hfacts : ((run dispatchRun).pending resultMessage.captureAttempt).isSome ∧
      (run dispatchRun).conns 3 = some {} := by decide +kernel
  obtain ⟨pc, hpc⟩ := Option.isSome_iff_exists.mp hfacts.1
  obtain ⟨c, hc, hworker, -⟩ := h dispatchRun 3 resultMessage pc _ _ hpc hnew hold
  rw [hfacts.2] at hc
  cases hc
  cases hworker

end Coordinator

end GraphCache
