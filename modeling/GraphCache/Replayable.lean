import GraphCache.Completion

/-!
# Hits can be replayed

A graph is stored under the key of its lookup and under its artifact, each with a generation. A
lookup answers with the generation of the first, a replay is checked against the second. The two
agree until an artifact that is already stored is published again : by a second lookup that was
dispatched before the first capture was done, or by another workload with the same graph. Then one
generation moves and the other stays (`hit_not_replayable`).

`Twins` is the invariant : every live entry has a live one of the same generation under its
artifact, and so has every answer since the last `Invalidate`. It holds in every run of a fleet
without such a publication, where what is published is the text of an id (`hit_replayable`). The
workers publish nothing else (`publishesText_run`), but a client that sends a result of its own may :
its text then stands beside an entry whose artifact was scanned from it, and reads as another.
-/

namespace GraphCache

open History

theorem length_toStr (i : Id128) : i.toStr.length = 33 := by
  simp [Id128.toStr, length_hex, str]

/-- The text of an id at the head of a payload is read back. -/
theorem decodeArtifact_toStr (i : Id128) (w : CanonicalWriter) :
    decodeArtifact (CanonicalWriter.take (putStr 1 i.toStr :: w)) = some i.toStr := by
  have hlen : i.toStr.length < 2 ^ 32 := by
    rw [length_toStr]
    decide
  simp [decodeArtifact, putStr, nextField_take hlen (decodeStr_eq _)]

/-- A key of a lookup is written in hexadecimal digits, which the key of an artifact is not. -/
theorem lookupKey_ne_artifactKey (g : GraphDescriptor) (wl : WorkloadIdentity) (artifactHex : Str) :
    lookupKey g wl ≠ artifactKey artifactHex := by
  intro h
  have hmem : (114 : UInt8) ∈ artifactKey artifactHex :=
    List.mem_append_left _ (by decide)
  rw [← h] at hmem
  exact absurd (isSome_hexValue_of_mem_hex hmem) (by decide)

namespace Coordinator

variable {st : Coordinator} {s : Sock} {m : ProtocolMessage} {ev : Event} {evs : List Event}
  {k artifactHex : Str} {e : Entry} {a : CaptureAttemptId} {pc : PendingCapture}
  {g : GraphGeneration}

/-- A lookup is answered `Ok` with an artifact and its generation. -/
def AnswersHit (artifactHex : Str) (g : GraphGeneration) (st : Coordinator) (ev : Event) : Prop :=
  ∃ t resp, st.sent ev = some (t, resp) ∧ resp.type = .lookupResult ∧ resp.status = .ok ∧
    decodeArtifact resp.payload = some artifactHex ∧ resp.graphGen = g

/-- Such an answer was given, and no `Invalidate` processed after it. -/
def HitSince (artifactHex : Str) (g : GraphGeneration) (evs : List Event) : Prop :=
  Since next {} (AnswersHit artifactHex g) Invalidates evs

/-- An artifact is published that has a live entry already. -/
def Republishes (st : Coordinator) (ev : Event) : Prop :=
  ∃ s m pc artifactHex e, ev = .message s m ∧ st.Publishes s m pc artifactHex ∧
    st.Live (artifactKey artifactHex) e

/-- What is published is the text of an id. -/
def PublishesText (st : Coordinator) (ev : Event) : Prop :=
  ∀ s m pc artifactHex, ev = .message s m → st.Publishes s m pc artifactHex →
    ∃ i : GraphArtifactId, artifactHex = i.toStr

/-- Every live entry, and every answer since the last `Invalidate`, has a live entry of the same
generation under its artifact. -/
structure Twins (evs : List Event) : Prop where
  keys : ∀ k e, (run evs).Live k e → ∃ e', (run evs).Live (artifactKey e.artifact.toStr) e' ∧
    e'.generation = e.generation
  hits : ∀ artifactHex g, HitSince artifactHex g evs →
    ∃ e, (run evs).Live (artifactKey artifactHex) e ∧ e.generation = g

/-- A capture is recorded under the key of a lookup. -/
theorem key_of_pending (evs : List Event) (h : (run evs).pending a = some pc) :
    ∃ g wl, pc.key = lookupKey g wl := by
  obtain ⟨pre, ev, post, -, ⟨s, m, g, wl, wid, -, -, -, rfl⟩, -⟩ := dispatchedAs_of_pending evs h
  exact ⟨g, wl, rfl⟩

/-- A publication touches one artifact key : its own. -/
theorem names_artifactKey {artifactHex' : Str} (h : (run evs).pending a = some pc)
    (hn : Names pc artifactHex (artifactKey artifactHex')) :
    artifactKey artifactHex' = artifactKey artifactHex := by
  rcases hn with hn | ⟨hn, -⟩
  · exact hn
  · obtain ⟨g, wl, hkey⟩ := key_of_pending evs h
    exact absurd (hn.trans hkey).symm (lookupKey_ne_artifactKey g wl artifactHex')

/-- A publication of a new artifact keeps the live entries of the others. -/
theorem live_artifactKey_of_publishes {artifactHex' : Str}
    (hp : (run evs).Publishes s m pc artifactHex)
    (hnew : ∀ e, ¬ (run evs).Live (artifactKey artifactHex) e)
    (hlive : (run evs).Live (artifactKey artifactHex') e) :
    ((run evs).next (.message s m)).Live (artifactKey artifactHex') e := by
  rw [next, hp.step_eq]
  refine live_publish.mpr (.inr ⟨fun hn => ?_, hlive⟩)
  rw [names_artifactKey hp.pending hn] at hlive
  exact hnew e hlive

/-- Only a lookup and a publication answer `Ok`. -/
theorem not_answersHit_of_invalidates (hi : st.Invalidates ev) : ¬ AnswersHit artifactHex g st ev := by
  rintro ⟨t, resp, hsent, htype, hok, -⟩
  obtain ⟨s, m, rfl, -, hm, -⟩ := hi
  obtain ⟨s', m', heq, ⟨-, -, -, hlookup, -⟩ | ⟨pc, artifactHex, hp, -⟩⟩ :=
    hit_of_sent hsent htype hok
  · cases heq
    cases hm.symm.trans hlookup
  · cases heq
    cases hm.symm.trans hp.type

theorem Twins.concat (h : Twins evs) (htext : PublishesText (run evs) ev)
    (hnew : ¬ (run evs).Republishes ev) : Twins (evs ++ [ev]) := by
  have hrun : run (evs ++ [ev]) = (run evs).next ev := after_concat
  by_cases hi : (run evs).Invalidates ev
  · -- no entry is live after an `Invalidate`, and no answer was given since
    obtain ⟨b, hnext⟩ := hi.next_eq
    refine ⟨fun k e hlive => ?_, fun artifactHex g hhit => ?_⟩
    · rw [hrun, hnext] at hlive
      exact absurd hlive not_live_invalidateAll
    · rcases since_concat.mp hhit with hans | ⟨-, hno⟩
      · exact absurd hans (not_answersHit_of_invalidates hi)
      · exact absurd hi hno
  by_cases hp : ∃ s m pc artifactHex, ev = .message s m ∧ (run evs).Publishes s m pc artifactHex
  · obtain ⟨s, m, pc, artifactHex, rfl, hp⟩ := hp
    obtain ⟨i, rfl⟩ := htext s m pc artifactHex rfl hp
    have hfresh : ∀ e, ¬ (run evs).Live (artifactKey i.toStr) e :=
      fun e he => hnew ⟨s, m, pc, i.toStr, e, rfl, hp, he⟩
    set new : Entry := ⟨i, (run evs).graphGenCounter + 1, pc.workerId, (run evs).cacheGen⟩
    have hown : ((run evs).next (.message s m)).Live (artifactKey i.toStr) new := by
      rw [next, hp.step_eq]
      refine live_publish.mpr (.inl ⟨.inl rfl, ?_⟩)
      rw [scanArtifact_toStr]
      rfl
    refine ⟨fun k e hlive => ?_, fun artifactHex g hhit => ?_⟩ <;> rw [hrun] at *
    · rw [next, hp.step_eq] at hlive
      rcases live_publish.mp hlive with ⟨-, rfl⟩ | ⟨-, hlive⟩
      · rw [scanArtifact_toStr]
        exact ⟨new, hown, rfl⟩
      · obtain ⟨e', he', hgen⟩ := h.keys k e hlive
        exact ⟨e', live_artifactKey_of_publishes hp hfresh he', hgen⟩
    · rcases since_concat.mp hhit with ⟨t, resp, hsent, -, -, hart, hgen⟩ | ⟨hsince, -⟩
      · rw [sent, hp.step_eq, Option.some.injEq, Prod.mk.injEq] at hsent
        obtain ⟨-, rfl⟩ := hsent
        obtain rfl : i.toStr = artifactHex :=
          Option.some.inj ((decodeArtifact_toStr _ []).symm.trans hart)
        exact ⟨new, hown, hgen⟩
      · obtain ⟨e, he, hgen⟩ := h.hits artifactHex g hsince
        exact ⟨e, live_artifactKey_of_publishes hp hfresh he, hgen⟩
  · have hshelf := shelf_next (fun s m pc artifactHex hev hpub =>
      hp ⟨s, m, pc, artifactHex, hev, hpub⟩) hi
    refine ⟨fun k e hlive => ?_, fun artifactHex g hhit => ?_⟩ <;> rw [hrun] at *
    · obtain ⟨e', he', hgen⟩ := h.keys k e ((live_of_shelf hshelf).mp hlive)
      exact ⟨e', (live_of_shelf hshelf).mpr he', hgen⟩
    · rcases since_concat.mp hhit with ⟨t, resp, hsent, htype, hok, hart, hgen⟩ | ⟨hsince, -⟩
      · obtain ⟨s, m, rfl, ⟨g', wl, e, -, -, -, hlive, -, rfl⟩ | ⟨pc, artifactHex, hpub, -⟩⟩ :=
          hit_of_sent hsent htype hok
        · obtain ⟨e', he', hgen'⟩ := h.keys _ e hlive
          obtain rfl : e.artifact.toStr = artifactHex :=
            Option.some.inj ((decodeArtifact_toStr _ []).symm.trans hart)
          exact ⟨e', (live_of_shelf hshelf).mpr he', hgen'.trans hgen⟩
        · exact absurd ⟨s, m, pc, artifactHex, rfl, hpub⟩ hp
      · obtain ⟨e, he, hgen⟩ := h.hits artifactHex g hsince
        exact ⟨e, (live_of_shelf hshelf).mpr he, hgen⟩

theorem twins_run (evs : List Event) (htext : Throughout next {} PublishesText evs)
    (hnew : Throughout next {} (fun st ev => ¬ st.Republishes ev) evs) : Twins evs := by
  induction evs using List.reverseRecOn with
  | nil => exact ⟨fun k e h => absurd h.1 (by simp [run, after]), fun _ _ h => absurd h not_since_nil⟩
  | append_singleton evs ev ih =>
    obtain ⟨htext, htext'⟩ := throughout_concat.mp htext
    obtain ⟨hnew, hnew'⟩ := throughout_concat.mp hnew
    exact (ih htext hnew).concat htext' hnew'

/-- A replay of a live graph under its generation is not refused for the graph. -/
theorem replay_not_stale (hm : m.type = .replayInstruct)
    (hart : decodeArtifact m.payload = some artifactHex)
    (hlive : st.Live (artifactKey artifactHex) e) (hgen : m.graphGen = e.generation) {t : Sock}
    {resp : ProtocolMessage} (hsent : st.sent (.message s m) = some (t, resp)) :
    resp.status ≠ .staleGraphGeneration := by
  have hne : ProtocolStatus.staleEpoch ≠ .staleGraphGeneration ∧
      ProtocolStatus.staleCacheGeneration ≠ .staleGraphGeneration ∧
      ProtocolStatus.staleWorkerBoot ≠ .staleGraphGeneration ∧
      ProtocolStatus.workerUnavailable ≠ .staleGraphGeneration ∧
      ProtocolStatus.ok ≠ .staleGraphGeneration := by decide
  rcases hconn : st.conns s with _ | c
  · simp [sent, step, hconn] at hsent
  have hopen : (st.conns s).isSome := by simp [hconn]
  by_cases hc : st.Current m
  · rw [sent, step_served hopen (by simp [hm]) (by simp [hm]) hc] at hsent
    simp only [serve, hm, handleReplayInstruct, hart, hlive.1, hlive.2, hgen, ne_eq, not_true,
      and_false, if_false] at hsent
    split at hsent <;> obtain ⟨-, rfl⟩ := Prod.mk.inj (Option.some.inj hsent)
    · exact hne.2.2.2.1
    · exact hne.2.2.2.2
  · obtain ⟨type, status, herr, hstep⟩ := step_refused hopen (by simp [hm]) (by simp [hm]) hc
    rw [sent, hstep] at hsent
    obtain ⟨-, rfl⟩ := Prod.mk.inj (Option.some.inj hsent)
    show status ≠ _
    unfold authorityError at herr
    split_ifs at herr <;> obtain ⟨-, rfl⟩ := Prod.mk.inj (Option.some.inj herr)
    · exact hne.1
    · exact hne.2.1
    · exact hne.2.2.1

end Coordinator

namespace Fleet

variable {o : IterationOrder GraphNodeId} {ops : FloatOps} {f : Fleet} {e : Event}
  {evs : List Event}

/-- The results in flight of captures that went well name an artifact by the text of its id. -/
def NamesArtifacts (f : Fleet) : Prop :=
  ∀ p ∈ f.replies, p.msg.type = .captureResult → p.msg.status = .ok →
    ∃ g, p.msg.payload = Worker.capturePayload g

theorem namesArtifacts_run (evs : List Event) : (run o ops evs).NamesArtifacts := by
  induction evs using List.reverseRecOn with
  | nil => exact fun p hp => absurd hp List.not_mem_nil
  | append_singleton evs e ih =>
    rw [run, after_concat]
    intro p hp htype hok
    rcases mem_replies hp with ⟨hp, -⟩ | ⟨-, -, -, -, hreg, -⟩ | ⟨q, -, -, -, hechoes, -⟩
    · exact ih p hp htype hok
    · cases hreg.symm.trans htype
    · exact hechoes.artifact htype hok

/-- The workers of a fleet publish the texts of ids : where no client sends results, nothing else is
published. -/
theorem publishesText_run (evs : List Event) (hclients : ClientsAvoid [.captureResult] evs) :
    Throughout Coordinator.next {} Coordinator.PublishesText (run o ops evs).log := by
  induction evs using List.reverseRecOn with
  | nil => exact throughout_nil
  | append_singleton evs e ih =>
    have hevs := ih fun s m hm => hclients s m (List.mem_append_left _ hm)
    rcases hin : (run o ops evs).input e with _ | ev
    · simpa [run, after_concat, step, hin] using hevs
    · have hlog : (run o ops (evs ++ [e])).log = (run o ops evs).log ++ [ev] := by
        simp [run, after_concat, step, hin]
      rw [hlog]
      refine throughout_concat.mpr ⟨hevs, ?_⟩
      rintro s m pc artifactHex rfl hpub
      obtain ⟨i, p, rfl, hp, rfl, rfl⟩ := deliver_of_captureResult
        (fun s m he => by simpa using hclients s m (by simp [he])) hin hpub.type
      obtain ⟨g, hpayload⟩ := namesArtifacts_run evs p (List.mem_of_getElem? hp) hpub.type
        hpub.status
      refine ⟨g.artifactId, Option.some.inj (hpub.artifact.symm.trans ?_)⟩
      rw [hpayload]
      exact decodeArtifact_toStr g.artifactId _

/-- A replay of what a lookup was answered with, under the answer's generation and the current
epoch and cache generation, is not refused as stale, unless an `Invalidate` came between. -/
def HitsReplayable (f : Fleet) : Prop :=
  ∀ artifactHex g s m, Coordinator.HitSince artifactHex g f.log → m.type = .replayInstruct →
    decodeArtifact m.payload = some artifactHex → m.graphGen = g → m.epoch = f.coord.epoch →
    m.cacheGen = f.coord.cacheGen →
    ∀ t resp, f.coord.sent (.message s m) = some (t, resp) → resp.status ≠ .staleGraphGeneration

/-- In a run that publishes texts of ids only, and none while it has a live entry, hits are
replayable. -/
theorem hit_replayable (o : IterationOrder GraphNodeId) (ops : FloatOps) (evs : List Event)
    (htext : Throughout Coordinator.next {} Coordinator.PublishesText (run o ops evs).log)
    (hnew : Throughout Coordinator.next {} (fun st ev => ¬ st.Republishes ev) (run o ops evs).log) :
    HitsReplayable (run o ops evs) := by
  intro artifactHex g s m hhit hm hart hgen _ _ t resp hsent
  have htwins := Coordinator.twins_run _ htext hnew
  obtain ⟨e, hlive, he⟩ := htwins.hits artifactHex g hhit
  rw [coord_eq] at hsent
  exact Coordinator.replay_not_stale hm hart hlive (hgen.trans he.symm) hsent

/-- Before any result of a capture arrives, nothing is published. -/
theorem not_publishes_of_log (log : List Coordinator.Event)
    (h : ∀ s m, .message s m ∈ log → m.type ≠ .captureResult) :
    Throughout Coordinator.next {} (fun st ev => ∀ s m pc artifactHex, ev = .message s m →
      ¬ st.Publishes s m pc artifactHex) log := by
  rintro pre ev post rfl s m pc artifactHex rfl hpub
  exact h s m (by simp) hpub.type

set_option maxRecDepth 100000 in
theorem hit_replayable_first :
    HitsReplayable (run (.insertion _) .unit (captureRun ++ [.deliver 0])) := by
  obtain ⟨p, pc, artifactHex, hp, hpub⟩ := captured_publishes
  have hall : captured.log.all (fun ev => match ev with
      | .message _ m => m.type ≠ .captureResult
      | _ => true) := by decide +kernel
  have hnone := not_publishes_of_log captured.log fun s m hmem => by
    simpa using List.all_eq_true.mp hall _ hmem
  have hlog : (run (.insertion _) .unit (captureRun ++ [.deliver 0])).log =
      captured.log ++ [.message p.sock p.msg] := log_deliver hp
  refine hit_replayable _ _ _ (publishesText_run _ clientsAvoid_captureRun) ?_
  rw [hlog]
  refine throughout_concat.mpr ⟨?_, ?_⟩
  · rintro pre ev post hsplit ⟨s, m, pc, artifactHex, e, hev, hpub, -⟩
    exact hnone pre ev post hsplit s m pc artifactHex hev hpub
  · rintro ⟨s, m, pc, artifactHex, e, -, -, hlive⟩
    -- nothing is live, for nothing was published before
    obtain ⟨pre, ev, post, hsplit, ⟨s, m, pc, artifactHex, hev, hpub, -⟩, -⟩ :=
      Coordinator.publishedSince_of_live captured.log hlive
    exact hnone pre ev post hsplit s m pc artifactHex hev hpub

/-- The client looks up the same graph twice before the worker has captured it. -/
def racedRun : List Event :=
  [.launch 1 7 5, .deliver 0, .work 0, .connect 2,
    .client 2 { type := .lookup, requestId := 5, payload := encodeCapture {} {} },
    .client 2 { type := .lookup, requestId := 6, payload := encodeCapture {} {} },
    .work 0, .work 0]

/-- The fleet before the two results arrive, after the first and after the second. -/
def raced : Fleet := run (.insertion _) .unit racedRun

def racedOnce : Fleet := run (.insertion _) .unit (racedRun ++ [.deliver 0])

def racedTwice : Fleet := run (.insertion _) .unit (racedRun ++ [.deliver 0] ++ [.deliver 0])

/-- A replay under the first generation. -/
def racedReplay (artifactHex : Str) : ProtocolMessage where
  type := .replayInstruct
  epoch := 1
  cacheGen := 1
  graphGen := 2
  payload := CanonicalWriter.take [putStr 1 artifactHex]

set_option maxRecDepth 100000 in
/-- The first result answers its lookup with generation 2; after the second, a replay under
generation 2 is refused. -/
theorem raced_facts : ∃ p t resp artifactHex q t' refusal, raced.replies[0]? = some p ∧
    raced.coord.sent (.message p.sock p.msg) = some (t, resp) ∧
    decodeArtifact resp.payload = some artifactHex ∧ racedOnce.replies[0]? = some q ∧
    racedTwice.coord.sent (.message 2 (racedReplay artifactHex)) = some (t', refusal) ∧
    resp.type = .lookupResult ∧ resp.status = .ok ∧ resp.graphGen = 2 ∧
    q.msg.type = .captureResult ∧ decodeArtifact (racedReplay artifactHex).payload =
      some artifactHex ∧ racedTwice.coord.epoch = 1 ∧ racedTwice.coord.cacheGen = 1 ∧
    refusal.status = .staleGraphGeneration := by
  have hfacts : (raced.replies[0]?.bind fun p =>
      (raced.coord.sent (.message p.sock p.msg)).bind fun r =>
        (decodeArtifact r.2.payload).bind fun artifactHex => racedOnce.replies[0]?.bind fun q =>
          (racedTwice.coord.sent (.message 2 (racedReplay artifactHex))).map fun r' =>
            decide (r.2.type = .lookupResult ∧ r.2.status = .ok ∧ r.2.graphGen = 2 ∧
              q.msg.type = .captureResult ∧
              decodeArtifact (racedReplay artifactHex).payload = some artifactHex ∧
              racedTwice.coord.epoch = 1 ∧ racedTwice.coord.cacheGen = 1 ∧
              r'.2.status = .staleGraphGeneration)) = some true := by decide +kernel
  obtain ⟨p, hp, hfacts⟩ := Option.bind_eq_some_iff.mp hfacts
  obtain ⟨⟨t, resp⟩, hsent, hfacts⟩ := Option.bind_eq_some_iff.mp hfacts
  obtain ⟨artifactHex, hart, hfacts⟩ := Option.bind_eq_some_iff.mp hfacts
  obtain ⟨q, hq, hfacts⟩ := Option.bind_eq_some_iff.mp hfacts
  obtain ⟨⟨t', refusal⟩, hrefusal, hfacts⟩ := Option.map_eq_some_iff.mp hfacts
  exact ⟨p, t, resp, artifactHex, q, t', refusal, hp, hsent, hart, hq, hrefusal,
    of_decide_eq_true hfacts⟩

theorem hit_not_replayable :
    ¬ ∀ (o : IterationOrder GraphNodeId) (ops : FloatOps) (evs : List Event),
      ClientsAvoid [.captureResult] evs → HitsReplayable (run o ops evs) := by
  intro h
  obtain ⟨p, t, resp, artifactHex, q, t', refusal, hp, hsent, hart, hq, hrefusal, htype, hok, hgen,
    hqtype, hpayload, hepoch, hcacheGen, hstale⟩ := raced_facts
  have hlog₁ : racedOnce.log = raced.log ++ [.message p.sock p.msg] := log_deliver hp
  have hlog₂ : racedTwice.log = racedOnce.log ++ [.message q.sock q.msg] := log_deliver hq
  have hcoord : raced.coord = Coordinator.run raced.log := coord_eq _
  have hhit : Coordinator.HitSince artifactHex 2 racedTwice.log := by
    rw [hlog₂, hlog₁]
    refine since_concat.mpr (.inr ⟨since_concat.mpr (.inl ?_), ?_⟩)
    · rw [hcoord] at hsent
      exact ⟨t, resp, hsent, htype, hok, hart, hgen⟩
    · rintro ⟨s, m, heq, -, hinv, -⟩
      cases heq
      cases hqtype.symm.trans hinv
  have hclients : ClientsAvoid [.captureResult] (racedRun ++ [.deliver 0] ++ [.deliver 0]) := by
    decide
  have hreplay : racedTwice.HitsReplayable := h _ _ _ hclients
  exact hreplay artifactHex 2 2 (racedReplay artifactHex) hhit rfl hpayload rfl hepoch.symm
    hcacheGen.symm t' refusal hrefusal hstale

end Fleet

end GraphCache
