import GraphCache.Completion

/-!
# Attempts complete at most once

Whatever arrives, and in whatever order : an attempt is dispatched under a new id, its first result
that passes the checks takes it out of `pending` and is answered on the handle that asked, and
every later result finds nothing (`at_most_once`). The ids are the values of a counter, so `pending`
holds no id above it (`Issued`), and an id below it that is gone stays gone (`Spent`).

Counters are 64-bit words; the run is one on which no counter wraps (`Advances`).
-/

namespace GraphCache

namespace Coordinator

open History

variable {st : Coordinator} {s : Sock} {m : ProtocolMessage} {ev : Event} {evs : List Event}
  {a : CaptureAttemptId} {pc : PendingCapture}

/-- No counter wraps : an input takes none of them down. -/
def Advances (st : Coordinator) (ev : Event) : Prop :=
  st.captureCounter ≤ (st.next ev).captureCounter ∧
    st.graphGenCounter ≤ (st.next ev).graphGenCounter

instance : Decidable (st.Advances ev) :=
  inferInstanceAs (Decidable (_ ∧ _))

/-- A result of attempt `a` passes the checks while `a` is pending as `pc`, and its `LookupResult` is
sent on the handle of `pc`. -/
def Reports (a : CaptureAttemptId) (pc : PendingCapture) (st : Coordinator) (ev : Event) : Prop :=
  ∃ s m, ev = .message s m ∧ (st.conns s).isSome ∧ m.type = .captureResult ∧
    m.captureAttempt = a ∧ st.Current m ∧ st.pending a = some pc ∧ Answers pc st ev

/-! ## Counters -/

theorem DispatchesAs.captureCounter (h : DispatchesAs a pc st ev) :
    (st.next ev).captureCounter = a ∧ a = st.captureCounter + 1 := by
  obtain ⟨s, m, g, wl, wid, rfl, hd, rfl, -⟩ := h
  rw [next, hd.step_eq]
  exact ⟨rfl, rfl⟩

/-- A dispatch goes beyond every id there was. -/
theorem DispatchesAs.lt (h : DispatchesAs a pc st ev) (hadv : st.Advances ev) :
    st.captureCounter < a := by
  obtain ⟨hnext, ha⟩ := h.captureCounter
  refine UInt64.lt_of_le_of_ne (hnext ▸ hadv.1) fun heq => ?_
  rw [ha] at heq
  have := congrArg UInt64.toNat heq
  simp at this
  omega

theorem Publishes.graphGenCounter {artifactHex : Str} (h : st.Publishes s m pc artifactHex) :
    (st.next (.message s m)).graphGenCounter = st.graphGenCounter + 1 := by
  rw [next, h.step_eq]
  unfold publish
  split_ifs <;> rfl

theorem PublishesAs.generation {k : Str} {e : Entry} (h : PublishesAs k e st ev)
    (hadv : st.Advances ev) :
    (st.next ev).graphGenCounter = e.generation ∧ st.graphGenCounter < e.generation := by
  obtain ⟨s, m, pc, artifactHex, rfl, hp, -, rfl⟩ := h
  have hnext := hp.graphGenCounter
  refine ⟨hnext, UInt64.lt_of_le_of_ne (hnext ▸ hadv.2) fun heq => ?_⟩
  have := congrArg UInt64.toNat heq
  simp at this
  omega

/-! ## An attempt that is gone -/

/-- Attempt `a` was dispatched and is not pending any more. -/
def Spent (a : CaptureAttemptId) (st : Coordinator) : Prop :=
  a ≤ st.captureCounter ∧ st.pending a = none

theorem Spent.next (h : st.Spent a) (hadv : st.Advances ev) : (st.next ev).Spent a := by
  refine ⟨UInt64.le_trans h.1 hadv.1, ?_⟩
  by_contra hsome
  obtain ⟨pc, hpc⟩ := Option.ne_none_iff_exists'.mp hsome
  rcases pending_next hpc with hd | ⟨hold, -⟩
  · exact absurd h.1 (UInt64.not_le.mpr (hd.lt hadv))
  · rw [h.2] at hold
    cases hold

/-- Every pending attempt was issued by the counter. -/
theorem issued_run (evs : List Event) (hadv : Throughout next {} Advances evs)
    (h : (run evs).pending a = some pc) : a ≤ (run evs).captureCounter := by
  induction evs using List.reverseRecOn with
  | nil => cases h
  | append_singleton evs ev ih =>
    obtain ⟨hevs, hlast⟩ := throughout_concat.mp hadv
    rw [run, after_concat] at h ⊢
    rcases pending_next h with hd | ⟨hold, -⟩
    · exact UInt64.le_of_eq hd.captureCounter.1.symm
    · exact UInt64.le_trans (ih hevs hold) hlast.1

theorem Reports.spent (h : Reports a pc (run evs) ev)
    (hadv : Throughout next {} Advances (evs ++ [ev])) : (run (evs ++ [ev])).Spent a := by
  obtain ⟨hevs, hlast⟩ := throughout_concat.mp hadv
  obtain ⟨s, m, rfl, hopen, htype, rfl, hc, hpc, -⟩ := h
  rw [run, after_concat]
  exact ⟨UInt64.le_trans (issued_run evs hevs hpc) hlast.1,
    pending_of_result hopen htype (.inr hc)⟩

/-- A result that finds its attempt pending and passes the checks is reported. -/
theorem reports_of_pending (hopen : (st.conns s).isSome) (htype : m.type = .captureResult)
    (hc : st.Current m) (hpc : st.pending m.captureAttempt = some pc) :
    Reports m.captureAttempt pc st (.message s m) :=
  ⟨s, m, rfl, hopen, htype, rfl, hc, hpc,
    answers_of_taken hpc (pending_of_result hopen htype (.inr hc))⟩

/-- A result of an attempt that is not pending stores nothing. -/
theorem result_not_pending (htype : m.type = .captureResult)
    (hn : st.pending m.captureAttempt = none) : st.next (.message s m) = st := by
  rcases hconn : st.conns s with _ | c
  · simp [next, step, hconn]
  have hopen : (st.conns s).isSome := by simp [hconn]
  by_cases hc : st.Current m
  · rw [next, step_served hopen (by simp [htype]) (by simp [htype]) hc, serve, htype]
    simp [handleCaptureResult, hn]
  · obtain ⟨_, _, -, hstep⟩ := step_refused hopen (by simp [htype]) (by simp [htype]) hc
    rw [next, hstep]

/-! ## At most once -/

/-- Attempts are dispatched under different ids, each is reported and published at most once,
generations increase, and a result of an attempt that is not pending stores nothing. -/
structure AtMostOnce (evs : List Event) : Prop where
  attempts : ∀ pre ev mid ev' post a a' pc pc', evs = pre ++ ev :: mid ++ ev' :: post →
    DispatchesAs a pc (run pre) ev → DispatchesAs a' pc' (run (pre ++ ev :: mid)) ev' → a ≠ a'
  reports : ∀ pre ev mid ev' post a pc pc', evs = pre ++ ev :: mid ++ ev' :: post →
    Reports a pc (run pre) ev → ¬ Reports a pc' (run (pre ++ ev :: mid)) ev'
  publications : ∀ pre s m mid s' m' post pc artifactHex pc' artifactHex',
    evs = pre ++ .message s m :: mid ++ .message s' m' :: post →
    (run pre).Publishes s m pc artifactHex →
    (run (pre ++ .message s m :: mid)).Publishes s' m' pc' artifactHex' →
    m.captureAttempt ≠ m'.captureAttempt
  generations : ∀ pre ev mid ev' post k e k' e', evs = pre ++ ev :: mid ++ ev' :: post →
    PublishesAs k e (run pre) ev → PublishesAs k' e' (run (pre ++ ev :: mid)) ev' →
    e.generation < e'.generation
  notPending : ∀ pre s m post, evs = pre ++ .message s m :: post → m.type = .captureResult →
    (run pre).pending m.captureAttempt = none →
    ((run pre).next (.message s m)).graphs = (run pre).graphs ∧
      ((run pre).next (.message s m)).invalidated = (run pre).invalidated ∧
      ((run pre).next (.message s m)).graphGenCounter = (run pre).graphGenCounter

/-- Of a run on which two inputs are picked out : both advance, and so do those between. -/
theorem advances_between {pre mid post : List Event} {ev' : Event}
    (h : Throughout next {} Advances (pre ++ ev :: mid ++ ev' :: post)) :
    (run pre).Advances ev ∧ (run (pre ++ ev :: mid)).Advances ev' ∧
      Throughout next {} Advances (pre ++ [ev] ++ mid) := by
  refine ⟨h pre ev (mid ++ ev' :: post) (by simp), h (pre ++ ev :: mid) ev' post rfl, ?_⟩
  rw [List.append_assoc, List.singleton_append]
  exact h.of_append

/-- Attempts are completed at most once on every run on which no counter wraps. -/
theorem at_most_once (evs : List Event) (hadv : Throughout next {} Advances evs) :
    AtMostOnce evs := by
  have hreports : ∀ pre ev mid ev' post a pc pc', evs = pre ++ ev :: mid ++ ev' :: post →
      Reports a pc (run pre) ev → ¬ Reports a pc' (run (pre ++ ev :: mid)) ev' := by
    rintro pre ev mid ev' post a pc pc' rfl h ⟨-, -, -, -, -, -, -, hpc', -⟩
    obtain ⟨-, -, hmid⟩ := advances_between hadv
    have hspent : (run (pre ++ [ev] ++ mid)).Spent a :=
      after_keeps (hmid.imp fun st ev hadv h => h.next hadv) (h.spent hmid.of_append)
    rw [List.append_assoc, List.singleton_append] at hspent
    exact absurd (hspent.2.symm.trans hpc') (by simp)
  refine ⟨?_, hreports, ?_, ?_, ?_⟩
  · rintro pre ev mid ev' post a a' pc pc' rfl hd hd'
    obtain ⟨-, hlast, hmid⟩ := advances_between hadv
    have hle := Throughout.le (f := fun st => st.captureCounter.toNat)
      (hmid.imp fun st ev hadv => UInt64.le_iff_toNat_le.mp hadv.1)
    rw [after_concat, hd.captureCounter.1, List.append_assoc, List.singleton_append] at hle
    rintro rfl
    exact absurd (UInt64.le_iff_toNat_le.mpr hle) (UInt64.not_le.mpr (hd'.lt hlast))
  · rintro pre s m mid s' m' post pc artifactHex pc' artifactHex' hsplit hp hp' heq
    refine hreports pre _ mid _ post _ pc pc' hsplit
      (reports_of_pending hp.isOpen hp.type hp.current hp.pending) ?_
    rw [heq]
    exact reports_of_pending hp'.isOpen hp'.type hp'.current hp'.pending
  · rintro pre ev mid ev' post k e k' e' rfl hp hp'
    obtain ⟨hfirst, hlast, hmid⟩ := advances_between hadv
    have hle := Throughout.le (f := fun st => st.graphGenCounter.toNat)
      (hmid.imp fun st ev hadv => UInt64.le_iff_toNat_le.mp hadv.2)
    rw [after_concat, (hp.generation hfirst).1, List.append_assoc, List.singleton_append] at hle
    exact UInt64.lt_of_le_of_lt (UInt64.le_iff_toNat_le.mpr hle) (hp'.generation hlast).2
  · rintro pre s m post - htype hn
    rw [result_not_pending htype hn]
    exact ⟨rfl, rfl, rfl⟩

set_option maxRecDepth 10000 in
/-- A capture is dispatched, and its result arrives twice. -/
theorem at_most_once_twice :
    AtMostOnce (dispatchRun ++ [.message 1 resultMessage, .message 1 resultMessage]) :=
  at_most_once _ (by decide +kernel)

end Coordinator

end GraphCache
