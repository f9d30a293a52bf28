import GraphCache.Returns

/-!
# One call at a time

Threads whose calls do not overlap are the sequential engine. The steps of a call, taken without a
break, add up to what `lookup` and `invalidate` compute (`ends_started`, `ends_roll`); so a run in
which a call begins only where no other is going on leaves the cache as the calls one after another
do, and answers each of them so (`serial_agrees`).
-/

namespace GraphCache

open History

variable {Exec : Type} {cfg : Config Exec}

/-! ## Calls without a break -/

/-- No capture is in flight. -/
def Flights.Idle (f : Flights) : Prop := ∀ k, f.inflight k = none

variable (cfg) in
/-- A thread that goes on alone comes to rest in `q`, with the cache `s'`. -/
inductive Ends : Shared Exec → Pc Exec → State Exec → Pc Exec → Prop
  | rest (sh : Shared Exec) (p : Pc Exec) (hrest : p.rests = true) (hidle : sh.flights.Idle) :
    Ends sh p sh.engine p
  | step (sh : Shared Exec) (p : Pc Exec) (s' : State Exec) (q : Pc Exec) (hrest : p.rests = false)
    (h : Ends (sh.advance cfg p).1 (sh.advance cfg p).2 s' q) : Ends sh p s' q

theorem Ends.next {sh : Shared Exec} {p q : Pc Exec} {s' : State Exec} (h : Ends cfg sh p s' q)
    (hrest : p.rests = false) : Ends cfg (sh.advance cfg p).1 (sh.advance cfg p).2 s' q := by
  cases h with
  | rest _ _ hrest' _ =>
    rw [hrest] at hrest'
    cases hrest'
  | step _ _ _ _ _ h => exact h

theorem Ends.of_rests {sh : Shared Exec} {p q : Pc Exec} {s' : State Exec} (h : Ends cfg sh p s' q)
    (hrest : p.rests = true) : sh.flights.Idle ∧ sh.engine = s' ∧ p = q := by
  cases h with
  | rest _ _ _ hidle => exact ⟨hidle, rfl, rfl⟩
  | step _ _ _ _ hrest' _ =>
    rw [hrest] at hrest'
    cases hrest'

variable {s s' : State Exec} {f : Flights} {q : Pc Exec} {l : LookupCall}

variable (cfg) in
/-- What a lookup does with what a search found. -/
def afterSearch (l : LookupCall) (miss : Option (GraphLookupResult Exec × Bool))
    (found : State Exec × GraphLookupResult Exec) : State Exec × Pc Exec :=
  if found.2.hit then afterHit found.1 l found.2 miss else afterMiss cfg found.1 l found.2 miss

theorem ends_search {miss : Option (GraphLookupResult Exec × Bool)}
    {found : State Exec × GraphLookupResult Exec}
    (hfound : searchCandidates cfg s (makeFacts l.req) l.req.policy = found)
    (h : Ends cfg ⟨(afterSearch cfg l miss found).1, f⟩ (afterSearch cfg l miss found).2 s' q) :
    Ends cfg ⟨s, f⟩ (.search l miss) s' q := by
  refine .step _ _ _ _ rfl ?_
  simp only [Shared.advance, engineStep]
  unfold searchCandidates at hfound
  dsimp only at hfound
  rcases hsc : (scan s.toRegistry (makeFacts l.req) l.req.policy).chosen with _ | ⟨a, dec⟩
  · rw [hsc] at hfound
    rcases hb : (scan s.toRegistry (makeFacts l.req) l.req.policy).bestIncompat with _ | dec
    · rw [hb] at hfound
      subst hfound
      exact h
    · rw [hb] at hfound
      subst hfound
      exact h
  · rw [hsc] at hfound
    dsimp only at hfound
    refine .step _ _ _ _ rfl ?_
    simp only [Shared.advance, engineStep]
    rcases hm : materializeExec cfg s a with ⟨s₁, err | u⟩
    · rw [hm] at hfound
      subst hfound
      exact h
    · rw [hm] at hfound
      refine .step _ _ _ _ rfl ?_
      simp only [Shared.advance, engineStep]
      dsimp only at hfound
      split_ifs at hfound ⊢
      · subst hfound
        exact h
      · subst hfound
        exact .step _ _ _ _ rfl h

/-- A search does not wait for captures. -/
theorem searchCandidates_waited {facts : CompatibilityFacts} {policy : GraphCompatibilityPolicy}
    {cand : GraphLookupResult Exec} (h : searchCandidates cfg s facts policy = (s', cand)) :
    cand.waitedOnCapture = false := by
  obtain rfl : (searchCandidates cfg s facts policy).2 = cand := by rw [h]
  unfold searchCandidates
  dsimp only
  rcases (scan s.toRegistry facts policy).chosen with _ | ⟨a, dec⟩
  · rcases (scan s.toRegistry facts policy).bestIncompat with _ | dec <;> rfl
  · dsimp only
    rcases materializeExec cfg s a with ⟨s₁, err | u⟩
    · rfl
    · dsimp only
      split_ifs <;> rfl

theorem captureEntry_eq (generation : GraphGeneration) (cacheGeneration : CacheGeneration)
    (req : GraphLookupRequest) (attempt : CaptureAttemptId) (costUs : UInt64) :
    captureEntry cfg generation cacheGeneration req attempt costUs =
      (buildCapture cfg req attempt).map fun (g, exec) =>
        capturedEntry generation cacheGeneration req g exec costUs := by
  unfold captureEntry buildCapture
  rcases req.descriptor.finalize cfg.nodeOrder with err | g
  · rfl
  · dsimp only
    rcases validateTopology cfg.nodeOrder g.nodes g.edges with err | u
    · rfl
    · simp only [bind, Except.bind]
      rcases cfg.backend.capture g attempt with err | exec
      · rfl
      · dsimp only
        rcases cfg.backend.validate g exec with err | u <;> rfl

/-- The steps of `capture_graph` in a thread that runs alone. -/
theorem ends_capture {res : GraphLookupResult Exec} {attempt : CaptureAttemptId} {k : Str} {a : ℕ}
    (h : Ends cfg ⟨(captureGraph cfg s l.req attempt l.env).1, f⟩
      (.flight l res attempt (.owner k a (.produced (captureGraph cfg s l.req attempt l.env).2)))
      s' q) :
    Ends cfg ⟨s, f⟩ (.flight l res attempt (.owner k a (.executing .entered))) s' q := by
  unfold captureGraph at h
  rw [captureEntry_eq] at h
  refine .step _ _ _ _ rfl (.step _ _ _ _ rfl ?_)
  simp only [Shared.advance, captureStep]
  rcases hb : buildCapture cfg l.req attempt with err | ⟨g, exec⟩
  · rw [hb] at h
    exact h
  · rw [hb] at h
    refine .step _ _ _ _ rfl (.step _ _ _ _ rfl (.step _ _ _ _ rfl ?_))
    simp only [Shared.advance, captureStep, ne_eq, not_true_eq_false, if_false]
    refine .step _ _ _ _ rfl (.step _ _ _ _ rfl ?_)
    simp only [Shared.advance, captureStep, State.register, Registry.register, Function.update_self]
    exact h

theorem Flights.Idle.flown {k : Str} {res : Result GraphArtifactId} (h : f.Idle)
    (g : Flights → Flights) (hg : ∀ f, (g f).inflight = f.inflight) :
    (((g (f.insert k)).complete f.next res).erase k).Idle := by
  intro k'
  rw [Flights.erase_inflight, Flights.complete_inflight, hg, Flights.insert_inflight]
  split_ifs
  · rfl
  · exact h k'

/-- The owner of a capture that nobody else wants. -/
theorem ends_flight {res : GraphLookupResult Exec} {attempt : CaptureAttemptId} {k : Str}
    (hidle : f.Idle)
    (h : ∀ f' a, f'.Idle → Ends cfg ⟨(captureGraph cfg s l.req attempt l.env).1, f'⟩
      (.flight l res attempt (.returned k a (captureGraph cfg s l.req attempt l.env).2 true)) s' q) :
    Ends cfg ⟨s, f⟩ (.flight l res attempt (.called k)) s' q := by
  refine .step _ _ _ _ rfl ?_
  simp only [Shared.advance, Flights.advance, hidle k]
  refine .step _ _ _ _ rfl (ends_capture (.step _ _ _ _ rfl (.step _ _ _ _ rfl
    (.step _ _ _ _ rfl (h _ _ ?_)))))
  exact hidle.flown (fun f => { f with activeCaptures := f.activeCaptures + 1 }) fun _ => rfl

/-- A lookup without a break is the lookup of the engine. -/
theorem ends_started (hidle : f.Idle) :
    Ends cfg ⟨s, f⟩ (.started l) (lookup cfg s l.req l.env).1
      (.answered (lookup cfg s l.req l.env).2) := by
  refine .step _ _ _ _ rfl ?_
  simp only [Shared.advance, engineStep]
  unfold lookup
  dsimp only
  generalize s.touchMetric _ = s₀
  rcases hfound : searchCandidates cfg s₀ (makeFacts l.req) l.req.policy with ⟨s₁, cand⟩
  refine ends_search hfound ?_
  have hwaited := searchCandidates_waited hfound
  unfold afterSearch
  dsimp only
  by_cases hhit : cand.hit = true
  · rw [if_pos hhit, if_pos hhit]
    exact .rest _ _ rfl hidle
  · rw [if_neg hhit, if_neg hhit]
    unfold afterMiss
    dsimp only
    generalize s₁.touchMetric _ = s₁
    split_ifs
    · refine .step _ _ _ _ rfl ?_
      simp only [Shared.advance, engineStep]
      refine ends_flight hidle fun f' a hidle' => ?_
      rcases captureGraph cfg _ l.req _ l.env with ⟨s₂, err | id⟩
      · refine .step _ _ _ _ rfl ?_
        simp only [Shared.advance, hwaited]
        exact .rest _ _ rfl hidle'
      · refine .step _ _ _ _ rfl ?_
        simp only [Shared.advance]
        rcases hagain : searchCandidates cfg s₂ (makeFacts l.req) l.req.policy with ⟨s₃, again⟩
        refine ends_search hagain ?_
        have hwaited' := searchCandidates_waited hagain
        unfold afterSearch
        dsimp only
        by_cases hhit' : again.hit = true
        · rw [if_pos hhit', if_pos hhit', hwaited']
          exact .rest _ _ rfl hidle'
        · rw [if_neg hhit', if_neg hhit', hwaited]
          exact .rest _ _ rfl hidle'
    · exact .rest _ _ rfl hidle

theorem ends_marks {req : InvalidationRequest} {newGen : CacheGeneration} (hidle : f.Idle) :
    ∀ (targets : List ℕ) {s : State Exec} {res : InvalidationResult},
      Ends cfg ⟨s, f⟩ (.mark req newGen targets res)
        ((targets.foldl (invalidateEntry cfg req.strong) (s, res)).1.touchMetric fun m => { m with
          invalidations := m.invalidations +
            UInt64.ofNat (targets.foldl (invalidateEntry cfg req.strong) (s, res)).2.invalidated })
        (.invalidated { (targets.foldl (invalidateEntry cfg req.strong) (s, res)).2 with
          newCacheGeneration := newGen })
  | [], _, _ => .step _ _ _ _ rfl (.rest _ _ rfl hidle)
  | _ :: targets, _, _ => .step _ _ _ _ rfl (ends_marks hidle targets)

theorem ends_roll {req : InvalidationRequest} (hidle : f.Idle) :
    Ends cfg ⟨s, f⟩ (.roll req) (invalidate cfg s req).1 (.invalidated (invalidate cfg s req).2) :=
  .step _ _ _ _ rfl (.step _ _ _ _ rfl (ends_marks hidle _))

/-! ## Runs -/

/-- The call that an event begins. -/
def ThreadEvent.op (Exec : Type) : ThreadEvent → Option (Op Exec)
  | .lookup _ l => some (.lookup l.req l.env)
  | .invalidate _ req => some (.invalidate req)
  | .step _ => none

namespace Threads

variable (cfg) in
/-- The calls that begin in a run. -/
def made : Threads Exec → List ThreadEvent → List (Op Exec)
  | _, [] => []
  | s, ev :: evs =>
    (if (s.pc ev.thread).rests then (ev.op Exec).toList else []) ++ made (s.next cfg ev) evs

theorem made_append (s : Threads Exec) (evs evs' : List ThreadEvent) :
    made cfg s (evs ++ evs') = made cfg s evs ++ made cfg (after (next cfg) s evs) evs' := by
  induction evs generalizing s with
  | nil => rfl
  | cons e evs ih =>
    rw [List.cons_append, made, ih, made, List.append_assoc]
    rfl

theorem made_concat (s : Threads Exec) (evs : List ThreadEvent) (ev : ThreadEvent) :
    made cfg s (evs ++ [ev]) = made cfg s evs ++
      if ((after (next cfg) s evs).pc ev.thread).rests then (ev.op Exec).toList else [] := by
  rw [made_append, made, made, List.append_nil]

/-- A call begins only where no other is going on. -/
def InTurn (s : Threads Exec) (ev : ThreadEvent) : Prop :=
  (∃ op, ev.op Exec = some op) → (s.pc ev.thread).rests = true → ∀ u, (s.pc u).rests = true

variable (cfg) in
/-- What a thread was answered is what the engine answers there. -/
def Answers (engine : State Exec) (ops : List (Op Exec)) : Pc Exec → Prop
  | .answered res => ∃ pre req env post, ops = pre ++ .lookup req env :: post ∧
      res = (GraphCache.lookup cfg (GraphCache.run cfg engine pre) req env).2
  | .invalidated res => ∃ pre req post, ops = pre ++ .invalidate req :: post ∧
      res = (GraphCache.invalidate cfg (GraphCache.run cfg engine pre) req).2
  | _ => True

variable {engine : State Exec} {ops : List (Op Exec)} {s : Threads Exec} {t : ℕ} {p : Pc Exec}

theorem Answers.append (h : Answers cfg engine ops p) (more : List (Op Exec)) :
    Answers cfg engine (ops ++ more) p := by
  cases p with
  | answered res =>
    obtain ⟨pre, req, env, post, rfl, rfl⟩ := h
    exact ⟨pre, req, env, post ++ more, by simp, rfl⟩
  | invalidated res =>
    obtain ⟨pre, req, post, rfl, rfl⟩ := h
    exact ⟨pre, req, post ++ more, by simp, rfl⟩
  | _ => trivial

variable (cfg engine ops) in
/-- All calls have returned, or one thread is in the last of them and the others rest. -/
inductive Serially (s : Threads Exec) : Prop
  | quiet (hrest : ∀ t, (s.pc t).rests = true) (hidle : s.flights.Idle)
    (hengine : s.engine = GraphCache.run cfg engine ops)
  | busy (t : ℕ) (q : Pc Exec) (hothers : ∀ u ≠ t, (s.pc u).rests = true)
    (hbusy : (s.pc t).rests = false)
    (hends : Ends cfg s.toShared (s.pc t) (GraphCache.run cfg engine ops) q)
    (hanswer : Answers cfg engine ops q)

theorem call_rests (h : (s.pc t).rests = true) : s.call t p = s.move t s.toShared p := by
  unfold call
  split
  · rfl
  · rfl
  · rfl
  · rename_i h₁ h₂ h₃
    cases hp : s.pc t with
    | idle => exact absurd hp h₁
    | answered res => exact absurd hp (h₂ res)
    | invalidated res => exact absurd hp (h₃ res)
    | _ =>
      rw [hp] at h
      cases h

theorem call_busy (h : (s.pc t).rests = false) : s.call t p = s := by
  unfold call
  split
  · rename_i hp
    rw [hp] at h
    cases h
  · rename_i res hp
    rw [hp] at h
    cases h
  · rename_i res hp
    rw [hp] at h
    cases h
  · rfl

theorem advance_rests (sh : Shared Exec) (h : p.rests = true) : sh.advance cfg p = (sh, p) := by
  cases p with
  | idle | answered | invalidated => rfl
  | _ => cases h

/-- A call that begins where all threads rest. -/
theorem Serially.call (h : Serially cfg engine ops s) (hall : ∀ u, (s.pc u).rests = true)
    {op : Op Exec} {q : Pc Exec} (hp : p.rests = false)
    (hends : s.flights.Idle → Ends cfg ⟨GraphCache.run cfg engine ops, s.flights⟩ p
      (GraphCache.step cfg (GraphCache.run cfg engine ops) op) q)
    (hanswer : Answers cfg engine (ops ++ [op]) q) :
    Serially cfg engine (ops ++ [op]) (s.move t s.toShared p) := by
  cases h with
  | busy u q' _ hbusy _ _ =>
    rw [hall u] at hbusy
    cases hbusy
  | quiet _ hidle hengine =>
    have hpc : (s.move t s.toShared p).pc t = p := Function.update_self ..
    refine .busy t q (fun u hu => ?_) ?_ ?_ hanswer
    · rw [move_pc, if_neg hu]
      exact hall u
    · rw [hpc]
      exact hp
    · rw [hpc, GraphCache.run_concat, show (s.move t s.toShared p).toShared =
        ⟨GraphCache.run cfg engine ops, s.flights⟩ by rw [← hengine]; rfl]
      exact hends hidle

variable (cfg engine ops) in
/-- So far the run is a serial one, and its answers are those of the engine. -/
structure Follows (s : Threads Exec) : Prop where
  serially : Serially cfg engine ops s
  answers : ∀ u, Answers cfg engine ops (s.pc u)

/-- In a call there is no answer yet. -/
theorem answers_of_busy (h : p.rests = false) : Answers cfg engine ops p := by
  cases p with
  | idle | answered | invalidated => cases h
  | _ => trivial

theorem Follows.call (h : Follows cfg engine ops s) {op : Op Exec} {q : Pc Exec}
    (hall : (s.pc t).rests = true → ∀ u, (s.pc u).rests = true) (hp : p.rests = false)
    (hends : s.flights.Idle → Ends cfg ⟨GraphCache.run cfg engine ops, s.flights⟩ p
      (GraphCache.step cfg (GraphCache.run cfg engine ops) op) q)
    (hanswer : Answers cfg engine (ops ++ [op]) q) :
    Follows cfg engine (ops ++ if (s.pc t).rests then [op] else []) (s.call t p) := by
  rcases hrest : (s.pc t).rests with _ | _
  · rw [call_busy hrest, if_neg Bool.false_ne_true, List.append_nil]
    exact h
  · rw [call_rests hrest, if_pos rfl]
    refine ⟨h.serially.call (hall hrest) hp hends hanswer, fun u => ?_⟩
    rw [move_pc]
    split_ifs
    · exact answers_of_busy hp
    · exact (h.answers u).append _

/-- A thread does not move by the events of others. -/
theorem next_pc_of_ne {ev : ThreadEvent} (h : ev.thread ≠ t) : (s.next cfg ev).pc t = s.pc t := by
  have hcall : ∀ u p, u ≠ t → (s.call u p).pc t = s.pc t := by
    intro u p hu
    cases hrest : (s.pc u).rests with
    | true => rw [call_rests hrest, move_pc, if_neg hu.symm]
    | false => rw [call_busy hrest]
  cases ev with
  | lookup u l => exact hcall u _ h
  | invalidate u req => exact hcall u _ h
  | step u =>
    have hne : t ≠ u := Ne.symm h
    rw [next, move_pc, if_neg hne]

/-- After a step of `t` every thread has its answer, if `t` has. -/
theorem answers_step (h : ∀ u, Answers cfg engine ops (s.pc u))
    (hself : Answers cfg engine ops ((s.next cfg (.step t)).pc t)) (u : ℕ) :
    Answers cfg engine ops ((s.next cfg (.step t)).pc u) := by
  by_cases hu : u = t
  · rw [hu]
    exact hself
  · have hne : (ThreadEvent.step t).thread ≠ u := Ne.symm hu
    rw [next_pc_of_ne hne]
    exact h u

theorem Follows.step (h : Follows cfg engine ops s) (t : ℕ) :
    Follows cfg engine ops (s.next cfg (.step t)) := by
  rcases hrest : (s.pc t).rests with _ | _
  · obtain ⟨hserially, hanswers⟩ := h
    cases hserially with
    | quiet hall _ _ =>
      rw [hall t] at hrest
      cases hrest
    | busy u q hothers hbusy hends hanswer =>
      obtain rfl : t = u := by
        by_contra hne
        rw [hothers t hne] at hrest
        cases hrest
      have hpc : (s.next cfg (.step t)).pc t = (s.advance cfg (s.pc t)).2 := Function.update_self ..
      have hsh : (s.next cfg (.step t)).toShared = (s.advance cfg (s.pc t)).1 := rfl
      have hothers' : ∀ u ≠ t, ((s.next cfg (.step t)).pc u).rests = true := by
        intro u hu
        have hne : (ThreadEvent.step t).thread ≠ u := Ne.symm hu
        rw [next_pc_of_ne hne]
        exact hothers u hu
      have hnext := hends.next hrest
      rw [← hsh, ← hpc] at hnext
      cases hp : ((s.next cfg (.step t)).pc t).rests with
      | false =>
        exact ⟨.busy t q hothers' hp hnext hanswer, answers_step hanswers (answers_of_busy hp)⟩
      | true =>
        obtain ⟨hidle, hengine, rfl⟩ := hnext.of_rests hp
        refine ⟨.quiet (fun u => ?_) hidle hengine, answers_step hanswers hanswer⟩
        by_cases hu : u = t
        · rw [hu]
          exact hp
        · exact hothers' u hu
  · have hsame : s.next cfg (.step t) = s := by
      rw [next, advance_rests _ hrest, move, Function.update_eq_self]
    rw [hsame]
    exact h

/-! ## Threads that are left alone -/

/-- Steps begin no call. -/
theorem made_steps (s : Threads Exec) (t n : ℕ) : made cfg s (steps t n) = [] := by
  induction n generalizing s with
  | zero => rfl
  | succ n ih =>
    rw [steps, List.replicate_succ, made, ← steps, ih, List.append_nil]
    split_ifs <;> rfl

theorem throughout_steps {evs : List ThreadEvent} (s : Threads Exec) (t n : ℕ)
    (h : Throughout (next cfg) (after (next cfg) s (steps t n)) InTurn evs) :
    Throughout (next cfg) s InTurn (steps t n ++ evs) := by
  induction n generalizing s with
  | zero => exact h
  | succ n ih =>
    rw [steps, List.replicate_succ, List.cons_append, throughout_cons]
    refine ⟨?_, ih _ h⟩
    rintro ⟨op, hop⟩
    cases hop

theorem after_pc_of_ne {evs : List ThreadEvent} (h : ∀ ev ∈ evs, ev.thread ≠ t) :
    (after (next cfg) s evs).pc t = s.pc t := by
  induction evs generalizing s with
  | nil => rfl
  | cons ev evs ih =>
    have hrest : (after (next cfg) (s.next cfg ev) evs).pc t = (s.next cfg ev).pc t :=
      ih fun e he => h e (List.mem_cons_of_mem _ he)
    exact hrest.trans (next_pc_of_ne (h ev List.mem_cons_self))

/-- Two threads rest, and no other has begun. -/
theorem rests_of_two {evs : List ThreadEvent} {engine : State Exec}
    (hthreads : ∀ ev ∈ evs, ev.thread < 2)
    (h : ((Threads.run cfg engine evs).pc 0).rests ∧ ((Threads.run cfg engine evs).pc 1).rests)
    (t : ℕ) : ((Threads.run cfg engine evs).pc t).rests = true := by
  rcases t with _ | _ | t
  · exact h.1
  · exact h.2
  · rw [Threads.run, after_pc_of_ne fun ev hev => ((hthreads ev hev).trans_le (by omega)).ne]
    rfl

end Threads

open Threads

/-- Runs whose calls do not overlap are runs of the sequential engine. -/
theorem serial_agrees (cfg : Config Exec) (engine : State Exec) (evs : List ThreadEvent)
    (hserial : Throughout (next cfg) { engine } InTurn evs) :
    ((∀ t, ((Threads.run cfg engine evs).pc t).rests = true) →
      (Threads.run cfg engine evs).engine = run cfg engine (made cfg { engine } evs)) ∧
    ∀ t, Threads.Answers cfg engine (made cfg { engine } evs) ((Threads.run cfg engine evs).pc t) := by
  have hfollows : Follows cfg engine (made cfg { engine } evs) (Threads.run cfg engine evs) := by
    induction evs using List.reverseRecOn with
    | nil => exact ⟨.quiet (fun _ => rfl) (fun _ => rfl) rfl, fun _ => trivial⟩
    | append_singleton evs ev ih =>
      obtain ⟨hbefore, hnow⟩ := throughout_concat.mp hserial
      have h := ih hbefore
      rw [made_concat, Threads.run, after_concat]
      cases ev with
      | lookup t l =>
        exact h.call (hnow ⟨_, rfl⟩) rfl ends_started ⟨_, l.req, l.env, [], rfl, rfl⟩
      | invalidate t req => exact h.call (hnow ⟨_, rfl⟩) rfl ends_roll ⟨_, req, [], rfl, rfl⟩
      | step t =>
        have hnone : (if ((after (next cfg) { engine } evs).pc t).rests then
            ((ThreadEvent.step t).op Exec).toList else []) = [] := by
          split_ifs <;> rfl
        rw [show (ThreadEvent.step t).thread = t from rfl, hnone, List.append_nil]
        exact h.step t
  refine ⟨fun hall => ?_, hfollows.answers⟩
  cases hfollows.serially with
  | quiet _ _ hengine => exact hengine
  | busy u _ _ hbusy _ _ =>
    rw [hall u] at hbusy
    cases hbusy

namespace Threads

/-- Thread 0 has a graph captured. -/
def firstCall : List ThreadEvent := .lookup 0 blankCall :: steps 0 20

/-- Thread 1 invalidates everything after that. -/
def oneByOne : List ThreadEvent := firstCall ++ .invalidate 1 { scope := .byAll } :: steps 1 4

set_option maxRecDepth 100000 in
theorem rests_firstCall (t : ℕ) :
    ((Threads.run (.cpu (.insertion _) .unit) (.fresh none) firstCall).pc t).rests = true :=
  rests_of_two (by decide) (by decide +kernel) t

set_option maxRecDepth 100000 in
theorem rests_oneByOne (t : ℕ) :
    ((Threads.run (.cpu (.insertion _) .unit) (.fresh none) oneByOne).pc t).rests = true :=
  rests_of_two (by decide) (by decide +kernel) t

theorem made_oneByOne : made (.cpu (.insertion _) .unit) { engine := .fresh none } oneByOne =
    [.lookup blankCall.req {}, .invalidate { scope := .byAll }] := by
  have hfirst : made (.cpu (.insertion _) .unit) { engine := .fresh none } firstCall =
      [.lookup blankCall.req {}] := by
    rw [firstCall, made, made_steps]
    rfl
  have hrest : ((after (next (.cpu (.insertion _) .unit)) { engine := .fresh none } firstCall).pc
      (ThreadEvent.invalidate 1 { scope := .byAll }).thread).rests = true := rests_firstCall 1
  rw [oneByOne, made_append, hfirst, made, made_steps, if_pos hrest]
  rfl

end Threads

set_option maxRecDepth 100000 in
theorem serial_agrees_oneByOne :
    (Threads.run (.cpu (.insertion _) .unit) (.fresh none) oneByOne).engine =
        run (.cpu (.insertion _) .unit) (.fresh none)
          [.lookup blankCall.req {}, .invalidate { scope := .byAll }] ∧
      (Threads.run (.cpu (.insertion _) .unit) (.fresh none) oneByOne).engine.next = 1 := by
  refine ⟨?_, by decide +kernel⟩
  rw [← made_oneByOne]
  refine (serial_agrees _ _ oneByOne ?_).1 rests_oneByOne
  rw [oneByOne, firstCall, List.cons_append, throughout_cons]
  refine ⟨fun _ _ _ => rfl, throughout_steps _ _ _ ?_⟩
  rw [throughout_cons, ← List.append_nil (steps 1 4)]
  exact ⟨fun _ _ => rests_firstCall, throughout_steps _ _ _ throughout_nil⟩

end GraphCache
