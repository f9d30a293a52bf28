import GraphCache.Evolution
import GraphCache.SingleFlight

/-!
# Lookups and invalidations of many threads

`lookup` and `invalidate` of `cache.cpp`, one atomic step at a time, in threads that share one
cache. A step is a critical section, or one access to an atomic : the scan under `registry_mutex`,
the materialization under the mutex of the entry, the check under `registry_mutex` again; the steps
of `run_single_flight`, and as its function those of `capture_graph` (`CaptureStage`); the increment
of `cache_generation`, the collection of the targets under `registry_mutex`, and the marking of each.
Threads interleave in any order.

What a step computes is what `lookup` and `invalidate` of the engine compute at that place.
-/

namespace GraphCache

/-! ## Captures -/

/-- The descriptor and the executable of a capture, or why there is none. -/
def buildCapture {Exec : Type} (cfg : Config Exec) (req : GraphLookupRequest)
    (attempt : CaptureAttemptId) : Result (GraphDescriptor × Exec) :=
  match req.descriptor.finalize cfg.nodeOrder with
  | .error _ => fail .invalidArgument "descriptor finalize failed"
  | .ok g => do
    validateTopology cfg.nodeOrder g.nodes g.edges
    let exec ← cfg.backend.capture g attempt
    match cfg.backend.validate g exec with
    | .error e => .error ⟨.validationFailed, e.message⟩
    | .ok () => .ok (g, exec)

/-- The key under which a request is captured. -/
def keyHex (req : GraphLookupRequest) : Str := (GraphCompatibilityKey.build (makeFacts req)).digestHex

/-- Where a thread is in `capture_graph`. -/
inductive CaptureStage (Exec : Type)
  | entered
  | loaded (genAtStart : CacheGeneration)
  | built (genAtStart : CacheGeneration) (g : GraphDescriptor) (exec : Exec)
  | drawn (genAtStart : CacheGeneration) (g : GraphDescriptor) (exec : Exec)
    (generation : GraphGeneration)
  | stamped (genAtStart : CacheGeneration) (e : CacheEntry Exec)
  | checked (genAtStart : CacheGeneration) (e : CacheEntry Exec)
  | inserted (a : ℕ)

/-- The call of a lookup, with what it does not control. -/
structure LookupCall where
  req : GraphLookupRequest
  env : LookupEnv

section

variable {Exec : Type} (cfg : Config Exec)

/-- The next atomic step of `capture_graph`. -/
def captureStep (s : State Exec) (l : LookupCall) (attempt : CaptureAttemptId) :
    CaptureStage Exec → State Exec × (CaptureStage Exec ⊕ Result GraphArtifactId)
  | .entered => (s, .inl (.loaded s.cacheGeneration))
  | .loaded genAtStart =>
    match buildCapture cfg l.req attempt with
    | .error e => (captureFailureMetric cfg s l.req attempt, .inr (.error e))
    | .ok (g, exec) => (s, .inl (.built genAtStart g exec))
  | .built genAtStart g exec =>
    ({ s with graphGenerationCounter := s.graphGenerationCounter + 1 },
      .inl (.drawn genAtStart g exec s.graphGenerationCounter))
  | .drawn genAtStart g exec generation =>
    (s, .inl (.stamped genAtStart
      (capturedEntry generation s.cacheGeneration l.req g exec l.env.captureCostUs)))
  | .stamped genAtStart e =>
    if s.cacheGeneration ≠ genAtStart then
      (s, .inr (fail .staleCompletion "cache generation rolled during capture"))
    else (s, .inl (.checked genAtStart e))
  | .checked _ e => (s.register e, .inl (.inserted s.next))
  | .inserted a =>
    let e := s.heap a
    let s := (persistEntry s a l.env.putOk).1
    (s.touchMetric fun m => { m.bumpScopes e.workload.logicalName e.descriptor.device.scope
        e.workload.namespaceName (fun p => { p with captures := p.captures + 1 }) with
        captures := m.captures + 1 },
      .inr (.ok e.artifactId))

/-! ## Threads -/

/-- Where a thread is. A second search knows the miss that led to the capture, and whether this
thread owned it. -/
inductive Pc (Exec : Type)
  | idle
  | started (l : LookupCall)
  | search (l : LookupCall) (miss : Option (GraphLookupResult Exec × Bool))
  | materialize (l : LookupCall) (miss : Option (GraphLookupResult Exec × Bool)) (a : ℕ)
    (dec : GraphCompatibilityDecision)
  | recheck (l : LookupCall) (miss : Option (GraphLookupResult Exec × Bool)) (a : ℕ)
    (dec : GraphCompatibilityDecision)
  | lease (l : LookupCall) (miss : Option (GraphLookupResult Exec × Bool)) (a : ℕ)
    (dec : GraphCompatibilityDecision)
  | missed (l : LookupCall) (res : GraphLookupResult Exec)
  | flight (l : LookupCall) (res : GraphLookupResult Exec) (attempt : CaptureAttemptId)
    (phase : Phase (CaptureStage Exec))
  | answered (res : GraphLookupResult Exec)
  | roll (req : InvalidationRequest)
  | collect (req : InvalidationRequest) (newGen : CacheGeneration)
  | mark (req : InvalidationRequest) (newGen : CacheGeneration) (targets : List ℕ)
    (res : InvalidationResult)
  | invalidated (res : InvalidationResult)

/-- What the threads share : the cache, and its captures in flight. -/
structure Shared (Exec : Type) where
  engine : State Exec
  flights : Flights := {}

/-- The place in `run_single_flight`. -/
def Pc.phase : Pc Exec → Phase (CaptureStage Exec)
  | .flight _ _ _ phase => phase
  | _ => .outside

structure Threads (Exec : Type) extends Shared Exec where
  pc : ℕ → Pc Exec := fun _ => .idle

/-- A call of the interface, or the next step of a thread. -/
inductive ThreadEvent
  | lookup (t : ℕ) (l : LookupCall)
  | invalidate (t : ℕ) (req : InvalidationRequest)
  | step (t : ℕ)

def ThreadEvent.thread : ThreadEvent → ℕ
  | .lookup t _ | .invalidate t _ | .step t => t

/-- What a lookup does once `search_candidates` found no hit : the first time it captures if it may,
the second time it gives up. -/
def afterMiss (s : State Exec) (l : LookupCall) (cand : GraphLookupResult Exec) :
    Option (GraphLookupResult Exec × Bool) → State Exec × Pc Exec
  | none =>
    let facts := makeFacts l.req
    let s := s.touchMetric fun m => m.bumpScopes facts.workload.logicalName facts.device.scope
      facts.workload.namespaceName fun p => { p with misses := p.misses + 1 }
    let res := { cand with reasonText := missReason cand.outcome }
    if l.req.allowCapture ∧ cfg.allowCapture ∧ res.outcome = .missCaptureRequired then
      (s, .missed l res)
    else (s, .answered res)
  | some (res, owned) =>
    (s, .answered { res with
      captureStarted := true
      waitedOnCapture := !owned
      outcome := .missIncompatible
      reasonText := str "capture completed but no compatible candidate is replay-eligible" })

/-- What a lookup does with a hit. -/
def afterHit (s : State Exec) (l : LookupCall) (cand : GraphLookupResult Exec) :
    Option (GraphLookupResult Exec × Bool) → State Exec × Pc Exec
  | none => (finishHit s l.req cand.outcome, .answered cand)
  | some (_, owned) => (finishHit s l.req cand.outcome, .answered { cand with
      captureStarted := true
      waitedOnCapture := !owned
      reasonText := str "captured and replayed-compatible; hit" })

/-- The next atomic step of a thread, but for `run_single_flight`. -/
def engineStep (s : State Exec) : Pc Exec → State Exec × Pc Exec
  | .started l =>
    let facts := makeFacts l.req
    (s.touchMetric fun m => { m.bumpScopes facts.workload.logicalName facts.device.scope
      facts.workload.namespaceName (fun p => { p with lookups := p.lookups + 1 }) with
      lookups := m.lookups + 1 }, .search l none)
  | .search l miss =>
    let sc := scan s.toRegistry (makeFacts l.req) l.req.policy
    match sc.chosen with
    | none =>
      match sc.bestIncompat with
      | some dec => afterMiss cfg s l { outcome := .missIncompatible, decision := dec } miss
      | none => afterMiss cfg s l { outcome := sc.outcome } miss
    | some (a, dec) => (s, .materialize l miss a dec)
  | .materialize l miss a dec =>
    match materializeExec cfg s a with
    | (s, .error e) => afterMiss cfg s l {
        decision := dec
        outcome := .missCaptureRequired
        reasonText := str "cannot materialize graph executable: " ++ e.message } miss
    | (s, .ok ()) => (s, .recheck l miss a dec)
  | .recheck l miss a dec =>
    if (s.heap a).invalidated ∨ (s.heap a).lifecycle.isReplayEligible = false then
      afterMiss cfg s l { decision := dec, outcome := .missInvalidated } miss
    else (s, .lease l miss a dec)
  | .lease l miss a dec =>
    let (s', lease) := makeLease s a dec.needsRebinding
    afterHit s' l {
      decision := dec
      artifactId := (s.heap a).artifactId
      generation := (s.heap a).generation
      lease := some lease
      outcome := hitOutcome dec.klass (s.heap a).residency
      reasons := dec.reasons } miss
  | .missed l res =>
    ({ s with captureCounter := s.captureCounter + 1 },
      .flight l res (s.captureCounter + 1) (.called (keyHex l.req)))
  | .roll req => ({ s with cacheGeneration := s.cacheGeneration + 1 },
      .collect req (s.cacheGeneration + 1))
  | .collect req newGen => (s, .mark req newGen (invalidationTargets s.toRegistry req) {})
  | .mark _ newGen [] res =>
    (s.touchMetric fun m =>
        { m with invalidations := m.invalidations + UInt64.ofNat res.invalidated },
      .invalidated { res with newCacheGeneration := newGen })
  | .mark req newGen (a :: targets) res =>
    let (s, res) := invalidateEntry cfg req.strong (s, res) a
    (s, .mark req newGen targets res)
  | pc => (s, pc)

/-- The next atomic step of a thread. -/
def Shared.advance (s : Shared Exec) : Pc Exec → Shared Exec × Pc Exec
  | .flight l res attempt (.owner k a (.executing stage)) =>
    match captureStep cfg s.engine l attempt stage with
    | (engine, .inl stage) =>
      ({ s with engine }, .flight l res attempt (.owner k a (.executing stage)))
    | (engine, .inr r) => ({ s with engine }, .flight l res attempt (.owner k a (.produced r)))
  | .flight l res _ (.returned _ _ (.ok _) owned) => (s, .search l (some (res, owned)))
  | .flight _ res _ (.returned _ _ (.error e) owned) =>
    ({ s with
        engine := s.engine.touchMetric fun m => { m with captureFailures := m.captureFailures + 1 } },
      .answered { res with
        captureStarted := true
        waitedOnCapture := !owned
        outcome := .missCaptureRequired
        reasonText := str "capture failed: " ++ e.message })
  | .flight l res attempt phase =>
    let (flights, phase) := s.flights.advance .entered phase
    ({ s with flights }, .flight l res attempt phase)
  | pc =>
    let (engine, pc) := engineStep cfg s.engine pc
    ({ s with engine }, pc)

namespace Threads

def move (s : Threads Exec) (t : ℕ) (sh : Shared Exec) (pc : Pc Exec) : Threads Exec :=
  ⟨sh, Function.update s.pc t pc⟩

/-- A thread that is not in a call begins one; what the last one returned is gone then. -/
def call (s : Threads Exec) (t : ℕ) (pc : Pc Exec) : Threads Exec :=
  match s.pc t with
  | .idle | .answered _ | .invalidated _ => s.move t s.toShared pc
  | _ => s

def next (s : Threads Exec) : ThreadEvent → Threads Exec
  | .lookup t l => s.call t (.started l)
  | .invalidate t req => s.call t (.roll req)
  | .step t => s.move t (s.advance cfg (s.pc t)).1 (s.advance cfg (s.pc t)).2

/-- Thread `t` takes `n` steps. -/
def steps (t n : ℕ) : List ThreadEvent := List.replicate n (.step t)

/-- A lookup of a graph without nodes, which may be captured. -/
def blankCall : LookupCall := { req := blankRequest "a" true, env := {} }

/-- The state after a run of threads that start idle over a cache. -/
abbrev run (engine : State Exec) (evs : List ThreadEvent) : Threads Exec :=
  History.after (next cfg) { engine } evs

end Threads

/-! ## Single flight among the threads -/

open SingleFlight

variable {cfg} {s : Shared Exec} {p : Pc Exec} {l : LookupCall} {res : GraphLookupResult Exec}
  {attempt : CaptureAttemptId} {phase : Phase (CaptureStage Exec)} {k : Str} {a : ℕ}

theorem afterMiss_ne_flight (s : State Exec) (l₀ : LookupCall) (cand : GraphLookupResult Exec)
    (miss : Option (GraphLookupResult Exec × Bool)) :
    (afterMiss cfg s l₀ cand miss).2 ≠ .flight l res attempt phase := by
  rcases miss with _ | ⟨res, owned⟩
  · unfold afterMiss
    dsimp only
    split_ifs <;> simp
  · simp [afterMiss]

theorem afterHit_ne_flight (s : State Exec) (l₀ : LookupCall) (cand : GraphLookupResult Exec)
    (miss : Option (GraphLookupResult Exec × Bool)) :
    (afterHit s l₀ cand miss).2 ≠ .flight l res attempt phase := by
  rcases miss with _ | ⟨res, owned⟩ <;> simp [afterHit]

variable (cfg) in
/-- The way into `run_single_flight` is a miss, and the key is that of the request. -/
theorem engineStep_flight (s : State Exec) (h : (engineStep cfg s p).2 = .flight l res attempt phase)
    (hp : ∀ l res attempt phase, p ≠ .flight l res attempt phase) :
    p = .missed l res ∧ phase = .called (keyHex l.req) := by
  cases p with
  | search l₀ miss =>
    simp only [engineStep] at h
    split at h
    · split at h <;> exact absurd h (afterMiss_ne_flight _ _ _ _)
    · cases h
  | materialize l₀ miss a dec =>
    simp only [engineStep] at h
    split at h
    · exact absurd h (afterMiss_ne_flight _ _ _ _)
    · cases h
  | recheck l₀ miss a dec =>
    simp only [engineStep] at h
    split_ifs at h
    exact absurd h (afterMiss_ne_flight _ _ _ _)
  | lease l₀ miss a dec => exact absurd h (afterHit_ne_flight _ _ _ _)
  | missed l₀ res₀ =>
    cases h
    exact ⟨rfl, rfl⟩
  | mark req newGen targets res => rcases targets with _ | ⟨a, targets⟩ <;> cases h
  | flight l₀ res₀ attempt₀ phase₀ => exact absurd rfl (hp l₀ res₀ attempt₀ phase₀)
  | _ => cases h

theorem Pc.phase_eq_outside (hp : ∀ l res attempt phase, p ≠ .flight l res attempt phase) :
    p.phase = .outside := by
  cases p with
  | flight l res attempt phase => exact absurd rfl (hp l res attempt phase)
  | _ => rfl

/-- A thread outside of `run_single_flight` stays outside, or calls it. -/
theorem phase_engineStep (s : State Exec)
    (hp : ∀ l res attempt phase, p ≠ .flight l res attempt phase) :
    (engineStep cfg s p).2.phase = .outside ∨
      ∃ k, (engineStep cfg s p).2.phase = .called k := by
  by_cases h : ∃ l res attempt phase, (engineStep cfg s p).2 = .flight l res attempt phase
  · obtain ⟨l, res, attempt, phase, h⟩ := h
    obtain ⟨-, rfl⟩ := engineStep_flight cfg s h hp
    exact .inr ⟨keyHex l.req, by rw [h]; rfl⟩
  · exact .inl (Pc.phase_eq_outside fun l res attempt phase heq => h ⟨l, res, attempt, phase, heq⟩)

theorem advance_move_outside (hp : ∀ l res attempt phase, p ≠ .flight l res attempt phase)
    (h : s.advance cfg p =
      ({ s with engine := (engineStep cfg s.engine p).1 }, (engineStep cfg s.engine p).2)) :
    ((s.advance cfg p).1.flights = s.flights ∧ (s.advance cfg p).2.phase = p.phase) ∨
      Move .entered s.flights p.phase (s.advance cfg p).1.flights (s.advance cfg p).2.phase := by
  rw [h, Pc.phase_eq_outside hp]
  rcases phase_engineStep s.engine hp with hout | ⟨k, hk⟩
  · exact .inl ⟨rfl, hout⟩
  · refine .inr ?_
    dsimp only
    rw [hk]
    exact .call k

theorem advance_flight {f : Flights × Phase (CaptureStage Exec)}
    (hf : s.flights.advance .entered phase = f)
    (h : s.advance cfg (.flight l res attempt phase) =
      ({ s with flights := f.1 }, .flight l res attempt f.2)) :
    ((s.advance cfg (.flight l res attempt phase)).1.flights = s.flights ∧
      (s.advance cfg (.flight l res attempt phase)).2.phase = phase) ∨
      Move .entered s.flights phase (s.advance cfg (.flight l res attempt phase)).1.flights
        (s.advance cfg (.flight l res attempt phase)).2.phase := by
  rw [h]
  subst hf
  rcases advance_cases .entered s.flights phase with hsame | hmove
  · refine .inl ?_
    rw [hsame]
    exact ⟨rfl, rfl⟩
  · exact .inr hmove

variable (cfg) in
/-- A step of a thread is a move of `run_single_flight`, or happens outside of it. -/
theorem advance_move (s : Shared Exec) (p : Pc Exec) :
    ((s.advance cfg p).1.flights = s.flights ∧ (s.advance cfg p).2.phase = p.phase) ∨
      Move .entered s.flights p.phase (s.advance cfg p).1.flights (s.advance cfg p).2.phase := by
  cases p with
  | flight l res attempt phase =>
    rcases phase with _ | k | ⟨k, a, _ | stage | r | r | r⟩ | ⟨k, a⟩ | ⟨k, a⟩ | ⟨k, a, r, owned⟩
    case owner.executing =>
      rcases hc : captureStep cfg s.engine l attempt stage with ⟨engine, stage' | r⟩
      · refine .inr ?_
        simp only [Shared.advance, hc]
        exact .work k a stage stage'
      · refine .inr ?_
        simp only [Shared.advance, hc]
        exact .finish k a stage r
    case returned =>
      rcases r with e | id
      · exact .inr (.leave k a _ owned)
      · exact .inr (.leave k a _ owned)
    all_goals exact advance_flight rfl rfl
  | _ => exact advance_move_outside (by simp) rfl

namespace Threads

open History

variable {s : Threads Exec} {ev : ThreadEvent} {evs : List ThreadEvent} {t u : ℕ}

/-- The threads as `run_single_flight` sees them. -/
def single (s : Threads Exec) : SingleFlight (CaptureStage Exec) :=
  ⟨s.flights, fun t => (s.pc t).phase⟩

theorem single_phase {p : Pc Exec} (h : s.pc t = p) : s.single.phase t = p.phase :=
  congrArg Pc.phase h

theorem single_move (s : Threads Exec) (t : ℕ) (sh : Shared Exec) (p : Pc Exec) :
    (s.move t sh p).single = ⟨sh.flights, Function.update s.single.phase t p.phase⟩ := by
  have := Function.comp_update Pc.phase s.pc t p
  exact congrArg (SingleFlight.mk sh.flights) this

/-- A call begins in a thread that is in none, and nothing else changes. -/
theorem call_cases (s : Threads Exec) (t : ℕ) (p : Pc Exec) : s.call t p = s ∨
    (s.pc t).phase = .outside ∧ s.call t p = s.move t s.toShared p := by
  unfold call
  split <;> simp_all [Pc.phase]

variable (cfg) in
/-- What the threads do in `run_single_flight` is a run of it. -/
theorem single_next (s : Threads Exec) (ev : ThreadEvent) :
    (s.next cfg ev).single = s.single ∨
      ∃ fev, (s.next cfg ev).single = s.single.next .entered fev := by
  have hcall : ∀ t p, p.phase = .outside → (s.call t p).single = s.single := by
    intro t p hp
    rcases call_cases s t p with h | ⟨hout, h⟩
    · rw [h]
    · have hphase : s.single.phase t = p.phase := hout.trans hp.symm
      rw [h, single_move, ← hphase, Function.update_eq_self]
      rfl
  cases ev with
  | lookup t l => exact .inl (hcall t _ rfl)
  | invalidate t req => exact .inl (hcall t _ rfl)
  | step t =>
    rw [next, single_move]
    rcases advance_move cfg s.toShared (s.pc t) with ⟨hf, hp⟩ | hm
    · refine .inl ?_
      rw [hf, hp]
      exact congrArg (SingleFlight.mk s.flights) (Function.update_eq_self t s.single.phase)
    · obtain ⟨fev, hfev⟩ := Move.event (s := s.single) hm rfl
      exact .inr ⟨fev, hfev.symm⟩

variable (cfg) in
theorem single_cases (s : Threads Exec) (ev : ThreadEvent) : (s.next cfg ev).single = s.single ∨
    ∃ t p f p', s.single.phase t = p ∧ Move .entered s.flights p f p' ∧
      (s.next cfg ev).single = ⟨f, Function.update s.single.phase t p'⟩ := by
  rcases single_next cfg s ev with h | ⟨fev, h⟩
  · exact .inl h
  · rw [h]
    exact SingleFlight.next_cases .entered s.single fev

variable (cfg) in
theorem single_run (engine : State Exec) (evs : List ThreadEvent) :
    ∃ fevs, (run cfg engine evs).single = SingleFlight.run .entered fevs := by
  induction evs using List.reverseRecOn with
  | nil => exact ⟨[], rfl⟩
  | append_singleton evs ev ih =>
    obtain ⟨fevs, hf⟩ := ih
    rw [run, after_concat]
    rcases single_next cfg (run cfg engine evs) ev with h | ⟨fev, h⟩
    · exact ⟨fevs, h.trans hf⟩
    · refine ⟨fevs ++ [fev], ?_⟩
      rw [h, hf, SingleFlight.run, SingleFlight.run, after_concat]

theorem single_inv (engine : State Exec) (evs : List ThreadEvent) :
    (run cfg engine evs).single.Inv := by
  obtain ⟨fevs, h⟩ := single_run cfg engine evs
  rw [h]
  exact inv_run fevs

end Threads

/-! ## What a step does to the cache -/

/-- The thread is about to mark an entry. -/
def Pc.marks : Pc Exec → Prop
  | .mark _ _ _ _ => True
  | _ => False

/-- The thread is about to increment `cache_generation`. -/
def Pc.rolls : Pc Exec → Bool
  | .roll _ => true
  | _ => false

variable (cfg) in
theorem afterMiss_keeps (s : State Exec) (l : LookupCall) (cand : GraphLookupResult Exec)
    (miss : Option (GraphLookupResult Exec × Bool)) :
    (afterMiss cfg s l cand miss).1.toRegistry = s.toRegistry ∧
      s.Keeps (afterMiss cfg s l cand miss).1 := by
  rcases miss with _ | ⟨res, owned⟩
  · unfold afterMiss
    dsimp only
    split_ifs <;> exact ⟨rfl, rfl, rfl, rfl⟩
  · exact ⟨rfl, rfl, rfl, rfl⟩

theorem afterHit_keeps (s : State Exec) (l : LookupCall) (cand : GraphLookupResult Exec)
    (miss : Option (GraphLookupResult Exec × Bool)) :
    (afterHit s l cand miss).1.toRegistry = s.toRegistry ∧ s.Keeps (afterHit s l cand miss).1 := by
  rcases miss with _ | ⟨res, owned⟩ <;> exact ⟨rfl, rfl, rfl, rfl⟩

variable (cfg) in
/-- A step that is not one of a capture edits entries, and marks them only in an invalidation. -/
theorem engineStep_spec (s : State Exec) (p : Pc Exec) :
    Edits cfg (fun _ => p.marks) s.toRegistry (engineStep cfg s p).1.toRegistry ∧
      (¬ p.rolls → (engineStep cfg s p).1.cacheGeneration = s.cacheGeneration) := by
  cases p with
  | search l miss =>
    have hmiss : ∀ cand, Edits cfg (fun _ => False) s.toRegistry
          (afterMiss cfg s l cand miss).1.toRegistry ∧
        (afterMiss cfg s l cand miss).1.cacheGeneration = s.cacheGeneration := fun cand => by
      obtain ⟨hr, hk⟩ := afterMiss_keeps cfg s l cand miss
      exact ⟨hr ▸ .refl _, hk.cacheGen⟩
    simp only [engineStep]
    split
    · split
      · exact ⟨(hmiss _).1, fun _ => (hmiss _).2⟩
      · exact ⟨(hmiss _).1, fun _ => (hmiss _).2⟩
    · exact ⟨.refl _, fun _ => rfl⟩
  | materialize l miss a dec =>
    obtain ⟨hkeeps, hedits, -, -⟩ := materializeExec_spec cfg s a
    simp only [engineStep]
    split
    · rename_i s' e hm
      rw [hm] at hkeeps hedits
      obtain ⟨hr, hk⟩ := afterMiss_keeps cfg s' l _ miss
      exact ⟨hr ▸ hedits, fun _ => hk.cacheGen.trans hkeeps.cacheGen⟩
    · rename_i s' hm
      rw [hm] at hkeeps hedits
      exact ⟨hedits, fun _ => hkeeps.cacheGen⟩
  | recheck l miss a dec =>
    simp only [engineStep]
    split_ifs
    · obtain ⟨hr, hk⟩ := afterMiss_keeps cfg s l _ miss
      exact ⟨hr ▸ .refl _, fun _ => hk.cacheGen⟩
    · exact ⟨.refl _, fun _ => rfl⟩
  | lease l miss a dec =>
    obtain ⟨hr, hk⟩ := afterHit_keeps (makeLease s a dec.needsRebinding).1 l _ miss
    exact ⟨hr ▸ .single a (.counts _ _ _), fun _ => hk.cacheGen⟩
  | mark req newGen targets res =>
    rcases targets with _ | ⟨a, targets⟩
    · exact ⟨.refl _, fun _ => rfl⟩
    · have hgen : (invalidateEntry cfg req.strong (s, res) a).1.cacheGeneration =
          s.cacheGeneration := by
        unfold invalidateEntry
        dsimp only
        split_ifs <;> rfl
      exact ⟨foldl_invalidateEntry_edits req.strong [a] (s, res) fun _ _ => trivial, fun _ => hgen⟩
  | roll req => exact ⟨.refl _, fun h => absurd rfl h⟩
  | _ => exact ⟨.refl _, fun _ => rfl⟩

variable (cfg) in
/-- A step of a capture leaves the entries alone, or registers the one it checked. -/
theorem captureStep_spec (s : State Exec) (l : LookupCall) (attempt : CaptureAttemptId)
    (stage : CaptureStage Exec) :
    ((∃ g e, stage = .checked g e ∧
        (captureStep cfg s l attempt stage).1.toRegistry = s.toRegistry.register e) ∨
      (captureStep cfg s l attempt stage).1.toRegistry = s.toRegistry) ∧
      (captureStep cfg s l attempt stage).1.cacheGeneration = s.cacheGeneration := by
  cases stage with
  | loaded g =>
    simp only [captureStep]
    split
    · obtain ⟨hr, hk⟩ := captureFailureMetric_keeps cfg s l.req attempt
      exact ⟨.inr hr, hk.cacheGen⟩
    · exact ⟨.inr rfl, rfl⟩
  | stamped g e =>
    simp only [captureStep]
    split_ifs <;> exact ⟨.inr rfl, rfl⟩
  | checked g e => exact ⟨.inl ⟨g, e, rfl, rfl⟩, rfl⟩
  | inserted a =>
    simp only [captureStep, persistEntry_eq]
    exact ⟨.inr rfl, rfl⟩
  | _ => exact ⟨.inr rfl, rfl⟩

variable (cfg) in
/-- What a step does to the registry : the insert of a capture, or edits. -/
theorem advance_registry (s : Shared Exec) (p : Pc Exec) :
    (∃ l res attempt k a g e,
      p = .flight l res attempt (.owner k a (.executing (.checked g e))) ∧
        (s.advance cfg p).1.engine.toRegistry = s.engine.toRegistry.register e) ∨
      Edits cfg (fun _ => p.marks) s.engine.toRegistry (s.advance cfg p).1.engine.toRegistry := by
  cases p with
  | flight l res attempt phase =>
    rcases phase with _ | k | ⟨k, a, _ | stage | r | r | r⟩ | ⟨k, a⟩ | ⟨k, a⟩ | ⟨k, a, r, owned⟩
    case owner.executing =>
      have hspec := (captureStep_spec cfg s.engine l attempt stage).1
      simp only [Shared.advance]
      rcases hc : captureStep cfg s.engine l attempt stage with ⟨engine, stage' | r⟩
      all_goals
        rw [hc] at hspec
        rcases hspec with ⟨g, e, rfl, hr⟩ | hr
        · exact .inl ⟨l, res, attempt, k, a, g, e, rfl, hr⟩
        · exact .inr (hr ▸ .refl _)
    case returned =>
      rcases r with e | id <;> exact .inr (.refl _)
    all_goals exact .inr (.refl _)
  | _ => exact .inr (engineStep_spec cfg s.engine _).1

theorem advance_cacheGeneration (s : Shared Exec) (hp : ¬ p.rolls) :
    (s.advance cfg p).1.engine.cacheGeneration = s.engine.cacheGeneration := by
  cases p with
  | flight l res attempt phase =>
    rcases phase with _ | k | ⟨k, a, _ | stage | r | r | r⟩ | ⟨k, a⟩ | ⟨k, a⟩ | ⟨k, a, r, owned⟩
    case owner.executing =>
      have hspec := (captureStep_spec cfg s.engine l attempt stage).2
      simp only [Shared.advance]
      rcases hc : captureStep cfg s.engine l attempt stage with ⟨engine, stage' | r⟩
      all_goals
        rw [hc] at hspec
        exact hspec
    case returned =>
      rcases r with e | id <;> rfl
    all_goals rfl
  | _ => exact (engineStep_spec cfg s.engine _).2 hp

/-! ## Captures in progress -/

variable (cfg) in
/-- A step of `capture_graph` after which it goes on. -/
inductive CaptureMove (s : State Exec) (l : LookupCall) (attempt : CaptureAttemptId) :
    CaptureStage Exec → State Exec → CaptureStage Exec → Prop
  | load : CaptureMove s l attempt .entered s (.loaded s.cacheGeneration)
  | build (gen : CacheGeneration) (g : GraphDescriptor) (exec : Exec)
    (h : buildCapture cfg l.req attempt = .ok (g, exec)) :
    CaptureMove s l attempt (.loaded gen) s (.built gen g exec)
  | draw (gen : CacheGeneration) (g : GraphDescriptor) (exec : Exec) :
    CaptureMove s l attempt (.built gen g exec)
      { s with graphGenerationCounter := s.graphGenerationCounter + 1 }
      (.drawn gen g exec s.graphGenerationCounter)
  | stamp (gen : CacheGeneration) (g : GraphDescriptor) (exec : Exec) (n : GraphGeneration) :
    CaptureMove s l attempt (.drawn gen g exec n) s
      (.stamped gen (capturedEntry n s.cacheGeneration l.req g exec l.env.captureCostUs))
  | check (e : CacheEntry Exec) : CaptureMove s l attempt (.stamped s.cacheGeneration e) s
      (.checked s.cacheGeneration e)
  | insert (gen : CacheGeneration) (e : CacheEntry Exec) :
    CaptureMove s l attempt (.checked gen e) (s.register e) (.inserted s.next)

theorem captureStep_move {s s' : State Exec} {stage stage' : CaptureStage Exec}
    (h : captureStep cfg s l attempt stage = (s', .inl stage')) :
    CaptureMove cfg s l attempt stage s' stage' := by
  cases stage with
  | entered =>
    cases h
    exact .load
  | loaded gen =>
    simp only [captureStep] at h
    split at h
    · cases h
    · rename_i g exec hb
      cases h
      exact .build gen g exec hb
  | built gen g exec =>
    cases h
    exact .draw gen g exec
  | drawn gen g exec n =>
    cases h
    exact .stamp gen g exec n
  | stamped gen e =>
    simp only [captureStep] at h
    split_ifs at h with hgen
    · cases h
    · obtain rfl := not_not.mp hgen
      cases h
      exact .check e
  | checked gen e =>
    cases h
    exact .insert gen e
  | inserted a => cases h

theorem Pc.eq_flight (h : p.phase = phase)
    (hne : phase ≠ .outside) : ∃ l res attempt, p = .flight l res attempt phase := by
  subst h
  cases p with
  | flight l res attempt phase => exact ⟨l, res, attempt, rfl⟩
  | _ => exact absurd rfl hne

theorem flight_key {l₀ : LookupCall} {res₀ : GraphLookupResult Exec} {attempt₀ : CaptureAttemptId}
    {phase₀ : Phase (CaptureStage Exec)}
    (h : (s.advance cfg (.flight l₀ res₀ attempt₀ phase₀)).2 = .flight l res attempt phase)
    (hadvance : (s.advance cfg (.flight l₀ res₀ attempt₀ phase₀)).2 =
      .flight l₀ res₀ attempt₀ (s.flights.advance .entered phase₀).2) :
    ∃ phase₁, Pc.flight l₀ res₀ attempt₀ phase₀ = .flight l res attempt phase₁ ∧
      phase.key = phase₁.key := by
  rw [hadvance] at h
  cases h
  exact ⟨phase₀, rfl, key_advance _ s.flights phase₀⟩

/-- The key and the call of a thread in `run_single_flight` do not change. -/
theorem advance_flight_of
    (h : (s.advance cfg p).2 = .flight l res attempt phase) :
    (p = .missed l res ∧ phase = .called (keyHex l.req)) ∨
      ∃ phase₀, p = .flight l res attempt phase₀ ∧ phase.key = phase₀.key := by
  cases p with
  | flight l₀ res₀ attempt₀ phase₀ =>
    refine .inr ?_
    rcases phase₀ with _ | k | ⟨k, a, _ | stage | r | r | r⟩ | ⟨k, a⟩ | ⟨k, a⟩ | ⟨k, a, r, owned⟩
    case owner.executing =>
      simp only [Shared.advance] at h
      split at h <;> cases h <;> exact ⟨_, rfl, rfl⟩
    case returned => rcases r with e | id <;> cases h
    all_goals exact flight_key h rfl
  | _ => exact .inl (engineStep_flight cfg s.engine h (by simp))

/-- A thread that executes `capture_graph` after a step has just entered it, or went on there. -/
theorem advance_executing {stage' : CaptureStage Exec}
    (h : (s.advance cfg p).2 = .flight l res attempt (.owner k a (.executing stage'))) :
    (p = .flight l res attempt (.owner k a .inserted) ∧ stage' = .entered) ∨
      ∃ stage, p = .flight l res attempt (.owner k a (.executing stage)) ∧
        CaptureMove cfg s.engine l attempt stage (s.advance cfg p).1.engine stage' := by
  have hphase : p.phase = .owner k a .inserted ∨
      ∃ stage, p.phase = .owner k a (.executing stage) := by
    rcases advance_move cfg s p with ⟨-, heq⟩ | hm
    · exact .inr ⟨stage', by rw [← heq, h, Pc.phase]⟩
    · rw [h, Pc.phase] at hm
      exact hm.of_executing
  rcases hphase with hp | ⟨stage, hp⟩
  · obtain ⟨l', res', attempt', rfl⟩ := Pc.eq_flight hp (by simp)
    cases h
    exact .inl ⟨rfl, rfl⟩
  · obtain ⟨l', res', attempt', rfl⟩ := Pc.eq_flight hp (by simp)
    simp only [Shared.advance] at h ⊢
    rcases hc : captureStep cfg s.engine l' attempt' stage with ⟨engine, st | r⟩
    · simp only [hc] at h ⊢
      cases h
      exact .inr ⟨stage, rfl, captureStep_move hc⟩
    · simp only [hc] at h
      cases h

namespace Threads

open History

variable {s : Threads Exec} {ev : ThreadEvent} {evs : List ThreadEvent} {t : ℕ}
  {stage : CaptureStage Exec}

theorem move_pc (s : Threads Exec) (t u : ℕ) (sh : Shared Exec) (p : Pc Exec) :
    (s.move t sh p).pc u = if u = t then p else s.pc u :=
  Function.update_apply _ _ _ _

/-- The thread is in no call. -/
def Resting (s : Threads Exec) (t : ℕ) : Prop :=
  s.pc t = .idle ∨ (∃ res, s.pc t = .answered res) ∨ ∃ res, s.pc t = .invalidated res

/-- A thread of which no event speaks is idle. -/
theorem pc_idle (engine : State Exec) (evs : List ThreadEvent) (h : ∀ ev ∈ evs, ev.thread ≠ t) :
    (run cfg engine evs).pc t = .idle := by
  induction evs using List.reverseRecOn with
  | nil => rfl
  | append_singleton evs ev ih =>
    have hne : t ≠ ev.thread := (h ev (by simp)).symm
    have hidle := ih fun ev' hev' => h ev' (by simp [hev'])
    rw [run, after_concat]
    refine Eq.trans ?_ hidle
    have hcall : ∀ u p, t ≠ u → ((run cfg engine evs).call u p).pc t = (run cfg engine evs).pc t := by
      intro u p hu
      unfold call
      split <;> simp [move_pc, hu]
    cases ev with
    | lookup u l => exact hcall u _ hne
    | invalidate u req => exact hcall u _ hne
    | step u =>
      have hu : t ≠ u := hne
      rw [next, move_pc, if_neg hu]

variable (cfg) in
/-- An event changes nothing, begins a call, or is a step of a thread. -/
theorem next_cases (s : Threads Exec) (ev : ThreadEvent) : s.next cfg ev = s ∨
    (∃ t p, s.Resting t ∧ ((∃ l, ev = .lookup t l ∧ p = .started l) ∨
        ∃ req, ev = .invalidate t req ∧ p = .roll req) ∧
      s.next cfg ev = s.move t s.toShared p) ∨
    ∃ t, ev = .step t := by
  have hcall : ∀ t p, s.call t p = s ∨ s.Resting t ∧ s.call t p = s.move t s.toShared p := by
    intro t p
    unfold call Resting
    split <;> simp_all
  cases ev with
  | lookup t l =>
    rcases hcall t (.started l) with h | ⟨hrest, h⟩
    · exact .inl h
    · exact .inr (.inl ⟨t, _, hrest, .inl ⟨l, rfl, rfl⟩, h⟩)
  | invalidate t req =>
    rcases hcall t (.roll req) with h | ⟨hrest, h⟩
    · exact .inl h
    · exact .inr (.inl ⟨t, _, hrest, .inr ⟨req, rfl, rfl⟩, h⟩)
  | step t => exact .inr (.inr ⟨t, rfl⟩)

/-- Thread `t` is in `capture_graph`, for attempt `a`. -/
def Captures (s : Threads Exec) (t a : ℕ) (stage : CaptureStage Exec) : Prop :=
  ∃ l res attempt k, s.pc t = .flight l res attempt (.owner k a (.executing stage))

/-- The capture of attempt `a` inserts `e` into the registry. -/
def Inserts (t a : ℕ) (e : CacheEntry Exec) (s : Threads Exec) (ev : ThreadEvent) : Prop :=
  ev = .step t ∧ ∃ gen, s.Captures t a (.checked gen e)

theorem Captures.owner (h : s.Captures t a stage) :
    ∃ k, s.single.phase t = .owner k a (.executing stage) := by
  obtain ⟨l, res, attempt, k, hpc⟩ := h
  exact ⟨k, single_phase hpc⟩

/-- Where a capture goes on from. -/
theorem executing_next
    (hpc : (s.next cfg ev).pc t = .flight l res attempt (.owner k a (.executing stage))) :
    (ev ≠ .step t ∧ s.pc t = .flight l res attempt (.owner k a (.executing stage))) ∨
      ev = .step t ∧ ((s.pc t = .flight l res attempt (.owner k a .inserted) ∧ stage = .entered) ∨
        ∃ stage₀, s.pc t = .flight l res attempt (.owner k a (.executing stage₀)) ∧
          CaptureMove cfg s.engine l attempt stage₀ (s.next cfg ev).engine stage) := by
  have hcall : ∀ u p, p.phase = .outside →
      (s.call u p).pc t = .flight l res attempt (.owner k a (.executing stage)) →
      s.pc t = .flight l res attempt (.owner k a (.executing stage)) := by
    intro u p hp h
    rcases call_cases s u p with heq | ⟨-, heq⟩
    · rwa [heq] at h
    · rw [heq, move_pc] at h
      split_ifs at h
      · rw [h] at hp
        cases hp
      · exact h
  cases ev with
  | lookup u l => exact .inl ⟨by simp, hcall u _ rfl hpc⟩
  | invalidate u req => exact .inl ⟨by simp, hcall u _ rfl hpc⟩
  | step u =>
    by_cases hut : t = u
    · subst hut
      rw [next, move_pc, if_pos rfl] at hpc
      exact .inr ⟨rfl, advance_executing hpc⟩
    · rw [next, move_pc, if_neg hut] at hpc
      exact .inl ⟨fun h => hut (ThreadEvent.step.inj h).symm, hpc⟩

/-- The key of a thread in `run_single_flight` is that of its request. -/
def Keyed (s : Threads Exec) : Prop :=
  ∀ t l res attempt phase, s.pc t = .flight l res attempt phase → phase.key = some (keyHex l.req)

theorem Keyed.next (h : s.Keyed) : (s.next cfg ev).Keyed := by
  intro t l res attempt phase hpc
  rcases next_cases cfg s ev with heq | ⟨u, p, -, hp, heq⟩ | ⟨u, rfl⟩
  · rw [heq] at hpc
    exact h t l res attempt phase hpc
  · rw [heq, move_pc] at hpc
    split_ifs at hpc
    · rcases hp with ⟨l', -, rfl⟩ | ⟨req, -, rfl⟩ <;> cases hpc
    · exact h t l res attempt phase hpc
  · rw [next, move_pc] at hpc
    split_ifs at hpc with htu
    · rcases advance_flight_of hpc with ⟨-, rfl⟩ | ⟨phase₀, hp, hkey⟩
      · rfl
      · rw [hkey]
        exact h u l res attempt phase₀ hp
    · exact h t l res attempt phase hpc

theorem keyed_run (engine : State Exec) (evs : List ThreadEvent) : (run cfg engine evs).Keyed := by
  induction evs using List.reverseRecOn with
  | nil =>
    intro t l res attempt phase h
    cases h
  | append_singleton evs ev ih =>
    rw [run, after_concat]
    exact ih.next

/-! ## Runs and the registry -/

variable (cfg) in
/-- What an event does to the registry : it inserts the entry of a capture, or edits entries. -/
theorem registry_next (s : Threads Exec) (ev : ThreadEvent) :
    (∃ t l res attempt k a gen e, ev = .step t ∧
      s.pc t = .flight l res attempt (.owner k a (.executing (.checked gen e))) ∧
      (s.next cfg ev).engine.toRegistry = s.engine.toRegistry.register e) ∨
    ∃ M, Edits cfg M s.engine.toRegistry (s.next cfg ev).engine.toRegistry := by
  rcases next_cases cfg s ev with heq | ⟨t, p, -, -, heq⟩ | ⟨t, rfl⟩
  · exact .inr ⟨Unmarked, by rw [heq]; exact .refl _⟩
  · exact .inr ⟨Unmarked, by rw [heq]; exact .refl _⟩
  · rcases advance_registry cfg s.toShared (s.pc t) with ⟨l, res, attempt, k, a, gen, e, hp, hr⟩ | he
    · exact .inl ⟨t, l, res, attempt, k, a, gen, e, rfl, hp, hr⟩
    · exact .inr ⟨_, he⟩

theorem indexed_next (h : s.engine.toRegistry.Indexed) :
    (s.next cfg ev).engine.toRegistry.Indexed := by
  rcases registry_next cfg s ev with ⟨t, l, res, attempt, k, a, gen, e, -, -, hr⟩ | ⟨M, he⟩
  · exact hr ▸ h.register e
  · exact he.invariant h (fun _ _ _ h he => h.set he) fun _ _ _ h => h.elim

theorem indexed_after (store : Option Store) (evs : List ThreadEvent) :
    (run cfg (.fresh store) evs).engine.toRegistry.Indexed := by
  induction evs using List.reverseRecOn with
  | nil => exact indexed_fresh store
  | append_singleton evs ev ih =>
    rw [run, after_concat]
    exact indexed_next ih

end Threads

end

end GraphCache
