import GraphCache.Evolution

/-!
# What a lookup answers

A search that finds no candidate tells three misses apart : a selectable entry that is fresh but
incompatible, one that is stale, or no selectable entry at all (`search_refused`,
`search_required`). Only the last one, or a candidate that cannot be materialized, lets a lookup
capture. `lookup_answer` lists the answers; `lookup_hit_iff` : a request that can be captured and
is compatible with itself hits exactly when its bucket holds a candidate or nothing selectable.
-/

namespace GraphCache

variable {Exec : Type} {cfg : Config Exec}

/-! ## Misses -/

section

variable (r : Registry Exec) (facts : CompatibilityFacts) (policy : GraphCompatibilityPolicy)

/-- The miss outcome of a walk : stale, if a selectable entry is. -/
theorem scan_outcome (l : List ℕ) :
    ((l.foldl (scanEntry r facts policy) {}).outcome = .missStaleDependency ∧
      ∃ a ∈ l, r.Selectable a ∧ isDependencyFresh (r.heap a).facts.dependencies facts = false) ∨
    ((l.foldl (scanEntry r facts policy) {}).outcome = .missCaptureRequired ∧
      ∀ a ∈ l, r.Selectable a → isDependencyFresh (r.heap a).facts.dependencies facts = true) := by
  induction l using List.reverseRecOn with
  | nil => exact .inr ⟨rfl, by simp⟩
  | append_singleton l b ih =>
    rw [List.foldl_append, List.foldl_cons, List.foldl_nil]
    set acc := l.foldl (scanEntry r facts policy) {}
    by_cases hstale : r.Selectable b ∧
        isDependencyFresh (r.heap b).facts.dependencies facts = false
    · refine .inl ⟨?_, b, by simp, hstale⟩
      simp [scanEntry, hstale.1, hstale.2]
    · have hkeep : (scanEntry r facts policy acc b).outcome = acc.outcome := by
        unfold scanEntry
        dsimp only
        split_ifs with hsel hfresh
        · exact absurd ⟨hsel, hfresh⟩ hstale
        · rfl
        · rfl
        · rfl
        · rfl
      rw [hkeep]
      rcases ih with ⟨hout, a, ha, hs⟩ | ⟨hout, hall⟩
      · exact .inl ⟨hout, a, by simp [ha], hs⟩
      · refine .inr ⟨hout, fun a ha hsel => ?_⟩
        rcases List.mem_append.mp ha with ha | ha
        · exact hall a ha hsel
        · obtain rfl := List.mem_singleton.mp ha
          exact (Bool.not_eq_false _).mp fun hf => hstale ⟨hsel, hf⟩

/-- A walk reports an incompatible decision, if a selectable and fresh entry has one. -/
theorem scan_bestIncompat (l : List ℕ) :
    (l.foldl (scanEntry r facts policy) {}).bestIncompat = none ↔
      ∀ a ∈ l, r.Selectable a → isDependencyFresh (r.heap a).facts.dependencies facts = true →
        (r.decision facts policy a).compatible = true := by
  induction l using List.reverseRecOn with
  | nil => simp
  | append_singleton l b ih =>
    rw [List.foldl_append, List.foldl_cons, List.foldl_nil]
    set acc := l.foldl (scanEntry r facts policy) {}
    by_cases hb : r.Selectable b → isDependencyFresh (r.heap b).facts.dependencies facts = true →
        (r.decision facts policy b).compatible = true
    · have hkeep : (scanEntry r facts policy acc b).bestIncompat = acc.bestIncompat := by
        unfold scanEntry
        dsimp only
        split_ifs with hsel hfresh hcomp
        · rfl
        · rfl
        · rfl
        · exact absurd (hb hsel ((Bool.not_eq_false _).mp hfresh)) hcomp
        · rfl
      rw [hkeep, ih]
      constructor
      · intro hall a ha
        rcases List.mem_append.mp ha with ha | ha
        · exact hall a ha
        · rwa [List.mem_singleton.mp ha]
      · exact fun hall a ha => hall a (by simp [ha])
    · push Not at hb
      obtain ⟨hsel, hfresh, hcomp⟩ := hb
      refine ⟨fun hnone => ?_, fun hall => absurd (hall b (by simp) hsel hfresh) hcomp⟩
      unfold Registry.decision at hcomp
      simp [scanEntry, hsel, hfresh, hcomp] at hnone

end

section

variable {s : State Exec} {facts : CompatibilityFacts} {policy : GraphCompatibilityPolicy}

/-- The entries that a search walks over. -/
abbrev State.bucket (s : State Exec) (facts : CompatibilityFacts) : List ℕ :=
  s.byWorkload (workloadKey facts.workload)

theorem scan_none (h : ∀ a ∈ s.bucket facts, ¬s.Candidate facts policy a) :
    (scan s.toRegistry facts policy).chosen = none := by
  rcases hc : (scan s.toRegistry facts policy).chosen with _ | ⟨a, dec⟩
  · rfl
  · obtain ⟨hbest, -⟩ := scan_chosen hc
    exact absurd hbest.candidate (h a hbest.mem)

variable (cfg) in
/-- Without a selectable entry a capture is required. -/
theorem search_required (h : ∀ a ∈ s.bucket facts, ¬s.Selectable a) :
    searchCandidates cfg s facts policy = (s, { outcome := .missCaptureRequired }) := by
  have hincompat : (scan s.toRegistry facts policy).bestIncompat = none :=
    (scan_bestIncompat _ _ _ _).mpr fun a ha hsel => absurd hsel (h a ha)
  have hout : (scan s.toRegistry facts policy).outcome = .missCaptureRequired := by
    rcases scan_outcome s.toRegistry facts policy (s.bucket facts) with ⟨-, a, ha, hsel, -⟩ | ⟨hout, -⟩
    · exact absurd hsel (h a ha)
    · exact hout
  simp only [searchCandidates, scan_none fun a ha hc => h a ha hc.selectable, hincompat, hout]

variable (cfg) in
/-- With a selectable entry and no candidate, no capture is required. -/
theorem search_refused (h : ∀ a ∈ s.bucket facts, ¬s.Candidate facts policy a) {a : ℕ}
    (ha : a ∈ s.bucket facts) (hsel : s.Selectable a) :
    (searchCandidates cfg s facts policy).1 = s ∧
      (searchCandidates cfg s facts policy).2.lease = none ∧
      ((searchCandidates cfg s facts policy).2.outcome = .missIncompatible ∨
        (searchCandidates cfg s facts policy).2.outcome = .missStaleDependency) := by
  simp only [searchCandidates, scan_none h]
  rcases hi : (scan s.toRegistry facts policy).bestIncompat with _ | dec
  · refine ⟨rfl, rfl, .inr ?_⟩
    rcases scan_outcome s.toRegistry facts policy (s.bucket facts) with ⟨hout, -⟩ | ⟨-, hfresh⟩
    · exact hout
    · exact absurd ⟨hsel, hfresh a ha hsel, (scan_bestIncompat _ _ _ _).mp hi a ha hsel
        (hfresh a ha hsel)⟩ (h a ha)
  · exact ⟨rfl, rfl, .inl rfl⟩

end

/-! ## What edits leave alone -/

/-- A walk reads of an entry its facts, and whether it is selectable. -/
theorem foldl_scanEntry_congr {r r' : Registry Exec} {facts : CompatibilityFacts}
    {policy : GraphCompatibilityPolicy} {l : List ℕ}
    (h : ∀ a ∈ l, (r'.Selectable a ↔ r.Selectable a) ∧ (r'.heap a).facts = (r.heap a).facts)
    (acc : Scan) : l.foldl (scanEntry r' facts policy) acc = l.foldl (scanEntry r facts policy) acc := by
  induction l generalizing acc with
  | nil => rfl
  | cons a l ih =>
    obtain ⟨hsel, hfacts⟩ := h a (by simp)
    have hstep : scanEntry r' facts policy acc a = scanEntry r facts policy acc a := by
      simp only [scanEntry, hsel, hfacts]
    rw [List.foldl_cons, List.foldl_cons, hstep]
    exact ih (fun b hb => h b (by simp [hb])) _

theorem Edits.index {M : ℕ → Prop} {r r' : Registry Exec} (h : Edits cfg M r r') :
    r'.byWorkload = r.byWorkload ∧ r'.keyCurrentGen = r.keyCurrentGen ∧
      r'.byArtifact = r.byArtifact := by
  refine h.invariant (I := fun r' => r'.byWorkload = r.byWorkload ∧
    r'.keyCurrentGen = r.keyCurrentGen ∧ r'.byArtifact = r.byArtifact) ⟨rfl, rfl, rfl⟩ ?_
    fun _ _ _ hp => hp.elim
  intro _ _ _ hr _
  exact hr

theorem Edits.selectable {r r' : Registry Exec} (h : Edits cfg Unmarked r r') (a : ℕ) :
    r'.Selectable a ↔ r.Selectable a := by
  obtain ⟨hinv, hlife⟩ := h.valid a
  obtain ⟨hsame, -⟩ := h.same a
  unfold Registry.Selectable
  rw [hinv, hlife, h.index.2.1, CacheEntry.keyHex, hsame.key, hsame.generation]
  rfl

/-- Edits that mark nothing do not change what a search chooses. -/
theorem Edits.scan {r r' : Registry Exec} (h : Edits cfg Unmarked r r') (facts : CompatibilityFacts)
    (policy : GraphCompatibilityPolicy) : scan r' facts policy = scan r facts policy := by
  unfold GraphCache.scan
  rw [h.index.1]
  exact foldl_scanEntry_congr (fun a _ => ⟨h.selectable a, (h.same a).1.facts⟩) _

theorem Edits.candidate {r r' : Registry Exec} (h : Edits cfg Unmarked r r')
    {facts : CompatibilityFacts} {policy : GraphCompatibilityPolicy} {a : ℕ}
    (hc : r.Candidate facts policy a) : r'.Candidate facts policy a := by
  obtain ⟨hsel, hfresh, hcomp⟩ := hc
  unfold Registry.decision at hcomp
  rw [← (h.same a).1.facts] at hfresh hcomp
  exact ⟨(h.selectable a).mpr hsel, hfresh, hcomp⟩

/-- The executable of a lease is there. -/
theorem search_leaves_exec {s : State Exec} {facts : CompatibilityFacts}
    {policy : GraphCompatibilityPolicy} {l : Lease Exec}
    (h : (searchCandidates cfg s facts policy).2.lease = some l) :
    ((searchCandidates cfg s facts policy).1.heap l.entry).exec.isSome = true := by
  revert h
  unfold searchCandidates
  dsimp only
  split
  · split <;> intro h <;> cases h
  · rename_i a dec _
    have hexec := (materializeExec_spec cfg s a).2.2.1
    split
    · intro h
      cases h
    · rename_i s' hm
      rw [hm] at hexec
      split_ifs with hinv
      · intro h
        cases h
      · intro h
        obtain rfl := Option.some.inj h
        simpa [makeLease, State.set] using hexec rfl

/-- No entry is resident on the backend : nothing moves one there. -/
def Registry.OffBackend (r : Registry Exec) : Prop :=
  ∀ a, (r.heap a).residency ≠ .backendResident

theorem dropResidency_eq {e : CacheEntry Exec} (h : e.residency ≠ .backendResident) :
    dropResidency cfg e = e :=
  if_neg h

/-- An edit of an entry that is not on the backend keeps it off, and keeps its executable. -/
theorem Edit.offBackend {marks : Prop} {e e' : CacheEntry Exec} (he : Edit cfg marks e e')
    (h : e.residency ≠ .backendResident) :
    e'.residency ≠ .backendResident ∧ (e.exec.isSome = true → e'.exec.isSome = true) := by
  cases he with
  | counts => exact ⟨h, id⟩
  | materialize => exact ⟨by simp, fun _ => rfl⟩
  | drop =>
    rw [dropResidency_eq h]
    exact ⟨h, id⟩
  | invalidate strong =>
    unfold markInvalidated
    dsimp only
    split_ifs
    · rw [dropResidency_eq]
      · exact ⟨h, id⟩
      · exact h
    · exact ⟨h, id⟩

theorem Registry.OffBackend.set {M : ℕ → Prop} {r : Registry Exec} (h : r.OffBackend) {a : ℕ}
    {e : CacheEntry Exec} (he : Edit cfg (M a) (r.heap a) e) : (r.set a e).OffBackend := by
  intro b
  by_cases hab : b = a
  · subst hab
    rw [set_heap_self]
    exact (he.offBackend (h b)).1
  · rw [set_heap_of_ne r e hab]
    exact h b

theorem Registry.OffBackend.register {r : Registry Exec} (h : r.OffBackend) {e : CacheEntry Exec}
    (he : e.residency ≠ .backendResident) : (r.register e).OffBackend := by
  intro b
  simp only [Registry.register, Function.update_apply]
  split_ifs
  · exact he
  · exact h b

theorem Registry.OffBackend.run {s : State Exec} (h : s.toRegistry.OffBackend)
    (ops : List (Op Exec)) : (run cfg s ops).toRegistry.OffBackend :=
  run_entries (fun he h => (he.offBackend h).1) (fun _ _ _ _ _ _ => by simp [capturedEntry])
    (fun _ _ => by simp [recoveredEntry]) ops s h

theorem offBackend_fresh (store : Option Store) :
    (State.fresh store : State Exec).toRegistry.OffBackend :=
  fun _ => by simp [State.fresh]

theorem Edits.offBackend {M : ℕ → Prop} {r r' : Registry Exec} (h : Edits cfg M r r')
    (hoff : r.OffBackend) (a : ℕ) (hx : (r.heap a).exec.isSome = true) :
    (r'.heap a).exec.isSome = true := by
  refine (h.invariant (I := fun r' => r'.OffBackend ∧ (r'.heap a).exec.isSome = true) ⟨hoff, hx⟩ ?_
    fun _ _ _ hp => hp.elim).2
  rintro r' b e ⟨hr, hx'⟩ he
  refine ⟨hr.set he, ?_⟩
  by_cases hab : a = b
  · subst hab
    rw [set_heap_self]
    exact (he.offBackend (hr a)).2 hx'
  · rwa [set_heap_of_ne r' e hab]

/-! ## Answers -/

section

variable (cfg : Config Exec) (s : State Exec) (req : GraphLookupRequest) (env : LookupEnv)

/-- What the search of a request finds. -/
abbrev searched : GraphLookupResult Exec :=
  (searchCandidates cfg s (makeFacts req) req.policy).2

/-- A miss lets the request capture. -/
def MayCapture : Prop :=
  req.allowCapture = true ∧ cfg.allowCapture = true ∧
    (searched cfg s req).outcome = .missCaptureRequired

/-- The answers of a lookup, and the registry it leaves : what it finds, a miss, a capture that
fails, and after a capture what is found then, or nothing. -/
inductive LookupAnswer (s' : State Exec) : GraphLookupResult Exec → Prop
  | found (h : (searched cfg s req).hit = true)
    (hs : s'.toRegistry = (searchCandidates cfg s (makeFacts req) req.policy).1.toRegistry) :
    LookupAnswer s' (searched cfg s req)
  | missed (h : (searched cfg s req).hit = false) (hno : ¬MayCapture cfg s req)
    (hs : s'.toRegistry = (searchCandidates cfg s (makeFacts req) req.policy).1.toRegistry) :
    LookupAnswer s'
      { searched cfg s req with reasonText := missReason (searched cfg s req).outcome }
  | failed (h : MayCapture cfg s req) (err : Error)
    (he : captureEntry cfg s.graphGenerationCounter s.cacheGeneration req
      ((searchCandidates cfg s (makeFacts req) req.policy).1.captureCounter + 1)
      env.captureCostUs = .error err) (hs : s'.toRegistry = s.toRegistry) :
    LookupAnswer s' { searched cfg s req with
      captureStarted := true
      outcome := .missCaptureRequired
      reasonText := str "capture failed: " ++ err.message }
  | captured (e : CacheEntry Exec) (hc : Captures cfg s req env e) (s₁ : State Exec)
    (hr : s₁.toRegistry = s.toRegistry.register e) (h : (searched cfg s₁ req).hit = true)
    (hs : s'.toRegistry = (searchCandidates cfg s₁ (makeFacts req) req.policy).1.toRegistry) :
    LookupAnswer s' { searched cfg s₁ req with
      captureStarted := true
      reasonText := str "captured and replayed-compatible; hit" }
  | unusable (e : CacheEntry Exec) (hc : Captures cfg s req env e) (s₁ : State Exec)
    (hr : s₁.toRegistry = s.toRegistry.register e) (h : (searched cfg s₁ req).hit = false)
    (hs : s'.toRegistry = (searchCandidates cfg s₁ (makeFacts req) req.policy).1.toRegistry) :
    LookupAnswer s' { searched cfg s req with
      captureStarted := true
      outcome := .missIncompatible
      reasonText := str "capture completed but no compatible candidate is replay-eligible" }

theorem lookup_answer : LookupAnswer cfg s req env (lookup cfg s req env).1
    (lookup cfg s req env).2 := by
  have hpath := lookup_path cfg s req env
  generalize (lookup cfg s req env).1 = s', (lookup cfg s req env).2 = res' at hpath ⊢
  cases hpath with
  | found hs hhit =>
    obtain ⟨rfl, -, hr⟩ := search_lookedUp hs
    exact .found hhit hr
  | missed hs hmiss hno =>
    obtain ⟨rfl, -, hr⟩ := search_lookedUp hs
    exact .missed hmiss hno hr
  | failed hs hmay hg =>
    obtain ⟨rfl, -, -⟩ := search_lookedUp hs
    rcases capture_spec hs hmay.2.2 hg with ⟨err, hfail, herr, hr, -⟩ | ⟨e, hok, -⟩
    · obtain rfl := Except.error.inj hfail
      exact .failed hmay _ herr hr
    · cases hok
  | captured hs hmay hg ha hhit =>
    rename_i s₂ s₃ _ again _
    obtain ⟨rfl, -, -⟩ := search_lookedUp hs
    rcases capture_spec hs hmay.2.2 hg with ⟨_, hfail, -⟩ | ⟨e, -, he, hr, -⟩
    · cases hfail
    · have hagain : again = searched cfg s₂ req := (congrArg Prod.snd ha).symm
      subst hagain
      exact .captured e ⟨hmay.1, hmay.2.1, hmay.2.2, he⟩ s₂ hr hhit
        (congrArg (fun p => p.1.toRegistry) ha).symm
  | unusable hs hmay hg ha hmiss =>
    rename_i s₂ _ again _
    obtain ⟨rfl, -, -⟩ := search_lookedUp hs
    rcases capture_spec hs hmay.2.2 hg with ⟨_, hfail, -⟩ | ⟨e, -, he, hr, -⟩
    · cases hfail
    · have hagain : again = searched cfg s₂ req := (congrArg Prod.snd ha).symm
      subst hagain
      exact .unusable e ⟨hmay.1, hmay.2.1, hmay.2.2, he⟩ s₂ hr hmiss
        (congrArg (fun p => p.1.toRegistry) ha).symm

end

/-! ## Hits -/

/-- Captures are allowed, and the backend captures and validates the graph of the request. -/
structure Obtainable (cfg : Config Exec) (req : GraphLookupRequest) : Prop where
  config : cfg.allowCapture = true
  request : req.allowCapture = true
  graph : ∃ g, req.descriptor.finalize cfg.nodeOrder = .ok g ∧
    validateTopology cfg.nodeOrder g.nodes g.edges = .ok () ∧
    ∀ attempt, ∃ exec, cfg.backend.capture g attempt = .ok exec ∧
      cfg.backend.validate g exec = .ok ()

/-- An entry with the facts of the request is an exact hit for it. -/
structure SelfExact (req : GraphLookupRequest) : Prop where
  fresh : isDependencyFresh (makeFacts req).dependencies (makeFacts req) = true
  exact : (decideCompatibility (makeFacts req) (makeFacts req) req.policy).klass = .exactCompatible

variable {s s₁ : State Exec} {req : GraphLookupRequest} {env : LookupEnv}

theorem Obtainable.captureEntry (h : Obtainable cfg req) (generation : GraphGeneration)
    (cacheGeneration : CacheGeneration) (attempt : CaptureAttemptId) (costUs : UInt64) :
    ∃ e, captureEntry cfg generation cacheGeneration req attempt costUs = .ok e := by
  obtain ⟨g, hg, hv, hcap⟩ := h.graph
  obtain ⟨exec, hx, hval⟩ := hcap attempt
  refine ⟨capturedEntry generation cacheGeneration req g exec costUs, ?_⟩
  simp [GraphCache.captureEntry, hg, hv, hx, hval, bind, Except.bind]

theorem Obtainable.captures (h : Obtainable cfg req)
    (hout : (searched cfg s req).outcome = .missCaptureRequired) :
    ∃ e, Captures cfg s req env e := by
  obtain ⟨e, he⟩ := h.captureEntry s.graphGenerationCounter s.cacheGeneration
    ((searchCandidates cfg s (makeFacts req) req.policy).1.captureCounter + 1) env.captureCostUs
  exact ⟨e, h.request, h.config, hout, he⟩

theorem not_hit_of_required (h : (searched cfg s req).outcome = .missCaptureRequired) :
    (searched cfg s req).hit = false := by
  have hnone := ((searchCandidates_spec cfg s (makeFacts req) req.policy).2.2.2 h).1
  simp [GraphLookupResult.hit, hnone]

/-- A search that hits is the answer. -/
theorem lookup_of_hit (h : (searched cfg s req).hit = true) :
    (lookup cfg s req env).2 = searched cfg s req := by
  have hout : (searched cfg s req).outcome ≠ .missCaptureRequired := by
    intro hout
    rw [not_hit_of_required hout] at h
    cases h
  generalize hres : (lookup cfg s req env).2 = res
  cases hres ▸ lookup_answer cfg s req env with
  | found _ _ => rfl
  | missed hmiss _ _ =>
    rw [hmiss] at h
    cases h
  | failed hmay _ _ _ => exact absurd hmay.2.2 hout
  | captured _ hcap _ _ _ _ => exact absurd hcap.2.2.1 hout
  | unusable _ hcap _ _ _ _ => exact absurd hcap.2.2.1 hout

/-- A lookup that hits has found its entry, or has captured and then found it. -/
theorem hit_cases (h : (lookup cfg s req env).2.hit = true) :
    ((searched cfg s req).hit = true ∧ (lookup cfg s req env).2 = searched cfg s req ∧
      (lookup cfg s req env).1.toRegistry =
        (searchCandidates cfg s (makeFacts req) req.policy).1.toRegistry) ∨
    ∃ e s₁, Captures cfg s req env e ∧ s₁.toRegistry = s.toRegistry.register e ∧
      (searched cfg s₁ req).hit = true ∧
      (lookup cfg s req env).2 = { searched cfg s₁ req with
        captureStarted := true
        reasonText := str "captured and replayed-compatible; hit" } ∧
      (lookup cfg s req env).1.toRegistry =
        (searchCandidates cfg s₁ (makeFacts req) req.policy).1.toRegistry := by
  have hmissed : (searched cfg s req).hit = false → ∀ res : GraphLookupResult Exec,
      res.lease = (searched cfg s req).lease → res.hit = true → False := by
    intro hmiss res hlease hres
    rw [GraphLookupResult.hit, hlease, ← GraphLookupResult.hit, hmiss] at hres
    cases hres
  generalize hres : (lookup cfg s req env).2 = res at h
  cases hres ▸ lookup_answer cfg s req env with
  | found hhit hs => exact .inl ⟨hhit, rfl, hs⟩
  | missed hmiss _ _ => exact (hmissed hmiss _ rfl h).elim
  | failed hmay _ _ _ => exact (hmissed (not_hit_of_required hmay.2.2) _ rfl h).elim
  | captured e hcap s₁ hr hhit hs => exact .inr ⟨e, s₁, hcap, hr, hhit, rfl, hs⟩
  | unusable e hcap _ _ _ _ => exact (hmissed (not_hit_of_required hcap.2.2.1) _ rfl h).elim

/-- The last entry of a walk, if it is an exact candidate, is chosen. -/
theorem scan_last {r : Registry Exec} {facts : CompatibilityFacts}
    {policy : GraphCompatibilityPolicy} {l : List ℕ} {b : ℕ}
    (hl : r.byWorkload (workloadKey facts.workload) = l ++ [b]) (hb : r.Candidate facts policy b)
    (hexact : (r.decision facts policy b).klass = .exactCompatible) :
    (scan r facts policy).chosen = some (b, r.decision facts policy b) := by
  have hcomp := hb.compatible
  unfold Registry.decision at hcomp hexact ⊢
  rw [scan, hl, List.foldl_append, List.foldl_cons, List.foldl_nil]
  simp [scanEntry, hb.selectable, hb.fresh, hcomp, hexact]

theorem compatible_of_exact {d : GraphCompatibilityDecision} (h : d.klass = .exactCompatible) :
    d.compatible = true := by
  simp [GraphCompatibilityDecision.compatible, h]

/-- Once the request is captured, its own entry is an exact candidate, and the last one. -/
theorem candidate_captured (hself : SelfExact req) {e : CacheEntry Exec}
    (hc : Captures cfg s req env e) :
    (s.toRegistry.register e).Candidate (makeFacts req) req.policy s.next ∧
      ((s.toRegistry.register e).decision (makeFacts req) req.policy s.next).klass =
        .exactCompatible := by
  obtain ⟨g, exec, -, -, rfl⟩ := captureEntry_ok hc.2.2.2
  have hfacts : ∀ x : CacheEntry Exec, x.facts = makeFacts req →
      ((s.toRegistry.register x).decision (makeFacts req) req.policy s.next).klass =
        .exactCompatible := by
    intro x hx
    rw [Registry.decision, register_heap_self, hx]
    exact hself.exact
  refine ⟨⟨⟨?_, ?_, ?_⟩, ?_, compatible_of_exact (hfacts _ rfl)⟩, hfacts _ rfl⟩
  · rw [register_heap_self]
    rfl
  · rw [register_heap_self]
    simp [Registry.register, capturedEntry]
  · rw [register_heap_self]
    rfl
  · rw [register_heap_self]
    exact hself.fresh

theorem scan_captured (hself : SelfExact req) {e : CacheEntry Exec}
    (hc : Captures cfg s req env e) :
    (scan (s.toRegistry.register e) (makeFacts req) req.policy).chosen =
      some (s.next, (s.toRegistry.register e).decision (makeFacts req) req.policy s.next) := by
  obtain ⟨hcand, hexact⟩ := candidate_captured hself hc
  refine scan_last (l := s.byWorkload (workloadKey req.workload)) ?_ hcand hexact
  obtain ⟨g, exec, -, -, rfl⟩ := captureEntry_ok hc.2.2.2
  simp [Registry.register, capturedEntry]

/-- The decision of a hit is the one on the chosen entry. -/
theorem decision_of_hit {facts : CompatibilityFacts} {policy : GraphCompatibilityPolicy} {a : ℕ}
    {dec : GraphCompatibilityDecision}
    (hc : (scan s.toRegistry facts policy).chosen = some (a, dec))
    (hhit : (searchCandidates cfg s facts policy).2.hit = true) :
    (searchCandidates cfg s facts policy).2.decision = dec := by
  obtain ⟨l, hl⟩ := Option.isSome_iff_exists.mp hhit
  obtain ⟨r, hsearch⟩ := (searchCandidates_spec cfg s facts policy).2.2.1 l hl
  exact (Prod.mk.inj (Option.some.inj (hsearch.chosen.symm.trans hc))).2

/-- The search after a capture hits, exactly. -/
theorem searched_captured (hself : SelfExact req) {e : CacheEntry Exec}
    (hc : Captures cfg s req env e) (hr : s₁.toRegistry = s.toRegistry.register e) :
    (searched cfg s₁ req).hit = true ∧
      (searched cfg s₁ req).decision.klass = .exactCompatible := by
  have hchosen := scan_captured hself hc
  have hexact := (candidate_captured hself hc).2
  rw [← hr] at hchosen hexact
  have hmat : (materializeExec cfg s₁ s.next).2 = .ok () := by
    have hexec : (s₁.heap s.next).exec.isSome = true := by
      obtain ⟨g, exec, -, -, rfl⟩ := captureEntry_ok hc.2.2.2
      rw [hr, register_heap_self]
      rfl
    simp [materializeExec, hexec]
  have hhit : (searched cfg s₁ req).hit = true := searchCandidates_hit hchosen hmat
  refine ⟨hhit, ?_⟩
  rw [decision_of_hit hchosen hhit]
  exact hexact

/-- A search that finds a candidate hits, or lets the request capture. -/
theorem search_candidate {facts : CompatibilityFacts} {policy : GraphCompatibilityPolicy} {a : ℕ}
    (ha : a ∈ s.bucket facts) (hcand : s.Candidate facts policy a) :
    (searchCandidates cfg s facts policy).2.hit = true ∨
      (searchCandidates cfg s facts policy).2.outcome = .missCaptureRequired := by
  rcases hc : (scan s.toRegistry facts policy).chosen with _ | ⟨b, dec⟩
  · exact absurd hcand ((scan_foldl s.toRegistry facts policy _).2 hc a ha)
  · rcases hm : (materializeExec cfg s b).2 with err | u
    · refine .inr ?_
      simp only [searchCandidates, hc]
      rcases hmat : materializeExec cfg s b with ⟨s', _ | _⟩
      · rfl
      · rw [hmat] at hm
        cases hm
    · exact .inl (searchCandidates_hit hc hm)

/-- A request that can be captured, and would then be an exact hit, hits exactly when its bucket
holds a candidate, or nothing selectable. -/
theorem lookup_hit_iff (hc : Obtainable cfg req) (hself : SelfExact req) :
    (lookup cfg s req env).2.hit = true ↔
      (∃ a ∈ s.bucket (makeFacts req), s.Candidate (makeFacts req) req.policy a) ∨
        ∀ a ∈ s.bucket (makeFacts req), ¬s.Selectable a := by
  constructor
  · intro hhit
    by_contra hno
    push Not at hno
    obtain ⟨hcand, a, ha, hsel⟩ := hno
    obtain ⟨-, hnone, hout⟩ := search_refused cfg hcand ha hsel
    have hne : (searched cfg s req).outcome ≠ .missCaptureRequired := by
      intro hreq
      rw [hreq] at hout
      rcases hout with hout | hout <;> cases hout
    rcases hit_cases hhit with ⟨hfound, -, -⟩ | ⟨e, s₁, hcap, -⟩
    · simp [GraphLookupResult.hit, hnone] at hfound
    · exact hne hcap.2.2.1
  · intro hor
    have hor : (searched cfg s req).hit = true ∨
        (searched cfg s req).outcome = .missCaptureRequired := by
      rcases hor with ⟨a, ha, hcand⟩ | hnone
      · exact search_candidate ha hcand
      · exact .inr (by rw [searched, search_required cfg hnone])
    generalize hres : (lookup cfg s req env).2 = res
    cases hres ▸ lookup_answer cfg s req env with
    | found h _ => exact h
    | missed h hno _ =>
      rcases hor with hhit | hout
      · rw [h] at hhit
        cases hhit
      · exact absurd ⟨hc.request, hc.config, hout⟩ hno
    | failed h err he _ =>
      obtain ⟨e, he'⟩ := hc.captureEntry _ _ _ _
      rw [he] at he'
      cases he'
    | captured e hcap s₁ hr h _ => exact h
    | unusable e hcap s₁ hr h _ =>
      rw [(searched_captured hself hcap hr).1] at h
      cases h

end GraphCache
