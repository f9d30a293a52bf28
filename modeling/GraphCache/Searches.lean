import GraphCache.Candidates

/-!
# What a search answers

`search_candidates` passes once over the bucket of the workload and keeps, in several variables,
what it has found so far. The entry it ends with is a best candidate (`Registry.Best`).

`search_complete` : where the chosen entry can be materialized, a search hits exactly when the
bucket holds a candidate, and the whole answer is about one entry, an exact candidate if there is
one.
-/

namespace GraphCache

section

variable {Exec : Type} {cfg : Config Exec} {s : State Exec} {facts : CompatibilityFacts}
  {policy : GraphCompatibilityPolicy}

/-- Where the executable of an entry is once it is materialized. -/
def State.residencyOnHit (s : State Exec) (a : ℕ) : ResidencyTier :=
  if (s.heap a).exec.isSome then (s.heap a).residency else .hostResident

/-- The answer and its lease are about one entry. -/
structure Describes (s : State Exec) (facts : CompatibilityFacts)
    (policy : GraphCompatibilityPolicy) (res : GraphLookupResult Exec) (l : Lease Exec) : Prop where
  decision : res.decision = s.decision facts policy l.entry
  reasons : res.reasons = (s.decision facts policy l.entry).reasons
  outcome : res.outcome =
    hitOutcome (s.decision facts policy l.entry).klass (s.residencyOnHit l.entry)
  artifactId : res.artifactId = (s.heap l.entry).artifactId
  generation : res.generation = (s.heap l.entry).generation
  leaseArtifactId : l.artifactId = (s.heap l.entry).artifactId
  leaseGeneration : l.generation = (s.heap l.entry).generation
  needsRebinding : l.needsRebinding = (s.decision facts policy l.entry).needsRebinding
  rebinding : res.outcome = .compatibleHitRebinding ↔ l.needsRebinding = true
  dynamicShape : res.outcome = .compatibleDynamicShapeHit ↔
    res.decision.klass = .compatibleWithDynamicShapeConstraint
  exact : res.outcome = .exactBackendResidentHit ∨ res.outcome = .exactHostHit ↔
    res.decision.klass = .exactCompatible

theorem hitOutcome_exact {req cand : CompatibilityFacts} (residency : ResidencyTier)
    (h : (decideCompatibility req cand policy).compatible = true) :
    hitOutcome (decideCompatibility req cand policy).klass residency = .exactBackendResidentHit ∨
      hitOutcome (decideCompatibility req cand policy).klass residency = .exactHostHit ↔
        (decideCompatibility req cand policy).klass = .exactCompatible := by
  rw [decideCompatibility_klass h, acceptedClass]
  split_ifs <;> cases residency <;> simp [hitOutcome]

/-- Materializing an entry touches its executable and its residency. -/
theorem materializeExec_entry {a : ℕ} (h : (materializeExec cfg s a).2 = .ok ()) :
    ∃ exec, (materializeExec cfg s a).1.heap a =
      { s.heap a with exec, residency := s.residencyOnHit a } := by
  unfold materializeExec State.residencyOnHit at *
  by_cases hexec : (s.heap a).exec.isSome = true
  · simp only [if_pos hexec]
    exact ⟨(s.heap a).exec, rfl⟩
  · simp only [if_neg hexec] at h ⊢
    cases hcap : cfg.backend.capture (s.heap a).descriptor (s.captureCounter + 1) with
    | error e => simp [hcap] at h
    | ok x =>
      cases hval : cfg.backend.validate (s.heap a).descriptor x with
      | error e => simp [hcap, hval] at h
      | ok u => exact ⟨some x, by simp [hval, State.touchMetric, State.set]⟩

/-- A chosen entry that can be materialized is leased, and described. -/
theorem search_describes {a : ℕ} {dec : GraphCompatibilityDecision}
    (hc : (scan s.toRegistry facts policy).chosen = some (a, dec))
    (hm : (materializeExec cfg s a).2 = .ok ()) :
    ∃ l, (searchCandidates cfg s facts policy).2.lease = some l ∧ l.entry = a ∧
      Describes s facts policy (searchCandidates cfg s facts policy).2 l := by
  obtain ⟨hbest, rfl⟩ := scan_chosen hc
  have hsel := hbest.candidate.selectable
  obtain ⟨exec, hentry⟩ := materializeExec_entry hm
  unfold searchCandidates
  simp only [hc]
  split
  · rename_i s' err h
    simp [h] at hm
  · rename_i s' h
    rw [h] at hentry
    dsimp only at hentry
    rw [if_neg (by simp [hentry, hsel.1, hsel.2.2])]
    refine ⟨_, rfl, rfl, ?_⟩
    constructor
    case rebinding => simp [makeLease, hitOutcome_rebinding, GraphCompatibilityDecision.needsRebinding]
    case dynamicShape => simp [hitOutcome_dynamic]
    case exact => exact hitOutcome_exact _ hbest.candidate.compatible
    all_goals simp [makeLease, hentry]

theorem search_unchosen (hc : (scan s.toRegistry facts policy).chosen = none) :
    (searchCandidates cfg s facts policy).2.hit = false := by
  unfold searchCandidates
  simp only [hc]
  split <;> rfl

/-- A search hits exactly when there is a candidate in the bucket, and what it answers is about one
candidate there, which is exact if any is. -/
theorem search_complete (cfg : Config Exec) (s : State Exec) (facts : CompatibilityFacts)
    (policy : GraphCompatibilityPolicy)
    (hmat : ∀ a dec, (scan s.toRegistry facts policy).chosen = some (a, dec) →
      (materializeExec cfg s a).2 = .ok ()) :
    ((searchCandidates cfg s facts policy).2.hit = true ↔
      ∃ a ∈ s.byWorkload (workloadKey facts.workload), s.Candidate facts policy a) ∧
    ∀ l, (searchCandidates cfg s facts policy).2.lease = some l →
      (l.entry ∈ s.byWorkload (workloadKey facts.workload) ∧ s.Candidate facts policy l.entry) ∧
      ((∃ b ∈ s.byWorkload (workloadKey facts.workload), s.Candidate facts policy b ∧
        (s.decision facts policy b).klass = .exactCompatible) →
          (s.decision facts policy l.entry).klass = .exactCompatible) ∧
      Describes s facts policy (searchCandidates cfg s facts policy).2 l := by
  cases hc : (scan s.toRegistry facts policy).chosen with
  | none =>
    have hmiss : (searchCandidates cfg s facts policy).2.hit = false := search_unchosen hc
    have hnone : ∀ a ∈ s.byWorkload (workloadKey facts.workload), ¬s.Candidate facts policy a :=
      (scan_foldl s.toRegistry facts policy _).2 hc
    refine ⟨iff_of_false (by simp [hmiss]) fun ⟨a, ha, hcand⟩ => hnone a ha hcand, ?_⟩
    intro l hl
    simp [GraphLookupResult.hit, hl] at hmiss
  | some chosen =>
    obtain ⟨a, dec⟩ := chosen
    obtain ⟨hbest, -⟩ := scan_chosen hc
    obtain ⟨l, hl, rfl, hdesc⟩ := search_describes hc (hmat a dec hc)
    have hhit : (searchCandidates cfg s facts policy).2.hit = true := by
      simp [GraphLookupResult.hit, hl]
    refine ⟨iff_of_true hhit ⟨_, hbest.mem, hbest.candidate⟩, ?_⟩
    intro l' hl'
    obtain rfl : l = l' := Option.some.inj (hl.symm.trans hl')
    exact ⟨⟨hbest.mem, hbest.candidate⟩, hbest.exact, hdesc⟩

end

/-- A bucket of two entries, the first with a dynamic shape. -/
def twoShapes : State CpuGraph where
  heap := fun a => {
    exec := some ⟨[], []⟩
    facts.inputShapes := if a = 0 then [{ dims := [8], dynamic := true, maxRank := 1 }]
      else [{ dims := [4] }] }
  next := 2
  byWorkload := fun _ => [0, 1]
  keyCurrentGen := fun _ => some 0

/-- Both are candidates for a request that one of them matches. -/
theorem search_complete_two :
    let facts : CompatibilityFacts := { inputShapes := [{ dims := [4] }] }
    let res := (searchCandidates (.cpu (.insertion _) .unit) twoShapes facts {}).2
    (res.hit = true ↔
      ∃ a ∈ twoShapes.byWorkload (workloadKey facts.workload), twoShapes.Candidate facts {} a) ∧
    ∀ l, res.lease = some l →
      (l.entry ∈ twoShapes.byWorkload (workloadKey facts.workload) ∧
        twoShapes.Candidate facts {} l.entry) ∧
      ((∃ b ∈ twoShapes.byWorkload (workloadKey facts.workload), twoShapes.Candidate facts {} b ∧
        (twoShapes.decision facts {} b).klass = .exactCompatible) →
          (twoShapes.decision facts {} l.entry).klass = .exactCompatible) ∧
      Describes twoShapes facts {} res l :=
  search_complete (.cpu (.insertion _) .unit) twoShapes { inputShapes := [{ dims := [4] }] } {}
    fun _ _ _ => rfl

end GraphCache
