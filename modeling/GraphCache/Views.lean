import GraphCache.Lookups
import GraphCache.Selection

/-!
# What a search reads

A search reads of an entry its name and generation, its facts, whether it is selectable, and what
comes of it when it is made executable (`View`). The answer is a function of the views of its bucket
(`tellViews`), up to the address and the token of the lease (`search_report`) : the last exact
candidate, else the first compatible one.
-/

namespace GraphCache

open Selection

variable {Exec : Type} {cfg : Config Exec}

/-! ## Views -/

/-- An entry as a search sees it. -/
structure View (Exec : Type) where
  artifactId : GraphArtifactId
  generation : GraphGeneration
  facts : CompatibilityFacts
  selectable : Bool
  ready : Result Exec

/-- A capture that is validated. -/
def validated (b : GraphBackend Exec) (g : GraphDescriptor) (attempt : CaptureAttemptId) :
    Result Exec :=
  match b.capture g attempt with
  | .error e => .error e
  | .ok exec =>
    match b.validate g exec with
    | .error e => .error ⟨.validationFailed, e.message⟩
    | .ok () => .ok exec

/-- The executable of an entry, or what a capture in its place gives. -/
def CacheEntry.ready (cfg : Config Exec) (attempt : CaptureAttemptId) (e : CacheEntry Exec) :
    Result Exec :=
  match e.exec with
  | some exec => .ok exec
  | none => validated cfg.backend e.descriptor attempt

def State.view (cfg : Config Exec) (s : State Exec) (a : ℕ) : View Exec where
  artifactId := (s.heap a).artifactId
  generation := (s.heap a).generation
  facts := (s.heap a).facts
  selectable := s.Selectable a
  ready := (s.heap a).ready cfg (s.captureCounter + 1)

namespace View

variable (facts : CompatibilityFacts) (policy : GraphCompatibilityPolicy) (v : View Exec)

def decision : GraphCompatibilityDecision := decideCompatibility facts v.facts policy

def eligible : Bool := v.selectable && isDependencyFresh v.facts.dependencies facts

def stale : Bool := v.selectable && !isDependencyFresh v.facts.dependencies facts

def candidate : Bool := v.eligible facts && (v.decision facts policy).compatible

def refused : Bool := v.eligible facts && !(v.decision facts policy).compatible

def exact : Bool := (v.decision facts policy).klass = .exactCompatible

end View

/-! ## The answer of a search -/

/-- A result without the address and the token of its lease. -/
def GraphLookupResult.report (res : GraphLookupResult Exec) : GraphLookupResult Exec :=
  { res with lease := res.lease.map fun l => { l with token := 0, entry := 0 } }

/-- The miss of a search without a candidate. -/
def tellMiss (vs : List (View Exec)) (facts : CompatibilityFacts)
    (policy : GraphCompatibilityPolicy) : GraphLookupResult Exec :=
  match (vs.filter (View.refused facts policy)).getLast? with
  | some v => { outcome := .missIncompatible, decision := v.decision facts policy }
  | none => { outcome := if vs.any (View.stale facts) then .missStaleDependency
      else .missCaptureRequired }

/-- The answer of a search that chooses an entry. -/
def View.tell (facts : CompatibilityFacts) (policy : GraphCompatibilityPolicy) (v : View Exec) :
    GraphLookupResult Exec :=
  let dec := v.decision facts policy
  match v.ready with
  | .error e => {
      decision := dec
      outcome := .missCaptureRequired
      reasonText := str "cannot materialize graph executable: " ++ e.message }
  | .ok exec => {
      decision := dec
      artifactId := v.artifactId
      generation := v.generation
      lease := some ⟨0, 0, v.artifactId, v.generation, some exec, dec.needsRebinding⟩
      outcome := hitOutcome dec.klass .hostResident
      reasons := dec.reasons }

/-- The answer of a search, from the views of its bucket. -/
def tellViews (vs : List (View Exec)) (facts : CompatibilityFacts)
    (policy : GraphCompatibilityPolicy) : GraphLookupResult Exec :=
  match best (View.candidate facts policy) (View.exact facts policy) vs with
  | none => tellMiss vs facts policy
  | some v => v.tell facts policy

section

variable {s : State Exec} {facts : CompatibilityFacts} {policy : GraphCompatibilityPolicy}

section

variable (cfg s facts policy) (acc : Scan) (a : ℕ)

theorem scanEntry_chosen : (scanEntry s.toRegistry facts policy acc a).chosen =
    if (s.view cfg a).candidate facts policy &&
      (acc.chosen.isNone || (s.view cfg a).exact facts policy) then
      some (a, (s.view cfg a).decision facts policy) else acc.chosen := by
  unfold scanEntry View.candidate View.eligible View.exact View.decision State.view
  dsimp only
  split_ifs <;> simp_all

theorem scanEntry_bestIncompat : (scanEntry s.toRegistry facts policy acc a).bestIncompat =
    if (s.view cfg a).refused facts policy then some ((s.view cfg a).decision facts policy)
    else acc.bestIncompat := by
  unfold scanEntry View.refused View.eligible View.decision State.view
  dsimp only
  split_ifs <;> simp_all

theorem scanEntry_outcome : (scanEntry s.toRegistry facts policy acc a).outcome =
    if (s.view cfg a).stale facts then .missStaleDependency else acc.outcome := by
  unfold scanEntry View.stale State.view
  dsimp only
  split_ifs <;> simp_all

end

/-- The walk over a bucket, in terms of views. -/
theorem foldl_scanEntry_view (cfg : Config Exec) (s : State Exec) (facts : CompatibilityFacts)
    (policy : GraphCompatibilityPolicy) (l : List ℕ) :
    (l.foldl (scanEntry s.toRegistry facts policy) {}).chosen =
        (best (View.candidate facts policy ∘ s.view cfg) (View.exact facts policy ∘ s.view cfg) l).map
          (fun a => (a, (s.view cfg a).decision facts policy)) ∧
      (l.foldl (scanEntry s.toRegistry facts policy) {}).bestIncompat =
        (((l.map (s.view cfg)).filter (View.refused facts policy)).getLast?).map
          (View.decision facts policy) ∧
      (l.foldl (scanEntry s.toRegistry facts policy) {}).outcome =
        if (l.map (s.view cfg)).any (View.stale facts) then .missStaleDependency
        else .missCaptureRequired := by
  induction l using List.reverseRecOn with
  | nil => exact ⟨rfl, rfl, rfl⟩
  | append_singleton l a ih =>
    obtain ⟨hchosen, hincompat, hout⟩ := ih
    rw [List.foldl_append, List.foldl_cons, List.foldl_nil, scanEntry_chosen cfg,
      scanEntry_bestIncompat cfg, scanEntry_outcome cfg, hchosen, hincompat, hout, List.map_append,
      List.filter_append, List.getLast?_append, List.any_append, best_concat]
    refine ⟨?_, ?_, ?_⟩
    · rw [Option.isNone_map]
      unfold pick
      simp only [Function.comp_apply]
      split_ifs <;> rfl
    · cases hrefused : (s.view cfg a).refused facts policy <;> simp [hrefused]
    · cases hstale : (s.view cfg a).stale facts <;> simp [hstale]

theorem materializeExec_error {a : ℕ} {e : Error}
    (h : (s.heap a).ready cfg (s.captureCounter + 1) = .error e) :
    (materializeExec cfg s a).2 = .error e := by
  unfold CacheEntry.ready at h
  unfold materializeExec
  rcases hx : (s.heap a).exec with _ | x
  · rw [hx] at h
    dsimp only at h
    unfold validated at h
    dsimp only [Option.isSome_none]
    rw [if_neg (by decide)]
    rcases hcap : cfg.backend.capture (s.heap a).descriptor (s.captureCounter + 1) with e' | exec
    · rw [hcap] at h
      cases h
      rfl
    · rw [hcap] at h
      dsimp only at h ⊢
      rcases hval : cfg.backend.validate (s.heap a).descriptor exec with e' | u
      · rw [hval] at h
        cases h
        rfl
      · rw [hval] at h
        cases h
  · rw [hx] at h
    cases h

theorem materializeExec_ok (hoff : s.toRegistry.OffBackend) {a : ℕ} {x : Exec}
    (h : (s.heap a).ready cfg (s.captureCounter + 1) = .ok x) :
    (materializeExec cfg s a).2 = .ok () ∧ ∃ res : ResidencyTier, res ≠ .backendResident ∧
      (materializeExec cfg s a).1.heap a = { s.heap a with exec := some x, residency := res } := by
  unfold CacheEntry.ready at h
  unfold materializeExec
  rcases hx : (s.heap a).exec with _ | y
  · rw [hx] at h
    dsimp only at h
    unfold validated at h
    dsimp only [Option.isSome_none]
    rw [if_neg (by decide)]
    rcases hcap : cfg.backend.capture (s.heap a).descriptor (s.captureCounter + 1) with e' | exec
    · rw [hcap] at h
      cases h
    · rw [hcap] at h
      dsimp only at h ⊢
      rcases hval : cfg.backend.validate (s.heap a).descriptor exec with e' | u
      · rw [hval] at h
        cases h
      · rw [hval] at h
        obtain rfl := Except.ok.inj h
        refine ⟨rfl, .hostResident, by decide, ?_⟩
        simp [State.set, State.touchMetric]
  · rw [hx] at h
    obtain rfl := Except.ok.inj h
    refine ⟨rfl, (s.heap a).residency, hoff a, ?_⟩
    dsimp only [Option.isSome_some]
    rw [if_pos rfl, ← hx]

/-- A search that chooses an entry makes it executable, and leases it. -/
theorem search_chosen (hoff : s.toRegistry.OffBackend) {a : ℕ}
    (hc : (scan s.toRegistry facts policy).chosen =
      some (a, (s.view cfg a).decision facts policy)) :
    (searchCandidates cfg s facts policy).2.report = (s.view cfg a).tell facts policy := by
  have hsel := (scan_chosen hc).1.candidate.selectable
  unfold searchCandidates View.tell
  simp only [hc]
  rcases hready : (s.heap a).ready cfg (s.captureCounter + 1) with e | x
  · rw [show (s.view cfg a).ready = .error e from hready]
    have herror := materializeExec_error hready
    rcases hmat : materializeExec cfg s a with ⟨s', _ | _⟩
    · rw [hmat] at herror
      obtain rfl := Except.error.inj herror
      rfl
    · rw [hmat] at herror
      cases herror
  · rw [show (s.view cfg a).ready = .ok x from hready]
    obtain ⟨hok, res, hres, hheap⟩ := materializeExec_ok hoff hready
    rcases hmat : materializeExec cfg s a with ⟨s', _ | _⟩
    · rw [hmat] at hok
      cases hok
    · rw [hmat] at hheap
      dsimp only at hheap ⊢
      rw [hheap]
      have hout : ∀ klass, hitOutcome klass res = hitOutcome klass .hostResident := by
        intro klass
        cases klass <;> simp [hitOutcome, hres]
      rw [if_neg (by simp [hsel.1, hsel.2.2])]
      simp only [GraphLookupResult.report, Option.map_some, makeLease, hheap, hout, State.view]

/-- The answer of a search is a function of the views of its bucket. -/
theorem search_report (hoff : s.toRegistry.OffBackend) :
    (searchCandidates cfg s facts policy).2.report =
      tellViews ((s.bucket facts).map (s.view cfg)) facts policy := by
  obtain ⟨hchosen, hincompat, hout⟩ := foldl_scanEntry_view cfg s facts policy (s.bucket facts)
  unfold tellViews
  rw [best_map]
  rcases hbest : best (View.candidate facts policy ∘ s.view cfg)
    (View.exact facts policy ∘ s.view cfg) (s.bucket facts) with _ | a
  · rw [hbest] at hchosen
    simp only [Option.map_none] at hchosen ⊢
    unfold searchCandidates tellMiss
    dsimp only
    rw [show (scan s.toRegistry facts policy).chosen = none from hchosen,
      show (scan s.toRegistry facts policy).bestIncompat = _ from hincompat]
    rcases (((s.bucket facts).map (s.view cfg)).filter (View.refused facts policy)).getLast? with _ | v
    · dsimp only [Option.map_none]
      rw [show (scan s.toRegistry facts policy).outcome = _ from hout]
      rfl
    · rfl
  · rw [hbest] at hchosen
    exact search_chosen hoff hchosen

end

end GraphCache
