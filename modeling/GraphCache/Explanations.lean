import GraphCache.JsonText
import GraphCache.Protocol
import GraphCache.Searches

/-!
# Explanations

`explain` writes an answer down as text, a piece at a time, and escapes only the fields of its
reasons. The text is a JSON object that reads back as the answer exactly when none of these fields
has a control character (`read_explain_iff`). What a lookup answers always does : a field that comes
from a dependency's name stands in refusals only, and a hit has none (`lookup_explained`).
-/

open JsonText

namespace GraphCache

/-! ## The source -/

/-- `to_string(LookupOutcome)`. -/
def LookupOutcome.toStr : LookupOutcome → Str
  | .exactBackendResidentHit => str "ExactBackendResidentHit"
  | .exactHostHit => str "ExactHostHit"
  | .compatibleHitRebinding => str "CompatibleHitRebinding"
  | .compatibleDynamicShapeHit => str "CompatibleDynamicShapeHit"
  | .missCaptureRequired => str "MissCaptureRequired"
  | .missIncompatible => str "MissIncompatible"
  | .missInvalidated => str "MissInvalidated"
  | .missStaleDependency => str "MissStaleDependency"

/-- `to_string(GraphCompatibilityClass)`. -/
def GraphCompatibilityClass.toStr : GraphCompatibilityClass → Str
  | .exactCompatible => str "ExactCompatible"
  | .compatibleWithRebinding => str "CompatibleWithRebinding"
  | .compatibleWithDynamicShapeConstraint => str "CompatibleWithDynamicShapeConstraint"
  | .compatibleWithRuntimeValidation => str "CompatibleWithRuntimeValidation"
  | .incompatibleBackend => str "IncompatibleBackend"
  | .incompatibleArchitecture => str "IncompatibleArchitecture"
  | .incompatibleRuntime => str "IncompatibleRuntime"
  | .incompatibleDriverGeneration => str "IncompatibleDriverGeneration"
  | .incompatibleGraphABI => str "IncompatibleGraphABI"
  | .incompatibleKernelABI => str "IncompatibleKernelABI"
  | .incompatibleTopology => str "IncompatibleTopology"
  | .incompatibleDependency => str "IncompatibleDependency"
  | .incompatibleDatatype => str "IncompatibleDatatype"
  | .incompatibleLayout => str "IncompatibleLayout"
  | .incompatibleShape => str "IncompatibleShape"
  | .incompatibleAlignment => str "IncompatibleAlignment"
  | .incompatibleCaptureMode => str "IncompatibleCaptureMode"
  | .incompatibleStreamSemantics => str "IncompatibleStreamSemantics"
  | .incompatibleMemoryBinding => str "IncompatibleMemoryBinding"
  | .incompatibleSpecialization => str "IncompatibleSpecialization"
  | .incompatibleQuantization => str "IncompatibleQuantization"
  | .incompatibleModelRevision => str "IncompatibleModelRevision"
  | .incompatibleWorkload => str "IncompatibleWorkload"
  | .policyRejected => str "PolicyRejected"
  | .notACandidate => str "NotACandidate"

/-- `to_string(CompatibilityReasonCode)`. -/
def CompatibilityReasonCode.toStr : CompatibilityReasonCode → Str
  | .exactMatch => str "ExactMatch"
  | .rebindingRequiredLegal => str "RebindingRequiredLegal"
  | .dynamicShapeAccepted => str "DynamicShapeAccepted"
  | .backendMismatch => str "BackendMismatch"
  | .architectureMismatch => str "ArchitectureMismatch"
  | .runtimeMismatch => str "RuntimeMismatch"
  | .driverGenerationMismatch => str "DriverGenerationMismatch"
  | .graphABIMismatch => str "GraphABIMismatch"
  | .kernelABIMismatch => str "KernelABIMismatch"
  | .topologyMismatch => str "TopologyMismatch"
  | .dependencyMismatch => str "DependencyMismatch"
  | .datatypeMismatch => str "DatatypeMismatch"
  | .layoutMismatch => str "LayoutMismatch"
  | .shapeMismatch => str "ShapeMismatch"
  | .alignmentMismatch => str "AlignmentMismatch"
  | .captureModeMismatch => str "CaptureModeMismatch"
  | .streamSemanticsMismatch => str "StreamSemanticsMismatch"
  | .memoryBindingMismatch => str "MemoryBindingMismatch"
  | .specializationMismatch => str "SpecializationMismatch"
  | .quantizationMismatch => str "QuantizationMismatch"
  | .modelRevisionMismatch => str "ModelRevisionMismatch"
  | .workloadIdentityMismatch => str "WorkloadIdentityMismatch"
  | .policyRejectedReason => str "PolicyRejectedReason"

/-- `escape_json`. -/
def escapeJson (s : Str) : Str :=
  s.flatMap fun c => if c = 34 ∨ c = 92 then [92, c] else [c]

structure Explain where
  artifactId : GraphArtifactId
  decision : GraphCompatibilityClass
  hit : Bool
  outcome : LookupOutcome
  text : Str
  json : Str
  deriving DecidableEq, Repr

/-- A reason in the list. -/
def explainReason (r : CompatibilityReason) : Str :=
  str "\x7b\"code\":\"" ++ r.code.toStr ++ str "\",\"field\":\"" ++ escapeJson r.field ++
    str "\"\x7d"

/-- The list of reasons, left out where there are none. A comma stands before each but the first. -/
def explainReasons : List CompatibilityReason → Str
  | [] => []
  | r :: rs => str ",\"reasons\":[" ++ explainReason r ++
      rs.flatMap (fun r => str "," ++ explainReason r) ++ str "]"

variable {Exec : Type}

/-- `GraphCache::explain`. -/
def explain (res : GraphLookupResult Exec) : Explain where
  artifactId := res.artifactId
  decision := res.decision.klass
  hit := res.hit
  outcome := res.outcome
  text := res.reasonText
  json := str "\x7b\"outcome\":\"" ++ res.outcome.toStr ++ str "\",\"hit\":" ++
    (if res.hit then str "true" else str "false") ++ str ",\"artifact\":\"" ++
    res.artifactId.toStr ++ str "\",\"generation\":" ++ decimal res.generation ++
    str ",\"decision\":\"" ++ res.decision.klass.toStr ++ str "\"" ++
    explainReasons res.reasons ++ str "\x7d"

/-! ## The answer as a value -/

def reasonValue (r : CompatibilityReason) : Json :=
  .object [(str "code", .text r.code.toStr), (str "field", .text r.field)]

/-- What the text says : outcome, hit, artifact, generation and decision, and the reasons if there
are any. -/
def explainValue (res : GraphLookupResult Exec) : Json :=
  .object ([(str "outcome", .text res.outcome.toStr), (str "hit", .bool res.hit),
    (str "artifact", .text res.artifactId.toStr), (str "generation", .number res.generation.toNat),
    (str "decision", .text res.decision.klass.toStr)] ++
      if res.reasons = [] then [] else [(str "reasons", .list (res.reasons.map reasonValue))])

theorem LookupOutcome.bare (o : LookupOutcome) : Bare o.toStr := by
  cases o <;> decide

theorem GraphCompatibilityClass.bare (c : GraphCompatibilityClass) : Bare c.toStr := by
  cases c <;> decide

theorem CompatibilityReasonCode.bare (c : CompatibilityReasonCode) : Bare c.toStr := by
  cases c <;> decide

theorem bare_hex (d : Digest) : Bare (Sha256.hex d) := by
  have hdigit : ∀ n < 16, 32 ≤ Sha256.digit n ∧ Sha256.digit n ≠ 34 ∧ Sha256.digit n ≠ 92 := by
    decide
  intro c hc
  obtain ⟨b, -, hc⟩ := List.mem_flatMap.mp hc
  have hb : b.toNat < 256 := b.toNat_lt
  rcases List.mem_pair.mp hc with rfl | rfl
  · exact hdigit _ (by omega)
  · exact hdigit _ (by omega)

theorem Id128.bare (i : Id128) : Bare i.toStr := by
  have hcolon : Bare (str ":") := by decide
  intro c hc
  rcases List.mem_append.mp hc with hc | hc
  · rcases List.mem_append.mp hc with hc | hc
    · exact bare_hex _ c hc
    · exact hcolon c hc
  · exact bare_hex _ c hc

theorem explainReason_eq (r : CompatibilityReason) : explainReason r = (reasonValue r).print := by
  have hopen : str "\x7b\"code\":\"" = 123 :: (quote (str "code") ++ [58, 34]) := by decide
  have hfield : str "\",\"field\":\"" = 34 :: 44 :: (quote (str "field") ++ [58, 34]) := by decide
  have hclose : str "\"\x7d" = [34, 125] := by decide
  have hescape : quote r.field = 34 :: (escapeJson r.field ++ [34]) := rfl
  rw [explainReason, hopen, hfield, hclose]
  simp [reasonValue, Json.print, printFields, moreFields, r.code.bare.quote, hescape]

theorem flatMap_reasons (rs : List CompatibilityReason) :
    rs.flatMap (fun r => str "," ++ explainReason r) ++ str "]" =
      moreItems (rs.map reasonValue) := by
  induction rs with
  | nil => rfl
  | cons r rs ih =>
    rw [List.flatMap_cons, List.append_assoc, ih, explainReason_eq]
    rfl

/-- The text is the value in print. -/
theorem explain_json (res : GraphLookupResult Exec) :
    (explain res).json = (explainValue res).print := by
  have houtcome : str "\x7b\"outcome\":\"" = 123 :: (quote (str "outcome") ++ [58, 34]) := by decide
  have hhit : str "\",\"hit\":" = 34 :: 44 :: (quote (str "hit") ++ [58]) := by decide
  have hartifact : str ",\"artifact\":\"" = 44 :: (quote (str "artifact") ++ [58, 34]) := by decide
  have hgeneration : str "\",\"generation\":" = 34 :: 44 :: (quote (str "generation") ++ [58]) := by
    decide
  have hdecision : str ",\"decision\":\"" = 44 :: (quote (str "decision") ++ [58, 34]) := by decide
  have htruth : (if res.hit then str "true" else str "false") = truth res.hit := by
    cases res.hit <;> decide
  have hreasons : explainReasons res.reasons ++ str "\x7d" = moreFields
      (if res.reasons = [] then [] else [(str "reasons", .list (res.reasons.map reasonValue))]) := by
    cases res.reasons with
    | nil => rfl
    | cons r rs =>
      have hopen : str ",\"reasons\":[" = 44 :: (quote (str "reasons") ++ [58, 91]) := by decide
      have hmore := flatMap_reasons rs
      rw [if_neg (List.cons_ne_nil r rs), explainReasons, hopen, explainReason_eq,
        List.append_assoc _ _ (str "]"), hmore]
      simp [moreFields, Json.print, printItems, str]
  have hdecimal : digits res.generation.toNat = decimal res.generation := rfl
  rw [explain, explainValue]
  simp only [houtcome, hhit, hartifact, hgeneration, hdecision, htruth]
  simp [Json.print, printFields, moreFields, hreasons, res.outcome.bare.quote,
    res.artifactId.bare.quote, res.decision.klass.bare.quote, hdecimal]
  rfl

theorem explainValue_plain {res : GraphLookupResult Exec} :
    (explainValue res).Plain ↔ ∀ r ∈ res.reasons, PlainText r.field := by
  have hreason : ∀ r : CompatibilityReason, (reasonValue r).Plain ↔ PlainText r.field := by
    intro r
    have hcode : PlainText (str "code") ∧ PlainText (str "field") := ⟨by decide, by decide⟩
    simp [reasonValue, Json.Plain, PlainFields, hcode, r.code.bare.plain]
  have hlist : (Json.list (res.reasons.map reasonValue)).Plain ↔
      ∀ r ∈ res.reasons, PlainText r.field := by
    rw [Json.Plain, plainItems_iff, List.forall_mem_map]
    exact forall₂_congr fun r _ => hreason r
  have hkeys : ∀ k ∈ [str "outcome", str "hit", str "artifact", str "generation", str "decision",
      str "reasons"], PlainText k := by decide
  simp only [List.forall_mem_cons] at hkeys
  obtain ⟨houtcome, hhit, hartifact, hgeneration, hdecision, hreasons, -⟩ := hkeys
  have hfields : PlainFields (if res.reasons = [] then []
      else [(str "reasons", .list (res.reasons.map reasonValue))]) ↔
        ∀ r ∈ res.reasons, PlainText r.field := by
    split_ifs with hnil
    · simp [PlainFields, hnil]
    · simp [PlainFields, hreasons, hlist]
  simp [explainValue, Json.Plain, PlainFields, houtcome, hhit, hartifact, hgeneration, hdecision,
    res.outcome.bare.plain, res.artifactId.bare.plain, res.decision.klass.bare.plain, hfields]

/-- The text of an answer reads back as the answer exactly when no field of its reasons has a
control character. -/
theorem read_explain_iff {res : GraphLookupResult Exec} :
    read (explain res).json = some (explainValue res) ↔ ∀ r ∈ res.reasons, PlainText r.field := by
  rw [explain_json, read_print_iff, explainValue_plain]

/-! ## The reasons of a hit -/

namespace Verdict

/-- Until a domain refuses, no reason has a field that comes from outside. -/
def Plain (v : Verdict) : Prop :=
  v.failClass = none → ∀ r ∈ v.reasons, PlainText r.field

theorem plain_fail (v : Verdict) (klass : GraphCompatibilityClass)
    (code : CompatibilityReasonCode) (field detail : Str) : (v.fail klass code field detail).Plain :=
  fun h => absurd h (fail_failClass v klass code field detail)

theorem Plain.failIf {v : Verdict} (h : v.Plain) (p : Prop) [Decidable p]
    (klass : GraphCompatibilityClass) (code : CompatibilityReasonCode) (field detail : String) :
    (v.failIf p klass code field detail).Plain := by
  unfold Verdict.failIf
  split_ifs
  · exact plain_fail v klass code _ _
  · exact h

theorem Plain.addReason {v : Verdict} (h : v.Plain) (code : CompatibilityReasonCode)
    {field : Str} (detail : Str) (hfield : PlainText field) :
    (v.addReason code field detail).Plain := by
  intro hfail r hr
  rcases List.mem_append.mp hr with hr | hr
  · exact h hfail r hr
  · rw [List.mem_singleton.mp hr]
    exact hfield

end Verdict

section

variable {req cand : CompatibilityFacts} {policy : GraphCompatibilityPolicy} {v : Verdict}

theorem plain_dependencyDomain (h : v.Plain) : (dependencyDomain req cand policy v).Plain := by
  unfold dependencyDomain
  split_ifs
  · split
    · exact v.plain_fail _ _ _ _
    · exact h
  · exact h

theorem plain_hardDomains (h : v.Plain) : (hardDomains req cand policy v).Plain := by
  unfold hardDomains
  iterate 4 refine Verdict.Plain.failIf ?_ _ _ _ _ _
  refine plain_dependencyDomain ?_
  iterate 10 refine Verdict.Plain.failIf ?_ _ _ _ _ _
  exact h

theorem plain_bindingDomain (h : v.Plain) : (bindingDomain req cand policy v).Plain := by
  unfold bindingDomain
  split_ifs
  · exact h.addReason .rebindingRequiredLegal _ (by decide)
  · exact v.plain_fail _ _ _ _
  · exact v.plain_fail _ _ _ _
  · exact h

theorem plain_shapeDomain (h : v.Plain) : (shapeDomain req cand policy v).Plain := by
  unfold shapeDomain
  split_ifs
  · exact h.addReason .dynamicShapeAccepted _ (by decide)
  · exact v.plain_fail _ _ _ _
  · exact h

end

theorem Verdict.Plain.conclude {v : Verdict} (h : v.Plain) (hfail : v.failClass = none) :
    ∀ r ∈ v.conclude.reasons, PlainText r.field := by
  have hshape : PlainText (str "shape") := by decide
  have hstar : PlainText (str "*") := by decide
  intro r hr
  have hmem : r ∈ v.reasons ∨ r.field = str "shape" ∨ r.field = str "*" := by
    revert hr
    simp only [Verdict.conclude, hfail]
    split_ifs
    · simp only [List.mem_append, List.mem_singleton]
      rintro (hr | rfl)
      · exact .inl hr
      · exact .inr (.inl rfl)
    · simp only [List.append_nil]
      exact .inl
    · exact .inl
    · simp only [List.mem_append, List.mem_singleton]
      rintro (hr | rfl)
      · exact .inl hr
      · exact .inr (.inr rfl)
  rcases hmem with hr | hr | hr
  · exact h hfail r hr
  · rwa [hr]
  · rwa [hr]

theorem decision_plain {req cand : CompatibilityFacts} {policy : GraphCompatibilityPolicy}
    (h : (decideCompatibility req cand policy).compatible = true) :
    ∀ r ∈ (decideCompatibility req cand policy).reasons, PlainText r.field := by
  unfold decideCompatibility at *
  split_ifs at * with hname hns
  · exact absurd h (by decide)
  · exact absurd h (by decide)
  have hsound := (sound_shapeDomain req cand policy (sound_bindingDomain req cand policy
    (sound_hardDomains req cand policy (v := {}) (by simp [Verdict.Sound]))))
  have hstart : ({} : Verdict).Plain := fun _ r hr => absurd hr List.not_mem_nil
  have hplain : (shapeDomain req cand policy (bindingDomain req cand policy
      (hardDomains req cand policy {}))).Plain :=
    plain_shapeDomain (plain_bindingDomain (plain_hardDomains hstart))
  refine (hplain.failIf _ _ _ _ _).conclude ?_
  exact (Verdict.conclude_compatible (hsound.failIf _ rfl _ _ _)).mp h

theorem search_plain (cfg : Config Exec) (s : State Exec) (facts : CompatibilityFacts)
    (policy : GraphCompatibilityPolicy) :
    ∀ r ∈ (searchCandidates cfg s facts policy).2.reasons, PlainText r.field := by
  intro r hr
  unfold searchCandidates at hr
  cases hc : (scan s.toRegistry facts policy).chosen with
  | none =>
    simp only [hc] at hr
    split at hr <;> exact absurd hr List.not_mem_nil
  | some chosen =>
    obtain ⟨a, dec⟩ := chosen
    obtain ⟨hbest, rfl⟩ := scan_chosen hc
    simp only [hc] at hr
    split at hr
    · exact absurd hr List.not_mem_nil
    · split_ifs at hr
      · exact absurd hr List.not_mem_nil
      · exact decision_plain hbest.candidate.compatible r hr

/-- Whatever a lookup answers, its text reads back as the answer. -/
theorem lookup_explained (cfg : Config Exec) (s : State Exec) (req : GraphLookupRequest)
    (env : LookupEnv) : read (explain (lookup cfg s req env).2).json =
      some (explainValue (lookup cfg s req env).2) := by
  rw [read_explain_iff]
  have hpath := lookup_path cfg s req env
  generalize (lookup cfg s req env).1 = s', (lookup cfg s req env).2 = res' at hpath ⊢
  have hsearch : ∀ {s s₁ : State Exec} {res : GraphLookupResult Exec},
      searchCandidates cfg s (makeFacts req) req.policy = (s₁, res) →
        ∀ r ∈ res.reasons, PlainText r.field := by
    intro s s₁ res h
    have hplain := search_plain cfg s (makeFacts req) req.policy
    rwa [h] at hplain
  -- The answer has the reasons of one of the two searches.
  cases hpath with
  | found hs | missed hs | failed hs | unusable hs =>
    have hplain := hsearch hs
    exact hplain
  | captured _ _ _ ha =>
    have hplain := hsearch ha
    exact hplain

end GraphCache
