import GraphCache.Compatibility

/-!
# Decisions

What `decide_compatibility` answers beside yes and no : the class, and the reasons.

`decision_coherent` : the reasons are never empty, they are all acceptances exactly when the
decision is compatible, and otherwise the first that is none names the class. The running decision
keeps this after every domain (`Verdict.Coherent`), so it does not matter which domains refuse, or
that an acceptance may stand before a refusal.

`decideCompatibility_klass` : the class of a compatible decision is read off the two sets of facts
(`acceptedClass`). The policy says only whether there is a hit. Hence `decision_relaxed` : a hit is
still there, with its class, under a policy that asks for less.

`lax_toggles_iff` : of the toggles that may be switched off, `require_exact_scalar_specialization`
and `require_exact_quantization` are never read. With one of them off, two requests that differ in
its field only are told apart exactly where one of them matches the candidate in it and nothing else
speaks against them.
-/

namespace GraphCache

/-! ## Reasons -/

/-- `accepted`. -/
def CompatibilityReason.accepted (r : CompatibilityReason) : Bool :=
  r.code = .exactMatch ∨ r.code = .rebindingRequiredLegal ∨ r.code = .dynamicShapeAccepted

/-- The class that a reason code stands for; an acceptance stands for none. -/
def CompatibilityReasonCode.failureClass :
    CompatibilityReasonCode → Option GraphCompatibilityClass
  | .exactMatch | .rebindingRequiredLegal | .dynamicShapeAccepted => none
  | .backendMismatch => some .incompatibleBackend
  | .architectureMismatch => some .incompatibleArchitecture
  | .runtimeMismatch => some .incompatibleRuntime
  | .driverGenerationMismatch => some .incompatibleDriverGeneration
  | .graphABIMismatch => some .incompatibleGraphABI
  | .kernelABIMismatch => some .incompatibleKernelABI
  | .topologyMismatch => some .incompatibleTopology
  | .dependencyMismatch => some .incompatibleDependency
  | .datatypeMismatch => some .incompatibleDatatype
  | .layoutMismatch => some .incompatibleLayout
  | .shapeMismatch => some .incompatibleShape
  | .alignmentMismatch => some .incompatibleAlignment
  | .captureModeMismatch => some .incompatibleCaptureMode
  | .streamSemanticsMismatch => some .incompatibleStreamSemantics
  | .memoryBindingMismatch => some .incompatibleMemoryBinding
  | .specializationMismatch => some .incompatibleSpecialization
  | .quantizationMismatch => some .incompatibleQuantization
  | .modelRevisionMismatch => some .incompatibleModelRevision
  | .workloadIdentityMismatch => some .incompatibleWorkload
  | .policyRejectedReason => some .policyRejected

theorem CompatibilityReason.accepted_iff (r : CompatibilityReason) :
    r.accepted = true ↔ r.code.failureClass = none := by
  obtain ⟨code, field, detail⟩ := r
  cases code <;> simp [accepted, CompatibilityReasonCode.failureClass]

/-- The first reason that is not an acceptance. -/
def firstRefusal (reasons : List CompatibilityReason) : Option CompatibilityReason :=
  reasons.find? fun r => !r.accepted

theorem firstRefusal_append (l : List CompatibilityReason) (r : CompatibilityReason) :
    firstRefusal (l ++ [r]) = if r.accepted then firstRefusal l else (firstRefusal l).or (some r) := by
  rw [firstRefusal, List.find?_append, ← firstRefusal]
  split_ifs with hr <;> simp [hr]

theorem firstRefusal_eq_none {l : List CompatibilityReason} :
    firstRefusal l = none ↔ ∀ r ∈ l, r.accepted = true := by
  simp [firstRefusal]

namespace Verdict

/-- The class of the failure is the one of the first refusal, and what was accepted on terms has a
reason. -/
structure Coherent (v : Verdict) : Prop where
  failClass : v.failClass = (firstRefusal v.reasons).bind (·.code.failureClass)
  reasons : v.usedRebinding ∨ v.usedDynamic → v.reasons ≠ []

theorem Coherent.fail {v : Verdict} (h : v.Coherent) {klass : GraphCompatibilityClass}
    {code : CompatibilityReasonCode} (hcode : code.failureClass = some klass)
    (field detail : Str) : (v.fail klass code field detail).Coherent := by
  have hrefused : (CompatibilityReason.mk code field detail).accepted = false := by
    simp [Bool.eq_false_iff, CompatibilityReason.accepted_iff, hcode]
  refine ⟨?_, fun _ => by simp [Verdict.fail, addReason]⟩
  simp only [Verdict.fail, addReason, firstRefusal_append, hrefused, h.failClass]
  cases hr : firstRefusal v.reasons with
  | none => simp [hcode]
  | some r =>
    -- The first refusal was there before, and has a class.
    have hclass := (CompatibilityReason.accepted_iff r).not.mp (by simpa using List.find?_some hr)
    obtain ⟨c, hc⟩ := Option.ne_none_iff_exists'.mp hclass
    simp [hc]

theorem Coherent.failIf {v : Verdict} (h : v.Coherent) (p : Prop) [Decidable p]
    {klass : GraphCompatibilityClass} {code : CompatibilityReasonCode}
    (hcode : code.failureClass = some klass) (field detail : String) :
    (v.failIf p klass code field detail).Coherent := by
  unfold Verdict.failIf
  split_ifs
  · exact h.fail hcode _ _
  · exact h

theorem Coherent.failClass_eq_none {v : Verdict} (h : v.Coherent) :
    v.failClass = none ↔ ∀ r ∈ v.reasons, r.accepted = true := by
  rw [h.failClass, ← firstRefusal_eq_none]
  cases hr : firstRefusal v.reasons with
  | none => simp
  | some r =>
    have hrefused : r.accepted = false := by simpa using List.find?_some hr
    simp [← CompatibilityReason.accepted_iff, hrefused]

/-- An acceptance leaves the first refusal as it is. -/
theorem Coherent.accept {v : Verdict} (h : v.Coherent) {code : CompatibilityReasonCode}
    {field detail : Str} (hcode : (CompatibilityReason.mk code field detail).accepted = true)
    (rebinding dyn : Bool) :
    Coherent { v.addReason code field detail with
      usedRebinding := rebinding, usedDynamic := dyn } := by
  refine ⟨?_, fun _ => by simp [addReason]⟩
  simp [addReason, firstRefusal_append, hcode, h.failClass]

end Verdict

section

variable {req cand : CompatibilityFacts} {policy : GraphCompatibilityPolicy} {v : Verdict}

theorem coherent_dependencyDomain (h : v.Coherent) :
    (dependencyDomain req cand policy v).Coherent := by
  unfold dependencyDomain
  split_ifs
  · split
    · exact h.fail rfl _ _
    · exact h
  · exact h

theorem coherent_hardDomains (h : v.Coherent) : (hardDomains req cand policy v).Coherent := by
  unfold hardDomains
  iterate 4 refine Verdict.Coherent.failIf ?_ _ rfl _ _
  refine coherent_dependencyDomain ?_
  iterate 10 refine Verdict.Coherent.failIf ?_ _ rfl _ _
  exact h

theorem coherent_bindingDomain (h : v.Coherent) :
    (bindingDomain req cand policy v).Coherent := by
  unfold bindingDomain
  split_ifs
  · exact h.accept rfl true v.usedDynamic
  · exact h.fail rfl _ _
  · exact h.fail rfl _ _
  · exact h

theorem coherent_shapeDomain (h : v.Coherent) : (shapeDomain req cand policy v).Coherent := by
  unfold shapeDomain
  split_ifs
  · exact h.accept rfl v.usedRebinding true
  · exact h.fail rfl _ _
  · exact h

end

/-- A decision that says the same in its class and in its reasons. -/
structure GraphCompatibilityDecision.Coherent (d : GraphCompatibilityDecision) : Prop where
  reasons : d.reasons ≠ []
  compatible : d.compatible = true ↔ ∀ r ∈ d.reasons, r.accepted = true
  refusal : d.compatible = false →
    ∃ r, firstRefusal d.reasons = some r ∧ r.code.failureClass = some d.klass

theorem Verdict.Coherent.conclude {v : Verdict} (h : v.Coherent) (hsound : v.Sound) :
    v.conclude.Coherent := by
  cases hfail : v.failClass with
  | some c =>
    -- A refusal stands among the reasons, and fixed the class.
    obtain ⟨r, hr, hclass⟩ := Option.bind_eq_some_iff.mp (h.failClass.symm.trans hfail)
    have hconclude : v.conclude = ⟨c, v.reasons⟩ := by simp [Verdict.conclude, hfail]
    have hcompatible : ¬v.conclude.compatible = true := by
      simp [Verdict.conclude_compatible hsound, hfail]
    have hrefused : ¬∀ r ∈ v.reasons, r.accepted = true := by
      simp [← firstRefusal_eq_none, hr]
    rw [hconclude] at hcompatible ⊢
    refine ⟨?_, iff_of_false hcompatible hrefused, fun _ => ⟨r, hr, hclass⟩⟩
    intro hnil
    have hnil : v.reasons = [] := hnil
    simp [hnil, firstRefusal] at hr
  | none =>
    -- All reasons so far are acceptances, and so is the one added at the end.
    have haccepted : ∀ r ∈ v.reasons, r.accepted = true :=
      h.failClass_eq_none.mp hfail
    have hcompatible : v.conclude.compatible = true :=
      (Verdict.conclude_compatible hsound).mpr hfail
    have hreasons := h.reasons
    refine ⟨?_, iff_of_true hcompatible ?_, fun hc => absurd hcompatible (by simp [hc])⟩
    · cases hr : v.usedRebinding <;> cases hd : v.usedDynamic <;>
        simp_all [Verdict.conclude]
    · cases hr : v.usedRebinding <;> cases hd : v.usedDynamic <;>
        simp only [Verdict.conclude, hfail, hr, hd] <;>
        simpa [or_imp, forall_and, CompatibilityReason.accepted] using haccepted

/-- Class and reasons of every decision agree. -/
theorem decision_coherent (req cand : CompatibilityFacts) (policy : GraphCompatibilityPolicy) :
    (decideCompatibility req cand policy).reasons ≠ [] ∧
      ((decideCompatibility req cand policy).compatible = true ↔
        ∀ r ∈ (decideCompatibility req cand policy).reasons, r.accepted = true) ∧
      ((decideCompatibility req cand policy).compatible = false →
        ∃ r, firstRefusal (decideCompatibility req cand policy).reasons = some r ∧
          r.code.failureClass = some (decideCompatibility req cand policy).klass) := by
  suffices h : (decideCompatibility req cand policy).Coherent from ⟨h.1, h.2, h.3⟩
  unfold decideCompatibility
  split_ifs
  · exact ⟨by simp, by simp [CompatibilityReason.accepted, GraphCompatibilityDecision.compatible],
      fun _ => ⟨_, rfl, rfl⟩⟩
  · exact ⟨by simp, by simp [CompatibilityReason.accepted, GraphCompatibilityDecision.compatible],
      fun _ => ⟨_, rfl, rfl⟩⟩
  have hstart : ({} : Verdict).Coherent := ⟨rfl, by simp⟩
  have hsound := sound_shapeDomain req cand policy (sound_bindingDomain req cand policy
    (sound_hardDomains req cand policy (v := {}) (by simp [Verdict.Sound])))
  have hcoherent : (shapeDomain req cand policy (bindingDomain req cand policy
      (hardDomains req cand policy {}))).Coherent :=
    coherent_shapeDomain (coherent_bindingDomain (coherent_hardDomains hstart))
  exact Verdict.Coherent.conclude (hcoherent.failIf _ rfl _ _) (hsound.failIf _ rfl _ _ _)

/-! ## Classes -/

instance (req cand : CompatibilityFacts) : Decidable (SameBinding req cand) :=
  inferInstanceAs (Decidable (_ ∧ _))

/-- The class of a hit : a rebinding where the bindings differ, else a dynamic shape where the
shapes do. -/
def acceptedClass (req cand : CompatibilityFacts) : GraphCompatibilityClass :=
  if SameBinding req cand then
    if req.inputShapes = cand.inputShapes ∧ req.outputShapes = cand.outputShapes then
      .exactCompatible
    else .compatibleWithDynamicShapeConstraint
  else .compatibleWithRebinding

namespace Verdict

/-- What was accepted on terms. -/
def terms (v : Verdict) : Bool × Bool := (v.usedRebinding, v.usedDynamic)

@[simp] theorem terms_failIf (v : Verdict) (p : Prop) [Decidable p]
    (klass : GraphCompatibilityClass) (code : CompatibilityReasonCode) (field detail : String) :
    (v.failIf p klass code field detail).terms = v.terms := by
  unfold failIf
  split_ifs <;> rfl

theorem conclude_klass {v : Verdict} (h : v.failClass = none) : v.conclude.klass =
    if v.terms.1 then .compatibleWithRebinding
    else if v.terms.2 then .compatibleWithDynamicShapeConstraint else .exactCompatible := by
  obtain ⟨failClass, usedRebinding, usedDynamic, reasons⟩ := v
  obtain rfl : failClass = none := h
  cases usedRebinding <;> cases usedDynamic <;> rfl

end Verdict

section

variable {req cand : CompatibilityFacts} {policy : GraphCompatibilityPolicy} {v : Verdict}

theorem terms_dependencyDomain : (dependencyDomain req cand policy v).terms = v.terms := by
  unfold dependencyDomain
  split_ifs
  · split <;> rfl
  · rfl

theorem terms_hardDomains : (hardDomains req cand policy v).terms = v.terms := by
  simp [hardDomains, terms_dependencyDomain]

theorem terms_bindingDomain (hok : (bindingDomain req cand policy v).failClass = none) :
    (bindingDomain req cand policy v).terms =
      (v.usedRebinding || decide ¬SameBinding req cand, v.usedDynamic) := by
  unfold bindingDomain at *
  split_ifs at * with hdiff hallow halign
  · have hbinding : ¬SameBinding req cand := by
      unfold SameBinding
      tauto
    simp [Verdict.terms, Verdict.addReason, hbinding]
  · exact absurd hok (Verdict.fail_failClass _ _ _ _ _)
  · exact absurd hok (Verdict.fail_failClass _ _ _ _ _)
  · have hbinding : SameBinding req cand := by
      unfold SameBinding
      tauto
    simp [Verdict.terms, hbinding]

theorem terms_shapeDomain (hok : (shapeDomain req cand policy v).failClass = none) :
    (shapeDomain req cand policy v).terms = (v.usedRebinding, v.usedDynamic ||
      decide ¬(req.inputShapes = cand.inputShapes ∧ req.outputShapes = cand.outputShapes)) := by
  unfold shapeDomain at *
  split_ifs at * with hdiff hallow
  · have hshapes : ¬(req.inputShapes = cand.inputShapes ∧ req.outputShapes = cand.outputShapes) := by
      tauto
    simp [Verdict.terms, Verdict.addReason, hshapes]
  · exact absurd hok (Verdict.fail_failClass _ _ _ _ _)
  · have hshapes : req.inputShapes = cand.inputShapes ∧ req.outputShapes = cand.outputShapes := by
      tauto
    simp [Verdict.terms, hshapes]

end

/-- The class of a hit depends on the facts alone. -/
theorem decideCompatibility_klass {req cand : CompatibilityFacts}
    {policy : GraphCompatibilityPolicy}
    (h : (decideCompatibility req cand policy).compatible = true) :
    (decideCompatibility req cand policy).klass = acceptedClass req cand := by
  unfold decideCompatibility at *
  split_ifs at * with hname hns
  · exact absurd h (by decide)
  · exact absurd h (by decide)
  have hsound := (sound_shapeDomain req cand policy (sound_bindingDomain req cand policy
    (sound_hardDomains req cand policy (v := {}) (by simp [Verdict.Sound]))))
  have hall := (Verdict.conclude_compatible (hsound.failIf _ rfl _ _ _)).mp h
  have hshape := ((Verdict.failIf_failClass _ _ _ _ _ _).mp hall).2
  have hbinding := (shapeDomain_failClass.mp hshape).2
  obtain ⟨hrebinding, hdyn⟩ := Prod.mk.inj (terms_bindingDomain hbinding)
  have hhard : (hardDomains req cand policy {}).terms = Verdict.terms {} := terms_hardDomains
  obtain ⟨hr, hd⟩ := Prod.mk.inj hhard
  rw [Verdict.conclude_klass hall, Verdict.terms_failIf, terms_shapeDomain hshape]
  simp only [hrebinding, hdyn, hr, hd, acceptedClass]
  by_cases hb : SameBinding req cand <;>
    by_cases hs : req.inputShapes = cand.inputShapes ∧ req.outputShapes = cand.outputShapes <;>
    simp [hb, hs]

/-! ## Policies that ask for less -/

/-- `p'` asks for no more than `p` : what `p` allows it allows, and what it requires `p` requires. -/
structure GraphCompatibilityPolicy.Relaxes (p p' : GraphCompatibilityPolicy) : Prop where
  namespaceFilter : p'.namespaceFilter = p.namespaceFilter
  allowRebinding : p.allowRebinding → p'.allowRebinding
  allowDynamicShape : p.allowDynamicShape → p'.allowDynamicShape
  allowRuntimeValidation : p.allowRuntimeValidation → p'.allowRuntimeValidation
  allowModelRevisionLax : p.allowModelRevisionLax → p'.allowModelRevisionLax
  requireExactBackend : p'.requireExactBackend → p.requireExactBackend
  requireExactArchitecture : p'.requireExactArchitecture → p.requireExactArchitecture
  requireExactRuntime : p'.requireExactRuntime → p.requireExactRuntime
  requireExactAbis : p'.requireExactAbis → p.requireExactAbis
  requireExactTopology : p'.requireExactTopology → p.requireExactTopology
  requireExactDependencies : p'.requireExactDependencies → p.requireExactDependencies
  requireExactScalarSpecialization :
    p'.requireExactScalarSpecialization → p.requireExactScalarSpecialization
  requireExactQuantization : p'.requireExactQuantization → p.requireExactQuantization

section

variable {req req' cand : CompatibilityFacts} {policy policy' : GraphCompatibilityPolicy}

theorem Accepts.relax (h : Accepts req cand policy) (hp : policy.Relaxes policy') :
    Accepts req cand policy' :=
  { h with
    namespaceName := fun hns => by
      rw [hp.namespaceFilter] at hns ⊢
      exact h.namespaceName hns
    backendVersion := fun hreq => h.backendVersion (hp.requireExactBackend hreq)
    compute := fun hreq => h.compute (hp.requireExactArchitecture hreq)
    runtimeVersion := fun hreq => h.runtimeVersion (hp.requireExactRuntime hreq)
    graphAbi := fun hreq => h.graphAbi (hp.requireExactAbis hreq)
    kernelAbi := fun hreq => h.kernelAbi (hp.requireExactAbis hreq)
    topologyCanonical := fun hreq => h.topologyCanonical (hp.requireExactTopology hreq)
    dependencies := fun hreq => h.dependencies (hp.requireExactDependencies hreq)
    binding := h.binding.imp_right fun hb => ⟨hp.allowRebinding hb.1, hb.2⟩
    shapes := h.shapes.imp_right fun hs => ⟨hp.allowDynamicShape hs.1, hs.2⟩
    revision := fun hr hc hlax => h.revision hr hc <| Bool.eq_false_iff.mpr fun hallow =>
      absurd (hp.allowModelRevisionLax hallow) (by simp [hlax]) }

/-- A hit is still one, with its class, when the policy is relaxed. -/
theorem decision_relaxed (hp : policy.Relaxes policy')
    (h : (decideCompatibility req cand policy).compatible = true) :
    (decideCompatibility req cand policy').compatible = true ∧
      (decideCompatibility req cand policy').klass = (decideCompatibility req cand policy).klass := by
  have haccepts := (decideCompatibility_compatible req cand policy).mp h
  have h' := (decideCompatibility_compatible req cand policy').mpr (haccepts.relax hp)
  exact ⟨h', (decideCompatibility_klass h').trans (decideCompatibility_klass h).symm⟩

/-- A dynamic shape is still accepted, and still as one, when rebinding is allowed too. -/
theorem decision_relaxed_dynamic :
    let req : CompatibilityFacts := { inputShapes := [{ dims := [4] }] }
    let cand : CompatibilityFacts := { inputShapes := [{ dims := [8], dynamic := true, maxRank := 1 }] }
    let strict : GraphCompatibilityPolicy := { allowRebinding := false }
    (decideCompatibility req cand {}).compatible = true ∧
      (decideCompatibility req cand {}).klass = (decideCompatibility req cand strict).klass :=
  decision_relaxed (by constructor <;> simp) (by decide)

/-! ## Toggles -/

/-- With a toggle off, two requests that differ in its field only are decided alike. -/
structure LaxToggles (req req' cand : CompatibilityFacts) (policy : GraphCompatibilityPolicy) :
    Prop where
  scalar : policy.requireExactScalarSpecialization = false →
    req' = { req with scalar := req'.scalar } →
      (decideCompatibility req cand policy).compatible =
        (decideCompatibility req' cand policy).compatible
  quantization : policy.requireExactQuantization = false →
    req' = { req with quantization := req'.quantization } →
      (decideCompatibility req cand policy).compatible =
        (decideCompatibility req' cand policy).compatible
  topology : policy.requireExactTopology = false →
    req' = { req with topologyCanonical := req'.topologyCanonical } →
      (decideCompatibility req cand policy).compatible =
        (decideCompatibility req' cand policy).compatible
  dependencies : policy.requireExactDependencies = false →
    req' = { req with dependencies := req'.dependencies } →
      (decideCompatibility req cand policy).compatible =
        (decideCompatibility req' cand policy).compatible
  runtime : policy.requireExactRuntime = false →
    req' = { req with
      runtime := { req.runtime with runtimeVersion := req'.runtime.runtimeVersion } } →
      (decideCompatibility req cand policy).compatible =
        (decideCompatibility req' cand policy).compatible
  abis : policy.requireExactAbis = false →
    req' = { req with
      runtime := { req.runtime with
        graphAbi := req'.runtime.graphAbi, kernelAbi := req'.runtime.kernelAbi } } →
      (decideCompatibility req cand policy).compatible =
        (decideCompatibility req' cand policy).compatible

theorem compatible_eq_iff : (decideCompatibility req cand policy).compatible =
    (decideCompatibility req' cand policy).compatible ↔
      (Accepts req cand policy ↔ Accepts req' cand policy) := by
  rw [Bool.eq_iff_iff, decideCompatibility_compatible, decideCompatibility_compatible]

theorem Accepts.of_topology (hoff : policy.requireExactTopology = false)
    (hreq : req' = { req with topologyCanonical := req'.topologyCanonical })
    (h : Accepts req cand policy) : Accepts req' cand policy := by
  rw [hreq]
  exact { h with topologyCanonical := fun hon => absurd hon (by simp [hoff]) }

theorem Accepts.of_dependencies (hoff : policy.requireExactDependencies = false)
    (hreq : req' = { req with dependencies := req'.dependencies })
    (h : Accepts req cand policy) : Accepts req' cand policy := by
  rw [hreq]
  exact { h with dependencies := fun hon => absurd hon (by simp [hoff]) }

theorem Accepts.of_runtime (hoff : policy.requireExactRuntime = false)
    (hreq : req' = { req with
      runtime := { req.runtime with runtimeVersion := req'.runtime.runtimeVersion } })
    (h : Accepts req cand policy) : Accepts req' cand policy := by
  rw [hreq]
  exact { h with runtimeVersion := fun hon => absurd hon (by simp [hoff]) }

theorem Accepts.of_abis (hoff : policy.requireExactAbis = false)
    (hreq : req' = { req with
      runtime := { req.runtime with
        graphAbi := req'.runtime.graphAbi, kernelAbi := req'.runtime.kernelAbi } })
    (h : Accepts req cand policy) : Accepts req' cand policy := by
  rw [hreq]
  exact { h with
    graphAbi := fun hon => absurd hon (by simp [hoff])
    kernelAbi := fun hon => absurd hon (by simp [hoff]) }

/-- The scalars as the comparison takes them : the values count where there is a specialization. -/
def ScalarFits (s c : ScalarSpecialization) : Prop :=
  s.specialized = c.specialized ∧
    (s.specialized → s.intValue = c.intValue ∧ s.floatValue.eq c.floatValue)

/-- The scalar and every other domain. -/
theorem accepts_scalar : Accepts req cand policy ↔
    ScalarFits req.scalar cand.scalar ∧
      Accepts { req with scalar := {} } { cand with scalar := {} } policy := by
  constructor
  · intro h
    exact ⟨⟨h.specialized, h.scalar⟩,
      { h with specialized := rfl, scalar := fun hs => absurd hs (by simp) }⟩
  · rintro ⟨⟨hspecialized, hscalar⟩, h⟩
    exact { h with specialized := hspecialized, scalar := hscalar }

/-- The quantization and every other domain. -/
theorem accepts_quantization : Accepts req cand policy ↔
    req.quantization = cand.quantization ∧
      Accepts { req with quantization := {} } { cand with quantization := {} } policy := by
  constructor
  · intro h
    exact ⟨h.quantization, { h with quantization := rfl }⟩
  · rintro ⟨hquantization, h⟩
    exact { h with quantization := hquantization }

/-- Four toggles do what they say; the other two do where the field of neither request decides. -/
theorem lax_toggles_iff (req req' cand : CompatibilityFacts) (policy : GraphCompatibilityPolicy) :
    LaxToggles req req' cand policy ↔
      (policy.requireExactScalarSpecialization = false →
        req' = { req with scalar := req'.scalar } →
        Accepts { req with scalar := {} } { cand with scalar := {} } policy →
          (ScalarFits req.scalar cand.scalar ↔ ScalarFits req'.scalar cand.scalar)) ∧
      (policy.requireExactQuantization = false →
        req' = { req with quantization := req'.quantization } →
        Accepts { req with quantization := {} } { cand with quantization := {} } policy →
          (req.quantization = cand.quantization ↔ req'.quantization = cand.quantization)) := by
  have hscalar (hreq : req' = { req with scalar := req'.scalar }) :
      { req' with scalar := {} } = { req with scalar := {} } := by rw [hreq]
  have hquantization (hreq : req' = { req with quantization := req'.quantization }) :
      { req' with quantization := {} } = { req with quantization := {} } := by rw [hreq]
  constructor
  · intro h
    constructor
    · intro hoff hreq hrest
      have halike := compatible_eq_iff.mp (h.scalar hoff hreq)
      rw [accepts_scalar, @accepts_scalar req', hscalar hreq] at halike
      simpa [hrest] using halike
    · intro hoff hreq hrest
      have halike := compatible_eq_iff.mp (h.quantization hoff hreq)
      rw [accepts_quantization, @accepts_quantization req', hquantization hreq] at halike
      simpa [hrest] using halike
  · rintro ⟨hs, hq⟩
    constructor
    case scalar =>
      intro hoff hreq
      rw [compatible_eq_iff, accepts_scalar, @accepts_scalar req', hscalar hreq]
      exact and_congr_left (hs hoff hreq)
    case quantization =>
      intro hoff hreq
      rw [compatible_eq_iff, accepts_quantization, @accepts_quantization req',
        hquantization hreq]
      exact and_congr_left (hq hoff hreq)
    case topology =>
      intro hoff hreq
      exact compatible_eq_iff.mpr ⟨.of_topology hoff hreq, .of_topology hoff (by rw [hreq])⟩
    case dependencies =>
      intro hoff hreq
      exact compatible_eq_iff.mpr ⟨.of_dependencies hoff hreq, .of_dependencies hoff (by rw [hreq])⟩
    case runtime =>
      intro hoff hreq
      exact compatible_eq_iff.mpr ⟨.of_runtime hoff hreq, .of_runtime hoff (by rw [hreq])⟩
    case abis =>
      intro hoff hreq
      exact compatible_eq_iff.mpr ⟨.of_abis hoff hreq, .of_abis hoff (by rw [hreq])⟩

end

/-- With its toggle off, a scalar still decides, and so does a quantization. -/
theorem toggles_inert :
    ¬LaxToggles {} { scalar := { specialized := true, intValue := 7 } } {}
        { requireExactScalarSpecialization := false } ∧
      ¬LaxToggles {} { quantization := { mode := ⟨1⟩, groupSize := 64 } } {}
        { requireExactQuantization := false } :=
  ⟨fun h => absurd (h.scalar rfl rfl) (by decide),
    fun h => absurd (h.quantization rfl rfl) (by decide)⟩

end GraphCache
