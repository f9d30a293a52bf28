import GraphCache.Decisions
import GraphCache.Identity
import GraphCache.KeyCodec

/-!
# Exact decisions and keys

An exact decision says that "every compatibility field matches exactly". `encode_facts` writes some
fields that `decide_compatibility` does not compare, and others that it compares in part.

`exact_sameKey` : facts that match exactly have the same key when they also agree in those
(`SameRest`), and only then.
-/

namespace GraphCache

/-! ## Exact decisions -/

/-- A decision is exact when every domain accepts, the binding and the shapes as they are. -/
theorem decideCompatibility_exact (req cand : CompatibilityFacts)
    (policy : GraphCompatibilityPolicy) :
    (decideCompatibility req cand policy).klass = .exactCompatible ↔
      Accepts req cand policy ∧ SameBinding req cand ∧
        req.inputShapes = cand.inputShapes ∧ req.outputShapes = cand.outputShapes := by
  constructor
  · intro h
    have hcompatible : (decideCompatibility req cand policy).compatible = true := by
      simp [GraphCompatibilityDecision.compatible, h]
    have hclass := (decideCompatibility_klass hcompatible).symm.trans h
    refine ⟨(decideCompatibility_compatible req cand policy).mp hcompatible, ?_⟩
    unfold acceptedClass at hclass
    split_ifs at hclass with hbinding hshapes
    exact ⟨hbinding, hshapes⟩
  · rintro ⟨haccepts, hbinding, hshapes⟩
    rw [decideCompatibility_klass ((decideCompatibility_compatible req cand policy).mpr haccepts),
      acceptedClass, if_pos hbinding, if_pos hshapes]

/-! ## What an exact decision leaves open -/

/-- Agreement in what is written into a key and not compared, or not compared in full. -/
structure CompatibilityFacts.SameRest (f f' : CompatibilityFacts) : Prop where
  workload : f.workload = f'.workload
  implementationName : f.backend.implementationName = f'.backend.implementationName
  deviceIndex : f.device.deviceIndex = f'.device.deviceIndex
  deviceName : f.device.name = f'.device.name
  scalar : f.scalar.specialized = true → f.scalar.floatValue = f'.scalar.floatValue
  rebindingEligible : f.binding.rebindingEligible = f'.binding.rebindingEligible
  memoryBindingSchema : f.memoryBindingSchema = f'.memoryBindingSchema
  dependencies : f.dependencies.map (·.normalize) = f'.dependencies.map (·.normalize)
  modelOperatorRevision : f.modelOperatorRevision = f'.modelOperatorRevision
  policyGeneration : f.policyGeneration = f'.policyGeneration

/-- Facts that agree in what is written are written alike. -/
theorem encodeFacts_congr {f f' : CompatibilityFacts} (h : f.normalize = f'.normalize) :
    factsToCanonical f = factsToCanonical f' := by
  rw [← factsToCanonical_normalize f, h, factsToCanonical_normalize]

theorem normalize_of_exact {req cand : CompatibilityFacts} (h : Accepts req cand {})
    (hbinding : SameBinding req cand) (hin : req.inputShapes = cand.inputShapes)
    (hout : req.outputShapes = cand.outputShapes) (hrest : req.SameRest cand) :
    req.normalize = cand.normalize := by
  have hbackend : req.backend = cand.backend :=
    BackendIdentity.ext h.backendKind h.backendName (h.backendVersion rfl) hrest.implementationName
  have hdevice : req.device = cand.device :=
    DeviceDescriptor.ext h.vendor h.architecture (h.compute rfl).1 (h.compute rfl).2
      hrest.deviceIndex hrest.deviceName
  have hbind : req.binding = cand.binding :=
    BindingDescriptor.ext hbinding.2.2.1 hbinding.2.2.2 hbinding.2.1 hrest.rebindingEligible
  have hscalar : (if req.scalar.specialized then req.scalar else {}) =
      if cand.scalar.specialized then cand.scalar else {} := by
    rw [← h.specialized]
    split_ifs with hs
    · exact ScalarSpecialization.ext h.specialized (h.scalar hs).1 (hrest.scalar hs)
    · rfl
  simp only [CompatibilityFacts.normalize, CompatibilityFacts.mk.injEq, RuntimeDescriptor.mk.injEq,
    and_true]
  exact ⟨hrest.workload, hbackend,
    ⟨h.runtimeVersion rfl, h.graphAbi rfl, h.kernelAbi rfl, h.driverVersion⟩, hdevice,
    h.captureMode, h.streamSemantics, h.topologyCanonical rfl, hin, hout, h.datatypes, h.layouts,
    hscalar, by rw [h.quantization], hbind, hbinding.1, hrest.memoryBindingSchema,
    hrest.dependencies, hrest.modelOperatorRevision, hrest.policyGeneration⟩

theorem dependencies_of_sameKey {f f' : CompatibilityFacts} (hf : f.Encodable) (hf' : f'.Encodable)
    (h : f.SameKey f') : f.dependencies.map (·.normalize) = f'.dependencies.map (·.normalize) := by
  have hshort : ∀ {g : CompatibilityFacts}, g.Encodable →
      ∀ d ∈ g.dependencies, ∀ x ∈ encodeDep d, x.payload.length < 2 ^ 32 :=
    fun hg d hd x hx => (length_le_take hx).trans_lt (hg _ (dep_written hd))
  exact normalize_of_encode (hshort hf) (hshort hf') h.dependencies

/-- Facts that match exactly have the same key when they agree in what the decision leaves open,
and only then. -/
theorem exact_sameKey {req cand : CompatibilityFacts}
    (h : (decideCompatibility req cand {}).klass = .exactCompatible) :
    (req.SameRest cand → factsToCanonical req = factsToCanonical cand ∧
      (GraphCompatibilityKey.build req).eq (.build cand) = true) ∧
    (req.Encodable → cand.Encodable → factsToCanonical req = factsToCanonical cand →
      req.SameRest cand) := by
  obtain ⟨haccepts, hbinding, hin, hout⟩ := (decideCompatibility_exact req cand {}).mp h
  constructor
  · intro hrest
    have hsame := normalize_of_exact haccepts hbinding hin hout hrest
    have hcanonical := encodeFacts_congr hsame
    exact ⟨hcanonical, by simp [GraphCompatibilityKey.eq, GraphCompatibilityKey.build, hcanonical]⟩
  · intro hreq hcand hcanonical
    have hsame := encodeFacts_inj (CanonicalWriter.take_injective hreq hcand hcanonical)
    exact {
      workload := hsame.workload
      implementationName := by rw [hsame.backend]
      deviceIndex := by rw [hsame.device]
      deviceName := by rw [hsame.device]
      scalar := fun hs => by rw [hsame.scalar hs]
      rebindingEligible := by rw [hsame.binding]
      memoryBindingSchema := hsame.memoryBindingSchema
      dependencies := dependencies_of_sameKey hreq hcand hsame
      modelOperatorRevision := hsame.modelOperatorRevision
      policyGeneration := hsame.policyGeneration }

/-- Facts that differ in an unspecialized scalar and in the text of the driver version. -/
def unspecializedFacts : CompatibilityFacts where
  scalar := { intValue := 7 }
  runtime := { driverVersionString := str "535" }

theorem exact_sameKey_unspecialized :
    (GraphCompatibilityKey.build unspecializedFacts).eq (.build {}) = true :=
  ((exact_sameKey (show (decideCompatibility unspecializedFacts {} {}).klass = .exactCompatible by
    decide +kernel)).1
    ⟨rfl, rfl, rfl, rfl, fun h => absurd h Bool.false_ne_true, rfl, rfl, rfl, rfl, rfl⟩).2

/-- A request for version 2 of a workload matches version 1 "exactly". -/
theorem exact_not_sameKey :
    (decideCompatibility { workload := { logicalVersion := 2 } } {} {}).klass = .exactCompatible ∧
      factsToCanonical { workload := { logicalVersion := 2 } } ≠ factsToCanonical {} := by
  decide +kernel

end GraphCache
