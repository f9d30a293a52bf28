import GraphCache.Topology

/-!
# Compatibility

`compatibility.cpp` : the facts that a decision depends on, their canonical key, and the
field-by-field comparison of a request with a candidate.

`decide_compatibility` runs through all domains and collects reasons; the first hard failure fixes
the class. Here the running decision is a `Verdict`. `decideCompatibility_compatible` : a decision
is compatible exactly when every domain accepts. `decideCompatibility_compared` : the decision sees
a candidate only through the fields it compares.
-/

namespace GraphCache

structure CompatibilityFacts where
  workload : WorkloadIdentity := {}
  backend : BackendIdentity := {}
  runtime : RuntimeDescriptor := {}
  device : DeviceDescriptor := {}
  captureMode : CaptureMode := .none
  streamSemantics : StreamSemantics := .default
  topologyCanonical : Bytes := []
  inputShapes : List ShapeDescriptor := []
  outputShapes : List ShapeDescriptor := []
  datatypes : List Datatype := []
  layouts : List TensorLayout := []
  scalar : ScalarSpecialization := {}
  quantization : QuantizationConfig := {}
  binding : BindingDescriptor := {}
  requiredAlignment : UInt64 := 128
  memoryBindingSchema : Str := []
  dependencies : List KernelIdentityRef := []
  modelOperatorRevision : Str := []
  policyGeneration : Str := []
  deriving DecidableEq, Repr

/-! ## The key -/

def encodeShape (s : ShapeDescriptor) : Bytes :=
  CanonicalWriter.take <| tagged [1, 2, 3] <|
    slotsIf (s.dims ≠ []) [encU64List (s.dims.map Int64.toUInt64)] ++
    slotsIf True [encBool s.dynamic] ++
    slotsIf (s.maxRank ≠ 0) [encU32 s.maxRank]

def encodeFacts (f : CompatibilityFacts) : CanonicalWriter :=
  [putStr 1 f.workload.logicalName, putU32 2 f.workload.logicalVersion,
    putStr 3 f.workload.namespaceName, putU32 4 f.workload.revisionMode.raw,
    putStr 5 f.workload.modelOperatorRevision, putStr 6 f.workload.policyGeneration,
    putU32 10 f.backend.kind.raw, putStr 11 f.backend.backendName,
    putU32 12 f.backend.backendVersion, putStr 13 f.backend.implementationName,
    putU32 20 f.runtime.runtimeVersion, putU32 21 f.runtime.graphAbi,
    putU32 22 f.runtime.kernelAbi, putU32 23 f.runtime.driverVersion,
    putU32 30 f.device.vendor.raw, putStr 31 f.device.architecture,
    putU32 32 f.device.computeMajor, putU32 33 f.device.computeMinor,
    putU32 34 f.device.deviceIndex, putStr 35 f.device.name,
    putU32 40 f.captureMode.raw, putU32 41 f.streamSemantics.raw,
    putBytes 50 f.topologyCanonical,
    putU32 60 (UInt32.ofNat f.inputShapes.length)] ++
  (f.inputShapes.map fun s => putBytes 61 (encodeShape s)) ++
  [putU32 62 (UInt32.ofNat f.outputShapes.length)] ++
  (f.outputShapes.map fun s => putBytes 63 (encodeShape s)) ++
  [putU32 64 (UInt32.ofNat f.datatypes.length)] ++
  (f.datatypes.map fun d => putU32 65 d.raw) ++
  [putU32 66 (UInt32.ofNat f.layouts.length)] ++
  (f.layouts.map fun l => putU32 67 l.raw) ++
  [putBool 70 f.scalar.specialized] ++
  (if f.scalar.specialized then [putI64 71 f.scalar.intValue, ⟨72, encF64 f.scalar.floatValue⟩]
    else []) ++
  [putU32 73 f.quantization.mode.raw] ++
  (if f.quantization.mode ≠ .none then
    [putU32 74 f.quantization.groupSize, putBool 75 f.quantization.symmetric,
      putStr 76 f.quantization.customScheme] else []) ++
  [putU32 77 f.binding.bindingClass.raw, putU32 78 f.binding.alignment,
    putStr 79 f.binding.memoryBindingSchema, putBool 80 f.binding.rebindingEligible,
    putU64 81 f.requiredAlignment, putStr 82 f.memoryBindingSchema,
    putU32 90 (UInt32.ofNat f.dependencies.length)] ++
  (f.dependencies.map fun d => putBytes 91 (encodeDep d).take) ++
  [putStr 95 f.modelOperatorRevision, putStr 96 f.policyGeneration]

def factsToCanonical (f : CompatibilityFacts) : Bytes :=
  (encodeFacts f).take

/-- A compatibility key. -/
structure GraphCompatibilityKey where
  facts : CompatibilityFacts
  canonical : Bytes
  digest : Digest
  deriving DecidableEq, Repr

namespace GraphCompatibilityKey

/-- `build`, which always succeeds. -/
def build (f : CompatibilityFacts) : GraphCompatibilityKey :=
  ⟨f, factsToCanonical f, Sha256.compute (factsToCanonical f)⟩

def digestHex (k : GraphCompatibilityKey) : Str :=
  Sha256.hex k.digest

end GraphCompatibilityKey

/-! ## The decision -/

inductive GraphCompatibilityClass
  | exactCompatible
  | compatibleWithRebinding
  | compatibleWithDynamicShapeConstraint
  | compatibleWithRuntimeValidation
  | incompatibleBackend
  | incompatibleArchitecture
  | incompatibleRuntime
  | incompatibleDriverGeneration
  | incompatibleGraphABI
  | incompatibleKernelABI
  | incompatibleTopology
  | incompatibleDependency
  | incompatibleDatatype
  | incompatibleLayout
  | incompatibleShape
  | incompatibleAlignment
  | incompatibleCaptureMode
  | incompatibleStreamSemantics
  | incompatibleMemoryBinding
  | incompatibleSpecialization
  | incompatibleQuantization
  | incompatibleModelRevision
  | incompatibleWorkload
  | policyRejected
  | notACandidate
  deriving DecidableEq, Repr

inductive CompatibilityReasonCode
  | exactMatch
  | rebindingRequiredLegal
  | dynamicShapeAccepted
  | backendMismatch
  | architectureMismatch
  | runtimeMismatch
  | driverGenerationMismatch
  | graphABIMismatch
  | kernelABIMismatch
  | topologyMismatch
  | dependencyMismatch
  | datatypeMismatch
  | layoutMismatch
  | shapeMismatch
  | alignmentMismatch
  | captureModeMismatch
  | streamSemanticsMismatch
  | memoryBindingMismatch
  | specializationMismatch
  | quantizationMismatch
  | modelRevisionMismatch
  | workloadIdentityMismatch
  | policyRejectedReason
  deriving DecidableEq, Repr

structure CompatibilityReason where
  code : CompatibilityReasonCode
  field : Str
  detail : Str
  deriving DecidableEq, Repr

structure GraphCompatibilityDecision where
  klass : GraphCompatibilityClass := .notACandidate
  reasons : List CompatibilityReason := []
  deriving DecidableEq, Repr

namespace GraphCompatibilityDecision

def compatible (d : GraphCompatibilityDecision) : Bool :=
  d.klass = .exactCompatible ∨ d.klass = .compatibleWithRebinding ∨
    d.klass = .compatibleWithDynamicShapeConstraint ∨
    d.klass = .compatibleWithRuntimeValidation

def needsRebinding (d : GraphCompatibilityDecision) : Bool :=
  d.klass = .compatibleWithRebinding

end GraphCompatibilityDecision

structure GraphCompatibilityPolicy where
  allowRebinding : Bool := true
  allowDynamicShape : Bool := true
  allowRuntimeValidation : Bool := true
  requireExactBackend : Bool := true
  requireExactArchitecture : Bool := true
  requireExactRuntime : Bool := true
  requireExactAbis : Bool := true
  requireExactTopology : Bool := true
  requireExactDependencies : Bool := true
  requireExactScalarSpecialization : Bool := true
  requireExactQuantization : Bool := true
  allowModelRevisionLax : Bool := false
  namespaceFilter : Str := []
  deriving DecidableEq, Repr

/-- The running decision : the class of the first failure, what was accepted on terms, and the
reasons so far. -/
structure Verdict where
  failClass : Option GraphCompatibilityClass := none
  usedRebinding : Bool := false
  usedDynamic : Bool := false
  reasons : List CompatibilityReason := []
  deriving DecidableEq, Repr

namespace Verdict

def addReason (v : Verdict) (code : CompatibilityReasonCode) (field detail : Str) : Verdict :=
  { v with reasons := v.reasons ++ [⟨code, field, detail⟩] }

/-- The lambda `fail` : the first failure fixes the class. -/
def fail (v : Verdict) (klass : GraphCompatibilityClass) (code : CompatibilityReasonCode)
    (field detail : Str) : Verdict :=
  { v.addReason code field detail with failClass := v.failClass.or (some klass) }

def failIf (c : Prop) [Decidable c] (klass : GraphCompatibilityClass)
    (code : CompatibilityReasonCode) (field detail : String) (v : Verdict) : Verdict :=
  if c then v.fail klass code (str field) (str detail) else v

end Verdict

/-- `std::to_string`. -/
def decimal (n : UInt64) : Str :=
  (Nat.toDigits 10 n.toNat).map fun c => UInt8.ofNat c.toNat

/-- `dep.name + "|" + std::to_string(dep.generation.value) + "|" + dep.content_digest`. -/
def dependencyKey (d : KernelIdentityRef) : Str :=
  d.name ++ str "|" ++ decimal d.generation ++ str "|" ++ d.contentDigest

/-- The first correctness-contributing dependency of the candidate that the request lacks. -/
def missingDependency (req cand : List KernelIdentityRef) : Option KernelIdentityRef :=
  let reqCorrect := (req.filter (·.contributesToCorrectness)).map dependencyKey
  cand.find? fun d => d.contributesToCorrectness && decide (dependencyKey d ∉ reqCorrect)

def dependencyDomain (req cand : CompatibilityFacts) (policy : GraphCompatibilityPolicy)
    (v : Verdict) : Verdict :=
  if policy.requireExactDependencies then
    match missingDependency req.dependencies cand.dependencies with
    | some d => v.fail .incompatibleDependency .dependencyMismatch (str "dependency:" ++ d.name)
        (str "correctness-contributing dependency differs")
    | none => v
  else v

/-- The hard equality domains, in the order of the source. -/
def hardDomains (req cand : CompatibilityFacts) (policy : GraphCompatibilityPolicy)
    (v : Verdict) : Verdict :=
  v |> Verdict.failIf (req.backend.kind ≠ cand.backend.kind ∨
        req.backend.backendName ≠ cand.backend.backendName ∨
        (policy.requireExactBackend ∧ req.backend.backendVersion ≠ cand.backend.backendVersion))
      .incompatibleBackend .backendMismatch "backend" "backend identity differs"
    |> Verdict.failIf (req.device.vendor ≠ cand.device.vendor)
      .incompatibleArchitecture .architectureMismatch "device.vendor" "accelerator vendor differs"
    |> Verdict.failIf (req.device.architecture ≠ cand.device.architecture ∨
        (policy.requireExactArchitecture ∧
          (req.device.computeMajor ≠ cand.device.computeMajor ∨
            req.device.computeMinor ≠ cand.device.computeMinor)))
      .incompatibleArchitecture .architectureMismatch "device.architecture"
      "architecture / compute capability differs"
    |> Verdict.failIf (policy.requireExactRuntime ∧
        req.runtime.runtimeVersion ≠ cand.runtime.runtimeVersion)
      .incompatibleRuntime .runtimeMismatch "runtime.runtime_version" "runtime version differs"
    |> Verdict.failIf (req.runtime.driverVersion ≠ cand.runtime.driverVersion)
      .incompatibleDriverGeneration .driverGenerationMismatch "runtime.driver_version"
      "driver generation differs"
    |> Verdict.failIf (policy.requireExactAbis ∧ req.runtime.graphAbi ≠ cand.runtime.graphAbi)
      .incompatibleGraphABI .graphABIMismatch "runtime.graph_abi" "graph ABI differs"
    |> Verdict.failIf (policy.requireExactAbis ∧ req.runtime.kernelAbi ≠ cand.runtime.kernelAbi)
      .incompatibleKernelABI .kernelABIMismatch "runtime.kernel_abi" "kernel ABI differs"
    |> Verdict.failIf (req.captureMode ≠ cand.captureMode)
      .incompatibleCaptureMode .captureModeMismatch "sync.capture_mode" "capture mode differs"
    |> Verdict.failIf (req.streamSemantics ≠ cand.streamSemantics)
      .incompatibleStreamSemantics .streamSemanticsMismatch "sync.stream_semantics"
      "stream semantics differ"
    |> Verdict.failIf (policy.requireExactTopology ∧
        req.topologyCanonical ≠ cand.topologyCanonical)
      .incompatibleTopology .topologyMismatch "topology" "graph topology identity differs"
    |> dependencyDomain req cand policy
    |> Verdict.failIf (req.datatypes ≠ cand.datatypes)
      .incompatibleDatatype .datatypeMismatch "datatype" "datatype specialization differs"
    |> Verdict.failIf (req.layouts ≠ cand.layouts)
      .incompatibleLayout .layoutMismatch "layout" "tensor layout differs"
    |> Verdict.failIf (req.scalar.specialized ≠ cand.scalar.specialized ∨
        (req.scalar.specialized ∧ (req.scalar.intValue ≠ cand.scalar.intValue ∨
          req.scalar.floatValue.eq cand.scalar.floatValue = false)))
      .incompatibleSpecialization .specializationMismatch "scalar_specialization"
      "scalar specialization differs"
    |> Verdict.failIf (req.quantization ≠ cand.quantization)
      .incompatibleQuantization .quantizationMismatch "quantization"
      "quantization configuration differs"

/-- Alignment and binding, which a legal rebinding may bridge. -/
def bindingDomain (req cand : CompatibilityFacts) (policy : GraphCompatibilityPolicy)
    (v : Verdict) : Verdict :=
  if req.requiredAlignment ≠ cand.requiredAlignment ∨
      req.binding.memoryBindingSchema ≠ cand.binding.memoryBindingSchema ∨
      req.binding.bindingClass ≠ cand.binding.bindingClass ∨
      req.binding.alignment ≠ cand.binding.alignment then
    if policy.allowRebinding ∧ cand.binding.rebindingEligible ∧
        cand.binding.bindingClass ≠ .recaptureRequiredBinding ∧
        cand.binding.bindingClass ≠ .immutableBinding then
      { v.addReason .rebindingRequiredLegal (str "binding")
          (str "binding differs but is legally reboundable") with usedRebinding := true }
    else if req.requiredAlignment ≠ cand.requiredAlignment then
      v.fail .incompatibleAlignment .alignmentMismatch (str "alignment")
        (str "required alignment differs and is not reboundable")
    else
      v.fail .incompatibleMemoryBinding .memoryBindingMismatch (str "binding")
        (str "memory binding differs and is not legally reboundable")
  else v

/-- A request shape against the candidate's : equal dims, or within a dynamic constraint. -/
def shapeFits (r c : ShapeDescriptor) : Bool :=
  decide (r.dims = c.dims) || (c.dynamic && decide (c.maxRank.toNat ≥ r.dims.length))

/-- Shapes, where a dynamic constraint of the candidate may accept a difference. -/
def shapeDomain (req cand : CompatibilityFacts) (policy : GraphCompatibilityPolicy)
    (v : Verdict) : Verdict :=
  if req.inputShapes ≠ cand.inputShapes ∨ req.outputShapes ≠ cand.outputShapes then
    if policy.allowDynamicShape ∧ cand.inputShapes.length = req.inputShapes.length ∧
        (req.inputShapes.zip cand.inputShapes).all (fun rc => shapeFits rc.1 rc.2) ∧
        req.inputShapes ≠ [] then
      { v.addReason .dynamicShapeAccepted (str "shape")
          (str "shape differs but satisfies the candidate dynamic-shape constraint") with
        usedDynamic := true }
    else v.fail .incompatibleShape .shapeMismatch (str "shape") (str "shape specialization differs")
  else v

/-- The class and the last reason, once every domain has been seen. -/
def Verdict.conclude (v : Verdict) : GraphCompatibilityDecision :=
  match v.failClass with
  | some c => ⟨c, v.reasons⟩
  | none =>
    if v.usedRebinding then
      ⟨.compatibleWithRebinding, v.reasons ++ if v.usedDynamic then
        [⟨.dynamicShapeAccepted, str "shape", str "dynamic shape accepted for replay"⟩] else []⟩
    else if v.usedDynamic then ⟨.compatibleWithDynamicShapeConstraint, v.reasons⟩
    else ⟨.exactCompatible,
      v.reasons ++ [⟨.exactMatch, str "*", str "every compatibility field matches exactly"⟩]⟩

def decideCompatibility (req cand : CompatibilityFacts) (policy : GraphCompatibilityPolicy) :
    GraphCompatibilityDecision :=
  if req.workload.logicalName ≠ cand.workload.logicalName then
    ⟨.incompatibleWorkload, [⟨.workloadIdentityMismatch, str "workload.logical_name",
      str "logical workload identity differs"⟩]⟩
  else if policy.namespaceFilter ≠ [] ∧ req.workload.namespaceName ≠ policy.namespaceFilter then
    ⟨.policyRejected, [⟨.policyRejectedReason, str "namespace",
      str "request namespace does not match the policy filter"⟩]⟩
  else
    Verdict.conclude <|
      ({} : Verdict) |> hardDomains req cand policy |> bindingDomain req cand policy
        |> shapeDomain req cand policy
        |> Verdict.failIf (req.modelOperatorRevision ≠ [] ∧ cand.modelOperatorRevision ≠ [] ∧
            req.modelOperatorRevision ≠ cand.modelOperatorRevision ∧
            policy.allowModelRevisionLax = false)
          .incompatibleModelRevision .modelRevisionMismatch "model_revision"
          "model/operator revision differs"

/-! ## What a decision depends on -/

theorem Double.eq_self (x : Double) : x.eq x = !x.isNaN := by
  simp [Double.eq]

/-- Dependencies miss nothing of themselves. -/
theorem missingDependency_self (deps : List KernelIdentityRef) :
    missingDependency deps deps = none := by
  simp only [missingDependency, List.find?_eq_none, Bool.and_eq_true, decide_eq_true_eq, not_and,
    not_not]
  intro d hd hc
  exact List.mem_map_of_mem (List.mem_filter.mpr ⟨hd, hc⟩)

/-- The classes that are failures. -/
def GraphCompatibilityClass.hard (c : GraphCompatibilityClass) : Bool :=
  !(GraphCompatibilityDecision.mk c []).compatible

namespace Verdict

/-- The class of a failure is one of the hard ones. -/
def Sound (v : Verdict) : Prop := ∀ c ∈ v.failClass, c.hard = true

theorem Sound.fail {v : Verdict} (h : v.Sound) {klass : GraphCompatibilityClass}
    (hk : klass.hard = true) (code : CompatibilityReasonCode) (field detail : Str) :
    (v.fail klass code field detail).Sound := by
  intro c hc
  cases hv : v.failClass with
  | none =>
    obtain rfl : klass = c := by simpa [Verdict.fail, hv] using hc
    exact hk
  | some c' =>
    obtain rfl : c' = c := by simpa [Verdict.fail, hv] using hc
    exact h c' hv

theorem Sound.failIf {v : Verdict} (h : v.Sound) (p : Prop) [Decidable p]
    {klass : GraphCompatibilityClass} (hk : klass.hard = true) (code : CompatibilityReasonCode)
    (field detail : String) : (v.failIf p klass code field detail).Sound := by
  unfold Verdict.failIf
  split_ifs
  · exact h.fail hk _ _ _
  · exact h

@[simp] theorem fail_failClass (v : Verdict) (klass : GraphCompatibilityClass)
    (code : CompatibilityReasonCode) (field detail : Str) :
    (v.fail klass code field detail).failClass ≠ none := by
  simp [Verdict.fail]

@[simp] theorem failIf_failClass (v : Verdict) (p : Prop) [Decidable p]
    (klass : GraphCompatibilityClass) (code : CompatibilityReasonCode) (field detail : String) :
    (v.failIf p klass code field detail).failClass = none ↔ ¬p ∧ v.failClass = none := by
  unfold Verdict.failIf
  split_ifs with hp <;> simp [hp]

theorem conclude_compatible {v : Verdict} (h : v.Sound) :
    v.conclude.compatible = true ↔ v.failClass = none := by
  unfold conclude
  cases hf : v.failClass with
  | none =>
    cases v.usedRebinding <;> cases v.usedDynamic <;>
      simp [GraphCompatibilityDecision.compatible]
  | some c =>
    have hhard := h c hf
    have : (GraphCompatibilityDecision.mk c v.reasons).compatible =
      (GraphCompatibilityDecision.mk c []).compatible := rfl
    simpa [this, GraphCompatibilityClass.hard] using hhard

end Verdict

theorem sound_dependencyDomain {req cand : CompatibilityFacts} {policy : GraphCompatibilityPolicy}
    {v : Verdict} (h : v.Sound) : (dependencyDomain req cand policy v).Sound := by
  unfold dependencyDomain
  split_ifs
  · split
    · exact h.fail (by decide) _ _ _
    · exact h
  · exact h

theorem sound_hardDomains (req cand : CompatibilityFacts) (policy : GraphCompatibilityPolicy)
    {v : Verdict} (h : v.Sound) : (hardDomains req cand policy v).Sound := by
  unfold hardDomains
  iterate 4 refine Verdict.Sound.failIf ?_ _ rfl _ _ _
  refine sound_dependencyDomain ?_
  iterate 10 refine Verdict.Sound.failIf ?_ _ rfl _ _ _
  exact h

theorem sound_bindingDomain (req cand : CompatibilityFacts) (policy : GraphCompatibilityPolicy)
    {v : Verdict} (h : v.Sound) : (bindingDomain req cand policy v).Sound := by
  unfold bindingDomain
  split_ifs
  · exact h
  · exact h.fail rfl _ _ _
  · exact h.fail rfl _ _ _
  · exact h

theorem sound_shapeDomain (req cand : CompatibilityFacts) (policy : GraphCompatibilityPolicy)
    {v : Verdict} (h : v.Sound) : (shapeDomain req cand policy v).Sound := by
  unfold shapeDomain
  split_ifs
  · exact h
  · exact h.fail rfl _ _ _
  · exact h

/-- The same alignment and binding. -/
def SameBinding (req cand : CompatibilityFacts) : Prop :=
  req.requiredAlignment = cand.requiredAlignment ∧
    req.binding.memoryBindingSchema = cand.binding.memoryBindingSchema ∧
    req.binding.bindingClass = cand.binding.bindingClass ∧
    req.binding.alignment = cand.binding.alignment

/-- A binding that may be replaced. -/
def BindingDescriptor.Rebindable (b : BindingDescriptor) : Prop :=
  b.rebindingEligible ∧ b.bindingClass ≠ .recaptureRequiredBinding ∧
    b.bindingClass ≠ .immutableBinding

/-- Shapes that a dynamic constraint of the candidates accepts. -/
def DynamicShapes (req cand : List ShapeDescriptor) : Prop :=
  cand.length = req.length ∧ (req.zip cand).all (fun rc => shapeFits rc.1 rc.2) ∧ req ≠ []

theorem dependencyDomain_failClass {req cand : CompatibilityFacts}
    {policy : GraphCompatibilityPolicy} {v : Verdict} :
    (dependencyDomain req cand policy v).failClass = none ↔
      (policy.requireExactDependencies →
        missingDependency req.dependencies cand.dependencies = none) ∧ v.failClass = none := by
  unfold dependencyDomain
  split_ifs with hp
  · cases missingDependency req.dependencies cand.dependencies <;> simp [hp]
  · simp [hp]

theorem bindingDomain_failClass {req cand : CompatibilityFacts} {policy : GraphCompatibilityPolicy}
    {v : Verdict} : (bindingDomain req cand policy v).failClass = none ↔
      (SameBinding req cand ∨ policy.allowRebinding ∧ cand.binding.Rebindable) ∧
        v.failClass = none := by
  unfold bindingDomain SameBinding BindingDescriptor.Rebindable
  split_ifs with hdiff hallow halign
  · simp [Verdict.addReason, hallow]
  · simp only [Verdict.fail_failClass, false_iff]
    tauto
  · simp only [Verdict.fail_failClass, false_iff]
    tauto
  · tauto

theorem shapeDomain_failClass {req cand : CompatibilityFacts} {policy : GraphCompatibilityPolicy}
    {v : Verdict} : (shapeDomain req cand policy v).failClass = none ↔
      (req.inputShapes = cand.inputShapes ∧ req.outputShapes = cand.outputShapes ∨
        policy.allowDynamicShape ∧ DynamicShapes req.inputShapes cand.inputShapes) ∧
        v.failClass = none := by
  unfold shapeDomain DynamicShapes
  split_ifs with hdiff hallow
  · simp only [Verdict.addReason]
    tauto
  · simp only [Verdict.fail_failClass, false_iff]
    tauto
  · tauto

/-- What a policy asks of a request and a candidate, domain by domain. -/
structure Accepts (req cand : CompatibilityFacts) (policy : GraphCompatibilityPolicy) : Prop where
  logicalName : req.workload.logicalName = cand.workload.logicalName
  namespaceName : policy.namespaceFilter ≠ [] →
    req.workload.namespaceName = policy.namespaceFilter
  backendKind : req.backend.kind = cand.backend.kind
  backendName : req.backend.backendName = cand.backend.backendName
  backendVersion : policy.requireExactBackend →
    req.backend.backendVersion = cand.backend.backendVersion
  vendor : req.device.vendor = cand.device.vendor
  architecture : req.device.architecture = cand.device.architecture
  compute : policy.requireExactArchitecture →
    req.device.computeMajor = cand.device.computeMajor ∧
      req.device.computeMinor = cand.device.computeMinor
  runtimeVersion : policy.requireExactRuntime →
    req.runtime.runtimeVersion = cand.runtime.runtimeVersion
  driverVersion : req.runtime.driverVersion = cand.runtime.driverVersion
  graphAbi : policy.requireExactAbis → req.runtime.graphAbi = cand.runtime.graphAbi
  kernelAbi : policy.requireExactAbis → req.runtime.kernelAbi = cand.runtime.kernelAbi
  captureMode : req.captureMode = cand.captureMode
  streamSemantics : req.streamSemantics = cand.streamSemantics
  topologyCanonical : policy.requireExactTopology →
    req.topologyCanonical = cand.topologyCanonical
  dependencies : policy.requireExactDependencies →
    missingDependency req.dependencies cand.dependencies = none
  datatypes : req.datatypes = cand.datatypes
  layouts : req.layouts = cand.layouts
  specialized : req.scalar.specialized = cand.scalar.specialized
  scalar : req.scalar.specialized → req.scalar.intValue = cand.scalar.intValue ∧
    req.scalar.floatValue.eq cand.scalar.floatValue
  quantization : req.quantization = cand.quantization
  binding : SameBinding req cand ∨ policy.allowRebinding ∧ cand.binding.Rebindable
  shapes : req.inputShapes = cand.inputShapes ∧ req.outputShapes = cand.outputShapes ∨
    policy.allowDynamicShape ∧ DynamicShapes req.inputShapes cand.inputShapes
  revision : req.modelOperatorRevision ≠ [] → cand.modelOperatorRevision ≠ [] →
    policy.allowModelRevisionLax = false →
      req.modelOperatorRevision = cand.modelOperatorRevision

/-- A decision is compatible exactly when every domain accepts. -/
theorem decideCompatibility_compatible (req cand : CompatibilityFacts)
    (policy : GraphCompatibilityPolicy) :
    (decideCompatibility req cand policy).compatible = true ↔ Accepts req cand policy := by
  unfold decideCompatibility
  split_ifs with hname hns
  · exact ⟨fun h => absurd h (by decide), fun h => absurd h.logicalName hname⟩
  · exact ⟨fun h => absurd h (by decide), fun h => absurd (h.namespaceName hns.1) hns.2⟩
  have hsound := (sound_shapeDomain req cand policy (sound_bindingDomain req cand policy
    (sound_hardDomains req cand policy (v := {}) (by simp [Verdict.Sound]))))
  rw [Verdict.conclude_compatible (hsound.failIf _ rfl _ _ _)]
  simp only [Verdict.failIf_failClass, shapeDomain_failClass, bindingDomain_failClass, hardDomains,
    dependencyDomain_failClass]
  constructor
  · rintro ⟨hrev, hshape, hbind, hq, hsc, hlay, hdt, hdep, htop, hss, hcm, hka, hga, hdr, hrt,
      harch, hven, hback, -⟩
    constructor <;> grind
  · intro h
    obtain ⟨⟩ := h
    refine ⟨?_, ?_, ?_, ?_, ?_, ?_, ?_, ?_, ?_, ?_, ?_, ?_, ?_, ?_, ?_, ?_, ?_, ?_, trivial⟩ <;> grind

/-- An exact decision under a policy that requires it means the same topology bytes. -/
theorem topology_of_exact {req cand : CompatibilityFacts} (policy : GraphCompatibilityPolicy)
    (hp : policy.requireExactTopology = true)
    (h : (decideCompatibility req cand policy).klass = .exactCompatible) :
    req.topologyCanonical = cand.topologyCanonical := by
  have haccepts := (decideCompatibility_compatible req cand policy).mp
    (by simp [GraphCompatibilityDecision.compatible, h])
  exact haccepts.topologyCanonical hp

/-- The facts of a candidate as the comparisons see them, with all the rest reset. -/
def CompatibilityFacts.compared (f : CompatibilityFacts) : CompatibilityFacts :=
  { f with
    workload := { logicalName := f.workload.logicalName }
    backend := { f.backend with implementationName := [] }
    runtime := { f.runtime with driverVersionString := [] }
    device := { f.device with deviceIndex := 0, name := [] }
    memoryBindingSchema := []
    dependencies := f.dependencies.map (·.normalize)
    policyGeneration := [] }

theorem missingDependency_compared (req cand : List KernelIdentityRef) :
    missingDependency req (cand.map (·.normalize)) =
      (missingDependency req cand).map (·.normalize) := by
  simp only [missingDependency, List.find?_map]
  rfl

/-- The decision sees a candidate only through the fields it compares. -/
theorem decideCompatibility_compared (req cand : CompatibilityFacts)
    (policy : GraphCompatibilityPolicy) :
    decideCompatibility req cand.compared policy = decideCompatibility req cand policy := by
  have hdep : dependencyDomain req cand.compared policy = dependencyDomain req cand policy := by
    funext v
    simp only [dependencyDomain, CompatibilityFacts.compared, missingDependency_compared]
    cases missingDependency req.dependencies cand.dependencies <;> rfl
  have hhard : hardDomains req cand.compared policy = hardDomains req cand policy := by
    funext v
    simp only [hardDomains, hdep]
    rfl
  simp only [decideCompatibility, hhard]
  rfl

end GraphCache
