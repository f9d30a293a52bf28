import GraphCache.Compatibility
import GraphCache.Protocol

/-!
# What a key says

`encode_facts` writes the facts field by field, the lists as blocks under a tag of their own. So
facts with the same fields agree in everything that is written (`SameKey`, `encodeFacts_inj`), and
`sameKey_of_digestHex` : facts with the same key agree so, where their two canonical strings are no
collision of the hash and no field reaches 4 GiB.
-/

namespace GraphCache

theorem hex_injective : Function.Injective Sha256.hex := by
  intro d d' h
  refine Slots.flatMap_inj_of_length (k := 2) (by norm_num) (fun _ => rfl) (fun b b' hb => ?_) h
  simp only [List.cons.injEq, and_true] at hb
  have hlt := b.toNat_lt
  have hlt' := b'.toNat_lt
  have hhigh := congrArg hexValue hb.1
  have hlow := congrArg hexValue hb.2
  rw [hexValue_digit (by omega), hexValue_digit (by omega), Option.some.injEq] at hhigh hlow
  exact UInt8.toNat_inj.mp (by omega)

/-- Agreement in all that is written into a key. -/
structure CompatibilityFacts.SameKey (f f' : CompatibilityFacts) : Prop where
  workload : f.workload = f'.workload
  backend : f.backend = f'.backend
  runtime : { f.runtime with driverVersionString := [] } =
    { f'.runtime with driverVersionString := [] }
  device : f.device = f'.device
  captureMode : f.captureMode = f'.captureMode
  streamSemantics : f.streamSemantics = f'.streamSemantics
  topologyCanonical : f.topologyCanonical = f'.topologyCanonical
  inputShapes : f.inputShapes.map encodeShape = f'.inputShapes.map encodeShape
  outputShapes : f.outputShapes.map encodeShape = f'.outputShapes.map encodeShape
  datatypes : f.datatypes = f'.datatypes
  layouts : f.layouts = f'.layouts
  specialized : f.scalar.specialized = f'.scalar.specialized
  scalar : f.scalar.specialized = true → f.scalar = f'.scalar
  quantizationMode : f.quantization.mode = f'.quantization.mode
  quantization : f.quantization.mode ≠ .none → f.quantization = f'.quantization
  binding : f.binding = f'.binding
  requiredAlignment : f.requiredAlignment = f'.requiredAlignment
  memoryBindingSchema : f.memoryBindingSchema = f'.memoryBindingSchema
  dependencies : f.dependencies.map (fun d => (encodeDep d).take) =
    f'.dependencies.map (fun d => (encodeDep d).take)
  modelOperatorRevision : f.modelOperatorRevision = f'.modelOperatorRevision
  policyGeneration : f.policyGeneration = f'.policyGeneration

/-- The fields of a list, up to the next field of another tag, tell what was written. -/
theorem listFields_append_inj {α : Type} {t u : UInt16} {payload : α → Bytes} {l l' : List α}
    {p p' : Bytes} {r r' : CanonicalWriter} (hu : u ≠ t)
    (h : (l.map fun a => Field.mk t (payload a)) ++ ⟨u, p⟩ :: r =
      (l'.map fun a => Field.mk t (payload a)) ++ ⟨u, p'⟩ :: r') :
    l.map payload = l'.map payload ∧ p = p' ∧ r = r' := by
  have htag : ∀ l : List α, ∀ y ∈ l.map fun a => Field.mk t (payload a), y.tag = t := by simp
  obtain ⟨hblock, hnext, hrest⟩ := Slots.block_append_inj (htag l) (htag l') hu hu h
  have hpayload := congrArg (List.map Field.payload) hblock
  exact ⟨by simpa [Function.comp_def] using hpayload, (Field.mk.inj hnext).2, hrest⟩

theorem scalarFields_append_inj {s s' : ScalarSpecialization} {r r' : CanonicalWriter}
    (hspec : s.specialized = s'.specialized)
    (h : (if s.specialized = true then
        [Field.mk 71 (encI64 s.intValue), ⟨72, encF64 s.floatValue⟩] else []) ++ r =
      (if s'.specialized = true then
        [Field.mk 71 (encI64 s'.intValue), ⟨72, encF64 s'.floatValue⟩] else []) ++ r') :
    (s.specialized = true → s = s') ∧ r = r' := by
  rw [← hspec] at h
  split_ifs at h with hs
  · simp only [List.cons_append, List.nil_append, List.cons.injEq, Field.mk.injEq, true_and,
      encI64_inj, encF64_inj] at h
    exact ⟨fun _ => ScalarSpecialization.ext hspec h.1 h.2.1, h.2.2⟩
  · exact ⟨fun hs' => absurd hs' hs, h⟩

theorem quantizationFields_append_inj {q q' : QuantizationConfig} {r r' : CanonicalWriter}
    (hmode : q.mode = q'.mode)
    (h : (if q.mode ≠ .none then
        [Field.mk 74 (encU32 q.groupSize), ⟨75, encBool q.symmetric⟩, ⟨76, q.customScheme⟩]
        else []) ++ r =
      (if q'.mode ≠ .none then
        [Field.mk 74 (encU32 q'.groupSize), ⟨75, encBool q'.symmetric⟩, ⟨76, q'.customScheme⟩]
        else []) ++ r') :
    (q.mode ≠ .none → q = q') ∧ r = r' := by
  rw [← hmode] at h
  split_ifs at h with hq
  · simp only [List.cons_append, List.nil_append, List.cons.injEq, Field.mk.injEq, true_and,
      encU32_inj, encBool_inj] at h
    exact ⟨fun _ => QuantizationConfig.ext hmode h.1 h.2.1 h.2.2.1, h.2.2.2⟩
  · exact ⟨fun hq' => absurd hq' hq, h⟩

/-- Facts with the same fields agree in all that is written. -/
theorem encodeFacts_inj {f f' : CompatibilityFacts} (h : encodeFacts f = encodeFacts f') :
    f.SameKey f' := by
  simp only [encodeFacts, List.append_assoc, List.cons_append, List.nil_append, putU32, putStr,
    putBytes, putBool, putU64, putI64, List.cons.injEq, Field.mk.injEq, true_and, encU32_inj] at h
  obtain ⟨hname, hversion, hns, hmode, hrev, hpolicy, hkind, hbackend, hbversion, himpl, hrt, hgabi,
    hkabi, hdriver, hvendor, harch, hmajor, hminor, hindex, hdevice, hcm, hss, htop, -, h⟩ := h
  -- The blocks, each ended by the count of the next one.
  obtain ⟨hin, -, h⟩ := listFields_append_inj (by decide) h
  obtain ⟨hout, -, h⟩ := listFields_append_inj (by decide) h
  obtain ⟨hdt, -, h⟩ := listFields_append_inj (by decide) h
  obtain ⟨hlay, hspec, h⟩ := listFields_append_inj (by decide) h
  obtain ⟨hscalar, h⟩ := scalarFields_append_inj (encBool_inj.mp hspec) h
  simp only [List.cons.injEq, Field.mk.injEq, true_and, encU32_inj] at h
  obtain ⟨hqmode, h⟩ := h
  obtain ⟨hquant, h⟩ := quantizationFields_append_inj (QuantizationMode.ext hqmode) h
  simp only [List.cons.injEq, Field.mk.injEq, true_and, encU32_inj, encBool_inj, encU64_inj] at h
  obtain ⟨hclass, halign, hschema, helig, hreq, hmem, -, h⟩ := h
  obtain ⟨hdeps, hmrev, h⟩ := listFields_append_inj (by decide) h
  exact {
    workload :=
      WorkloadIdentity.ext hname hversion hns (WorkloadRevisionMode.ext hmode) hrev hpolicy
    backend := BackendIdentity.ext (BackendKind.ext hkind) hbackend hbversion himpl
    runtime := by simp [hrt, hgabi, hkabi, hdriver]
    device :=
      DeviceDescriptor.ext (AcceleratorVendor.ext hvendor) harch hmajor hminor hindex hdevice
    captureMode := CaptureMode.ext hcm
    streamSemantics := StreamSemantics.ext hss
    topologyCanonical := htop
    inputShapes := hin
    outputShapes := hout
    datatypes := List.map_injective_iff.mpr (fun _ _ he => Datatype.ext (encU32_inj.mp he)) hdt
    layouts := List.map_injective_iff.mpr (fun _ _ he => TensorLayout.ext (encU32_inj.mp he)) hlay
    specialized := encBool_inj.mp hspec
    scalar := hscalar
    quantizationMode := QuantizationMode.ext hqmode
    quantization := hquant
    binding := BindingDescriptor.ext (BindingClass.ext hclass) halign hschema helig
    requiredAlignment := hreq
    memoryBindingSchema := hmem
    dependencies := hdeps
    modelOperatorRevision := hmrev
    policyGeneration := by simpa using h }

/-- The fields of facts, shorter than 4 GiB. -/
def CompatibilityFacts.Encodable (f : CompatibilityFacts) : Prop :=
  ∀ x ∈ encodeFacts f, x.payload.length < 2 ^ 32

/-- No field of the facts is longer than the longest of their strings, or eight bytes. -/
theorem encodeFacts_length_lt {f : CompatibilityFacts} {b : ℕ} (hb : 8 < b)
    (hworkload : f.workload.logicalName.length < b ∧ f.workload.namespaceName.length < b ∧
      f.workload.modelOperatorRevision.length < b ∧ f.workload.policyGeneration.length < b)
    (hmachine : f.backend.backendName.length < b ∧ f.backend.implementationName.length < b ∧
      f.device.architecture.length < b ∧ f.device.name.length < b)
    (htop : f.topologyCanonical.length < b)
    (hin : ∀ s ∈ f.inputShapes, (encodeShape s).length < b)
    (hout : ∀ s ∈ f.outputShapes, (encodeShape s).length < b)
    (hbinding : f.quantization.customScheme.length < b ∧
      f.binding.memoryBindingSchema.length < b ∧ f.memoryBindingSchema.length < b)
    (hdep : ∀ d ∈ f.dependencies, (encodeDep d).take.length < b)
    (hrev : f.modelOperatorRevision.length < b ∧ f.policyGeneration.length < b) :
    ∀ x ∈ encodeFacts f, x.payload.length < b := by
  have h₁ : 1 < b := by omega
  have h₄ : 4 < b := by omega
  simp only [encodeFacts, List.forall_mem_append, List.forall_mem_cons, List.forall_mem_map, putU32,
    putStr, putBytes, putBool, putU64, putI64, length_encU32, length_encBool, length_encU64]
  split_ifs <;>
    simpa [hb, h₁, h₄, hworkload, hmachine, htop, hbinding, hrev] using ⟨⟨hin, hout⟩, hdep⟩

/-- Facts under one key agree in all that is written, where their strings do not collide. -/
theorem sameKey_of_digestHex {f f' : CompatibilityFacts} (hf : f.Encodable) (hf' : f'.Encodable)
    (hfree : Sha256.compute (factsToCanonical f) = Sha256.compute (factsToCanonical f') →
      factsToCanonical f = factsToCanonical f')
    (hkey : (GraphCompatibilityKey.build f).digestHex = (GraphCompatibilityKey.build f').digestHex) :
    f.SameKey f' :=
  encodeFacts_inj (CanonicalWriter.take_injective hf hf' (hfree (hex_injective hkey)))

end GraphCache
