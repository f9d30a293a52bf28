import GraphCache.Coordinator
import GraphCache.Facts
import GraphCache.Keys
import GraphCache.Sizes

/-!
# The coordinator's key and the engine's decision

The coordinator derives the facts of a lookup by a loop of its own, which fills in less than
`facts_from_descriptor_and_workload` : capture mode, stream semantics, shapes, quantization,
binding and alignment keep their defaults (`lookupFacts_eq`). The nodes themselves are in the
topology bytes, sorted by id; what the engine collects from them in the order listed is not.

`lookupKey_agrees` : two lookups under one key are a compatible pair for the engine exactly when
they agree in what was left out (`Agrees`).
-/

namespace GraphCache

/-! ## What the engine collects -/

/-- The nodes with a datatype, as listed. -/
def typedNodes (ns : List GraphNodeDescriptor) : List GraphNodeDescriptor :=
  ns.filter fun n => n.datatype ≠ .none

/-- The scalar of the last typed node that is specialized. -/
def lastScalar (ns : List GraphNodeDescriptor) : ScalarSpecialization :=
  (((typedNodes ns).filter (·.scalar.specialized)).getLast?.map (·.scalar)).getD {}

/-- The configuration of the last quantized node. -/
def lastQuantization (ns : List GraphNodeDescriptor) : QuantizationConfig :=
  ((ns.filter fun n => n.quantization.mode ≠ .none).getLast?.map (·.quantization)).getD {}

/-- The binding of the last typed node. -/
def lastBinding (ns : List GraphNodeDescriptor) : BindingDescriptor :=
  ((typedNodes ns).getLast?.map (·.binding)).getD {}

/-- The greatest alignment that a typed node requires. -/
def greatestAlignment (ns : List GraphNodeDescriptor) : UInt64 :=
  ((typedNodes ns).map (·.requiredAlignment)).max?.getD 128

/-- The accumulator after the nodes `ns`. -/
structure FactsAcc.Collected (ns : List GraphNodeDescriptor) (a : FactsAcc) : Prop where
  inputShapes : a.facts.inputShapes = (typedNodes ns).map (·.shape)
  outputShapes : a.facts.outputShapes = []
  scalar : a.facts.scalar = lastScalar ns
  quantization : a.facts.quantization = lastQuantization ns
  binding : a.facts.binding = lastBinding ns
  requiredAlignment : a.facts.requiredAlignment = greatestAlignment ns
  haveAlign : a.haveAlign = !(typedNodes ns).isEmpty

theorem max?_concat (l : List UInt64) (x d : UInt64) :
    (l ++ [x]).max? = some (if l.isEmpty || x > l.max?.getD d then x else l.max?.getD d) := by
  cases l with
  | nil => rfl
  | cons a l =>
    simp only [List.cons_append, List.max?_cons', List.foldl_append, List.foldl_cons,
      List.foldl_nil, List.isEmpty_cons, Bool.false_or, Option.getD_some, Option.some.injEq,
      decide_eq_true_eq, gt_iff_lt]
    generalize l.foldl max a = m
    rw [show max m x = if m ≤ x then x else m from rfl]
    split_ifs with hle hlt hlt
    · rfl
    · exact UInt64.le_antisymm (UInt64.not_lt.mp hlt) hle
    · exact absurd (UInt64.le_of_lt hlt) hle
    · rfl

/-- A node without a datatype changes the quantization at most. -/
theorem FactsAcc.addNode_untyped (a : FactsAcc) {n : GraphNodeDescriptor}
    (hd : n.datatype = .none) : a.addNode n = { a with facts := { a.facts with
      quantization :=
        if n.quantization.mode ≠ .none then n.quantization else a.facts.quantization } } := by
  simp only [FactsAcc.addNode, hd]
  split_ifs <;> simp_all

theorem FactsAcc.addNode_typed (a : FactsAcc) {n : GraphNodeDescriptor}
    (hd : n.datatype ≠ .none) : a.addNode n = {
      facts := { a.facts with
        datatypes := a.facts.datatypes ++ [n.datatype]
        layouts := a.facts.layouts ++ [n.layout]
        inputShapes := a.facts.inputShapes ++ [n.shape]
        scalar := if n.scalar.specialized then n.scalar else a.facts.scalar
        requiredAlignment :=
          if !a.haveAlign || n.requiredAlignment > a.facts.requiredAlignment
          then n.requiredAlignment else a.facts.requiredAlignment
        memoryBindingSchema := n.binding.memoryBindingSchema
        binding := n.binding
        quantization :=
          if n.quantization.mode ≠ .none then n.quantization else a.facts.quantization }
      haveAlign := true } := by
  simp only [FactsAcc.addNode, if_pos hd]
  split_ifs <;> rfl

theorem lastQuantization_concat (ns : List GraphNodeDescriptor) (n : GraphNodeDescriptor) :
    lastQuantization (ns ++ [n]) =
      if n.quantization.mode ≠ .none then n.quantization else lastQuantization ns := by
  split_ifs with hq
  · simp [lastQuantization, hq]
  · simp [lastQuantization, not_not.mp hq]

theorem FactsAcc.Collected.addNode {ns : List GraphNodeDescriptor} {a : FactsAcc}
    (h : a.Collected ns) (n : GraphNodeDescriptor) : (a.addNode n).Collected (ns ++ [n]) := by
  obtain ⟨hin, hout, hscalar, hquant, hbinding, halign, hhave⟩ := h
  by_cases hd : n.datatype = .none
  · have hsame : typedNodes (ns ++ [n]) = typedNodes ns := by simp [typedNodes, hd]
    rw [FactsAcc.addNode_untyped a hd]
    exact {
      inputShapes := by rw [hsame, hin]
      outputShapes := hout
      scalar := by rw [lastScalar, hsame, hscalar, lastScalar]
      quantization := by rw [lastQuantization_concat, hquant]
      binding := by rw [lastBinding, hsame, hbinding, lastBinding]
      requiredAlignment := by rw [greatestAlignment, hsame, halign, greatestAlignment]
      haveAlign := by rw [hsame, hhave] }
  · have hnew : typedNodes (ns ++ [n]) = typedNodes ns ++ [n] := by simp [typedNodes, hd]
    rw [FactsAcc.addNode_typed a hd]
    exact {
      inputShapes := by rw [hnew, hin, List.map_append, List.map_singleton]
      outputShapes := hout
      scalar := by
        rw [lastScalar, hnew]
        cases hs : n.scalar.specialized <;> simp [hs, hscalar, lastScalar]
      quantization := by rw [lastQuantization_concat, hquant]
      binding := by simp [lastBinding, hnew]
      requiredAlignment := by
        rw [greatestAlignment, hnew, List.map_append, List.map_singleton, max?_concat _ _ 128,
          Option.getD_some, halign, hhave, greatestAlignment, Bool.not_not, List.isEmpty_map]
      haveAlign := by simp [hnew] }

theorem collected_foldl {a : FactsAcc} (h : a.Collected []) (ns : List GraphNodeDescriptor) :
    (ns.foldl FactsAcc.addNode a).Collected ns := by
  induction ns using List.reverseRecOn with
  | nil => exact h
  | append_singleton ns n ih =>
    rw [List.foldl_append, List.foldl_cons, List.foldl_nil]
    exact ih.addNode n

/-! ## What the coordinator collects -/

/-- The fields that the coordinator leaves alone, at their defaults. -/
def CompatibilityFacts.unfilled (f : CompatibilityFacts) : CompatibilityFacts :=
  { f with
    captureMode := .none
    streamSemantics := .default
    inputShapes := []
    quantization := {}
    binding := {}
    requiredAlignment := 128
    memoryBindingSchema := [] }

/-- The coordinator's facts are the engine's, with less filled in. -/
theorem lookupFacts_eq (g : GraphDescriptor) (wl : WorkloadIdentity) :
    lookupFacts g wl = (factsFromDescriptorAndWorkload g wl).unfilled := by
  unfold lookupFacts factsFromDescriptorAndWorkload collectFacts
  symm
  refine (List.foldl_hom (fun a : FactsAcc => a.facts.unfilled) fun a n => ?_).symm
  by_cases hd : n.datatype = .none
  · simp [FactsAcc.addNode_untyped a hd, hd, CompatibilityFacts.unfilled]
  · simp [FactsAcc.addNode_typed a hd, hd, CompatibilityFacts.unfilled]

theorem collected_facts (g : GraphDescriptor) (wl : WorkloadIdentity) :
    ∃ haveAlign, FactsAcc.Collected g.nodes ⟨factsFromDescriptorAndWorkload g wl, haveAlign⟩ :=
  ⟨_, collected_foldl ⟨rfl, rfl, rfl, rfl, rfl, rfl, rfl⟩ g.nodes⟩

/-- The facts of a lookup that arrived in a payload have no field of 4 GiB. -/
theorem encodable_lookupFacts {payload : Bytes} (hsize : payload.length ≤ maxPayloadSize)
    {g : GraphDescriptor} {wl : WorkloadIdentity}
    (hread : readCapture ProtocolStatus.invalidRequest .malformed payload = .ok (g, wl)) :
    (lookupFacts g wl).Encodable ∧
      ∀ d ∈ g.dependencies, ∀ x ∈ encodeDep d, x.payload.length < 2 ^ 32 := by
  have hle := size_readCapture hread
  have htop := length_canonicalTopology g
  simp only [GraphDescriptor.size, WorkloadIdentity.size, maxPayloadSize, maxFrameSize] at hle htop hsize
  have hdep : ∀ d ∈ g.dependencies, (encodeDep d).take.length < 2 ^ 32 := by
    intro d hd
    have := length_encodeDep d
    have := List.single_le_sum (by simp) _ (List.mem_map_of_mem (f := (6 + ·.size)) hd)
    omega
  refine ⟨?_, fun d hd x hx => (length_le_take hx).trans_lt (hdep d hd)⟩
  obtain ⟨_, hcollected⟩ := collected_facts g wl
  have hout : (factsFromDescriptorAndWorkload g wl).outputShapes = [] := hcollected.outputShapes
  rw [CompatibilityFacts.Encodable, lookupFacts_eq]
  refine encodeFacts_length_lt (by omega) ?_ ?_ ?_ ?_ ?_ ?_ ?_ ?_
  all_goals simp only [CompatibilityFacts.unfilled, hout]
  · simp only [factsFromDescriptorAndWorkload, collectFacts_workload]
    omega
  · simp only [factsFromDescriptorAndWorkload, collectFacts_backend, collectFacts_device]
    omega
  · simp only [factsFromDescriptorAndWorkload, collectFacts_topologyCanonical]
    omega
  · simp
  · simp
  · simp
  · simpa only [factsFromDescriptorAndWorkload, collectFacts_dependencies] using hdep
  · simp only [factsFromDescriptorAndWorkload, collectFacts_modelOperatorRevision,
      collectFacts_policyGeneration]
    omega

/-! ## Agreement -/

/-- Dependencies written alike are the same up to what is not written. -/
theorem normalize_of_encode {deps deps' : List KernelIdentityRef}
    (hd : ∀ d ∈ deps, ∀ x ∈ encodeDep d, x.payload.length < 2 ^ 32)
    (hd' : ∀ d ∈ deps', ∀ x ∈ encodeDep d, x.payload.length < 2 ^ 32)
    (h : deps.map (fun d => (encodeDep d).take) = deps'.map fun d => (encodeDep d).take) :
    deps.map (·.normalize) = deps'.map (·.normalize) := by
  have hdecode : ∀ {l : List KernelIdentityRef},
      (∀ d ∈ l, ∀ x ∈ encodeDep d, x.payload.length < 2 ^ 32) →
        (l.map fun d => (encodeDep d).take).map decodeDep = (l.map (·.normalize)).map some := by
    intro l hl
    rw [List.map_map, List.map_map]
    exact List.map_congr_left fun d hd => decodeDep_encodeDep (hl d hd)
  have hsame := congrArg (List.map decodeDep) h
  rw [hdecode hd, hdecode hd'] at hsame
  exact List.map_injective_iff.mpr (Option.some_injective _) hsame

/-- Dependencies written alike miss nothing of each other. -/
theorem missingDependency_of_encode {deps deps' : List KernelIdentityRef}
    (hd : ∀ d ∈ deps, ∀ x ∈ encodeDep d, x.payload.length < 2 ^ 32)
    (hd' : ∀ d ∈ deps', ∀ x ∈ encodeDep d, x.payload.length < 2 ^ 32)
    (h : deps.map (fun d => (encodeDep d).take) = deps'.map fun d => (encodeDep d).take) :
    missingDependency deps deps' = none := by
  have hnone := missingDependency_compared deps deps'
  rw [← normalize_of_encode hd hd' h, missingDependency_compared, missingDependency_self,
    Option.map_none] at hnone
  exact Option.map_eq_none_iff.mp hnone.symm

/-- What two descriptors have to share besides their key, the second one as the candidate. -/
structure Agrees (g g' : GraphDescriptor) : Prop where
  captureMode : g.sync.captureMode = g'.sync.captureMode
  streamSemantics : g.sync.streamSemantics = g'.sync.streamSemantics
  scalar : (lastScalar g.nodes).floatValue.isNaN = false
  quantization : lastQuantization g.nodes = lastQuantization g'.nodes
  binding : (greatestAlignment g.nodes = greatestAlignment g'.nodes ∧
      (lastBinding g.nodes).memoryBindingSchema = (lastBinding g'.nodes).memoryBindingSchema ∧
      (lastBinding g.nodes).bindingClass = (lastBinding g'.nodes).bindingClass ∧
      (lastBinding g.nodes).alignment = (lastBinding g'.nodes).alignment) ∨
    (lastBinding g'.nodes).Rebindable
  shapes : (typedNodes g.nodes).map (·.shape) = (typedNodes g'.nodes).map (·.shape) ∨
    DynamicShapes ((typedNodes g.nodes).map (·.shape)) ((typedNodes g'.nodes).map (·.shape))

theorem isNaN_lastScalar {ns : List GraphNodeDescriptor}
    (h : (lastScalar ns).specialized = false) : (lastScalar ns).floatValue.isNaN = false := by
  unfold lastScalar at *
  cases hlast : ((typedNodes ns).filter (·.scalar.specialized)).getLast? with
  | none => rfl
  | some n =>
    obtain ⟨-, hn⟩ := List.mem_filter.mp (List.mem_of_getLast? hlast)
    simp [hlast, hn] at h

/-- Once the filled fields are known to be the same, the default policy asks for the others. -/
theorem accepts_iff_of_sameKey {f f' : CompatibilityFacts} (h : f.unfilled.SameKey f'.unfilled)
    (hdep : missingDependency f.dependencies f'.dependencies = none) :
    Accepts f f' {} ↔ f.captureMode = f'.captureMode ∧ f.streamSemantics = f'.streamSemantics ∧
      (f.scalar.specialized = true → f.scalar.floatValue.isNaN = false) ∧
      f.quantization = f'.quantization ∧ (SameBinding f f' ∨ f'.binding.Rebindable) ∧
      (f.inputShapes = f'.inputShapes ∧ f.outputShapes = f'.outputShapes ∨
        DynamicShapes f.inputShapes f'.inputShapes) := by
  have hworkload : f.workload = f'.workload := h.workload
  have hbackend : f.backend = f'.backend := h.backend
  have hdevice : f.device = f'.device := h.device
  have hspec : f.scalar.specialized = f'.scalar.specialized := h.specialized
  have hscalar : f.scalar.specialized = true → f.scalar = f'.scalar := h.scalar
  have hrev : f.modelOperatorRevision = f'.modelOperatorRevision := h.modelOperatorRevision
  have hruntime := RuntimeDescriptor.mk.inj h.runtime
  constructor
  · intro ha
    refine ⟨ha.captureMode, ha.streamSemantics, fun hs => ?_, ha.quantization, ?_, ?_⟩
    · have heq := (ha.scalar hs).2
      rw [← hscalar hs, Double.eq_self] at heq
      simpa using heq
    · simpa using ha.binding
    · simpa using ha.shapes
  · rintro ⟨hmode, hstream, hnan, hquant, hbind, hshape⟩
    exact {
      logicalName := by rw [hworkload]
      namespaceName := fun hns => absurd rfl hns
      backendKind := by rw [hbackend]
      backendName := by rw [hbackend]
      backendVersion := fun _ => by rw [hbackend]
      vendor := by rw [hdevice]
      architecture := by rw [hdevice]
      compute := fun _ => by rw [hdevice]; exact ⟨rfl, rfl⟩
      runtimeVersion := fun _ => hruntime.1
      driverVersion := hruntime.2.2.2.1
      graphAbi := fun _ => hruntime.2.1
      kernelAbi := fun _ => hruntime.2.2.1
      captureMode := hmode
      streamSemantics := hstream
      topologyCanonical := fun _ => h.topologyCanonical
      dependencies := fun _ => hdep
      datatypes := h.datatypes
      layouts := h.layouts
      specialized := hspec
      scalar := fun hs => by
        rw [← hscalar hs, Double.eq_self, hnan hs]
        exact ⟨rfl, rfl⟩
      quantization := hquant
      binding := hbind.imp_right fun hr => ⟨rfl, hr⟩
      shapes := hshape.imp_right fun hd => ⟨rfl, hd⟩
      revision := fun _ _ _ => hrev }

/-- Two lookups under one key are a compatible pair for the engine exactly when they agree in what
the coordinator leaves out. -/
theorem lookupKey_agrees {payload payload' : Bytes} (hsize : payload.length ≤ maxPayloadSize)
    (hsize' : payload'.length ≤ maxPayloadSize) {g g' : GraphDescriptor} {wl wl' : WorkloadIdentity}
    (hread : readCapture ProtocolStatus.invalidRequest .malformed payload = .ok (g, wl))
    (hread' : readCapture ProtocolStatus.invalidRequest .malformed payload' = .ok (g', wl'))
    (hfree : Sha256.compute (factsToCanonical (lookupFacts g wl)) =
        Sha256.compute (factsToCanonical (lookupFacts g' wl')) →
      factsToCanonical (lookupFacts g wl) = factsToCanonical (lookupFacts g' wl'))
    (hkey : lookupKey g wl = lookupKey g' wl') :
    (decideCompatibility (factsFromDescriptorAndWorkload g wl)
      (factsFromDescriptorAndWorkload g' wl') {}).compatible = true ↔ Agrees g g' := by
  obtain ⟨henc, hdeps⟩ := encodable_lookupFacts hsize hread
  obtain ⟨henc', hdeps'⟩ := encodable_lookupFacts hsize' hread'
  have hsame := sameKey_of_digestHex henc henc' hfree hkey
  rw [lookupFacts_eq, lookupFacts_eq] at hsame
  have hmissing : missingDependency (factsFromDescriptorAndWorkload g wl).dependencies
      (factsFromDescriptorAndWorkload g' wl').dependencies = none := by
    have hwritten := hsame.dependencies
    simp only [CompatibilityFacts.unfilled, factsFromDescriptorAndWorkload,
      collectFacts_dependencies] at hwritten ⊢
    exact missingDependency_of_encode hdeps hdeps' hwritten
  -- The other fields, as they are collected from the nodes.
  obtain ⟨_, hin, hout, hscalar, hquant, hbind, halign, -⟩ := collected_facts g wl
  obtain ⟨_, hin', hout', -, hquant', hbind', halign', -⟩ := collected_facts g' wl'
  dsimp only at hin hout hscalar hquant hbind halign hin' hout' hquant' hbind' halign'
  rw [decideCompatibility_compatible, accepts_iff_of_sameKey hsame hmissing, SameBinding, hin, hin',
    hout, hout', hscalar, hquant, hquant', hbind, hbind', halign, halign']
  simp only [factsFromDescriptorAndWorkload, collectFacts_captureMode,
    collectFacts_streamSemantics, and_true]
  constructor
  · rintro ⟨hmode, hstream, hnan, hq, hb, hs⟩
    refine ⟨hmode, hstream, ?_, hq, hb, hs⟩
    cases hspec : (lastScalar g.nodes).specialized with
    | false => exact isNaN_lastScalar hspec
    | true => exact hnan hspec
  · rintro ⟨hmode, hstream, hnan, hq, hb, hs⟩
    exact ⟨hmode, hstream, fun _ => hnan, hq, hb, hs⟩

/-- A specialized tensor. -/
def tensorNode : GraphNodeDescriptor where
  nodeId := ⟨0, 1⟩
  datatype := .f32
  shape := ⟨[4], false, 0⟩
  scalar := ⟨true, 2, .zero⟩

/-- A graph of one tensor, captured in a mode by a source. -/
def tensorGraph (mode : CaptureMode) (source : String) : GraphDescriptor where
  sync := { captureMode := mode }
  nodes := [tensorNode]
  dependencies := [{ name := str "k" }]
  provenance := { captureSource := str source }

/-- The payload of its lookup. -/
def tensorLookup (mode : CaptureMode) (source : String) : Bytes :=
  encodeCapture (tensorGraph mode source) { logicalName := str "w" }

/-- Provenance is no part of a key, nor of a decision. -/
theorem lookupKey_agrees_provenance :
    (decideCompatibility
      (factsFromDescriptorAndWorkload (tensorGraph .none "a") { logicalName := str "w" })
      (factsFromDescriptorAndWorkload (tensorGraph .none "b") { logicalName := str "w" })
      {}).compatible = true := by
  have hread : readCapture ProtocolStatus.invalidRequest .malformed (tensorLookup .none "a") =
      .ok (tensorGraph .none "a", { logicalName := str "w" }) := by decide +kernel
  have hread' : readCapture ProtocolStatus.invalidRequest .malformed (tensorLookup .none "b") =
      .ok (tensorGraph .none "b", { logicalName := str "w" }) := by decide +kernel
  have hagrees : Agrees (tensorGraph .none "a") (tensorGraph .none "b") :=
    ⟨rfl, rfl, by decide, rfl, .inl ⟨rfl, rfl, rfl, rfl⟩, .inl rfl⟩
  exact (lookupKey_agrees (by decide +kernel) (by decide +kernel) hread hread' (fun _ => rfl)
    rfl).mpr hagrees

/-- `StreamCapture` and no capture mode share a key, and the engine keeps them apart. -/
theorem lookupKey_shared :
    (tensorLookup .none "a").length ≤ maxPayloadSize ∧
      (tensorLookup ⟨1⟩ "a").length ≤ maxPayloadSize ∧
      readCapture ProtocolStatus.invalidRequest .malformed (tensorLookup .none "a") =
        .ok (tensorGraph .none "a", { logicalName := str "w" }) ∧
      readCapture ProtocolStatus.invalidRequest .malformed (tensorLookup ⟨1⟩ "a") =
        .ok (tensorGraph ⟨1⟩ "a", { logicalName := str "w" }) ∧
      lookupKey (tensorGraph .none "a") { logicalName := str "w" } =
        lookupKey (tensorGraph ⟨1⟩ "a") { logicalName := str "w" } ∧
      (decideCompatibility
        (factsFromDescriptorAndWorkload (tensorGraph .none "a") { logicalName := str "w" })
        (factsFromDescriptorAndWorkload (tensorGraph ⟨1⟩ "a") { logicalName := str "w" })
        {}).compatible = false := by
  have hfacts : lookupFacts (tensorGraph .none "a") { logicalName := str "w" } =
      lookupFacts (tensorGraph ⟨1⟩ "a") { logicalName := str "w" } := rfl
  refine ⟨by decide +kernel, by decide +kernel, by decide +kernel, by decide +kernel,
    by rw [lookupKey, hfacts, lookupKey], ?_⟩
  rw [← Bool.not_eq_true, decideCompatibility_compatible]
  intro h
  exact absurd h.captureMode (by decide)

end GraphCache
