import GraphCache.KeyOrder

/-!
# The two derivations of facts

`facts_from_graph` of `compatibility.cpp` is the public way from a descriptor to the facts of a
candidate. The engine has a loop of its own, in `facts_from_descriptor_and_workload`. The public one
passes over a shape in which nothing is set, and it starts from the default alignment, so that it
never requires less; the engine collects every shape, and takes the first alignment as it is.

`facts_agree_iff` : the two agree exactly where neither shows.
-/

namespace GraphCache

/-! ## The public derivation -/

namespace CompatibilityFacts

/-- One node of the first loop. -/
def addTensor (f : CompatibilityFacts) (n : GraphNodeDescriptor) : CompatibilityFacts :=
  if n.datatype ≠ .none then
    { f with
      datatypes := f.datatypes ++ [n.datatype]
      layouts := f.layouts ++ [n.layout]
      inputShapes :=
        if n.shape.dims ≠ [] ∨ n.shape.dynamic ∨ n.shape.maxRank ≠ 0 then f.inputShapes ++ [n.shape]
        else f.inputShapes
      scalar := if n.scalar.specialized then n.scalar else f.scalar
      requiredAlignment := max f.requiredAlignment n.requiredAlignment
      memoryBindingSchema := n.binding.memoryBindingSchema
      binding := n.binding }
  else f

/-- One node of the second. -/
def addQuantization (f : CompatibilityFacts) (n : GraphNodeDescriptor) : CompatibilityFacts :=
  if n.quantization.mode ≠ .none then { f with quantization := n.quantization } else f

end CompatibilityFacts

/-- `facts_from_graph`. Workload, revision and policy generation keep their defaults. -/
def factsFromGraph (g : GraphDescriptor) : CompatibilityFacts :=
  let f := g.nodes.foldl CompatibilityFacts.addTensor {
    backend := g.backend
    runtime := g.runtime
    device := g.device
    captureMode := g.sync.captureMode
    streamSemantics := g.sync.streamSemantics
    topologyCanonical := canonicalTopology g.nodes g.edges }
  let f := g.nodes.foldl CompatibilityFacts.addQuantization { f with quantization := {} }
  { f with dependencies := g.dependencies }

/-- The shapes in which something is set. -/
def setShapes (ns : List GraphNodeDescriptor) : List ShapeDescriptor :=
  ((typedNodes ns).map (·.shape)).filter fun s => s ≠ {}

theorem ne_default_iff (s : ShapeDescriptor) :
    s ≠ {} ↔ s.dims ≠ [] ∨ s.dynamic = true ∨ s.maxRank ≠ 0 := by
  obtain ⟨dims, dynamic, maxRank⟩ := s
  rw [Ne, ShapeDescriptor.mk.injEq]
  cases dynamic
  · simp
    tauto
  · simp

theorem typedNodes_concat (ns : List GraphNodeDescriptor) (n : GraphNodeDescriptor) :
    typedNodes (ns ++ [n]) = typedNodes ns ++ if n.datatype ≠ .none then [n] else [] := by
  by_cases hd : n.datatype = .none <;> simp [typedNodes, hd]

theorem lastScalar_concat (ns : List GraphNodeDescriptor) {n : GraphNodeDescriptor}
    (hd : n.datatype ≠ .none) :
    lastScalar (ns ++ [n]) = if n.scalar.specialized then n.scalar else lastScalar ns := by
  rw [lastScalar, typedNodes_concat, if_pos hd]
  by_cases hs : n.scalar.specialized = true <;> simp [lastScalar, hs]

/-- The running alignment of the public loop : that of the engine, and at least the default. -/
theorem max_greatestAlignment_concat (ns : List GraphNodeDescriptor) {n : GraphNodeDescriptor}
    (hd : n.datatype ≠ .none) : max 128 (greatestAlignment (ns ++ [n])) =
      max (max 128 (greatestAlignment ns)) n.requiredAlignment := by
  have hnew : (typedNodes (ns ++ [n])).map (·.requiredAlignment) =
      (typedNodes ns).map (·.requiredAlignment) ++ [n.requiredAlignment] := by
    rw [typedNodes_concat, if_pos hd, List.map_append, List.map_singleton]
  have hfirst : (typedNodes ns).map (·.requiredAlignment) = [] → greatestAlignment ns = 128 := by
    intro hnil
    rw [greatestAlignment, hnil]
    rfl
  rw [greatestAlignment, hnew, max?_concat _ _ 128, Option.getD_some, ← greatestAlignment]
  generalize greatestAlignment ns = x at hfirst ⊢
  generalize (typedNodes ns).map (·.requiredAlignment) = l at hfirst ⊢
  have hmax (a b : UInt64) : (max a b).toNat = max a.toNat b.toNat := by
    rw [show max a b = if a ≤ b then b else a from rfl]
    split_ifs with h <;> rw [UInt64.le_iff_toNat_le] at h <;> omega
  rw [← UInt64.toNat_inj, hmax, hmax, hmax]
  cases l with
  | nil => simp [hfirst rfl]
  | cons a l =>
    simp only [List.isEmpty_cons, Bool.false_or, decide_eq_true_eq, gt_iff_lt, UInt64.lt_iff_toNat_lt]
    split_ifs <;> omega

theorem addTensor_typed (f : CompatibilityFacts) {n : GraphNodeDescriptor}
    (hd : n.datatype ≠ .none) : f.addTensor n = { f with
      datatypes := f.datatypes ++ [n.datatype]
      layouts := f.layouts ++ [n.layout]
      inputShapes := f.inputShapes ++ if n.shape ≠ {} then [n.shape] else []
      scalar := if n.scalar.specialized then n.scalar else f.scalar
      requiredAlignment := max f.requiredAlignment n.requiredAlignment
      memoryBindingSchema := n.binding.memoryBindingSchema
      binding := n.binding } := by
  rw [CompatibilityFacts.addTensor, if_pos hd]
  simp only [← ne_default_iff]
  split_ifs <;> simp

/-- What the first loop collects. -/
theorem foldl_addTensor (f : CompatibilityFacts) (hf : f = { f with
      datatypes := [], layouts := [], inputShapes := [], scalar := {}, requiredAlignment := 128,
      memoryBindingSchema := [], binding := {} }) (ns : List GraphNodeDescriptor) :
    ns.foldl CompatibilityFacts.addTensor f = { f with
      datatypes := (typedNodes ns).map (·.datatype)
      layouts := (typedNodes ns).map (·.layout)
      inputShapes := setShapes ns
      scalar := lastScalar ns
      requiredAlignment := max 128 (greatestAlignment ns)
      memoryBindingSchema := (lastBinding ns).memoryBindingSchema
      binding := lastBinding ns } := by
  induction ns using List.reverseRecOn with
  | nil => exact hf
  | append_singleton ns n ih =>
    rw [List.foldl_append, List.foldl_cons, List.foldl_nil, ih]
    by_cases hd : n.datatype = .none
    · have hsame : typedNodes (ns ++ [n]) = typedNodes ns := by simp [typedNodes_concat, hd]
      simp [CompatibilityFacts.addTensor, setShapes, lastScalar, lastBinding, greatestAlignment, hd,
        hsame]
    · rw [addTensor_typed _ hd, max_greatestAlignment_concat ns hd, lastScalar_concat ns hd]
      simp [setShapes, lastBinding, typedNodes_concat, hd, List.filter_singleton]

theorem foldl_addQuantization (f : CompatibilityFacts) (hf : f.quantization = {})
    (ns : List GraphNodeDescriptor) : ns.foldl CompatibilityFacts.addQuantization f =
      { f with quantization := lastQuantization ns } := by
  induction ns using List.reverseRecOn with
  | nil => exact congrArg (fun q => { f with quantization := q }) hf
  | append_singleton ns n ih =>
    rw [List.foldl_append, List.foldl_cons, List.foldl_nil, ih, lastQuantization_concat,
      CompatibilityFacts.addQuantization]
    split_ifs <;> rfl

/-- The public derivation, in closed form. -/
theorem factsFromGraph_eq (g : GraphDescriptor) : factsFromGraph g = {
    backend := g.backend
    runtime := g.runtime
    device := g.device
    captureMode := g.sync.captureMode
    streamSemantics := g.sync.streamSemantics
    topologyCanonical := canonicalTopology g.nodes g.edges
    inputShapes := setShapes g.nodes
    datatypes := (typedNodes g.nodes).map (·.datatype)
    layouts := (typedNodes g.nodes).map (·.layout)
    scalar := lastScalar g.nodes
    quantization := lastQuantization g.nodes
    binding := lastBinding g.nodes
    requiredAlignment := max 128 (greatestAlignment g.nodes)
    memoryBindingSchema := (lastBinding g.nodes).memoryBindingSchema
    dependencies := g.dependencies } := by
  rw [factsFromGraph, foldl_addTensor _ rfl, foldl_addQuantization _ rfl]

/-! ## Agreement -/

/-- The same in every field that is derived from a graph. -/
structure SameGraphFacts (f f' : CompatibilityFacts) : Prop where
  backend : f.backend = f'.backend
  runtime : f.runtime = f'.runtime
  device : f.device = f'.device
  captureMode : f.captureMode = f'.captureMode
  streamSemantics : f.streamSemantics = f'.streamSemantics
  topologyCanonical : f.topologyCanonical = f'.topologyCanonical
  datatypes : f.datatypes = f'.datatypes
  layouts : f.layouts = f'.layouts
  inputShapes : f.inputShapes = f'.inputShapes
  scalar : f.scalar = f'.scalar
  quantization : f.quantization = f'.quantization
  binding : f.binding = f'.binding
  requiredAlignment : f.requiredAlignment = f'.requiredAlignment
  memoryBindingSchema : f.memoryBindingSchema = f'.memoryBindingSchema
  dependencies : f.dependencies = f'.dependencies

/-- They differ in the shapes and in the alignment at most. -/
theorem sameGraphFacts_iff (g : GraphDescriptor) (wl : WorkloadIdentity) :
    SameGraphFacts (factsFromGraph g) (factsFromDescriptorAndWorkload g wl) ↔
      setShapes g.nodes = (typedNodes g.nodes).map (·.shape) ∧
        max 128 (greatestAlignment g.nodes) = greatestAlignment g.nodes := by
  rw [factsFromDescriptorAndWorkload, collectFacts_eq, factsFromGraph_eq]
  constructor
  · intro h
    exact ⟨h.inputShapes, h.requiredAlignment⟩
  · rintro ⟨hshapes, halign⟩
    exact ⟨rfl, rfl, rfl, rfl, rfl, rfl, rfl, rfl, hshapes, rfl, rfl, rfl, halign, rfl, rfl⟩

theorem setShapes_eq_iff (ns : List GraphNodeDescriptor) :
    setShapes ns = (typedNodes ns).map (·.shape) ↔ ∀ n ∈ typedNodes ns, n.shape ≠ {} := by
  rw [setShapes, List.filter_eq_self]
  simp

/-- The engine's alignment reaches the default where there is no typed node, or one that asks for as
much. -/
theorem max_greatestAlignment_iff (ns : List GraphNodeDescriptor) :
    max 128 (greatestAlignment ns) = greatestAlignment ns ↔
      typedNodes ns = [] ∨ ∃ n ∈ typedNodes ns, 128 ≤ n.requiredAlignment := by
  have hmax : max 128 (greatestAlignment ns) = greatestAlignment ns ↔
      128 ≤ greatestAlignment ns := by
    rw [show max 128 (greatestAlignment ns) =
      if 128 ≤ greatestAlignment ns then greatestAlignment ns else 128 from rfl]
    split_ifs with h
    · exact iff_of_true rfl h
    · exact iff_of_false (fun heq => h (heq ▸ UInt64.le_refl _)) h
  rw [hmax, greatestAlignment]
  cases hm : ((typedNodes ns).map (·.requiredAlignment)).max? with
  | none =>
    have hnil : typedNodes ns = [] := by simpa using hm
    exact iff_of_true (UInt64.le_refl _) (.inl hnil)
  | some m =>
    obtain ⟨hmem, hle⟩ := List.max?_eq_some_iff.mp hm
    obtain ⟨n, hn, rfl⟩ := List.mem_map.mp hmem
    rw [Option.getD_some]
    constructor
    · exact fun h => .inr ⟨n, hn, h⟩
    · rintro (hnil | ⟨k, hk, h⟩)
      · simp [hnil] at hn
      · exact UInt64.le_trans h (hle _ (List.mem_map_of_mem hk))

/-- The derivations agree where every typed node has a shape with something set, and one of them
asks for the default alignment, if there is any. -/
theorem facts_agree_iff (g : GraphDescriptor) (wl : WorkloadIdentity) :
    SameGraphFacts (factsFromGraph g) (factsFromDescriptorAndWorkload g wl) ↔
      (∀ n ∈ g.nodes, n.datatype ≠ .none → n.shape ≠ {}) ∧
        ((∀ n ∈ g.nodes, n.datatype = .none) ∨
          ∃ n ∈ g.nodes, n.datatype ≠ .none ∧ 128 ≤ n.requiredAlignment) := by
  rw [sameGraphFacts_iff, setShapes_eq_iff, max_greatestAlignment_iff]
  simp [typedNodes, and_assoc]

/-- A graph of one tensor. -/
def oneTensor (dims : List Int64) (requiredAlignment : UInt64) : GraphDescriptor where
  nodes := [{ datatype := .f32, shape := { dims }, requiredAlignment }]

/-- A tensor without dims, and one whose alignment is below the default. -/
theorem facts_disagree :
    ¬SameGraphFacts (factsFromGraph (oneTensor [] 128))
        (factsFromDescriptorAndWorkload (oneTensor [] 128) {}) ∧
      ¬SameGraphFacts (factsFromGraph (oneTensor [4] 64))
        (factsFromDescriptorAndWorkload (oneTensor [4] 64) {}) :=
  ⟨fun h => absurd h.inputShapes (by decide), fun h => absurd h.requiredAlignment (by decide)⟩

end GraphCache
