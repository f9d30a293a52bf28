import GraphCache.Identity
import GraphCache.KeyCodec

/-!
# Keys and the order of listing

`canonical_topology` sorts nodes and edges by id. `make_facts` collects the rest from the nodes in
the order they are listed in : datatypes, layouts and shapes as lists, and of scalar, quantization
and binding the last one. Only the alignment, a maximum, does not depend on the order.

`key_order_free` : all listings of a request have the same key when the nodes agree in what is
collected from them (`Agreeing`), and only then.
-/

namespace GraphCache

/-! ## What does not depend on the order -/

section

variable {α β : Type}

/-- `f` has one value on the list. -/
def OneValue (f : α → β) (l : List α) : Prop :=
  ∀ a ∈ l, ∀ b ∈ l, f a = f b

instance [DecidableEq β] (f : α → β) (l : List α) : Decidable (OneValue f l) :=
  inferInstanceAs (Decidable (∀ a ∈ l, ∀ b ∈ l, f a = f b))

theorem OneValue.map_eq {f : α → β} {l l' : List α} (h : OneValue f l) (hp : l'.Perm l) :
    l'.map f = l.map f := by
  refine List.ext_getElem (by simp [hp.length_eq]) fun i hi hi' => ?_
  rw [List.length_map] at hi hi'
  rw [List.getElem_map, List.getElem_map]
  exact h _ (hp.subset (List.getElem_mem hi)) _ (List.getElem_mem hi')

theorem OneValue.getLast?_eq {f : α → β} {l l' : List α} (h : OneValue f l) (hp : l'.Perm l) :
    l'.getLast?.map f = l.getLast?.map f := by
  rw [← List.getLast?_map, ← List.getLast?_map, h.map_eq hp]

/-- A list whose map is the same in every order has one value. -/
theorem oneValue_of_perm [DecidableEq α] {f : α → β} {l : List α}
    (h : ∀ l' : List α, l'.Perm l → l'.map f = l.map f) : OneValue f l := by
  have hhead : ∀ a ∈ l, (l.map f).head? = some (f a) := by
    intro a ha
    rw [← h _ (List.perm_cons_erase ha).symm]
    rfl
  intro a ha b hb
  exact Option.some.inj ((hhead a ha).symm.trans (hhead b hb))

/-- If what comes last does not depend on the order, all elements have one value. -/
theorem oneValue_of_getLast? [DecidableEq α] {f : α → β} {l : List α}
    (h : ∀ l' : List α, l'.Perm l → l'.getLast?.map f = l.getLast?.map f) : OneValue f l := by
  have hlast : ∀ a ∈ l, l.getLast?.map f = some (f a) := by
    intro a ha
    rw [← h (l.erase a ++ [a]) ((List.perm_append_singleton _ _).trans (List.perm_cons_erase ha).symm)]
    simp
  intro a ha b hb
  exact Option.some.inj ((hlast a ha).symm.trans (hlast b hb))

end

instance instLawfulOrderMaxUInt64 : Std.LawfulOrderMax UInt64 where
  max_le_iff a b c := by
    rw [show max a b = if a ≤ b then b else a from rfl]
    split_ifs with h <;> simp only [UInt64.le_iff_toNat_le] at * <;> omega
  max_eq_or a b := by
    rw [show max a b = if a ≤ b then b else a from rfl]
    split_ifs with h
    · exact .inr rfl
    · exact .inl rfl

theorem max?_eq_of_perm {l l' : List UInt64} (h : l'.Perm l) : l'.max? = l.max? := by
  refine Option.ext fun a => ?_
  rw [List.max?_eq_some_iff, List.max?_eq_some_iff, h.mem_iff]
  simp only [h.mem_iff]

/-! ## What is collected -/

/-- The fields of the accumulator that are lists of what the typed nodes have, and the binding's
schema. -/
structure FactsAcc.Listed (ns : List GraphNodeDescriptor) (a : FactsAcc) : Prop where
  datatypes : a.facts.datatypes = (typedNodes ns).map (·.datatype)
  layouts : a.facts.layouts = (typedNodes ns).map (·.layout)
  memoryBindingSchema : a.facts.memoryBindingSchema = (lastBinding ns).memoryBindingSchema

theorem FactsAcc.Listed.addNode {ns : List GraphNodeDescriptor} {a : FactsAcc} (h : a.Listed ns)
    (n : GraphNodeDescriptor) : (a.addNode n).Listed (ns ++ [n]) := by
  obtain ⟨hdatatypes, hlayouts, hschema⟩ := h
  by_cases hd : n.datatype = .none
  · have hsame : typedNodes (ns ++ [n]) = typedNodes ns := by simp [typedNodes, hd]
    rw [FactsAcc.addNode_untyped a hd]
    exact ⟨by rw [hsame, hdatatypes], by rw [hsame, hlayouts],
      by rw [lastBinding, hsame, hschema, lastBinding]⟩
  · have hnew : typedNodes (ns ++ [n]) = typedNodes ns ++ [n] := by simp [typedNodes, hd]
    rw [FactsAcc.addNode_typed a hd]
    exact ⟨by simp [hnew, hdatatypes], by simp [hnew, hlayouts], by simp [lastBinding, hnew]⟩

theorem listed_foldl {a : FactsAcc} (h : a.Listed []) (ns : List GraphNodeDescriptor) :
    (ns.foldl FactsAcc.addNode a).Listed ns := by
  induction ns using List.reverseRecOn with
  | nil => exact h
  | append_singleton ns n ih =>
    rw [List.foldl_append, List.foldl_cons, List.foldl_nil]
    exact ih.addNode n

/-- The loop over the nodes, in closed form. -/
theorem collectFacts_eq (wl : WorkloadIdentity) (b : BackendIdentity) (rt : RuntimeDescriptor)
    (dv : DeviceDescriptor) (g : GraphDescriptor) :
    collectFacts wl b rt dv g = {
      workload := wl
      backend := b
      runtime := rt
      device := dv
      captureMode := g.sync.captureMode
      streamSemantics := g.sync.streamSemantics
      topologyCanonical := canonicalTopology g.nodes g.edges
      inputShapes := (typedNodes g.nodes).map (·.shape)
      outputShapes := []
      datatypes := (typedNodes g.nodes).map (·.datatype)
      layouts := (typedNodes g.nodes).map (·.layout)
      scalar := lastScalar g.nodes
      quantization := lastQuantization g.nodes
      binding := lastBinding g.nodes
      requiredAlignment := greatestAlignment g.nodes
      memoryBindingSchema := (lastBinding g.nodes).memoryBindingSchema
      dependencies := g.dependencies
      modelOperatorRevision := wl.modelOperatorRevision
      policyGeneration := wl.policyGeneration } := by
  unfold collectFacts
  generalize hstart : FactsAcc.mk _ false = start
  have hheader := FactsAcc.sameHeader_foldl g.nodes start
  have hcollected := collected_foldl (a := start) (by
    subst hstart
    exact ⟨rfl, rfl, rfl, rfl, rfl, rfl, rfl⟩) g.nodes
  have hlisted := listed_foldl (a := start) (by
    subst hstart
    exact ⟨rfl, rfl, rfl⟩) g.nodes
  subst hstart
  generalize g.nodes.foldl FactsAcc.addNode _ = acc at hheader hcollected hlisted
  obtain ⟨⟨⟩, haveAlign⟩ := acc
  obtain ⟨h₁, h₂, h₃, h₄, h₅, h₆, h₇, h₈, h₉, h₁₀⟩ := hheader
  obtain ⟨hin, hout, hscalar, hquant, hbind, halign, -⟩ := hcollected
  obtain ⟨hdt, hlay, hschema⟩ := hlisted
  simp only [CompatibilityFacts.mk.injEq] at *
  exact ⟨h₁, h₂, h₃, h₄, h₅, h₆, h₇, hin, hout, hdt, hlay, hscalar, hquant, hbind, halign, hschema,
    h₈, h₉, h₁₀⟩

/-! ## Listings -/

/-- The request with its nodes and edges listed as given. -/
def GraphLookupRequest.listed (req : GraphLookupRequest) (ns : List GraphNodeDescriptor)
    (es : List GraphEdgeDescriptor) : GraphLookupRequest :=
  { req with descriptor := { req.descriptor with nodes := ns, edges := es } }

/-- The typed nodes with a specialized scalar. -/
def specializedNodes (ns : List GraphNodeDescriptor) : List GraphNodeDescriptor :=
  (typedNodes ns).filter (·.scalar.specialized)

def quantizedNodes (ns : List GraphNodeDescriptor) : List GraphNodeDescriptor :=
  ns.filter fun n => n.quantization.mode ≠ .none

theorem lastScalar_eq (ns : List GraphNodeDescriptor) :
    lastScalar ns = ((specializedNodes ns).getLast?.map (·.scalar)).getD {} := rfl

theorem lastQuantization_eq (ns : List GraphNodeDescriptor) :
    lastQuantization ns = ((quantizedNodes ns).getLast?.map (·.quantization)).getD {} := rfl

/-- The nodes agree in what is collected from them in the order of listing. -/
structure Agreeing (ns : List GraphNodeDescriptor) : Prop where
  datatypes : OneValue (·.datatype) (typedNodes ns)
  layouts : OneValue (·.layout) (typedNodes ns)
  shapes : OneValue (·.shape) (typedNodes ns)
  bindings : OneValue (·.binding) (typedNodes ns)
  scalars : OneValue (·.scalar) (specializedNodes ns)
  quantizations : OneValue (·.quantization) (quantizedNodes ns)

/-- Every listing of the request has its key. -/
def KeyOrderFree (req : GraphLookupRequest) : Prop :=
  ∀ ns es, ns.Perm req.descriptor.nodes → es.Perm req.descriptor.edges →
    (GraphCompatibilityKey.build (makeFacts (req.listed ns es))).canonical =
      (GraphCompatibilityKey.build (makeFacts req)).canonical

section

variable {req : GraphLookupRequest} {ns : List GraphNodeDescriptor} {es : List GraphEdgeDescriptor}

theorem topology_listed (hnodes : (req.descriptor.nodes.map (·.nodeId)).Nodup)
    (hedges : (req.descriptor.edges.map (·.edgeId)).Nodup) (hn : ns.Perm req.descriptor.nodes)
    (he : es.Perm req.descriptor.edges) :
    canonicalTopology ns es = canonicalTopology req.descriptor.nodes req.descriptor.edges := by
  have hsortn := sortById_eq_of_perm (·.nodeId) hn.symm fun a ha b hb =>
    List.inj_on_of_nodup_map hnodes ha hb
  have hsorte := sortById_eq_of_perm (·.edgeId) he.symm fun a ha b hb =>
    List.inj_on_of_nodup_map hedges ha hb
  rw [← canonicalTopology_sortById ns, ← hsortn, ← hsorte, canonicalTopology_sortById]

/-- Nodes that agree are collected alike in every order. -/
theorem makeFacts_listed (hnodes : (req.descriptor.nodes.map (·.nodeId)).Nodup)
    (hedges : (req.descriptor.edges.map (·.edgeId)).Nodup) (h : Agreeing req.descriptor.nodes)
    (hn : ns.Perm req.descriptor.nodes) (he : es.Perm req.descriptor.edges) :
    makeFacts (req.listed ns es) = makeFacts req := by
  have htyped : (typedNodes ns).Perm (typedNodes req.descriptor.nodes) := hn.filter _
  have hscalar : lastScalar ns = lastScalar req.descriptor.nodes :=
    congrArg (·.getD {}) (h.scalars.getLast?_eq (htyped.filter _))
  have hquant : lastQuantization ns = lastQuantization req.descriptor.nodes :=
    congrArg (·.getD {}) (h.quantizations.getLast?_eq (hn.filter _))
  have hbind : lastBinding ns = lastBinding req.descriptor.nodes :=
    congrArg (·.getD {}) (h.bindings.getLast?_eq htyped)
  have halign : greatestAlignment ns = greatestAlignment req.descriptor.nodes :=
    congrArg (·.getD 128) (max?_eq_of_perm (htyped.map _))
  unfold makeFacts
  rw [collectFacts_eq, collectFacts_eq]
  simp only [GraphLookupRequest.listed, topology_listed hnodes hedges hn he, h.shapes.map_eq htyped,
    h.datatypes.map_eq htyped, h.layouts.map_eq htyped, hscalar, hquant, hbind, halign]

end

/-! ## What a key tells of the listing -/

/-- A filtered list in another order is the filtered list of another order. -/
theorem exists_listing {α : Type} {p : α → Bool} {l l' : List α} (h : l'.Perm (l.filter p)) :
    ∃ ns : List α, ns.Perm l ∧ ns.filter p = l' := by
  refine ⟨l' ++ l.filter (fun a => !p a), ?_, ?_⟩
  · exact (h.append_right _).trans (List.filter_append_perm p l)
  · have hall : l'.filter p = l' := List.filter_eq_self.mpr fun a ha =>
      (List.mem_filter.mp (h.subset ha)).2
    simp [List.filter_append, hall]

theorem encodeShape_inj {s s' : ShapeDescriptor} (hs : (encodeShape s).length < 2 ^ 32)
    (hs' : (encodeShape s').length < 2 ^ 32) (h : encodeShape s = encodeShape s') : s = s' := by
  have hfields := CanonicalWriter.take_injective
    (fun x hx => (length_le_take hx).trans_lt hs) (fun x hx => (length_le_take hx).trans_lt hs') h
  have hslots := congrArg (· ++ ([] : CanonicalWriter)) hfields
  obtain ⟨hslots, -⟩ := tagged_append_inj (by decide) (by simp [slotsIf]) (by simp [slotsIf])
    (by simp [Slots.Outside]) (by simp [Slots.Outside]) hslots
  simp only [List.append_assoc] at hslots
  obtain ⟨hdims, hdims', h⟩ := slotsIf_append_inj hslots rfl
  obtain ⟨-, hdynamic, h⟩ := slotsIf_append_inj h rfl
  have h := congrArg (· ++ ([] : List (Option Bytes))) h
  obtain ⟨hrank, hrank', -⟩ := slotsIf_append_inj h rfl
  refine ShapeDescriptor.ext ?_ (by simpa using hdynamic) ?_
  · exact eq_of_slot encDims_injective hdims fun hd => (List.cons.inj (hdims' hd)).1
  · exact eq_of_slot (f := encU32) (fun _ _ => encU32_inj.mp) hrank
      fun hr => (List.cons.inj (hrank' hr)).1

theorem mem_tagged {tags : List UInt16} {ps : List (Option Bytes)} {p : Bytes}
    (hl : tags.length = ps.length) (hp : some p ∈ ps) : ∃ t, ⟨t, p⟩ ∈ tagged tags ps := by
  obtain ⟨i, hi, hget⟩ := List.getElem_of_mem hp
  refine ⟨tags[i], List.reduceOption_mem_iff.mpr (List.mem_iff_getElem.mpr ⟨i, ?_, ?_⟩)⟩
  · simp [hl, hi]
  · simp [hget]

/-- No field of a node is longer than the topology. -/
theorem payload_le_topology {ns : List GraphNodeDescriptor} {es : List GraphEdgeDescriptor}
    {n : GraphNodeDescriptor} (hn : n ∈ ns) {p : Bytes} (hp : some p ∈ nodePayloads n) :
    p.length ≤ (canonicalTopology ns es).length := by
  have hlength : nodeTags.length = (nodePayloads n).length := by
    simp [nodeTags, nodePayloads, length_nodeBody n]
  obtain ⟨t, ht⟩ := mem_tagged hlength hp
  refine length_le_take (f := ⟨t, p⟩) (List.mem_cons_of_mem _ (List.mem_append_left _ ?_))
  exact List.mem_flatMap.mpr ⟨n, (sortById_perm _ _).mem_iff.mpr hn, ht⟩

section

variable {req : GraphLookupRequest} {ns : List GraphNodeDescriptor} {es : List GraphEdgeDescriptor}

/-- What is taken from the last of some nodes is at its default, or is that of a node. -/
theorem last_cases {β : Type} (f : GraphNodeDescriptor → β) (d : β) (l : List GraphNodeDescriptor) :
    (l.getLast?.map f).getD d = d ∨ ∃ n ∈ l, (l.getLast?.map f).getD d = f n := by
  cases hlast : l.getLast? with
  | none => exact .inl rfl
  | some n => exact .inr ⟨n, List.mem_of_getLast? hlast, rfl⟩

/-- If no field of a key reaches 4 GiB, none does in any other listing. -/
theorem encodable_listed (hnodes : (req.descriptor.nodes.map (·.nodeId)).Nodup)
    (hedges : (req.descriptor.edges.map (·.edgeId)).Nodup) (hn : ns.Perm req.descriptor.nodes)
    (he : es.Perm req.descriptor.edges) (h : (makeFacts req).Encodable) :
    (makeFacts (req.listed ns es)).Encodable := by
  have hstr : ∀ t s, putStr t s ∈ encodeFacts (makeFacts req) → s.length < 2 ^ 32 :=
    fun t s hs => h _ hs
  have hshape : ∀ s ∈ (makeFacts req).inputShapes, (encodeShape s).length < 2 ^ 32 :=
    fun s hs => h _ (input_written hs)
  have hdep : ∀ d ∈ (makeFacts req).dependencies, (encodeDep d).take.length < 2 ^ 32 :=
    fun d hd => h _ (dep_written hd)
  have htop := topology_listed hnodes hedges hn he
  simp only [makeFacts, collectFacts_eq, GraphLookupRequest.listed] at *
  have hlt : (canonicalTopology req.descriptor.nodes req.descriptor.edges).length < 2 ^ 32 :=
    hstr 50 _ (by simp [encodeFacts, putStr, putBytes])
  have hnode : ∀ n ∈ ns, ∀ p, some p ∈ nodePayloads n → p.length < 2 ^ 32 := fun n hmem p hp =>
    (payload_le_topology (hn.subset hmem) hp).trans_lt hlt
  have hschema : (lastBinding ns).memoryBindingSchema.length < 2 ^ 32 := by
    rcases last_cases (·.binding) {} (typedNodes ns) with hdefault | ⟨n, hmem, hlast⟩
    · rw [lastBinding, hdefault]
      exact Nat.two_pow_pos 32
    · rw [lastBinding, hlast]
      exact hnode n (List.mem_of_mem_filter hmem) _ (by simp [nodePayloads, nodeBody, slotsIf])
  have hscheme : (lastQuantization ns).customScheme.length < 2 ^ 32 := by
    rcases last_cases (·.quantization) {} (quantizedNodes ns) with hdefault | ⟨n, hmem, hlast⟩
    · rw [lastQuantization_eq, hdefault]
      exact Nat.two_pow_pos 32
    · rw [lastQuantization_eq, hlast]
      obtain ⟨hmem, hmode⟩ := List.mem_filter.mp hmem
      have hmode : n.quantization.mode ≠ .none := of_decide_eq_true hmode
      exact hnode n hmem _ (by simp [nodePayloads, nodeBody, slotsIf, hmode])
  refine encodeFacts_length_lt (by decide : 8 < 2 ^ 32) ⟨?_, ?_, ?_, ?_⟩ ⟨?_, ?_, ?_, ?_⟩ (htop ▸ hlt) ?_
    (by simp) ⟨hscheme, hschema, hschema⟩ hdep ⟨?_, ?_⟩
  · exact hstr 1 _ (by simp [encodeFacts])
  · exact hstr 3 _ (by simp [encodeFacts])
  · exact hstr 5 _ (by simp [encodeFacts])
  · exact hstr 6 _ (by simp [encodeFacts])
  · exact hstr 11 _ (by simp [encodeFacts])
  · exact hstr 13 _ (by simp [encodeFacts])
  · exact hstr 31 _ (by simp [encodeFacts])
  · exact hstr 35 _ (by simp [encodeFacts])
  · exact fun s hs => hshape s (((hn.filter _).map _).subset hs)
  · exact hstr 95 _ (by simp [encodeFacts])
  · exact hstr 96 _ (by simp [encodeFacts])

/-- What is last is told by its value, if it is not the default. -/
theorem getLast?_eq_of_getD {β : Type} {f : GraphNodeDescriptor → β} {d : β}
    {l l' : List GraphNodeDescriptor} (hp : l'.Perm l)
    (h : (∃ n ∈ l, l.getLast? = some n) → (l'.getLast?.map f).getD d = (l.getLast?.map f).getD d) :
    l'.getLast?.map f = l.getLast?.map f := by
  by_cases hl : l = []
  · subst hl
    rw [hp.eq_nil]
  · have hl' : l' ≠ [] := fun hnil => hl (hnil ▸ hp).nil_eq.symm
    have hd := h ⟨l.getLast hl, List.getLast_mem hl, List.getLast?_eq_some_getLast hl⟩
    simpa [List.getLast?_eq_some_getLast hl, List.getLast?_eq_some_getLast hl'] using hd

/-- Under one key, all listings agree in what is written. -/
theorem sameKey_of_orderFree (hnodes : (req.descriptor.nodes.map (·.nodeId)).Nodup)
    (hedges : (req.descriptor.edges.map (·.edgeId)).Nodup) (henc : (makeFacts req).Encodable)
    (h : KeyOrderFree req) (hn : ns.Perm req.descriptor.nodes) :
    (makeFacts (req.listed ns req.descriptor.edges)).SameKey (makeFacts req) := by
  have hlisted : (makeFacts (req.listed ns req.descriptor.edges)).Encodable :=
    encodable_listed hnodes hedges hn (List.Perm.refl _) henc
  have hcanonical := h ns req.descriptor.edges hn (List.Perm.refl _)
  simp only [GraphCompatibilityKey.build] at hcanonical
  exact encodeFacts_inj (CanonicalWriter.take_injective hlisted henc hcanonical)

theorem uniform_of_orderFree (hnodes : (req.descriptor.nodes.map (·.nodeId)).Nodup)
    (hedges : (req.descriptor.edges.map (·.edgeId)).Nodup) (henc : (makeFacts req).Encodable)
    (h : KeyOrderFree req) : Agreeing req.descriptor.nodes := by
  have hsame : ∀ ns : List GraphNodeDescriptor, ns.Perm req.descriptor.nodes →
      (makeFacts (req.listed ns req.descriptor.edges)).SameKey (makeFacts req) :=
    fun ns hn => sameKey_of_orderFree hnodes hedges henc h hn
  have hshort : ∀ n ∈ typedNodes req.descriptor.nodes, (encodeShape n.shape).length < 2 ^ 32 := by
    intro n hn
    refine henc _ (input_written ?_)
    rw [makeFacts, collectFacts_eq]
    exact List.mem_map_of_mem (f := (·.shape)) hn
  simp only [makeFacts, collectFacts_eq, GraphLookupRequest.listed] at hsame
  have hshapes : OneValue (fun n => encodeShape n.shape) (typedNodes req.descriptor.nodes) := by
    refine oneValue_of_perm fun l' hl' => ?_
    obtain ⟨ns, hn, rfl⟩ := exists_listing hl'
    have hwritten := (hsame ns hn).inputShapes
    rw [List.map_map, List.map_map] at hwritten
    exact hwritten
  refine ⟨?_, ?_, ?_, ?_, ?_, ?_⟩
  · refine oneValue_of_perm fun l' hl' => ?_
    obtain ⟨ns, hn, rfl⟩ := exists_listing hl'
    exact (hsame ns hn).datatypes
  · refine oneValue_of_perm fun l' hl' => ?_
    obtain ⟨ns, hn, rfl⟩ := exists_listing hl'
    exact (hsame ns hn).layouts
  · exact fun n hn m hm => encodeShape_inj (hshort n hn) (hshort m hm) (hshapes n hn m hm)
  · refine oneValue_of_getLast? fun l' hl' => getLast?_eq_of_getD (d := {}) hl' fun _ => ?_
    obtain ⟨ns, hn, rfl⟩ := exists_listing hl'
    exact (hsame ns hn).binding
  · refine oneValue_of_getLast? fun l' hl' => getLast?_eq_of_getD (d := {}) hl' ?_
    rintro ⟨n, hn, hlast⟩
    obtain ⟨ts, ht, rfl⟩ := exists_listing hl'
    obtain ⟨ns, hns, rfl⟩ := exists_listing ht
    have hspec : (lastScalar req.descriptor.nodes).specialized = true := by
      rw [lastScalar_eq, hlast]
      exact (List.mem_filter.mp hn).2
    exact (hsame ns hns).scalar ((hsame ns hns).specialized.trans hspec)
  · refine oneValue_of_getLast? fun l' hl' => getLast?_eq_of_getD (d := {}) hl' ?_
    rintro ⟨n, hn, hlast⟩
    obtain ⟨ns, hns, rfl⟩ := exists_listing hl'
    have hmode : (lastQuantization req.descriptor.nodes).mode ≠ .none := by
      rw [lastQuantization_eq, hlast]
      exact of_decide_eq_true (List.mem_filter.mp hn).2
    exact (hsame ns hns).quantization ((hsame ns hns).quantizationMode ▸ hmode)

end

/-- All listings of a request have one key when its nodes agree in what is collected in the order
of listing, and, if no field of the key reaches 4 GiB, only then. -/
theorem key_order_free (req : GraphLookupRequest)
    (hnodes : (req.descriptor.nodes.map (·.nodeId)).Nodup)
    (hedges : (req.descriptor.edges.map (·.edgeId)).Nodup) :
    (Agreeing req.descriptor.nodes → KeyOrderFree req) ∧
      ((makeFacts req).Encodable → KeyOrderFree req → Agreeing req.descriptor.nodes) := by
  refine ⟨fun h ns es hn he => ?_, uniform_of_orderFree hnodes hedges⟩
  rw [makeFacts_listed hnodes hedges h hn he]

/-- A request for two tensors of the given datatypes. -/
def tensorsRequest (first second : Datatype) : GraphLookupRequest where
  descriptor := { nodes := [{ nodeId := ⟨0, 1⟩, datatype := first },
    { nodeId := ⟨0, 2⟩, datatype := second }] }

theorem key_order_free_alike : KeyOrderFree (tensorsRequest .f32 .f32) := by
  refine (key_order_free _ (by decide) (by decide)).1 ⟨?_, ?_, ?_, ?_, ?_, ?_⟩ <;> decide

/-- Two tensors of different datatypes, listed the other way around. -/
theorem key_order_matters :
    ((tensorsRequest .f32 ⟨2⟩).descriptor.nodes.map (·.nodeId)).Nodup ∧
      ((tensorsRequest .f32 ⟨2⟩).descriptor.edges.map (·.edgeId)).Nodup ∧
      ¬KeyOrderFree (tensorsRequest .f32 ⟨2⟩) := by
  refine ⟨by decide, by decide, fun h => ?_⟩
  have hswapped := h [{ nodeId := ⟨0, 2⟩, datatype := ⟨2⟩ }, { nodeId := ⟨0, 1⟩, datatype := .f32 }]
    [] (List.Perm.swap _ _ _) .rfl
  revert hswapped
  simp only [GraphCompatibilityKey.build]
  decide +kernel

end GraphCache
