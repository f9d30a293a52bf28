import GraphCache.Finalization

/-!
# Content and identity

What the canonical bytes of a graph say about it, and whether its artifact id says as much.

`canonicalTopology_eq_iff` : two graphs have the same canonical topology exactly when they have the
same edges and, listed by id, nodes that agree in all that `encode_node` does not leave out
(`GraphNodeDescriptor.Agrees`).

`finalize` derives the artifact id from the semantic digest, unless the descriptor brings a valid
one. `artifactId_derived_iff` : the id tells two contents apart as long as neither descriptor arrives
with the id of the other.
-/

namespace GraphCache

/-! ## The canonical topology -/

/-- Equal but for kernel and launch of a node that is no kernel, the provenance of a kernel, the
value of a node that is no memset, shape and layout without a datatype, an unspecialized scalar,
an absent quantization, and the high half of a child id whose low half is zero. -/
structure GraphNodeDescriptor.Agrees (n n' : GraphNodeDescriptor) : Prop where
  nodeId : n.nodeId = n'.nodeId
  category : n.category = n'.category
  name : n.name = n'.name
  kernel : n.category = .kernel → n.kernel.normalize = n'.kernel.normalize
  launch : n.category = .kernel → n.launch = n'.launch
  memoryBytes : n.memoryBytes = n'.memoryBytes
  memsetValue : n.category = .memorySet → n.memsetValue = n'.memsetValue
  datatype : n.datatype = n'.datatype
  shape : n.datatype ≠ .none → n.shape = n'.shape
  layout : n.datatype ≠ .none → n.layout = n'.layout
  specialized : n.scalar.specialized = n'.scalar.specialized
  scalar : n.scalar.specialized → n.scalar = n'.scalar
  mode : n.quantization.mode = n'.quantization.mode
  quantization : n.quantization.mode ≠ .none → n.quantization = n'.quantization
  binding : n.binding = n'.binding
  requiredAlignment : n.requiredAlignment = n'.requiredAlignment
  childGraphLo : n.childGraphLo = n'.childGraphLo
  childGraphHi : n.childGraphLo ≠ 0 → n.childGraphHi = n'.childGraphHi
  backendOpaque : n.backendOpaque = n'.backendOpaque
  reactiveInputIndices : n.reactiveInputIndices = n'.reactiveInputIndices
  reactiveOutputIndices : n.reactiveOutputIndices = n'.reactiveOutputIndices

theorem normalize_eq_iff {n n' : GraphNodeDescriptor} :
    n.normalize = n'.normalize ↔ n.Agrees n' := by
  constructor
  · intro h
    have hcategory : n.category = n'.category := congrArg (·.category) h
    have hdatatype : n.datatype = n'.datatype := congrArg (·.datatype) h
    have hlow : n.childGraphLo = n'.childGraphLo := congrArg (·.childGraphLo) h
    have hspecialized : n.scalar.specialized = n'.scalar.specialized := by
      rw [← specialized_normalize n, h, specialized_normalize]
    have hmode : n.quantization.mode = n'.quantization.mode := by
      rw [← mode_normalize n, h, mode_normalize]
    simp only [GraphNodeDescriptor.normalize, GraphNodeDescriptor.mk.injEq, hcategory, hdatatype,
      hlow, hspecialized, hmode] at h
    obtain ⟨hid, -, hname, hkernel, hlaunch, hbytes, hmemset, hshape, -, hlayout, hscalar, hquant,
      hbinding, hreq, hhigh, -, hopaque, hin, hout⟩ := h
    constructor <;> first
      | assumption
      | (intro hc; simp_all [KernelIdentityRef.normalize])
  · intro h
    have hkernel := h.kernel
    obtain ⟨⟩ := h
    simp_all [GraphNodeDescriptor.normalize, KernelIdentityRef.normalize]

/-- A node record holds nothing of what is left out. -/
theorem encodeNode_normalize (n : GraphNodeDescriptor) : encodeNode n.normalize = encodeNode n := by
  rw [encodeNode, nodePayloads_normalize, ← encodeNode]

/-- The canonical topology identifies what agrees up to its omissions, and nothing else. -/
theorem canonicalTopology_eq_iff {ns ns' : List GraphNodeDescriptor}
    {es es' : List GraphEdgeDescriptor} (hs : Encodable ns es) (hs' : Encodable ns' es') :
    canonicalTopology ns es = canonicalTopology ns' es' ↔
      sortById (·.edgeId) es = sortById (·.edgeId) es' ∧
        List.Forall₂ GraphNodeDescriptor.Agrees (sortById (·.nodeId) ns)
          (sortById (·.nodeId) ns') := by
  have hagree : List.Forall₂ GraphNodeDescriptor.Agrees (sortById (·.nodeId) ns)
      (sortById (·.nodeId) ns') ↔ (sortById (·.nodeId) ns).map (·.normalize) =
        (sortById (·.nodeId) ns').map (·.normalize) := by
    simp only [← List.forall₂_eq_eq_eq, List.forall₂_map_left_iff, List.forall₂_map_right_iff,
      normalize_eq_iff]
  rw [hagree]
  constructor
  · intro h
    obtain ⟨hnodes, hedges⟩ := canonicalTopology_inj hs hs' h
    exact ⟨hedges, map_normalize_of_payloads hnodes⟩
  · rintro ⟨hedges, hnodes⟩
    -- The counts are those of the sorted lists.
    have hlength : ns.length = ns'.length := by
      simpa using congrArg List.length hnodes
    have hlength' : es.length = es'.length := by
      simpa using congrArg List.length hedges
    have hrecords : (sortById (·.nodeId) ns).flatMap encodeNode =
        (sortById (·.nodeId) ns').flatMap encodeNode := by
      have hencode : ∀ l : List GraphNodeDescriptor,
          l.flatMap encodeNode = (l.map (·.normalize)).flatMap encodeNode := by
        intro l
        simp [List.flatMap_map, encodeNode_normalize]
      rw [hencode, hnodes, ← hencode]
    rw [canonicalTopology, canonicalTopology, canonicalFields, canonicalFields, hrecords, hedges,
      hlength, hlength']

/-- The value of a kernel's memset, which it has no use for, is left out. -/
theorem canonicalTopology_eq_memset :
    canonicalTopology [{ nodeId := ⟨0, 1⟩, memsetValue := 3 }] [] =
        canonicalTopology [{ nodeId := ⟨0, 1⟩, memsetValue := 5 }] [] ↔
      sortById (·.edgeId) [] = sortById (·.edgeId) ([] : List GraphEdgeDescriptor) ∧
        List.Forall₂ GraphNodeDescriptor.Agrees
          (sortById (·.nodeId) [{ nodeId := ⟨0, 1⟩, memsetValue := 3 }])
          (sortById (·.nodeId) [{ nodeId := ⟨0, 1⟩, memsetValue := 5 }]) :=
  canonicalTopology_eq_iff (by unfold Encodable; decide) (by unfold Encodable; decide)

/-! ## The artifact id -/

/-- `finalize` without the guard : the id read off the digest of the content. -/
def GraphDescriptor.derivedId (g : GraphDescriptor) : GraphArtifactId :=
  .ofDigest (Sha256.compute (canonicalSemantic g))

/-- A descriptor arrives with a valid artifact id that is the one of `g'` : the id that `g'` arrives
with, or the one derived for it. -/
def GraphDescriptor.BringsIdOf (g g' : GraphDescriptor) : Prop :=
  g.artifactId.valid = true ∧
    (g.artifactId = g'.artifactId ∨
      g'.artifactId.valid = false ∧ g.artifactId = g'.derivedId)

section

variable {o o' : IterationOrder GraphNodeId} {g g' f f' : GraphDescriptor}

theorem canonicalSemantic_canonicalizeTopology (g : GraphDescriptor) :
    canonicalSemantic (canonicalizeTopology g) = canonicalSemantic g := by
  have htopology := canonicalTopology_sortById g.nodes g.edges
  simp only [canonicalSemantic, canonicalizeTopology, htopology]
  rfl

theorem derivedId_congr (h : canonicalSemantic g = canonicalSemantic g') :
    g.derivedId = g'.derivedId := by
  rw [GraphDescriptor.derivedId, h, ← GraphDescriptor.derivedId]

/-- A valid id is kept. -/
theorem finalized_of_valid (g : GraphDescriptor) (h : g.artifactId.valid = true) :
    g.finalized.artifactId = g.artifactId :=
  if_pos h

/-- The content and the id that `finalize` leaves. -/
theorem finalize_identity (h : g.finalize o = .ok f) :
    f.semanticCanonical = canonicalSemantic g ∧
      f.artifactId = if g.artifactId.valid then g.artifactId else g.derivedId := by
  obtain ⟨-, rfl⟩ := finalize_ok_iff.mp h
  simp [GraphDescriptor.finalized, GraphDescriptor.derivedId, canonicalSemantic_canonicalizeTopology]

/-- Equal ids mean equal contents, unless one descriptor brings the id of another content. -/
theorem artifactId_derived_iff (h : g.finalize o = .ok f) (h' : g'.finalize o' = .ok f')
    (hsha : Set.InjOn (fun b => Id128.ofDigest (Sha256.compute b))
      {f.semanticCanonical, f'.semanticCanonical}) :
    (f.artifactId = f'.artifactId → f.semanticCanonical = f'.semanticCanonical) ↔
      (canonicalSemantic g ≠ canonicalSemantic g' → ¬g.BringsIdOf g' ∧ ¬g'.BringsIdOf g) := by
  obtain ⟨hcontent, hid⟩ := finalize_identity h
  obtain ⟨hcontent', hid'⟩ := finalize_identity h'
  have hderived : g.derivedId = g'.derivedId → canonicalSemantic g = canonicalSemantic g' := by
    rw [hcontent, hcontent'] at hsha
    exact fun heq => hsha (by simp) (by simp) heq
  -- Where the contents differ the ids are equal exactly when one of the two was brought.
  have hbrought : canonicalSemantic g ≠ canonicalSemantic g' →
      (f.artifactId = f'.artifactId ↔ g.BringsIdOf g' ∨ g'.BringsIdOf g) := by
    intro hne
    have hne : g.derivedId ≠ g'.derivedId := mt hderived hne
    rw [hid, hid']
    unfold GraphDescriptor.BringsIdOf
    cases hv : g.artifactId.valid <;> cases hv' : g'.artifactId.valid
    · simpa using hne
    · have hids : g'.artifactId ≠ g.artifactId := fun heq => by simp [heq, hv] at hv'
      simp [hids, eq_comm]
    · have hids : g.artifactId ≠ g'.artifactId := fun heq => by simp [heq, hv'] at hv
      simp [hids]
    · simp [eq_comm]
  rw [hcontent, hcontent']
  constructor
  · intro hid hne
    exact not_or.mp fun hbrings => hne (hid ((hbrought hne).mpr hbrings))
  · intro hcond heq
    by_contra hne
    exact not_or.mpr (hcond hne) ((hbrought hne).mp heq)

end

/-- A graph of one node. -/
def oneNode (name : String) : GraphDescriptor where
  nodes := [{ nodeId := ⟨0, 1⟩ }]
  provenance := { graphName := str name }

theorem derivedId_oneNode :
    (oneNode "a").derivedId = ⟨12528610858137971478, 14413122410081435674⟩ ∧
      (oneNode "b").derivedId = ⟨1858992211808053316, 5915239364083229156⟩ := by
  constructor <;> decide +kernel

theorem derivedId_oneNode_ne : (oneNode "a").derivedId ≠ (oneNode "b").derivedId := by
  rw [derivedId_oneNode.1, derivedId_oneNode.2]
  decide

/-- The digests of the two graphs differ in their first half. -/
theorem injOn_oneNode : Set.InjOn (fun b => Id128.ofDigest (Sha256.compute b))
    {canonicalSemantic (oneNode "a"), canonicalSemantic (oneNode "b")} := by
  rw [Set.injOn_pair]
  exact fun h => absurd h derivedId_oneNode_ne

theorem artifactId_derived_fresh :
    ((oneNode "a").finalized.artifactId = (oneNode "b").finalized.artifactId →
      (oneNode "a").finalized.semanticCanonical = (oneNode "b").finalized.semanticCanonical) ↔
    (canonicalSemantic (oneNode "a") ≠ canonicalSemantic (oneNode "b") →
      ¬(oneNode "a").BringsIdOf (oneNode "b") ∧ ¬(oneNode "b").BringsIdOf (oneNode "a")) :=
  artifactId_derived_iff
    (show (oneNode "a").finalize (.insertion _) = _ from finalize_of_valid (by decide))
    (show (oneNode "b").finalize (.insertion _) = _ from finalize_of_valid (by decide))
    injOn_oneNode

/-- A descriptor that was finalized, renamed and finalized again keeps its first id. -/
theorem artifactId_kept :
    let f := (oneNode "a").finalized
    let g : GraphDescriptor := { f with provenance := { f.provenance with graphName := str "b" } }
    (oneNode "a").finalize (.insertion _) = .ok f ∧
      g.finalize (.insertion _) = .ok g.finalized ∧
      Set.InjOn (fun b => Id128.ofDigest (Sha256.compute b))
        {f.semanticCanonical, g.finalized.semanticCanonical} ∧
      f.artifactId = g.finalized.artifactId ∧
      f.semanticCanonical ≠ g.finalized.semanticCanonical := by
  intro f g
  have hok : (oneNode "a").finalize (.insertion _) = .ok f := finalize_of_valid (by decide)
  have hok' : g.finalize (.insertion _) = .ok g.finalized := finalize_of_valid (by decide)
  obtain ⟨hcontent, hid⟩ := finalize_identity hok
  have hcontent' : g.finalized.semanticCanonical = canonicalSemantic (oneNode "b") :=
    (finalize_identity hok').1.trans <|
      (canonicalSemantic_derived (g := canonicalizeTopology (oneNode "b")) f.artifactId
        f.topologyCanonical f.semanticCanonical f.topologyDigest f.semanticDigest).trans
        (canonicalSemantic_canonicalizeTopology _)
  have hvalid : f.artifactId.valid = true := by
    rw [hid, if_neg (by decide), derivedId_oneNode.1]
    rfl
  rw [hcontent, hcontent']
  exact ⟨hok, hok', injOn_oneNode, (finalized_of_valid g hvalid).symm,
    fun heq => derivedId_oneNode_ne (derivedId_congr heq)⟩

end GraphCache
