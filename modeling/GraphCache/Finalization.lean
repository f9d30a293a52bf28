import GraphCache.KahnLoop
import GraphCache.Topology

/-!
# Validation and finalize

`validate_topology` accepts exactly the well-formed graphs, whatever order its hash containers are
iterated in, and its loop over the in-degrees ends without a counter wrapping
(`validateTopology_exact`).

`GraphDescriptor::finalize` works on `*this`. `finalizeHere` is the method assignment by assignment,
with the descriptor it leaves behind; `Topology.finalize` is what it gives on success
(`finalize_finalizeHere`). It is a canonicalization : listings of one graph become one descriptor,
which a second call leaves alone (`finalize_canonical`).
-/

namespace GraphCache

/-! ## Validation -/

/-- The in-degrees and the ready list with which the loop of `validate_topology` starts. -/
def kahnStart (o : IterationOrder GraphNodeId) (nodes : List GraphNodeDescriptor)
    (edges : List GraphEdgeDescriptor) : (GraphNodeId → ℕ) × List GraphNodeId :=
  (Kahn.inDegree (edges.map (·.ends)),
    (o.arrange (nodes.map (·.nodeId))).filter fun v => Kahn.inDegree (edges.map (·.ends)) v = 0)

/-- Once nodes and edges are checked, the outcome is that of the loop. -/
theorem validateTopology_of_checked {o : IterationOrder GraphNodeId}
    {nodes : List GraphNodeDescriptor} {edges : List GraphEdgeDescriptor}
    (hn : checkNodes [] nodes = .ok ()) (he : checkEdges nodes [] edges = .ok ()) :
    validateTopology o nodes edges =
      if (Kahn.order id (o.arrange (nodes.map (·.nodeId))) (edges.map (·.ends))).length ≠
        nodes.length then fail .topologyCycle "topology contains a cycle" else .ok () := by
  rw [validateTopology, hn, he]
  rfl

/-- Validation accepts exactly the well-formed graphs. On every input that reaches the loop, the
loop ends and no in-degree goes below zero; what it visits decides. -/
theorem validateTopology_exact (o : IterationOrder GraphNodeId) (nodes : List GraphNodeDescriptor)
    (edges : List GraphEdgeDescriptor) :
    (validateTopology o nodes edges = .ok () ↔ WellFormed nodes edges) ∧
      (checkNodes [] nodes = .ok () → checkEdges nodes [] edges = .ok () →
        ∃! visited, Kahn.Loop id (Kahn.adjacent (edges.map (·.ends))) (kahnStart o nodes edges)
          visited ∧ validateTopology o nodes edges =
            if visited.length ≠ nodes.length then fail .topologyCycle "topology contains a cycle"
            else .ok ()) := by
  refine ⟨validateTopology_ok_iff, fun hn he => ?_⟩
  have hnodup := (o.perm (nodes.map (·.nodeId))).nodup_iff.mpr (checkNodes_ok_iff.mp hn).2
  have hproper : ∀ e ∈ edges, e.Proper nodes := fun e hmem => ((checkEdges_ok_iff.mp he).1 e hmem).1
  have hid : ∀ l : List GraphNodeId, (id l).Perm l := fun _ => .rfl
  have hloop := Kahn.loop_order hid hnodup fun e hmem => (ends_mem_arrange hproper e hmem).2
  exact ⟨_, ⟨hloop, validateTopology_of_checked hn he⟩, fun visited h => h.1.unique hloop⟩

/-! ## Finalize -/

/-- `GraphDescriptor::finalize` : its result, and the descriptor it leaves behind. -/
def GraphDescriptor.finalizeHere (o : IterationOrder GraphNodeId) (g : GraphDescriptor) :
    Result Unit × GraphDescriptor :=
  match validateTopology o g.nodes g.edges with
  | .error e => (.error e, g)
  | .ok () =>
    let canon := canonicalizeTopology g
    let g := { g with nodes := canon.nodes }
    let g := { g with edges := canon.edges }
    let g := { g with topologyCanonical := canonicalTopology g.nodes g.edges }
    let g := { g with topologyDigest := Sha256.compute g.topologyCanonical }
    let g := { g with semanticCanonical := canonicalSemantic g }
    let g := { g with semanticDigest := Sha256.compute g.semanticCanonical }
    let g := if g.artifactId.valid then g else { g with artifactId := .ofDigest g.semanticDigest }
    (.ok (), g)

section

variable {o o' : IterationOrder GraphNodeId} {g : GraphDescriptor}

/-- The descriptor that a successful call leaves behind. Of the fields that it writes it reads the
artifact id only. -/
def GraphDescriptor.finalized (g : GraphDescriptor) : GraphDescriptor :=
  let semantic := canonicalSemantic (canonicalizeTopology g)
  { canonicalizeTopology g with
    topologyCanonical := canonicalTopology g.nodes g.edges
    topologyDigest := Sha256.compute (canonicalTopology g.nodes g.edges)
    semanticCanonical := semantic
    semanticDigest := Sha256.compute semantic
    artifactId := if g.artifactId.valid then g.artifactId else .ofDigest (Sha256.compute semantic) }

/-- The semantic encoding does not read what `finalize` derives. -/
theorem canonicalSemantic_derived (id : GraphArtifactId) (topology semantic : Bytes)
    (topologyDigest semanticDigest : Digest) :
    canonicalSemantic { g with
      artifactId := id
      topologyCanonical := topology
      topologyDigest
      semanticCanonical := semantic
      semanticDigest } = canonicalSemantic g := by
  rfl

theorem finalizeHere_of_wellFormed (h : WellFormed g.nodes g.edges) :
    g.finalizeHere o = (.ok (), g.finalized) := by
  have htopology : canonicalTopology (sortById (·.nodeId) g.nodes) (sortById (·.edgeId) g.edges) =
      canonicalTopology g.nodes g.edges := canonicalTopology_sortById _ _
  have hsemantic := canonicalSemantic_derived (g := canonicalizeTopology g) g.artifactId
    (canonicalTopology g.nodes g.edges) g.semanticCanonical
    (Sha256.compute (canonicalTopology g.nodes g.edges)) g.semanticDigest
  simp only [canonicalizeTopology] at hsemantic
  rw [GraphDescriptor.finalizeHere, validateTopology_ok_iff.mpr h]
  simp only [GraphDescriptor.finalized, canonicalizeTopology, htopology, hsemantic]
  split_ifs <;> rfl

theorem finalizeHere_ok_iff : (g.finalizeHere o).1 = .ok () ↔ WellFormed g.nodes g.edges := by
  constructor
  · intro h
    rw [GraphDescriptor.finalizeHere] at h
    split at h
    · cases h
    · rename_i hok
      exact validateTopology_ok_iff.mp hok
  · intro h
    rw [finalizeHere_of_wellFormed h]

/-- What `finalize` returns on success is what the method leaves behind. -/
theorem finalize_finalizeHere : g.finalize o = (g.finalizeHere o).1.map fun _ => (g.finalizeHere o).2 := by
  by_cases h : WellFormed g.nodes g.edges
  · have htopology : canonicalTopology (canonicalizeTopology g).nodes
        (canonicalizeTopology g).edges = canonicalTopology g.nodes g.edges :=
      canonicalTopology_sortById _ _
    rw [finalizeHere_of_wellFormed h, GraphDescriptor.finalize, validateTopology_ok_iff.mpr h]
    simp only [GraphDescriptor.finalized, htopology, bind, Except.bind, pure, Except.pure,
      Except.map]
    rfl
  · rw [GraphDescriptor.finalizeHere, GraphDescriptor.finalize]
    cases hv : validateTopology o g.nodes g.edges with
    | error e => rfl
    | ok u => exact absurd (validateTopology_ok_iff.mp hv) h

theorem finalize_ok_iff {g' : GraphDescriptor} :
    g.finalize o = .ok g' ↔ WellFormed g.nodes g.edges ∧ g' = g.finalized := by
  rw [finalize_finalizeHere]
  by_cases h : WellFormed g.nodes g.edges
  · rw [finalizeHere_of_wellFormed h]
    simp [Except.map, h, eq_comm]
  · cases hr : (g.finalizeHere o).1 with
    | error e => simp [Except.map, h]
    | ok u => exact absurd (finalizeHere_ok_iff.mp hr) h

theorem wellFormed_finalized (h : WellFormed g.nodes g.edges) :
    WellFormed g.finalized.nodes g.finalized.edges :=
  h.perm ((sortById_perm _ g.nodes).map _).symm (sortById_perm _ g.edges).symm

theorem wellFormed_of_finalize {g' : GraphDescriptor} (h : g.finalize o = .ok g') :
    WellFormed g'.nodes g'.edges := by
  obtain ⟨hwf, rfl⟩ := finalize_ok_iff.mp h
  exact wellFormed_finalized hwf

theorem finalize_of_valid (h : validateTopology o g.nodes g.edges = .ok ()) :
    g.finalize o = .ok g.finalized :=
  finalize_ok_iff.mpr ⟨validateTopology_ok_iff.mp h, rfl⟩

/-- A failed call changes nothing. -/
theorem finalizeHere_of_not_ok (h : (g.finalizeHere o).1 ≠ .ok ()) : (g.finalizeHere o).2 = g := by
  rw [GraphDescriptor.finalizeHere] at h ⊢
  cases hv : validateTopology o g.nodes g.edges with
  | error e => rfl
  | ok u => simp [hv] at h

/-- Listings of a well-formed graph are sorted into one. -/
theorem canonicalizeTopology_of_perm (h : WellFormed g.nodes g.edges)
    {ns : List GraphNodeDescriptor} {es : List GraphEdgeDescriptor} (hn : ns.Perm g.nodes)
    (he : es.Perm g.edges) :
    canonicalizeTopology { g with nodes := ns, edges := es } = canonicalizeTopology g := by
  have hnodes : sortById (·.nodeId) g.nodes = sortById (·.nodeId) ns :=
    sortById_eq_of_perm _ hn.symm fun a ha b hb => List.inj_on_of_nodup_map h.nodeIds ha hb
  have hedges : sortById (·.edgeId) g.edges = sortById (·.edgeId) es :=
    sortById_eq_of_perm _ he.symm fun a ha b hb => List.inj_on_of_nodup_map h.edgeIds ha hb
  simp only [canonicalizeTopology, hnodes, hedges]

theorem finalized_of_perm (h : WellFormed g.nodes g.edges) {ns : List GraphNodeDescriptor}
    {es : List GraphEdgeDescriptor} (hn : ns.Perm g.nodes) (he : es.Perm g.edges) :
    GraphDescriptor.finalized { g with nodes := ns, edges := es } = g.finalized := by
  have hcanon := canonicalizeTopology_of_perm h hn he
  have htopology : canonicalTopology ns es = canonicalTopology g.nodes g.edges := by
    rw [← canonicalTopology_sortById, ← canonicalTopology_sortById g.nodes]
    exact congrArg₂ canonicalTopology (congrArg GraphDescriptor.nodes hcanon)
      (congrArg GraphDescriptor.edges hcanon)
  simp only [GraphDescriptor.finalized, hcanon, htopology]

/-- The second call derives what the first one did. -/
theorem finalized_finalized : g.finalized.finalized = g.finalized := by
  have hnodes : g.finalized.nodes = sortById (·.nodeId) g.nodes := rfl
  have hedges : g.finalized.edges = sortById (·.edgeId) g.edges := rfl
  have hcanon : canonicalizeTopology g.finalized = g.finalized := by
    simp only [canonicalizeTopology, hnodes, hedges, sortById_sortById]
    rfl
  have htopology : canonicalTopology g.finalized.nodes g.finalized.edges =
      canonicalTopology g.nodes g.edges := canonicalTopology_sortById _ _
  have hsemantic : canonicalSemantic g.finalized = canonicalSemantic (canonicalizeTopology g) :=
    canonicalSemantic_derived (g := canonicalizeTopology g) _ _ _ _ _
  have hid : (if g.finalized.artifactId.valid then g.finalized.artifactId else
      .ofDigest (Sha256.compute (canonicalSemantic (canonicalizeTopology g)))) =
      g.finalized.artifactId := by
    simp only [GraphDescriptor.finalized]
    split_ifs <;> rfl
  conv_lhs => rw [GraphDescriptor.finalized]
  simp only [hcanon, htopology, hsemantic, hid]
  rfl

/-- `finalize` is a canonicalization : every listing of the graph becomes the same descriptor, a
second call changes nothing, and neither does a call that fails. -/
theorem finalize_canonical (o o' : IterationOrder GraphNodeId) (g : GraphDescriptor) :
    ((g.finalizeHere o).1 = .ok () → ∀ (ns : List GraphNodeDescriptor)
      (es : List GraphEdgeDescriptor), ns.Perm g.nodes → es.Perm g.edges →
        GraphDescriptor.finalizeHere o' { g with nodes := ns, edges := es } = g.finalizeHere o) ∧
    ((g.finalizeHere o).1 = .ok () →
      (g.finalizeHere o).2.finalizeHere o' = g.finalizeHere o) ∧
    ((g.finalizeHere o).1 ≠ .ok () → (g.finalizeHere o).2 = g) := by
  refine ⟨fun hok ns es hn he => ?_, fun hok => ?_, finalizeHere_of_not_ok⟩
  · have h := finalizeHere_ok_iff.mp hok
    have h' : WellFormed ns es := h.perm (hn.map _).symm he.symm
    rw [finalizeHere_of_wellFormed h, finalizeHere_of_wellFormed (o := o') (by exact h'),
      finalized_of_perm h hn he]
  · have h := finalizeHere_ok_iff.mp hok
    rw [finalizeHere_of_wellFormed h, finalizeHere_of_wellFormed (wellFormed_finalized h),
      finalized_finalized]

end

end GraphCache
