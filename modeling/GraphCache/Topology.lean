import GraphCache.Kahn
import GraphCache.Types

/-!
# Topology

`topology.cpp` : nodes and edges, their checks, and the canonical encoding whose digest names a
graph.

`encode_node` leaves out what a node's category, datatype or flags make irrelevant. Here the node
is a list of slots, absent or holding a payload (`nodePayloads`), and the encoder writes the slots
that are present under its own tags; the descriptor codec of `serialization.cpp` writes the same
slots under other tags. `normalize` resets what is left out : two nodes have the same slots exactly
when they agree up to `normalize` (`nodePayloads_inj`, `nodePayloads_normalize`), and
`canonicalTopology_inj` carries this to whole graphs.

Iterating a hash container visits its elements in an order the program does not control; an
`IterationOrder` is one such order.
-/

namespace GraphCache

structure DependencyKind where
  raw : UInt32
  deriving DecidableEq, Repr

def DependencyKind.execution : DependencyKind := ⟨1⟩

structure GraphNodeDescriptor where
  nodeId : GraphNodeId := {}
  category : NodeCategory := .kernel
  name : Str := []
  kernel : KernelIdentityRef := {}
  launch : LaunchGeometry := {}
  memoryBytes : UInt64 := 0
  memsetValue : UInt8 := 0
  shape : ShapeDescriptor := {}
  datatype : Datatype := .none
  layout : TensorLayout := .contiguous
  scalar : ScalarSpecialization := {}
  quantization : QuantizationConfig := {}
  binding : BindingDescriptor := {}
  requiredAlignment : UInt64 := 128
  childGraphHi : UInt64 := 0
  childGraphLo : UInt64 := 0
  backendOpaque : Bytes := []
  reactiveInputIndices : List UInt32 := []
  reactiveOutputIndices : List UInt32 := []
  deriving DecidableEq, Repr

structure GraphEdgeDescriptor where
  edgeId : GraphEdgeId := {}
  fromNode : GraphNodeId := {}
  toNode : GraphNodeId := {}
  kind : DependencyKind := .execution
  label : Str := []
  deriving DecidableEq, Repr

structure GraphDescriptor where
  artifactId : GraphArtifactId := {}
  generation : GraphGeneration := 0
  backend : BackendIdentity := {}
  runtime : RuntimeDescriptor := {}
  device : DeviceDescriptor := {}
  sync : SynchronizationDescriptor := {}
  nodes : List GraphNodeDescriptor := []
  edges : List GraphEdgeDescriptor := []
  dependencies : List KernelIdentityRef := []
  provenance : ProvenanceDescriptor := {}
  topologyCanonical : Bytes := []
  topologyDigest : Digest := List.replicate 32 0
  semanticCanonical : Bytes := []
  semanticDigest : Digest := List.replicate 32 0
  deriving DecidableEq, Repr

/-! ## The canonical encoding -/

/-- Slots that are present exactly when `c` holds. -/
def slotsIf (c : Prop) [Decidable c] (ps : List Bytes) : List (Option Bytes) :=
  ps.map fun p => if c then some p else none

/-- The slots after the node id, in the order of `encode_node`. -/
def nodeBody (n : GraphNodeDescriptor) : List (Option Bytes) :=
  slotsIf True [encU32 n.category.raw, n.name] ++
  slotsIf (n.category = .kernel)
    [n.kernel.name, encU64 n.kernel.idHi, encU64 n.kernel.idLo, encU64 n.kernel.generation,
      encU32 n.kernel.abi, n.kernel.contentDigest, encBool n.kernel.contributesToCorrectness,
      encU32 n.launch.gridX, encU32 n.launch.gridY, encU32 n.launch.gridZ,
      encU32 n.launch.blockX, encU32 n.launch.blockY, encU32 n.launch.blockZ,
      encU32 n.launch.sharedMemoryBytes] ++
  slotsIf True [encU64 n.memoryBytes] ++
  slotsIf (n.category = .memorySet) [encU8 n.memsetValue] ++
  slotsIf (n.datatype ≠ .none ∧ n.shape.dims ≠ [])
    [encU64List (n.shape.dims.map Int64.toUInt64)] ++
  slotsIf (n.datatype ≠ .none) [encBool n.shape.dynamic] ++
  slotsIf (n.datatype ≠ .none ∧ n.shape.maxRank ≠ 0) [encU32 n.shape.maxRank] ++
  slotsIf (n.datatype ≠ .none) [encU32 n.datatype.raw, encU32 n.layout.raw] ++
  slotsIf (n.scalar.specialized = true)
    [encBool true, encI64 n.scalar.intValue, encF64 n.scalar.floatValue] ++
  slotsIf True [encU32 n.quantization.mode.raw] ++
  slotsIf (n.quantization.mode ≠ .none)
    [encU32 n.quantization.groupSize, encBool n.quantization.symmetric,
      n.quantization.customScheme] ++
  slotsIf True
    [encU32 n.binding.bindingClass.raw, encU32 n.binding.alignment, n.binding.memoryBindingSchema,
      encBool n.binding.rebindingEligible, encU64 n.requiredAlignment] ++
  slotsIf (n.childGraphLo ≠ 0) [encU64 n.childGraphHi, encU64 n.childGraphLo] ++
  slotsIf (n.reactiveInputIndices ≠ [])
    [encU64List (n.reactiveInputIndices.map UInt32.toUInt64)] ++
  slotsIf (n.reactiveOutputIndices ≠ [])
    [encU64List (n.reactiveOutputIndices.map UInt32.toUInt64)] ++
  slotsIf (n.backendOpaque ≠ []) [n.backendOpaque]

/-- All slots of a node. -/
def nodePayloads (n : GraphNodeDescriptor) : List (Option Bytes) :=
  some (encU64 n.nodeId.hi) :: some (encU64 n.nodeId.lo) :: nodeBody n

/-- The slots that are present, each under the tag of its position. -/
def tagged (tags : List UInt16) (ps : List (Option Bytes)) : CanonicalWriter :=
  (List.zipWith (fun t p => p.map (Field.mk t)) tags ps).reduceOption

/-- `N_CATEGORY`, `N_NAME`, the kernel identity, the launch geometry, and the rest, in the order
in which `encode_node` puts them. -/
def nodeBodyTags : List UInt16 :=
  [3, 4, 12, 6, 7, 9, 8, 10, 11, 13, 14, 15, 16, 17, 18, 19, 20, 21, 22, 23, 24, 25, 26, 27, 28,
    29, 30, 31, 32, 33, 34, 35, 36, 37, 38, 39, 40, 41, 42, 43]

/-- `N_ID_HI`, `N_ID_LO`, then the rest. -/
def nodeTags : List UInt16 := 1 :: 2 :: nodeBodyTags

def encodeNode (n : GraphNodeDescriptor) : CanonicalWriter :=
  tagged nodeTags (nodePayloads n)

/-- The eight payloads of an edge, all of them always written. -/
def edgePayloads (e : GraphEdgeDescriptor) : List Bytes :=
  [encU64 e.edgeId.hi, encU64 e.edgeId.lo, encU64 e.fromNode.hi, encU64 e.fromNode.lo, encU64 e.toNode.hi,
    encU64 e.toNode.lo, encU32 e.kind.raw, e.label]

/-- `E_ID_HI` to `E_LABEL`. -/
def encodeEdge (e : GraphEdgeDescriptor) : CanonicalWriter :=
  List.zipWith Field.mk [101, 102, 103, 104, 105, 106, 107, 108] (edgePayloads e)

/-- `std::sort` by id. With distinct ids the sorted list is unique; the order it leaves equal ids
in is not specified, here they keep theirs. -/
def sortById {α : Type} (id : α → Id128) (l : List α) : List α :=
  l.insertionSort fun a b => (id b).less (id a) = false

def canonicalFields (nodes : List GraphNodeDescriptor) (edges : List GraphEdgeDescriptor) :
    CanonicalWriter :=
  putU32 1 (UInt32.ofNat nodes.length) ::
    ((sortById (·.nodeId) nodes).flatMap encodeNode ++
      putU32 2 (UInt32.ofNat edges.length) :: (sortById (·.edgeId) edges).flatMap encodeEdge)

def canonicalTopology (nodes : List GraphNodeDescriptor) (edges : List GraphEdgeDescriptor) :
    Bytes :=
  (canonicalFields nodes edges).take

def canonicalizeTopology (g : GraphDescriptor) : GraphDescriptor :=
  { g with nodes := sortById (·.nodeId) g.nodes, edges := sortById (·.edgeId) g.edges }

/-- The fields of a dependency, the same in the three encoders that write one. -/
def encodeDep (d : KernelIdentityRef) : CanonicalWriter :=
  [putStr 1 d.name, putU64 2 d.idHi, putU64 3 d.idLo, putU64 4 d.generation, putU32 5 d.abi,
    putStr 6 d.contentDigest, putBool 7 d.contributesToCorrectness]

/-- A dependency with what `encodeDep` leaves out reset. -/
def KernelIdentityRef.normalize (d : KernelIdentityRef) : KernelIdentityRef :=
  { d with provenance := [] }

def canonicalSemantic (g : GraphDescriptor) : Bytes :=
  CanonicalWriter.take <|
    [putBytes 201 (canonicalTopology g.nodes g.edges),
      putU32 202 g.backend.kind.raw, putStr 203 g.backend.backendName,
      putU32 204 g.backend.backendVersion,
      putU32 205 g.runtime.runtimeVersion, putU32 206 g.runtime.graphAbi,
      putU32 207 g.runtime.kernelAbi, putU32 208 g.runtime.driverVersion,
      putU32 209 g.device.vendor.raw, putStr 210 g.device.architecture,
      putU32 211 g.device.computeMajor, putU32 212 g.device.computeMinor,
      putU32 213 g.sync.captureMode.raw, putU32 214 g.sync.streamSemantics.raw,
      putBool 215 g.sync.requiresExternalSync, putU32 216 g.sync.eventDependencyCount,
      putU32 217 (UInt32.ofNat g.dependencies.length)] ++
    (g.dependencies.map fun d => putBytes 218 (encodeDep d).take) ++
    [putStr 219 (if g.provenance.graphName = [] then str "anonymous" else g.provenance.graphName),
      putStr 220 g.provenance.captureToolchain]

/-! ## Checks -/

/-- An order in which a container is iterated. -/
structure IterationOrder (α : Type) where
  arrange : List α → List α
  perm : ∀ l, (arrange l).Perm l

/-- The order of insertion. -/
def IterationOrder.insertion (α : Type) : IterationOrder α := ⟨id, fun _ => .rfl⟩

/-- `node_ids.insert(n.node_id).second` for every node, over the ids inserted before. -/
def checkNodes : List GraphNodeId → List GraphNodeDescriptor → Result Unit
  | _, [] => .ok ()
  | seen, n :: ns =>
    if n.nodeId ∈ seen then fail .topologyDuplicateId "duplicate GraphNodeId in topology"
    else checkNodes (n.nodeId :: seen) ns

/-- The checks on the edges, over the edges accepted before : `edge_ids` holds their ids and
`pair_kind` their endpoints and kinds. -/
def checkEdges (nodes : List GraphNodeDescriptor) :
    List GraphEdgeDescriptor → List GraphEdgeDescriptor → Result Unit
  | _, [] => .ok ()
  | seen, e :: es =>
    if e.fromNode = e.toNode then fail .topologySelfCycle "edge with self-dependency"
    else if e.fromNode ∉ nodes.map (·.nodeId) ∨ e.toNode ∉ nodes.map (·.nodeId) then
      fail .topologyDanglingEdge "edge endpoint does not reference a node"
    else if e.edgeId ∈ seen.map (·.edgeId) then
      fail .topologyDuplicateId "duplicate GraphEdgeId in topology"
    else
      match seen.find? fun e' => e'.fromNode = e.fromNode ∧ e'.toNode = e.toNode with
      | some e' =>
        if e'.kind = e.kind then
          fail .topologyDuplicateEdge "duplicate edge between same endpoints"
        else
          fail .contradictory
            "contradictory edges of different kinds between same endpoints"
      | none => checkEdges nodes (e :: seen) es

/-- The endpoints of an edge. -/
def GraphEdgeDescriptor.ends (e : GraphEdgeDescriptor) : GraphNodeId × GraphNodeId :=
  (e.fromNode, e.toNode)

/-- `validate_topology`. The in-degree table is keyed by the node ids, distinct by then, and
iterated in the order `o`. -/
def validateTopology (o : IterationOrder GraphNodeId) (nodes : List GraphNodeDescriptor)
    (edges : List GraphEdgeDescriptor) : Result Unit := do
  checkNodes [] nodes
  checkEdges nodes [] edges
  let visited := Kahn.order id (o.arrange (nodes.map (·.nodeId))) (edges.map (·.ends))
  if visited.length ≠ nodes.length then fail .topologyCycle "topology contains a cycle"
  else .ok ()

/-- `GraphDescriptor::finalize`. -/
def GraphDescriptor.finalize (o : IterationOrder GraphNodeId) (g : GraphDescriptor) :
    Result GraphDescriptor := do
  validateTopology o g.nodes g.edges
  let g := canonicalizeTopology g
  let topology := canonicalTopology g.nodes g.edges
  let semantic := canonicalSemantic g
  let digest := Sha256.compute semantic
  return { g with
    topologyCanonical := topology
    topologyDigest := Sha256.compute topology
    semanticCanonical := semantic
    semanticDigest := digest
    artifactId := if g.artifactId.valid then g.artifactId else .ofDigest digest }

/-! ## The encoding is injective up to its omissions -/

open Slots

theorem filled_zipWith : ∀ {tags : List UInt16} {ps : List (Option Bytes)},
    tags.length = ps.length →
      Filled Field.tag tags (List.zipWith (fun t p => p.map (Field.mk t)) tags ps)
  | [], [], _ => .nil
  | t :: tags, p :: ps, h =>
    .cons (by rintro x hx; obtain ⟨b, -, rfl⟩ := Option.map_eq_some_iff.mp hx; rfl)
      (filled_zipWith (by simpa using h))

theorem zipWith_slots_inj : ∀ {tags : List UInt16} {ps ps' : List (Option Bytes)},
    tags.length = ps.length → tags.length = ps'.length →
      List.zipWith (fun t p => p.map (Field.mk t)) tags ps =
        List.zipWith (fun t p => p.map (Field.mk t)) tags ps' → ps = ps'
  | [], [], [], _, _, _ => rfl
  | t :: tags, p :: ps, p' :: ps', hl, hl', h => by
    simp only [List.zipWith_cons_cons, List.cons.injEq] at h
    have hp : p = p' := Option.map_injective (fun a b hab => (Field.mk.inj hab).2) h.1
    rw [hp, zipWith_slots_inj (by simpa using hl) (by simpa using hl') h.2]

/-- Slots under distinct tags can be read back, if what follows starts with none of the tags. -/
theorem tagged_append_inj {tags : List UInt16} {ps ps' : List (Option Bytes)}
    {r r' : CanonicalWriter} (hnd : tags.Nodup) (hl : tags.length = ps.length)
    (hl' : tags.length = ps'.length) (hr : Outside Field.tag tags r)
    (hr' : Outside Field.tag tags r') (h : tagged tags ps ++ r = tagged tags ps' ++ r') :
    ps = ps' ∧ r = r' := by
  obtain ⟨hps, hrest⟩ :=
    reduceOption_append_inj hnd (filled_zipWith hl) (filled_zipWith hl') hr hr' h
  exact ⟨zipWith_slots_inj hl hl' hps, hrest⟩

theorem length_nodeBody (n : GraphNodeDescriptor) : nodeBodyTags.length = (nodeBody n).length := by
  simp [nodeBody, nodeBodyTags, slotsIf]

theorem encodeNode_eq (n : GraphNodeDescriptor) :
    encodeNode n = putU64 1 n.nodeId.hi :: putU64 2 n.nodeId.lo :: tagged nodeBodyTags (nodeBody n) := by
  simp [encodeNode, tagged, nodeTags, nodePayloads, putU64]

/-- Node records followed by the edge count can be read back. -/
theorem flatMap_encodeNode_inj : ∀ {ns ns' : List GraphNodeDescriptor} {r r' : CanonicalWriter},
    (∀ f ∈ r.head?, f.tag = 2) → (∀ f ∈ r'.head?, f.tag = 2) →
      ns.flatMap encodeNode ++ r = ns'.flatMap encodeNode ++ r' →
        ns.map nodePayloads = ns'.map nodePayloads ∧ r = r'
  | [], [], _, _, _, _, h => by simpa using h
  | [], n :: ns, r, _, hr, _, h => by
    have := hr (putU64 1 n.nodeId.hi) (by simp [show r = _ from h, encodeNode_eq])
    simp [putU64] at this
  | n :: ns, [], _, r', _, hr', h => by
    have := hr' (putU64 1 n.nodeId.hi) (by simp [show r' = _ from h.symm, encodeNode_eq])
    simp [putU64] at this
  | n :: ns, n' :: ns', r, r', hr, hr', h => by
    -- What follows a record starts with the id of the next one, or with the edge count.
    have houtside : ∀ (ms : List GraphNodeDescriptor) {q : CanonicalWriter},
        (∀ f ∈ q.head?, f.tag = 2) →
          Outside Field.tag nodeBodyTags (ms.flatMap encodeNode ++ q) := by
      intro ms q hq f hf
      cases ms with
      | nil => rw [hq f (by simpa using hf)]; decide
      | cons m ms =>
        obtain rfl : putU64 1 m.nodeId.hi = f := by simpa [encodeNode_eq] using hf
        exact (by decide : (1 : UInt16) ∉ nodeBodyTags)
    simp only [List.flatMap_cons, encodeNode_eq, List.cons_append, List.append_assoc,
      List.cons.injEq, putU64, Field.mk.injEq, true_and, encU64_inj] at h
    obtain ⟨hhi, hlo, h⟩ := h
    obtain ⟨hbody, h⟩ := tagged_append_inj (by decide) (length_nodeBody n) (length_nodeBody n')
      (houtside ns hr) (houtside ns' hr') h
    obtain ⟨hns, rfl⟩ := flatMap_encodeNode_inj hr hr' h
    simp [nodePayloads, hhi, hlo, hbody, hns]

theorem encodeEdge_injective : Function.Injective encodeEdge := by
  rintro ⟨⟨_, _⟩, ⟨_, _⟩, ⟨_, _⟩, ⟨_⟩, _⟩ ⟨⟨_, _⟩, ⟨_, _⟩, ⟨_, _⟩, ⟨_⟩, _⟩ h
  simpa [encodeEdge, edgePayloads, and_assoc] using h

/-- Every field of the canonical topology is shorter than 4 GiB. -/
def Encodable (nodes : List GraphNodeDescriptor) (edges : List GraphEdgeDescriptor) : Prop :=
  ∀ f ∈ canonicalFields nodes edges, f.payload.length < 2 ^ 32

/-- Equal canonical bytes : the same edges and, node by node, the same slots. -/
theorem canonicalTopology_inj {ns ns' : List GraphNodeDescriptor} {es es' : List GraphEdgeDescriptor}
    (hs : Encodable ns es) (hs' : Encodable ns' es')
    (h : canonicalTopology ns es = canonicalTopology ns' es') :
    (sortById (·.nodeId) ns).map nodePayloads = (sortById (·.nodeId) ns').map nodePayloads ∧
      sortById (·.edgeId) es = sortById (·.edgeId) es' := by
  have hfields := CanonicalWriter.take_injective hs hs' h
  simp only [canonicalFields, List.cons.injEq] at hfields
  obtain ⟨hnodes, hrest⟩ := flatMap_encodeNode_inj (by simp [putU32]) (by simp [putU32]) hfields.2
  refine ⟨hnodes, Slots.flatMap_inj_of_length (k := 8) (by norm_num) (fun e => ?_)
    encodeEdge_injective (List.cons.inj hrest).2⟩
  simp [encodeEdge, edgePayloads]

/-- A node with what the encoding leaves out reset. -/
def GraphNodeDescriptor.normalize (n : GraphNodeDescriptor) : GraphNodeDescriptor :=
  { n with
    kernel := if n.category = .kernel then { n.kernel with provenance := [] } else {}
    launch := if n.category = .kernel then n.launch else {}
    memsetValue := if n.category = .memorySet then n.memsetValue else 0
    shape := if n.datatype ≠ .none then n.shape else {}
    layout := if n.datatype ≠ .none then n.layout else .contiguous
    scalar := if n.scalar.specialized then n.scalar else {}
    quantization := if n.quantization.mode ≠ .none then n.quantization else {}
    childGraphHi := if n.childGraphLo ≠ 0 then n.childGraphHi else 0 }

theorem specialized_normalize (n : GraphNodeDescriptor) :
    n.normalize.scalar.specialized = n.scalar.specialized := by
  by_cases h : n.scalar.specialized = true
  · simp [GraphNodeDescriptor.normalize, h]
  · simp [GraphNodeDescriptor.normalize, h]

theorem mode_normalize (n : GraphNodeDescriptor) :
    n.normalize.quantization.mode = n.quantization.mode := by
  simp only [GraphNodeDescriptor.normalize]
  split_ifs with h
  · rfl
  · exact (not_not.mp h).symm

theorem length_slotsIf (c : Prop) [Decidable c] (ps : List Bytes) :
    (slotsIf c ps).length = ps.length := by
  simp [slotsIf]

/-- Slots determine whether they are present and, if so, their payloads. -/
theorem slotsIf_append_inj {c c' : Prop} [Decidable c] [Decidable c'] {p p' : Bytes}
    {ps ps' : List Bytes} {r r' : List (Option Bytes)}
    (h : slotsIf c (p :: ps) ++ r = slotsIf c' (p' :: ps') ++ r') (hl : ps.length = ps'.length) :
    (c ↔ c') ∧ (c → p :: ps = p' :: ps') ∧ r = r' := by
  obtain ⟨h, hr⟩ := List.append_inj h (by simp [length_slotsIf, hl])
  by_cases hc : c <;> by_cases hc' : c' <;> simp_all [slotsIf]
  exact List.map_injective_iff.mpr (fun _ _ => Option.some.inj) h.2

/-- A value that is written unless it is the default `d` is determined. -/
theorem eq_of_slot {α : Type} {x x' d : α} {f : α → Bytes} (hf : Function.Injective f)
    (hiff : x ≠ d ↔ x' ≠ d) (heq : x ≠ d → f x = f x') : x = x' := by
  by_cases hx : x = d
  · rw [hx, not_not.mp (mt hiff.mpr (not_not.mpr hx))]
  · exact hf (heq hx)

theorem encDims_injective :
    Function.Injective fun ds : List Int64 => encU64List (ds.map Int64.toUInt64) :=
  encU64List_injective.comp (List.map_injective_iff.mpr fun a b h => by
    rw [← Int64.toInt64_toUInt64 a, ← Int64.toInt64_toUInt64 b, h])

theorem encIndices_injective :
    Function.Injective fun is : List UInt32 => encU64List (is.map UInt32.toUInt64) :=
  encU64List_injective.comp (List.map_injective_iff.mpr fun _ _ => UInt32.toUInt64_inj.mp)

/-- The slots of a node determine it up to what the encoding leaves out. -/
theorem nodePayloads_inj {n n' : GraphNodeDescriptor} (h : nodePayloads n = nodePayloads n') :
    n.normalize = n'.normalize := by
  simp only [nodePayloads, nodeBody, List.cons.injEq, Option.some.injEq, encU64_inj,
    List.append_assoc] at h
  obtain ⟨hhi, hlo, h⟩ := h
  obtain ⟨-, hcat, h⟩ := slotsIf_append_inj h rfl
  obtain ⟨-, hkernel, h⟩ := slotsIf_append_inj h rfl
  obtain ⟨-, hbytes, h⟩ := slotsIf_append_inj h rfl
  obtain ⟨-, hmset, h⟩ := slotsIf_append_inj h rfl
  obtain ⟨hdims, hdims', h⟩ := slotsIf_append_inj h rfl
  obtain ⟨hdt, hdyn, h⟩ := slotsIf_append_inj h rfl
  obtain ⟨hrank, hrank', h⟩ := slotsIf_append_inj h rfl
  obtain ⟨-, hlay, h⟩ := slotsIf_append_inj h rfl
  obtain ⟨hspec, hscalar, h⟩ := slotsIf_append_inj h rfl
  obtain ⟨-, hmode, h⟩ := slotsIf_append_inj h rfl
  obtain ⟨-, hquant, h⟩ := slotsIf_append_inj h rfl
  obtain ⟨-, hbind, h⟩ := slotsIf_append_inj h rfl
  obtain ⟨hchild, hchild', h⟩ := slotsIf_append_inj h rfl
  obtain ⟨hin, hin', h⟩ := slotsIf_append_inj h rfl
  obtain ⟨hout, hout', h⟩ := slotsIf_append_inj h rfl
  have h := congrArg (· ++ ([] : List (Option Bytes))) h
  obtain ⟨hop, hop', -⟩ := slotsIf_append_inj h rfl
  simp only [forall_const, encU32_inj, List.cons.injEq, and_true, encU64_inj, encBool_inj,
    encI64_inj, encF64_inj, true_and] at *
  obtain ⟨hcat, hname⟩ := hcat
  obtain ⟨hbc, hba, hbs, hbe, hra⟩ := hbind
  have hcat : n.category = n'.category := NodeCategory.ext hcat
  have hmode : n.quantization.mode = n'.quantization.mode := QuantizationMode.ext hmode
  have hdtype : n.datatype = n'.datatype := by
    by_cases hnone : n.datatype = .none
    · rw [hnone, not_not.mp (fun hn => absurd hnone (hdt.mpr hn))]
    · exact Datatype.ext (hlay hnone).1
  rw [hcat] at hkernel hmset
  rw [hdtype] at hdims hdims' hdyn hrank hrank' hlay
  rw [hmode] at hquant
  have hspec : n.scalar.specialized = n'.scalar.specialized := Bool.eq_iff_iff.mpr hspec
  rw [hspec] at hscalar
  have hlow : n.childGraphLo = n'.childGraphLo :=
    eq_of_slot (d := 0) (f := encU64) (fun _ _ => encU64_inj.mp) hchild
      (fun h => congrArg encU64 (hchild' h).2)
  rw [hlow] at hchild'
  simp only [GraphNodeDescriptor.normalize, GraphNodeDescriptor.mk.injEq, hcat, hdtype, hmode,
    hspec, hlow]
  refine ⟨Id128.ext hhi hlo, trivial, hname, ?_, ?_, hbytes, ?_, ?_, trivial, ?_, ?_, ?_,
    BindingDescriptor.ext (BindingClass.ext hbc) hba hbs hbe, hra, ?_, trivial,
    eq_of_slot Function.injective_id hop hop', eq_of_slot encIndices_injective hin hin',
    eq_of_slot encIndices_injective hout hout'⟩ <;>
  split_ifs with hc <;> try rfl
  · obtain ⟨hname, hhi, hlo, hgen, habi, hdig, hcon, -⟩ := hkernel hc
    rw [hname, hhi, hlo, hgen, habi, hdig, hcon]
  · obtain ⟨-, -, -, -, -, -, -, hgx, hgy, hgz, hbx, hby, hbz, hsm⟩ := hkernel hc
    exact LaunchGeometry.ext hgx hgy hgz hbx hby hbz hsm
  · exact (List.cons.inj (hmset hc)).1
  · refine ShapeDescriptor.ext ?_ (hdyn hc) ?_
    · exact eq_of_slot encDims_injective (by simpa [hc] using hdims) fun hd => hdims' ⟨hc, hd⟩
    · exact eq_of_slot (f := encU32) (fun _ _ => encU32_inj.mp) (by simpa [hc] using hrank)
        fun hd => congrArg encU32 (hrank' ⟨hc, hd⟩)
  · exact TensorLayout.ext (hlay hc).2
  · exact ScalarSpecialization.ext hspec (hscalar hc).1 (hscalar hc).2
  · exact QuantizationConfig.ext hmode (hquant hc).1 (hquant hc).2.1 (hquant hc).2.2
  · exact (hchild' hc).1

/-- Nodes with the same slots, one by one, agree in what is written of them. -/
theorem map_normalize_of_payloads : ∀ {ns ns' : List GraphNodeDescriptor},
    ns.map nodePayloads = ns'.map nodePayloads → ns.map (·.normalize) = ns'.map (·.normalize)
  | [], [], _ => rfl
  | [], _ :: _, h => by simp at h
  | _ :: _, [], h => by simp at h
  | _ :: _, _ :: _, h => by
    obtain ⟨hhead, htail⟩ := List.cons.inj h
    exact List.cons_eq_cons.mpr ⟨nodePayloads_inj hhead, map_normalize_of_payloads htail⟩

theorem slotsIf_congr {c c' : Prop} [Decidable c] [Decidable c'] {ps ps' : List Bytes}
    (hc : c ↔ c') (h : c' → ps = ps') (hl : ps.length = ps'.length) :
    slotsIf c ps = slotsIf c' ps' := by
  by_cases hc' : c'
  · simp [slotsIf, hc, hc', h hc']
  · simp [slotsIf, hc, hc', hl]

/-- The slots hold nothing of what `normalize` resets. -/
theorem nodePayloads_normalize (n : GraphNodeDescriptor) :
    nodePayloads n.normalize = nodePayloads n := by
  have hmode := mode_normalize n
  have hspec := specialized_normalize n
  have hid : n.normalize.nodeId = n.nodeId := rfl
  simp only [nodePayloads, nodeBody, hmode, hspec, hid]
  refine congrArg (fun l => _ :: _ :: l) ?_
  repeat' refine congrArg₂ (· ++ ·) ?_ ?_
  all_goals
    refine slotsIf_congr ?_ (fun hc => ?_) rfl <;> simp_all [GraphNodeDescriptor.normalize]

/-! ## Sorting -/

section SortById

variable {α : Type} (key : α → Id128)

/-- The relation that `sortById` sorts by. -/
def atMost (a b : α) : Prop := (key b).less (key a) = false

instance : DecidableRel (atMost key) :=
  fun a b => inferInstanceAs (Decidable ((key b).less (key a) = false))

instance : Std.Total (atMost key) :=
  ⟨fun a b => by
    by_cases h : (key b).less (key a) = true
    · exact .inr (Id128.less_asymm h)
    · exact .inl ((Bool.not_eq_true _).mp h)⟩

instance : IsTrans α (atMost key) :=
  ⟨fun a b c hab hbc => by
    by_contra hca
    have hca : (key c).less (key a) := (Bool.not_eq_false _).mp hca
    by_cases hcb : key c = key b
    · exact absurd hab (by simp [atMost, ← hcb, hca])
    · rcases Id128.less_total hcb with h | h
      · exact absurd hbc (by simp [atMost, h])
      · exact absurd hab (by simp [atMost, Id128.less_trans h hca])⟩

theorem sortById_perm (l : List α) : (sortById key l).Perm l :=
  List.perm_insertionSort _ l

theorem pairwise_sortById (l : List α) : (sortById key l).Pairwise (atMost key) :=
  List.pairwise_insertionSort (atMost key) l

@[simp] theorem sortById_sortById (l : List α) : sortById key (sortById key l) = sortById key l :=
  (pairwise_sortById key l).insertionSort_eq

@[simp] theorem length_sortById (l : List α) : (sortById key l).length = l.length :=
  (sortById_perm key l).length_eq

/-- Sorting forgets the order of a list in which ids identify. -/
theorem sortById_eq_of_perm {l l' : List α} (h : l.Perm l')
    (hinj : ∀ a ∈ l, ∀ b ∈ l, key a = key b → a = b) : sortById key l = sortById key l' := by
  have hperm := (sortById_perm key l).trans (h.trans (sortById_perm key l').symm)
  refine List.Perm.eq_of_pairwise (fun a b ha hb hab hba => ?_) (pairwise_sortById key l)
    (pairwise_sortById key l') hperm
  refine hinj a ((sortById_perm key l).subset ha) b
    (h.symm.subset ((sortById_perm key l').subset hb)) ?_
  by_contra hne
  rcases Id128.less_total hne with h | h
  · exact absurd hba (by simp [atMost, h])
  · exact absurd hab (by simp [atMost, h])

end SortById

@[simp] theorem canonicalTopology_sortById (ns : List GraphNodeDescriptor)
    (es : List GraphEdgeDescriptor) :
    canonicalTopology (sortById (·.nodeId) ns) (sortById (·.edgeId) es) =
      canonicalTopology ns es := by
  simp [canonicalTopology, canonicalFields]

/-- Equal canonical bytes : the same nodes and edges in some order, up to what is left out. -/
theorem perm_of_topology {ns ns' : List GraphNodeDescriptor} {es es' : List GraphEdgeDescriptor}
    (hs : Encodable ns es) (hs' : Encodable ns' es')
    (h : canonicalTopology ns es = canonicalTopology ns' es') :
    (ns.map (·.normalize)).Perm (ns'.map (·.normalize)) ∧ es.Perm es' := by
  obtain ⟨hnodes, hedges⟩ := canonicalTopology_inj hs hs' h
  have hsorted := map_normalize_of_payloads hnodes
  constructor
  · have hperm := (sortById_perm (·.nodeId) ns).map (·.normalize)
    rw [hsorted] at hperm
    exact hperm.symm.trans ((sortById_perm (·.nodeId) ns').map _)
  · have hperm := sortById_perm (·.edgeId) es
    rw [hedges] at hperm
    exact hperm.symm.trans (sortById_perm (·.edgeId) es')

/-! ## What the checks accept -/

theorem checkNodes_ok_iff : ∀ {seen : List GraphNodeId} {ns : List GraphNodeDescriptor},
    checkNodes seen ns = .ok () ↔ (∀ n ∈ ns, n.nodeId ∉ seen) ∧ (ns.map (·.nodeId)).Nodup
  | _, [] => by simp [checkNodes]
  | seen, n :: ns => by
    rw [checkNodes]
    split_ifs with hseen
    · simp [fail_ne_ok, hseen]
    · rw [checkNodes_ok_iff]
      simp only [List.mem_cons, not_or, List.map_cons, List.nodup_cons, List.mem_map, not_exists,
        not_and, forall_eq_or_imp, hseen, not_false_eq_true, true_and]
      constructor
      · rintro ⟨hns, hnd⟩
        exact ⟨fun m hm => (hns m hm).2, fun m hm => (hns m hm).1, hnd⟩
      · rintro ⟨hns, hne, hnd⟩
        exact ⟨fun m hm => ⟨hne m hm, hns m hm⟩, hnd⟩

/-- An edge between two different nodes of the graph. -/
def GraphEdgeDescriptor.Proper (nodes : List GraphNodeDescriptor) (e : GraphEdgeDescriptor) : Prop :=
  e.fromNode ≠ e.toNode ∧ e.fromNode ∈ nodes.map (·.nodeId) ∧ e.toNode ∈ nodes.map (·.nodeId)

theorem checkEdges_ok_iff {nodes : List GraphNodeDescriptor} :
    ∀ {es seen : List GraphEdgeDescriptor}, checkEdges nodes seen es = .ok () ↔
      (∀ e ∈ es, e.Proper nodes ∧ e.edgeId ∉ seen.map (·.edgeId) ∧ e.ends ∉ seen.map (·.ends)) ∧
        (es.map (·.edgeId)).Nodup ∧ (es.map (·.ends)).Nodup
  | [], seen => by simp [checkEdges]
  | e :: es, seen => by
    rw [checkEdges]
    split_ifs with hself hends hid
    · simp [fail_ne_ok, GraphEdgeDescriptor.Proper, hself]
    · simp only [fail_ne_ok, List.mem_cons, forall_eq_or_imp, GraphEdgeDescriptor.Proper, false_iff]
      tauto
    · have hnot : ¬∀ x ∈ e :: es, x.Proper nodes ∧ x.edgeId ∉ seen.map (·.edgeId) ∧
          x.ends ∉ seen.map (·.ends) := fun hall => (hall e (by simp)).2.1 hid
      simp only [fail_ne_ok, hnot, false_and]
    · have hproper : e.Proper nodes := ⟨hself, by tauto, by tauto⟩
      have hfind : (seen.find? fun e' => e'.fromNode = e.fromNode ∧ e'.toNode = e.toNode) = none ↔
          e.ends ∉ seen.map (·.ends) := by
        simp [GraphEdgeDescriptor.ends, Prod.ext_iff]
      split
      · rename_i e' he'
        have hmem : e.ends ∈ seen.map (·.ends) := by
          by_contra hnot
          rw [hfind.mpr hnot] at he'
          cases he'
        have hnot : ¬∀ x ∈ e :: es, x.Proper nodes ∧ x.edgeId ∉ seen.map (·.edgeId) ∧
            x.ends ∉ seen.map (·.ends) := fun hall => (hall e (by simp)).2.2 hmem
        split_ifs <;> simp only [fail_ne_ok, hnot, false_and]
      · rename_i hnone
        rw [checkEdges_ok_iff]
        have hends := hfind.mp hnone
        simp only [List.map_cons, List.nodup_cons, List.mem_cons, not_or, forall_eq_or_imp, hproper,
          hid, hends, not_false_eq_true, and_self, true_and]
        constructor
        · rintro ⟨hall, hnd, hnd'⟩
          refine ⟨fun x hx => ⟨(hall x hx).1, (hall x hx).2.1.2, (hall x hx).2.2.2⟩, ⟨?_, hnd⟩, ?_, hnd'⟩
          · simpa using fun x hx => (hall x hx).2.1.1
          · simpa using fun x hx => (hall x hx).2.2.1
        · rintro ⟨hall, ⟨hne, hnd⟩, hne', hnd'⟩
          refine ⟨fun x hx => ⟨(hall x hx).1, ⟨?_, (hall x hx).2.1⟩, ?_, (hall x hx).2.2⟩, hnd, hnd'⟩
          · exact fun heq => hne (List.mem_map.mpr ⟨x, hx, heq⟩)
          · exact fun heq => hne' (List.mem_map.mpr ⟨x, hx, heq⟩)

/-- Distinct ids, edges between different listed nodes, one edge a pair, and no cycle. -/
structure WellFormed (nodes : List GraphNodeDescriptor) (edges : List GraphEdgeDescriptor) : Prop where
  nodeIds : (nodes.map (·.nodeId)).Nodup
  edgeIds : (edges.map (·.edgeId)).Nodup
  proper : ∀ e ∈ edges, e.Proper nodes
  ends : (edges.map (·.ends)).Nodup
  acyclic : Kahn.Acyclic (edges.map (·.ends))

/-- The ends of proper edges are among the nodes, in whatever order these are listed. -/
theorem ends_mem_arrange {o : IterationOrder GraphNodeId} {nodes : List GraphNodeDescriptor}
    {edges : List GraphEdgeDescriptor} (h : ∀ e ∈ edges, e.Proper nodes) :
    ∀ e ∈ edges.map (·.ends), e.1 ∈ o.arrange (nodes.map (·.nodeId)) ∧
      e.2 ∈ o.arrange (nodes.map (·.nodeId)) := by
  intro x hx
  obtain ⟨e, he, rfl⟩ := List.mem_map.mp hx
  have hperm := o.perm (nodes.map (·.nodeId))
  exact ⟨hperm.mem_iff.mpr (h e he).2.1, hperm.mem_iff.mpr (h e he).2.2⟩

theorem validateTopology_ok_iff {o : IterationOrder GraphNodeId}
    {nodes : List GraphNodeDescriptor} {edges : List GraphEdgeDescriptor} :
    validateTopology o nodes edges = .ok () ↔ WellFormed nodes edges := by
  have hbind : validateTopology o nodes edges = .ok () ↔ checkNodes [] nodes = .ok () ∧
      checkEdges nodes [] edges = .ok () ∧ (Kahn.order id (o.arrange (nodes.map (·.nodeId)))
        (edges.map (·.ends))).length = nodes.length := by
    unfold validateTopology
    rcases checkNodes [] nodes with err | u
    · simp [bind, Except.bind]
    · rcases checkEdges nodes [] edges with err | u
      · simp [bind, Except.bind]
      · simp [bind, Except.bind, fail_ne_ok]
  have hperm := o.perm (nodes.map (·.nodeId))
  have hkahn : (nodes.map (·.nodeId)).Nodup → (∀ e ∈ edges, e.Proper nodes) →
      ((Kahn.order id (o.arrange (nodes.map (·.nodeId))) (edges.map (·.ends))).length =
        nodes.length ↔ Kahn.Acyclic (edges.map (·.ends))) := by
    intro hnd hproper
    rw [← Kahn.length_order_iff id (fun _ => .rfl) (hperm.nodup_iff.mpr hnd)
      (ends_mem_arrange hproper), hperm.length_eq, List.length_map]
  rw [hbind, checkNodes_ok_iff, checkEdges_ok_iff]
  simp only [List.not_mem_nil, not_false_eq_true, List.map_nil, and_true, implies_true, true_and]
  constructor
  · rintro ⟨hnd, ⟨hproper, hid, hends⟩, hlen⟩
    exact ⟨hnd, hid, hproper, hends, (hkahn hnd hproper).mp hlen⟩
  · rintro ⟨hnd, hid, hproper, hends, hac⟩
    exact ⟨hnd, ⟨hproper, hid, hends⟩, (hkahn hnd hproper).mpr hac⟩

theorem WellFormed.perm {ns ns' : List GraphNodeDescriptor} {es es' : List GraphEdgeDescriptor}
    (h : WellFormed ns es) (hn : (ns.map (·.nodeId)).Perm (ns'.map (·.nodeId))) (he : es.Perm es') :
    WellFormed ns' es' where
  nodeIds := hn.nodup_iff.mp h.nodeIds
  edgeIds := (he.map _).nodup_iff.mp h.edgeIds
  proper := fun e hmem => by
    obtain ⟨hne, hfrom, hto⟩ := h.proper e (he.mem_iff.mpr hmem)
    exact ⟨hne, hn.mem_iff.mp hfrom, hn.mem_iff.mp hto⟩
  ends := (he.map _).nodup_iff.mp h.ends
  acyclic := fun v hv => h.acyclic v
    (Relation.TransGen.mono (fun _ _ hmem => (he.map _).mem_iff.mpr hmem) v v hv)

/-! ## What finalize establishes -/

/-- What `finalize` returns : the sorted descriptor with its derived fields. -/
theorem finalize_ok {o : IterationOrder GraphNodeId} {g g' : GraphDescriptor}
    (h : g.finalize o = .ok g') :
    validateTopology o g.nodes g.edges = .ok () ∧ g'.nodes = sortById (·.nodeId) g.nodes ∧
      g'.edges = sortById (·.edgeId) g.edges ∧ g'.dependencies = g.dependencies ∧
      g'.sync = g.sync ∧ g'.backend = g.backend ∧ g'.runtime = g.runtime ∧
      g'.device = g.device := by
  rw [GraphDescriptor.finalize] at h
  cases hv : validateTopology o g.nodes g.edges with
  | error e => simp [hv, bind, Except.bind] at h
  | ok u =>
    simp only [hv, bind, Except.bind, pure, Except.pure, Except.ok.injEq] at h
    subst h
    simp [canonicalizeTopology]

end GraphCache
