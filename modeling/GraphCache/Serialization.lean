import GraphCache.Topology

/-!
# The descriptor and metadata codecs

`serialization.cpp`. `serialize_descriptor` writes a descriptor as a canonical stream, with nodes,
edges and dependencies as nested streams; `deserialize_descriptor` expects the fields in exactly
that order, and the nested decoders accept theirs in any order. A `Decoder` consumes a buffer and
returns the error of the first field that does not fit.

`deserialize_serialize` : within the codec's limits a descriptor is read back as `stored`, the
descriptor with its derived fields, and whatever a node or dependency does not write, reset.
`deserializeMetadata_serialize` : metadata is read back as it is.
-/

open BigEndian

namespace GraphCache

/-- A reader that fails with an error. -/
abbrev Decoder := StateT Bytes (Except Error)

/-- A field of the stream; the messages of the two failures. -/
abbrev field {α : Type} (tag : UInt16) (decode : Bytes → Option α) (missing malformed : String) :
    Decoder α :=
  nextField tag decode ⟨.persistenceCorrupt, str missing⟩ ⟨.persistenceCorrupt, str malformed⟩

/-- That many fields of one tag. -/
abbrev fields {α : Type} (tag : UInt16) (decode : Bytes → Option α) (missing malformed : String) :
    ℕ → Decoder (List α) :=
  nextFields tag decode ⟨.persistenceCorrupt, str missing⟩ ⟨.persistenceCorrupt, str malformed⟩

/-- `decode_u32`, bounded. -/
def decodeCount (limit : ℕ) (p : Bytes) : Option ℕ :=
  (decodeU32 p).bind fun n => if n.toNat > limit then none else some n.toNat

/-- `if (!p.empty()) v = p[0] != 0;`, with `v` false before. -/
def decodeFlagOrFalse (p : Bytes) : Option Bool :=
  some ((decodeFlag p).getD false)

/-! ## Nodes -/

/-- `GN_ID_HI` to `GN_OPAQUE`, which are 1 to 42 in the order of `encode_node`. -/
def storedNodeTags : List UInt16 := (List.range' 1 42).map UInt16.ofNat

/-- `encode_node` of `serialization.cpp` : the slots of a node under `storedNodeTags`. -/
def storeNode (n : GraphNodeDescriptor) : CanonicalWriter :=
  tagged storedNodeTags (nodePayloads n)

/-- `n` numbers of eight bytes. -/
def readU64s : ℕ → Bytes → List UInt64
  | 0, _ => []
  | n + 1, p => UInt64.ofNat (beNat (p.take 8)) :: readU64s n (p.drop 8)

def decodeU64List (p : Bytes) : Option (List UInt64) :=
  let n := beNat (p.take 4)
  if p.length < 4 ∨ n > 4096 ∨ p.length < 4 + 8 * n then none
  else some (readU64s n (p.drop 4))

/-- One turn of the switch in `decode_node`. Lists are appended to what is there. -/
def decodeNodeField (n : GraphNodeDescriptor) (f : Field) : Option GraphNodeDescriptor :=
  let p := f.payload
  match f.tag.toNat with
  | 1 => (decodeU64 p).map fun v => { n with nodeId := { n.nodeId with hi := v } }
  | 2 => (decodeU64 p).map fun v => { n with nodeId := { n.nodeId with lo := v } }
  | 3 => (decodeU32 p).map fun v => { n with category := ⟨v⟩ }
  | 4 => (decodeStr p).map fun v => { n with name := v }
  | 5 => (decodeStr p).map fun v => { n with kernel := { n.kernel with name := v } }
  | 6 => (decodeU64 p).map fun v => { n with kernel := { n.kernel with idHi := v } }
  | 7 => (decodeU64 p).map fun v => { n with kernel := { n.kernel with idLo := v } }
  | 8 => (decodeU64 p).map fun v => { n with kernel := { n.kernel with generation := v } }
  | 9 => (decodeU32 p).map fun v => { n with kernel := { n.kernel with abi := v } }
  | 10 => (decodeStr p).map fun v => { n with kernel := { n.kernel with contentDigest := v } }
  | 11 => (decodeFlag p).map fun v =>
      { n with kernel := { n.kernel with contributesToCorrectness := v } }
  | 12 => (decodeU32 p).map fun v => { n with launch := { n.launch with gridX := v } }
  | 13 => (decodeU32 p).map fun v => { n with launch := { n.launch with gridY := v } }
  | 14 => (decodeU32 p).map fun v => { n with launch := { n.launch with gridZ := v } }
  | 15 => (decodeU32 p).map fun v => { n with launch := { n.launch with blockX := v } }
  | 16 => (decodeU32 p).map fun v => { n with launch := { n.launch with blockY := v } }
  | 17 => (decodeU32 p).map fun v => { n with launch := { n.launch with blockZ := v } }
  | 18 => (decodeU32 p).map fun v => { n with launch := { n.launch with sharedMemoryBytes := v } }
  | 19 => (decodeU64 p).map fun v => { n with memoryBytes := v }
  | 20 => p.head?.map fun v => { n with memsetValue := v }
  | 21 => (decodeU64List p).map fun v =>
      { n with shape := { n.shape with dims := n.shape.dims ++ v.map UInt64.toInt64 } }
  | 22 => (decodeFlag p).map fun v => { n with shape := { n.shape with dynamic := v } }
  | 23 => (decodeU32 p).map fun v => { n with shape := { n.shape with maxRank := v } }
  | 24 => (decodeU32 p).map fun v => { n with datatype := ⟨v⟩ }
  | 25 => (decodeU32 p).map fun v => { n with layout := ⟨v⟩ }
  | 26 => some { n with scalar := { n.scalar with
      specialized := (decodeFlag p).getD n.scalar.specialized } }
  | 27 => (decodeI64 p).map fun v => { n with scalar := { n.scalar with intValue := v } }
  | 28 => (decodeF64 p).map fun v => { n with scalar := { n.scalar with floatValue := v } }
  | 29 => (decodeU32 p).map fun v => { n with quantization := { n.quantization with mode := ⟨v⟩ } }
  | 30 => (decodeU32 p).map fun v =>
      { n with quantization := { n.quantization with groupSize := v } }
  | 31 => (decodeFlag p).map fun v =>
      { n with quantization := { n.quantization with symmetric := v } }
  | 32 => (decodeStr p).map fun v =>
      { n with quantization := { n.quantization with customScheme := v } }
  | 33 => (decodeU32 p).map fun v => { n with binding := { n.binding with bindingClass := ⟨v⟩ } }
  | 34 => (decodeU32 p).map fun v => { n with binding := { n.binding with alignment := v } }
  | 35 => (decodeStr p).map fun v =>
      { n with binding := { n.binding with memoryBindingSchema := v } }
  | 36 => (decodeFlag p).map fun v =>
      { n with binding := { n.binding with rebindingEligible := v } }
  | 37 => (decodeU64 p).map fun v => { n with requiredAlignment := v }
  | 38 => (decodeU64 p).map fun v => { n with childGraphHi := v }
  | 39 => (decodeU64 p).map fun v => { n with childGraphLo := v }
  | 40 => (decodeU64List p).map fun v =>
      { n with reactiveInputIndices := n.reactiveInputIndices ++ v.map UInt64.toUInt32 }
  | 41 => (decodeU64List p).map fun v =>
      { n with reactiveOutputIndices := n.reactiveOutputIndices ++ v.map UInt64.toUInt32 }
  | 42 => some { n with backendOpaque := p }
  | _ => none

/-- A tag that the switch does not list is refused. -/
example (n : GraphNodeDescriptor) (p : Bytes) : decodeNodeField n ⟨43, p⟩ = none := by
  simp [decodeNodeField]

def decodeNode (bytes : Bytes) : Option GraphNodeDescriptor :=
  CanonicalReader.forEach decodeNodeField bytes {}

/-! ## Edges and dependencies -/

/-- `GE_ID_HI` to `GE_LABEL`. -/
def storeEdge (e : GraphEdgeDescriptor) : CanonicalWriter :=
  List.zipWith Field.mk [1, 2, 3, 4, 5, 6, 7, 8] (edgePayloads e)

def decodeEdgeField (e : GraphEdgeDescriptor) (f : Field) : Option GraphEdgeDescriptor :=
  let p := f.payload
  match f.tag.toNat with
  | 1 => (decodeU64 p).map fun v => { e with edgeId := { e.edgeId with hi := v } }
  | 2 => (decodeU64 p).map fun v => { e with edgeId := { e.edgeId with lo := v } }
  | 3 => (decodeU64 p).map fun v => { e with fromNode := { e.fromNode with hi := v } }
  | 4 => (decodeU64 p).map fun v => { e with fromNode := { e.fromNode with lo := v } }
  | 5 => (decodeU64 p).map fun v => { e with toNode := { e.toNode with hi := v } }
  | 6 => (decodeU64 p).map fun v => { e with toNode := { e.toNode with lo := v } }
  | 7 => (decodeU32 p).map fun v => { e with kind := ⟨v⟩ }
  | 8 => (decodeStr p).map fun v => { e with label := v }
  | _ => none

def decodeEdge (bytes : Bytes) : Option GraphEdgeDescriptor :=
  CanonicalReader.forEach decodeEdgeField bytes {}

def decodeDepField (d : KernelIdentityRef) (f : Field) : Option KernelIdentityRef :=
  let p := f.payload
  match f.tag.toNat with
  | 1 => (decodeStr p).map fun v => { d with name := v }
  | 2 => (decodeU64 p).map fun v => { d with idHi := v }
  | 3 => (decodeU64 p).map fun v => { d with idLo := v }
  | 4 => (decodeU64 p).map fun v => { d with generation := v }
  | 5 => (decodeU32 p).map fun v => { d with abi := v }
  | 6 => (decodeStr p).map fun v => { d with contentDigest := v }
  | 7 => (decodeFlag p).map fun v => { d with contributesToCorrectness := v }
  | _ => none

def decodeDep (bytes : Bytes) : Option KernelIdentityRef :=
  CanonicalReader.forEach decodeDepField bytes {}

/-! ## Descriptors -/

def storeBackend (b : BackendIdentity) : CanonicalWriter :=
  [putU32 10 b.kind.raw, putStr 11 b.backendName, putU32 12 b.backendVersion,
    putStr 13 b.implementationName]

def storeRuntime (r : RuntimeDescriptor) : CanonicalWriter :=
  [putU32 20 r.runtimeVersion, putU32 21 r.graphAbi, putU32 22 r.kernelAbi,
    putU32 23 r.driverVersion]

def storeDevice (d : DeviceDescriptor) : CanonicalWriter :=
  [putU32 30 d.vendor.raw, putStr 31 d.architecture, putU32 32 d.computeMajor,
    putU32 33 d.computeMinor, putU32 34 d.deviceIndex, putStr 35 d.name]

def storeSync (s : SynchronizationDescriptor) : CanonicalWriter :=
  [putU32 40 s.captureMode.raw, putU32 41 s.streamSemantics.raw, putBool 42 s.requiresExternalSync,
    putU32 43 s.eventDependencyCount]

def storeProvenance (p : ProvenanceDescriptor) : CanonicalWriter :=
  [putU64 50 p.captureTimestampMs, putStr 51 p.captureSource, putU64 52 p.captureDurationUs,
    putStr 53 p.captureToolchain, putStr 54 p.graphName]

/-- A 32-bit count, then the elements as nested streams. -/
def storeList {α : Type} (countTag tag : UInt16) (store : α → CanonicalWriter) (l : List α) :
    CanonicalWriter :=
  putU32 countTag (UInt32.ofNat l.length) :: l.map fun a => putBytes tag (store a).take

def descriptorFields (g : GraphDescriptor) : CanonicalWriter :=
  [putU64 1 g.artifactId.hi, putU64 2 g.artifactId.lo, putU64 3 g.generation] ++
  (storeBackend g.backend ++ (storeRuntime g.runtime ++ (storeDevice g.device ++
  (storeSync g.sync ++ (storeProvenance g.provenance ++
  (storeList 60 61 storeNode g.nodes ++ (storeList 62 63 storeEdge g.edges ++
  storeList 64 65 encodeDep g.dependencies)))))))

def serializeDescriptor (g : GraphDescriptor) : Bytes :=
  (descriptorFields g).take

def loadBackend : Decoder BackendIdentity := do
  let kind ← field 10 decodeU32 "bk_kind" "bk_kind decode"
  let name ← field 11 decodeStr "bk_name" "bk_name"
  let version ← field 12 decodeU32 "bk_ver" "bk_ver decode"
  let implementation ← field 13 decodeStr "bk_impl" "bk_impl"
  return ⟨⟨kind⟩, name, version, implementation⟩

def loadRuntime : Decoder RuntimeDescriptor := do
  let version ← field 20 decodeU32 "rt_ver" "rt_ver decode"
  let graphAbi ← field 21 decodeU32 "rt_gabi" "gabi decode"
  let kernelAbi ← field 22 decodeU32 "rt_kabi" "kabi decode"
  let driver ← field 23 decodeU32 "rt_driver" "driver decode"
  return ⟨version, graphAbi, kernelAbi, driver, []⟩

def loadDevice : Decoder DeviceDescriptor := do
  let vendor ← field 30 decodeU32 "dev_vendor" "dev_vendor decode"
  let architecture ← field 31 decodeStr "dev_arch" "dev_arch"
  let major ← field 32 decodeU32 "cc_major" "cc_major decode"
  let minor ← field 33 decodeU32 "cc_minor" "cc_minor decode"
  let index ← field 34 decodeU32 "dev_idx" "dev_idx decode"
  let name ← field 35 decodeStr "dev_name" "dev_name"
  return ⟨⟨vendor⟩, architecture, major, minor, index, name⟩

def loadSync : Decoder SynchronizationDescriptor := do
  let mode ← field 40 decodeU32 "cap_mode" "cap_mode decode"
  let stream ← field 41 decodeU32 "stream" "stream decode"
  let external ← field 42 decodeFlagOrFalse "extsync" "extsync"
  let events ← field 43 decodeU32 "evt" "evt decode"
  return ⟨⟨mode⟩, ⟨stream⟩, external, events⟩

def loadProvenance : Decoder ProvenanceDescriptor := do
  let timestamp ← field 50 decodeU64 "prov_ts" "prov_ts decode"
  let source ← field 51 decodeStr "prov_src" "prov_src"
  let duration ← field 52 decodeU64 "prov_dur" "prov_dur"
  let toolchain ← field 53 decodeStr "prov_tool" "prov_tool"
  let name ← field 54 decodeStr "prov_name" "prov_name"
  return ⟨timestamp, source, duration, toolchain, name⟩

def loadDescriptor : Decoder GraphDescriptor := do
  let hi ← field 1 decodeU64 "descriptor: artifact_hi" "artifact_hi decode"
  let lo ← field 2 decodeU64 "artifact_lo" "artifact_lo"
  let generation ← field 3 decodeU64 "generation" "generation"
  let backend ← loadBackend
  let runtime ← loadRuntime
  let device ← loadDevice
  let sync ← loadSync
  let provenance ← loadProvenance
  let nodeCount ← field 60 (decodeCount 8192) "node_count" "node_count decode"
  let nodes ← fields 61 decodeNode "node" "node decode" nodeCount
  let edgeCount ← field 62 (decodeCount 16384) "edge_count" "edge_count decode"
  let edges ← fields 63 decodeEdge "edge" "edge decode" edgeCount
  let depCount ← field 64 (decodeCount 8192) "dep_count" "dep_count decode"
  let dependencies ← fields 65 decodeDep "dep" "dep decode" depCount
  return { artifactId := ⟨hi, lo⟩, generation, backend, runtime, device, sync, provenance, nodes,
           edges, dependencies }

def deserializeDescriptor (bytes : Bytes) : Result GraphDescriptor := do
  let (g, rest) ← loadDescriptor bytes
  if rest ≠ [] then fail .persistenceTrailingGarbage "trailing bytes after descriptor"
  else .ok g

/-! ## Metadata -/

structure PersistedMetadata where
  artifactId : GraphArtifactId := {}
  generation : GraphGeneration := 0
  cacheGeneration : CacheGeneration := 0
  workload : WorkloadIdentity := {}
  artifactSize : UInt64 := 0
  captureCostUs : UInt64 := 0
  instantiateCostUs : UInt64 := 0
  dependencyGeneration : UInt64 := 0
  invalidated : Bool := false
  deriving DecidableEq, Repr

def metadataFields (m : PersistedMetadata) : CanonicalWriter :=
  [putU64 1 m.artifactId.hi, putU64 2 m.artifactId.lo, putU64 3 m.generation,
    putU64 4 m.cacheGeneration, putStr 10 m.workload.logicalName,
    putU32 11 m.workload.logicalVersion, putStr 12 m.workload.namespaceName,
    putU32 13 m.workload.revisionMode.raw, putStr 14 m.workload.modelOperatorRevision,
    putStr 15 m.workload.policyGeneration, putU64 20 m.artifactSize, putU64 21 m.captureCostUs,
    putU64 22 m.instantiateCostUs, putU64 23 m.dependencyGeneration, putBool 24 m.invalidated]

def serializeMetadata (m : PersistedMetadata) : Bytes :=
  (metadataFields m).take

def loadMetadata : Decoder PersistedMetadata := do
  let hi ← field 1 decodeU64 "md artifact_hi" "md artifact_hi"
  let lo ← field 2 decodeU64 "md artifact_lo" "md artifact_lo"
  let generation ← field 3 decodeU64 "md gen" "md gen"
  let cacheGeneration ← field 4 decodeU64 "md cache_gen" "md cache_gen"
  let name ← field 10 decodeStr "md wl_name" "md wl_name"
  let version ← field 11 decodeU32 "md wl_ver" "md wl_ver decode"
  let ns ← field 12 decodeStr "md wl_ns" "md wl_ns"
  let mode ← field 13 decodeU32 "md revmode" "md revmode decode"
  let revision ← field 14 decodeStr "md modelrev" "md modelrev"
  let policy ← field 15 decodeStr "md policygen" "md policygen"
  let size ← field 20 decodeU64 "md size" "md size"
  let capture ← field 21 decodeU64 "md cap_cost" "md cap_cost"
  let instantiate ← field 22 decodeU64 "md inst_cost" "md inst_cost"
  let dependency ← field 23 decodeU64 "md dep_gen" "md dep_gen"
  let invalidated ← field 24 decodeFlagOrFalse "md invalidated" "md invalidated"
  return ⟨⟨hi, lo⟩, generation, cacheGeneration, ⟨name, version, ns, ⟨mode⟩, revision, policy⟩,
    size, capture, instantiate, dependency, invalidated⟩

def deserializeMetadata (bytes : Bytes) : Result PersistedMetadata := do
  let (m, rest) ← loadMetadata bytes
  if rest ≠ [] then fail .persistenceTrailingGarbage "trailing bytes after metadata"
  else .ok m

/-! ## Reading a node back -/

theorem readU64s_flatMap : ∀ vs : List UInt64, readU64s vs.length (vs.flatMap encU64) = vs
  | [] => rfl
  | v :: vs => by
    have hv : UInt64.ofNat (beNat (encU64 v)) = v := by
      simpa [decodeU64] using decodeU64_encU64 v
    simp [readU64s, hv, readU64s_flatMap vs]

theorem decodeU64List_encU64List {vs : List UInt64} (h : vs.length ≤ 4096) :
    decodeU64List (encU64List vs) = some vs := by
  have hn : beNat (beBytes 4 vs.length) = vs.length := beNat_beBytes_of_lt (by omega)
  have hlen : (vs.flatMap encU64).length = 8 * vs.length := by
    simp [List.length_flatMap, Nat.mul_comm]
  simp only [decodeU64List, encU64List, List.take_left' (length_beBytes 4 _), hn,
    List.drop_left' (length_beBytes 4 _), List.length_append, length_beBytes, hlen,
    readU64s_flatMap]
  rw [if_neg (by omega)]

theorem decodeDims {ds : List Int64} (h : ds.length ≤ 4096) :
    decodeU64List (encU64List (ds.map Int64.toUInt64)) = some (ds.map Int64.toUInt64) :=
  decodeU64List_encU64List (by simpa using h)

theorem decodeIndices {is : List UInt32} (h : is.length ≤ 4096) :
    decodeU64List (encU64List (is.map UInt32.toUInt64)) = some (is.map UInt32.toUInt64) :=
  decodeU64List_encU64List (by simpa using h)

theorem tagged_append {ts us : List UInt16} {ps qs : List (Option Bytes)}
    (h : ts.length = ps.length) : tagged (ts ++ us) (ps ++ qs) = tagged ts ps ++ tagged us qs := by
  simp [tagged, List.zipWith_append h, List.reduceOption_append]

theorem tagged_slotsIf (c : Prop) [Decidable c] : ∀ (ts : List UInt16) (ps : List Bytes),
    tagged ts (slotsIf c ps) = if c then List.zipWith Field.mk ts ps else []
  | [], ps => by simp [tagged]
  | _ :: _, [] => by simp [tagged, slotsIf]
  | t :: ts, p :: ps => by
    have ih := tagged_slotsIf c ts ps
    by_cases hc : c <;> simp_all [tagged, slotsIf]

/-- The limits of the codec on the lists of a node. -/
structure NodeLimits (n : GraphNodeDescriptor) : Prop where
  dims : n.datatype ≠ .none → n.shape.dims.length ≤ 4096
  inputs : n.reactiveInputIndices.length ≤ 4096
  outputs : n.reactiveOutputIndices.length ≤ 4096

/-! The groups of slots, each folded from an arbitrary node `s` before the rest of the record. -/

section
variable (s n : GraphNodeDescriptor) (rest : CanonicalWriter)

theorem fold_identity :
    (tagged [1, 2] (slotsIf True [encU64 n.nodeId.hi, encU64 n.nodeId.lo]) ++
      (tagged [3, 4] (slotsIf True [encU32 n.category.raw, n.name]) ++ rest)).foldlM
        decodeNodeField s =
      rest.foldlM decodeNodeField
        { s with nodeId := n.nodeId, category := n.category, name := n.name } := by
  simp [tagged_slotsIf, decodeNodeField]

theorem fold_kernel :
    (tagged [5, 6, 7, 8, 9, 10, 11, 12, 13, 14, 15, 16, 17, 18] (slotsIf (n.category = .kernel)
      [n.kernel.name, encU64 n.kernel.idHi, encU64 n.kernel.idLo, encU64 n.kernel.generation,
        encU32 n.kernel.abi, n.kernel.contentDigest, encBool n.kernel.contributesToCorrectness,
        encU32 n.launch.gridX, encU32 n.launch.gridY, encU32 n.launch.gridZ,
        encU32 n.launch.blockX, encU32 n.launch.blockY, encU32 n.launch.blockZ,
        encU32 n.launch.sharedMemoryBytes]) ++ rest).foldlM decodeNodeField s =
      rest.foldlM decodeNodeField { s with
        kernel := if n.category = .kernel then { n.kernel with provenance := s.kernel.provenance }
          else s.kernel
        launch := if n.category = .kernel then n.launch else s.launch } := by
  rw [tagged_slotsIf]
  split_ifs with hc
  · simp [decodeNodeField]
  · rfl

theorem fold_memory :
    (tagged [19] (slotsIf True [encU64 n.memoryBytes]) ++
      (tagged [20] (slotsIf (n.category = .memorySet) [encU8 n.memsetValue]) ++ rest)).foldlM
        decodeNodeField s =
      rest.foldlM decodeNodeField { s with
        memoryBytes := n.memoryBytes
        memsetValue := if n.category = .memorySet then n.memsetValue else s.memsetValue } := by
  rw [tagged_slotsIf, tagged_slotsIf]
  split_ifs <;> simp_all [decodeNodeField, encU8]

theorem fold_tensor (hs : s.shape = {}) (hdt : s.datatype = .none) (hl : s.layout = .contiguous)
    (hd : n.datatype ≠ .none → n.shape.dims.length ≤ 4096) :
    (tagged [21] (slotsIf (n.datatype ≠ .none ∧ n.shape.dims ≠ [])
        [encU64List (n.shape.dims.map Int64.toUInt64)]) ++
      (tagged [22] (slotsIf (n.datatype ≠ .none) [encBool n.shape.dynamic]) ++
      (tagged [23] (slotsIf (n.datatype ≠ .none ∧ n.shape.maxRank ≠ 0)
        [encU32 n.shape.maxRank]) ++
      (tagged [24, 25] (slotsIf (n.datatype ≠ .none)
        [encU32 n.datatype.raw, encU32 n.layout.raw]) ++ rest)))).foldlM decodeNodeField s =
      rest.foldlM decodeNodeField { s with
        shape := if n.datatype ≠ .none then n.shape else {}
        datatype := n.datatype
        layout := if n.datatype ≠ .none then n.layout else .contiguous } := by
  simp only [tagged_slotsIf]
  by_cases hc : n.datatype = .none
  · simp [hc, ← hs, ← hdt, ← hl]
  · have hshape : { s.shape with
        dims := s.shape.dims ++ (if n.shape.dims ≠ [] then n.shape.dims else [])
        dynamic := n.shape.dynamic
        maxRank := if n.shape.maxRank ≠ 0 then n.shape.maxRank else 0 } = n.shape := by
      ext1 <;> simp +contextual [hs]
    rw [← hshape]
    by_cases hnil : n.shape.dims = [] <;> by_cases hrank : n.shape.maxRank = 0 <;>
      simp [hc, hnil, hrank, decodeNodeField, hs, decodeDims (hd hc), Function.comp_def]

theorem fold_scalar (hs : s.scalar = {}) :
    (tagged [26, 27, 28] (slotsIf (n.scalar.specialized = true)
      [encBool true, encI64 n.scalar.intValue, encF64 n.scalar.floatValue]) ++ rest).foldlM
        decodeNodeField s =
      rest.foldlM decodeNodeField
        { s with scalar := if n.scalar.specialized then n.scalar else {} } := by
  rw [tagged_slotsIf]
  split_ifs with hc
  · simp [decodeNodeField, ← hc]
  · simp [← hs]

theorem fold_quantization (hs : s.quantization = {}) :
    (tagged [29] (slotsIf True [encU32 n.quantization.mode.raw]) ++
      (tagged [30, 31, 32] (slotsIf (n.quantization.mode ≠ .none)
        [encU32 n.quantization.groupSize, encBool n.quantization.symmetric,
          n.quantization.customScheme]) ++ rest)).foldlM decodeNodeField s =
      rest.foldlM decodeNodeField { s with
        quantization := if n.quantization.mode ≠ .none then n.quantization else {} } := by
  rw [tagged_slotsIf, tagged_slotsIf]
  split_ifs with hc <;> simp_all [decodeNodeField]

theorem fold_binding :
    (tagged [33, 34, 35, 36, 37] (slotsIf True
      [encU32 n.binding.bindingClass.raw, encU32 n.binding.alignment,
        n.binding.memoryBindingSchema, encBool n.binding.rebindingEligible,
        encU64 n.requiredAlignment]) ++ rest).foldlM decodeNodeField s =
      rest.foldlM decodeNodeField
        { s with binding := n.binding, requiredAlignment := n.requiredAlignment } := by
  simp [tagged_slotsIf, decodeNodeField]

theorem fold_child (hlo : s.childGraphLo = 0) :
    (tagged [38, 39] (slotsIf (n.childGraphLo ≠ 0)
      [encU64 n.childGraphHi, encU64 n.childGraphLo]) ++ rest).foldlM decodeNodeField s =
      rest.foldlM decodeNodeField { s with
        childGraphHi := if n.childGraphLo ≠ 0 then n.childGraphHi else s.childGraphHi
        childGraphLo := n.childGraphLo } := by
  rw [tagged_slotsIf]
  split_ifs with hc
  · simp [decodeNodeField]
  · simp [not_not.mp hc, ← hlo]

theorem fold_inputs (hin : s.reactiveInputIndices = []) (hn : NodeLimits n) :
    (tagged [40] (slotsIf (n.reactiveInputIndices ≠ [])
      [encU64List (n.reactiveInputIndices.map UInt32.toUInt64)]) ++ rest).foldlM
        decodeNodeField s =
      rest.foldlM decodeNodeField { s with reactiveInputIndices := n.reactiveInputIndices } := by
  rw [tagged_slotsIf]
  split_ifs with hc
  · simp [decodeNodeField, hin, decodeIndices hn.inputs, Function.comp_def]
  · simp [not_not.mp hc, ← hin]

theorem fold_outputs (hout : s.reactiveOutputIndices = []) (hn : NodeLimits n) :
    (tagged [41] (slotsIf (n.reactiveOutputIndices ≠ [])
      [encU64List (n.reactiveOutputIndices.map UInt32.toUInt64)]) ++ rest).foldlM
        decodeNodeField s =
      rest.foldlM decodeNodeField { s with reactiveOutputIndices := n.reactiveOutputIndices } := by
  rw [tagged_slotsIf]
  split_ifs with hc
  · simp [decodeNodeField, hout, decodeIndices hn.outputs, Function.comp_def]
  · simp [not_not.mp hc, ← hout]

theorem fold_opaque (hop : s.backendOpaque = []) :
    (tagged [42] (slotsIf (n.backendOpaque ≠ []) [n.backendOpaque])).foldlM decodeNodeField s =
      some { s with backendOpaque := n.backendOpaque } := by
  rw [tagged_slotsIf]
  split_ifs with hc
  · simp [decodeNodeField]
  · simp [not_not.mp hc, ← hop]

end

/-- The tags, group by group. -/
theorem storedNodeTags_eq : storedNodeTags = [1, 2] ++ ([3, 4] ++
    ([5, 6, 7, 8, 9, 10, 11, 12, 13, 14, 15, 16, 17, 18] ++ ([19] ++ ([20] ++ ([21] ++ ([22] ++
    ([23] ++ ([24, 25] ++ ([26, 27, 28] ++ ([29] ++ ([30, 31, 32] ++ ([33, 34, 35, 36, 37] ++
    ([38, 39] ++ ([40] ++ ([41] ++ [42]))))))))))))))) := by
  decide

/-- A node is read back with what the encoding leaves out reset. -/
theorem decodeNode_storeNode {n : GraphNodeDescriptor}
    (hw : ∀ f ∈ storeNode n, f.payload.length < 2 ^ 32) (hn : NodeLimits n) :
    decodeNode (storeNode n).take = some n.normalize := by
  have hslots : nodePayloads n =
      slotsIf True [encU64 n.nodeId.hi, encU64 n.nodeId.lo] ++ nodeBody n := by
    simp [nodePayloads, slotsIf]
  rw [decodeNode, CanonicalReader.forEach_take _ hw, storeNode, storedNodeTags_eq, hslots, nodeBody]
  simp only [List.append_assoc]
  iterate 16 rw [tagged_append rfl]
  rw [fold_identity, fold_kernel, fold_memory, fold_tensor _ _ _ rfl rfl rfl hn.dims,
    fold_scalar _ _ _ rfl, fold_quantization _ _ _ rfl, fold_binding, fold_child _ _ _ rfl,
    fold_inputs _ _ _ rfl hn, fold_outputs _ _ _ rfl hn, fold_opaque _ _ rfl]
  rfl

/-! ## Reading a stream back -/

theorem decodeFlagOrFalse_encBool (v : Bool) : decodeFlagOrFalse (encBool v) = some v := by
  simp [decodeFlagOrFalse]

theorem decodeEdge_storeEdge {e : GraphEdgeDescriptor}
    (hw : ∀ f ∈ storeEdge e, f.payload.length < 2 ^ 32) :
    decodeEdge (storeEdge e).take = some e := by
  rw [decodeEdge, CanonicalReader.forEach_take _ hw]
  simp [storeEdge, edgePayloads, decodeEdgeField]

theorem decodeDep_encodeDep {d : KernelIdentityRef}
    (hw : ∀ f ∈ encodeDep d, f.payload.length < 2 ^ 32) :
    decodeDep (encodeDep d).take = some d.normalize := by
  rw [decodeDep, CanonicalReader.forEach_take _ hw]
  simp [encodeDep, decodeDepField, putStr, putU64, putU32, putBool, KernelIdentityRef.normalize]

section
variable {β : Type} (w : CanonicalWriter)

theorem loadBackend_bind (b : BackendIdentity) (k : BackendIdentity → Decoder β)
    (hw : ∀ f ∈ storeBackend b, f.payload.length < 2 ^ 32) :
    (loadBackend >>= k) (CanonicalWriter.take (storeBackend b ++ w)) =
      k b (CanonicalWriter.take w) := by
  simp only [storeBackend, List.forall_mem_cons, putU32, putStr] at hw
  obtain ⟨h₁, h₂, h₃, h₄, -⟩ := hw
  simp only [loadBackend, storeBackend, List.cons_append, bind_assoc, putU32, putStr]
  rw [nextField_bind _ h₁ (decodeU32_encU32 _), nextField_bind _ h₂ (decodeStr_eq _),
    nextField_bind _ h₃ (decodeU32_encU32 _), nextField_bind _ h₄ (decodeStr_eq _)]
  rfl

theorem loadRuntime_bind (r : RuntimeDescriptor) (k : RuntimeDescriptor → Decoder β) :
    (loadRuntime >>= k) (CanonicalWriter.take (storeRuntime r ++ w)) =
      k { r with driverVersionString := [] } (CanonicalWriter.take w) := by
  simp only [loadRuntime, storeRuntime, List.cons_append, bind_assoc, putU32]
  rw [nextField_bind _ (by simp) (decodeU32_encU32 _), nextField_bind _ (by simp) (decodeU32_encU32 _),
    nextField_bind _ (by simp) (decodeU32_encU32 _), nextField_bind _ (by simp) (decodeU32_encU32 _)]
  rfl

theorem loadDevice_bind (d : DeviceDescriptor) (k : DeviceDescriptor → Decoder β)
    (hw : ∀ f ∈ storeDevice d, f.payload.length < 2 ^ 32) :
    (loadDevice >>= k) (CanonicalWriter.take (storeDevice d ++ w)) =
      k d (CanonicalWriter.take w) := by
  simp only [storeDevice, List.forall_mem_cons, putU32, putStr] at hw
  obtain ⟨h₁, h₂, h₃, h₄, h₅, h₆, -⟩ := hw
  simp only [loadDevice, storeDevice, List.cons_append, bind_assoc, putU32, putStr]
  rw [nextField_bind _ h₁ (decodeU32_encU32 _), nextField_bind _ h₂ (decodeStr_eq _),
    nextField_bind _ h₃ (decodeU32_encU32 _), nextField_bind _ h₄ (decodeU32_encU32 _),
    nextField_bind _ h₅ (decodeU32_encU32 _), nextField_bind _ h₆ (decodeStr_eq _)]
  rfl

theorem loadSync_bind (s : SynchronizationDescriptor) (k : SynchronizationDescriptor → Decoder β) :
    (loadSync >>= k) (CanonicalWriter.take (storeSync s ++ w)) = k s (CanonicalWriter.take w) := by
  simp only [loadSync, storeSync, List.cons_append, bind_assoc, putU32, putBool]
  rw [nextField_bind _ (by simp) (decodeU32_encU32 _), nextField_bind _ (by simp) (decodeU32_encU32 _),
    nextField_bind _ (by simp) (decodeFlagOrFalse_encBool _),
    nextField_bind _ (by simp) (decodeU32_encU32 _)]
  rfl

theorem loadProvenance_bind (p : ProvenanceDescriptor) (k : ProvenanceDescriptor → Decoder β)
    (hw : ∀ f ∈ storeProvenance p, f.payload.length < 2 ^ 32) :
    (loadProvenance >>= k) (CanonicalWriter.take (storeProvenance p ++ w)) =
      k p (CanonicalWriter.take w) := by
  simp only [storeProvenance, List.forall_mem_cons, putU64, putStr] at hw
  obtain ⟨h₁, h₂, h₃, h₄, h₅, -⟩ := hw
  simp only [loadProvenance, storeProvenance, List.cons_append, bind_assoc, putU64, putStr]
  rw [nextField_bind _ h₁ (decodeU64_encU64 _), nextField_bind _ h₂ (decodeStr_eq _),
    nextField_bind _ h₃ (decodeU64_encU64 _), nextField_bind _ h₄ (decodeStr_eq _),
    nextField_bind _ h₅ (decodeStr_eq _)]
  rfl

theorem mem_storeList {α : Type} {countTag tag : UInt16} {store : α → CanonicalWriter}
    {l : List α} {a : α} (ha : a ∈ l) :
    putBytes tag (store a).take ∈ storeList countTag tag store l :=
  List.mem_cons_of_mem _ (List.mem_map_of_mem ha)

theorem decodeCount_ofNat {limit n : ℕ} (hlimit : limit < 2 ^ 32) (hn : n ≤ limit) :
    decodeCount limit (encU32 (UInt32.ofNat n)) = some n := by
  have hword : (UInt32.ofNat n).toNat = n := by
    rw [UInt32.toNat_ofNat']
    exact Nat.mod_eq_of_lt (by omega)
  simp only [decodeCount, decodeU32_encU32, Option.bind_some, hword]
  rw [if_neg (by omega)]

/-- A list of nested streams is read back element by element. -/
theorem storeList_bind {α γ : Type} {countTag tag : UInt16} {store : α → CanonicalWriter}
    {decode : Bytes → Option γ} {g : α → γ} {limit : ℕ} {m₁ m₂ m₃ m₄ : String} {l : List α}
    (k : List γ → Decoder β) (hlimit : limit < 2 ^ 32) (hl : l.length ≤ limit)
    (hw : ∀ f ∈ storeList countTag tag store l, f.payload.length < 2 ^ 32)
    (hdec : ∀ a ∈ l, decode (store a).take = some (g a)) :
    (field countTag (decodeCount limit) m₁ m₂ >>= fun n => fields tag decode m₃ m₄ n >>= k)
        (CanonicalWriter.take (storeList countTag tag store l ++ w)) =
      k (l.map g) (CanonicalWriter.take w) := by
  simp only [storeList, List.cons_append, putU32, putBytes]
  rw [nextField_bind _ (by simp) (decodeCount_ofNat hlimit hl),
    nextFields_bind (e := fun a => (store a).take) (g := g) k _ hdec]
  intro a ha
  exact hw (putBytes tag (store a).take) (mem_storeList ha)

end

/-- What the codec accepts : its limits on counts, and lengths below 4 GiB. -/
structure CodecLimits (g : GraphDescriptor) : Prop where
  nodes : g.nodes.length ≤ 8192
  edges : g.edges.length ≤ 16384
  dependencies : g.dependencies.length ≤ 8192
  node : ∀ n ∈ g.nodes, NodeLimits n
  size : ∀ f ∈ descriptorFields g, f.payload.length < 2 ^ 32

/-- The descriptor as it is read back : what is not written reset. -/
def GraphDescriptor.stored (g : GraphDescriptor) : GraphDescriptor where
  artifactId := g.artifactId
  generation := g.generation
  backend := g.backend
  runtime := { g.runtime with driverVersionString := [] }
  device := g.device
  sync := g.sync
  nodes := g.nodes.map (·.normalize)
  edges := g.edges
  dependencies := g.dependencies.map (·.normalize)
  provenance := g.provenance

theorem length_le_take {w : CanonicalWriter} {f : Field} (h : f ∈ w) :
    f.payload.length ≤ w.take.length := by
  obtain ⟨a, b, rfl⟩ := List.append_of_mem h
  simp [CanonicalWriter.take, Field.bytes]
  omega

/-- A field of a nested stream is no longer than the stream. -/
theorem nested_size {α : Type} {countTag tag : UInt16} {store : α → CanonicalWriter} {l : List α}
    (hw : ∀ f ∈ storeList countTag tag store l, f.payload.length < 2 ^ 32) {a : α} (ha : a ∈ l) :
    ∀ f ∈ store a, f.payload.length < 2 ^ 32 := fun _ hf =>
  (length_le_take hf).trans_lt
    (hw (putBytes tag (store a).take) (mem_storeList ha))

/-- Within the limits of the codec a descriptor is read back, up to what is not written. -/
theorem deserialize_serialize {g : GraphDescriptor} (h : CodecLimits g) :
    deserializeDescriptor (serializeDescriptor g) = .ok g.stored := by
  have hload : loadDescriptor (serializeDescriptor g) = .ok (g.stored, []) := by
    have hsize := h.size
    simp only [descriptorFields, List.forall_mem_append] at hsize
    obtain ⟨-, hbackend, -, hdevice, -, hprov, hnodes, hedges, hdeps⟩ := hsize
    have hend : storeList 64 65 encodeDep g.dependencies =
        storeList 64 65 encodeDep g.dependencies ++ [] := by simp
    simp only [loadDescriptor, serializeDescriptor, descriptorFields, List.cons_append,
      List.nil_append, putU64]
    rw [nextField_bind _ (by simp) (decodeU64_encU64 _), nextField_bind _ (by simp) (decodeU64_encU64 _),
      nextField_bind _ (by simp) (decodeU64_encU64 _), loadBackend_bind _ _ _ hbackend,
      loadRuntime_bind, loadDevice_bind _ _ _ hdevice, loadSync_bind,
      loadProvenance_bind _ _ _ hprov,
      storeList_bind _ _ (by omega) h.nodes hnodes fun n hn =>
        decodeNode_storeNode (nested_size hnodes hn) (h.node n hn),
      storeList_bind (g := id) _ _ (by omega) h.edges hedges fun e he =>
        decodeEdge_storeEdge (nested_size hedges he),
      hend,
      storeList_bind _ _ (by omega) h.dependencies hdeps fun d hd =>
        decodeDep_encodeDep (nested_size hdeps hd)]
    simp only [GraphDescriptor.stored, CanonicalWriter.take, List.flatMap_nil, List.map_id]
    rfl
  simp [deserializeDescriptor, hload, bind, Except.bind]

/-- Metadata with fields shorter than 4 GiB is read back as it is. -/
theorem deserializeMetadata_serialize {m : PersistedMetadata}
    (hw : ∀ f ∈ metadataFields m, f.payload.length < 2 ^ 32) :
    deserializeMetadata (serializeMetadata m) = .ok m := by
  have hload : loadMetadata (serializeMetadata m) = .ok (m, []) := by
    simp only [metadataFields, List.forall_mem_cons, putU32, putStr, putU64, putBool] at hw
    obtain ⟨h₁, h₂, h₃, h₄, h₅, h₆, h₇, h₈, h₉, h₁₀, h₁₁, h₁₂, h₁₃, h₁₄, h₁₅, -⟩ := hw
    simp only [loadMetadata, serializeMetadata, metadataFields, putU32, putStr, putU64, putBool]
    rw [nextField_bind _ h₁ (decodeU64_encU64 _), nextField_bind _ h₂ (decodeU64_encU64 _),
      nextField_bind _ h₃ (decodeU64_encU64 _), nextField_bind _ h₄ (decodeU64_encU64 _),
      nextField_bind _ h₅ (decodeStr_eq _), nextField_bind _ h₆ (decodeU32_encU32 _),
      nextField_bind _ h₇ (decodeStr_eq _), nextField_bind _ h₈ (decodeU32_encU32 _),
      nextField_bind _ h₉ (decodeStr_eq _), nextField_bind _ h₁₀ (decodeStr_eq _),
      nextField_bind _ h₁₁ (decodeU64_encU64 _), nextField_bind _ h₁₂ (decodeU64_encU64 _),
      nextField_bind _ h₁₃ (decodeU64_encU64 _), nextField_bind _ h₁₄ (decodeU64_encU64 _),
      nextField_bind _ h₁₅ (decodeFlagOrFalse_encBool _)]
    rfl
  simp [deserializeMetadata, hload, bind, Except.bind]

end GraphCache
