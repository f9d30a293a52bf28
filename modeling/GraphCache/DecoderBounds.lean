import GraphCache.Engine
import GraphCache.SpanReader
import GraphCache.Wire

/-!
# The decoders with their accesses

`decode_u64_list` to `deserialize_metadata` of `serialization.cpp`, `decode_entry_payload` of
`cache.cpp` and `decode_message` of `protocol.cpp`, over a reader with its offset. Each access to a
byte or a part of a span has no outcome where it is out of range, as does a size that would be
negative; the count of a list is checked with 32-bit arithmetic, as in the program. The loops end
since `next` moves the offset.

`decoders_within_bounds` : on every byte string each decoder has an outcome, which is that of the
decoder without the accesses.
-/

open BigEndian LittleEndian Spans

namespace GraphCache

namespace SpanReader

/-! ## Lists of numbers -/

/-- The loop of `decode_u64_list`, from an offset on. -/
def readU64s (p : Bytes) : ℕ → ℕ → Option (Option (List UInt64))
  | _, 0 => some (some [])
  | off, n + 1 => do
    let q ← subspan p off 8
    match ← decodeU64 q with
    | none => return none
    | some v => assign (readU64s p (off + 8) n) (v :: ·)

/-- `4u + 8u * n` is a number of 32 bits. -/
def decodeU64List (p : Bytes) : Option (Option (List UInt64)) :=
  if p.length < 4 then some none
  else do
    let head ← first p 4
    match ← decodeU32 head with
    | none => return none
    | some n =>
      if n > 4096 ∨ p.length < (4 + 8 * n).toNat then return none
      else readU64s p 4 n.toNat

theorem readU64s_eq {p : Bytes} : ∀ {n off : ℕ}, off + 8 * n ≤ p.length →
    readU64s p off n = some (some (GraphCache.readU64s n (p.drop off)))
  | 0, _, _ => rfl
  | n + 1, off, h => by
    have hlen : ((p.drop off).take 8).length = 8 := by
      rw [List.length_take, List.length_drop]
      omega
    rw [readU64s, subspan_eq (by omega), GraphCache.readU64s, List.drop_drop]
    simp only [Option.bind_eq_bind, Option.bind_some, decodeU64_eq, GraphCache.decodeU64,
      if_pos hlen]
    rw [readU64s_eq (by omega)]
    rfl

section

variable {p : Bytes}

/-- The count of a list. -/
theorem toNat_count (h : 4 ≤ p.length) :
    (UInt32.ofNat (beNat (p.take 4))).toNat = beNat (p.take 4) := by
  have hlt := beNat_lt (p.take 4)
  rw [List.length_take_of_le h] at hlt
  rw [UInt32.toNat_ofNat']
  exact Nat.mod_eq_of_lt hlt

theorem count_limit (h : 4 ≤ p.length) :
    UInt32.ofNat (beNat (p.take 4)) > 4096 ↔ beNat (p.take 4) > 4096 := by
  rw [gt_iff_lt, UInt32.lt_iff_toNat_lt, toNat_count h]
  rfl

/-- Where the count is at most 4096, the size of the list does not wrap around. -/
theorem toNat_size (h : 4 ≤ p.length) (hlimit : ¬beNat (p.take 4) > 4096) :
    (4 + 8 * UInt32.ofNat (beNat (p.take 4))).toNat = 4 + 8 * beNat (p.take 4) := by
  rw [UInt32.toNat_add, UInt32.toNat_mul, toNat_count h]
  simp only [UInt32.reduceToNat]
  omega

theorem decodeU32_count (h : 4 ≤ p.length) :
    decodeU32 (p.take 4) = some (some (UInt32.ofNat (beNat (p.take 4)))) := by
  rw [decodeU32_eq, GraphCache.decodeU32, if_pos (List.length_take_of_le h)]

end

theorem decodeU64List_eq (p : Bytes) :
    decodeU64List p = some (GraphCache.decodeU64List p) := by
  unfold decodeU64List GraphCache.decodeU64List
  by_cases hshort : p.length < 4
  · rw [if_pos hshort, if_pos (.inl hshort)]
  have h4 : 4 ≤ p.length := Nat.not_lt.mp hshort
  rw [if_neg hshort, first_eq h4]
  simp only [Option.bind_eq_bind, Option.bind_some, decodeU32_count h4, count_limit h4,
    toNat_count h4]
  by_cases hlimit : beNat (p.take 4) > 4096
  · rw [if_pos (.inl hlimit), if_pos (.inr (.inl hlimit))]
    rfl
  rw [toNat_size h4 hlimit]
  by_cases hlong : p.length < 4 + 8 * beNat (p.take 4)
  · rw [if_pos (.inr hlong), if_pos (.inr (.inr hlong))]
    rfl
  · rw [if_neg (by omega), if_neg (by omega), readU64s_eq (Nat.not_lt.mp hlong)]

/-! ## Nodes, edges and dependencies -/

/-- One turn of the switch in `decode_node`. -/
def decodeNodeField (n : GraphNodeDescriptor) (f : Field) : Option (Option GraphNodeDescriptor) :=
  let p := f.payload
  match f.tag.toNat with
  | 1 => assign (decodeU64 p) fun v => { n with nodeId := { n.nodeId with hi := v } }
  | 2 => assign (decodeU64 p) fun v => { n with nodeId := { n.nodeId with lo := v } }
  | 3 => assign (decodeU32 p) fun v => { n with category := ⟨v⟩ }
  | 4 => assign (decodeStr p) fun v => { n with name := v }
  | 5 => assign (decodeStr p) fun v => { n with kernel := { n.kernel with name := v } }
  | 6 => assign (decodeU64 p) fun v => { n with kernel := { n.kernel with idHi := v } }
  | 7 => assign (decodeU64 p) fun v => { n with kernel := { n.kernel with idLo := v } }
  | 8 => assign (decodeU64 p) fun v => { n with kernel := { n.kernel with generation := v } }
  | 9 => assign (decodeU32 p) fun v => { n with kernel := { n.kernel with abi := v } }
  | 10 => assign (decodeStr p) fun v => { n with kernel := { n.kernel with contentDigest := v } }
  | 11 => assign (decodeFlag p) fun v =>
      { n with kernel := { n.kernel with contributesToCorrectness := v } }
  | 12 => assign (decodeU32 p) fun v => { n with launch := { n.launch with gridX := v } }
  | 13 => assign (decodeU32 p) fun v => { n with launch := { n.launch with gridY := v } }
  | 14 => assign (decodeU32 p) fun v => { n with launch := { n.launch with gridZ := v } }
  | 15 => assign (decodeU32 p) fun v => { n with launch := { n.launch with blockX := v } }
  | 16 => assign (decodeU32 p) fun v => { n with launch := { n.launch with blockY := v } }
  | 17 => assign (decodeU32 p) fun v => { n with launch := { n.launch with blockZ := v } }
  | 18 => assign (decodeU32 p) fun v =>
      { n with launch := { n.launch with sharedMemoryBytes := v } }
  | 19 => assign (decodeU64 p) fun v => { n with memoryBytes := v }
  | 20 => assign (decodeByte p) fun v => { n with memsetValue := v }
  | 21 => assign (decodeU64List p) fun v =>
      { n with shape := { n.shape with dims := n.shape.dims ++ v.map UInt64.toInt64 } }
  | 22 => assign (decodeFlag p) fun v => { n with shape := { n.shape with dynamic := v } }
  | 23 => assign (decodeU32 p) fun v => { n with shape := { n.shape with maxRank := v } }
  | 24 => assign (decodeU32 p) fun v => { n with datatype := ⟨v⟩ }
  | 25 => assign (decodeU32 p) fun v => { n with layout := ⟨v⟩ }
  | 26 => assign (decodeFlagOr p n.scalar.specialized) fun v =>
      { n with scalar := { n.scalar with specialized := v } }
  | 27 => assign (decodeI64 p) fun v => { n with scalar := { n.scalar with intValue := v } }
  | 28 => assign (decodeF64 p) fun v => { n with scalar := { n.scalar with floatValue := v } }
  | 29 => assign (decodeU32 p) fun v =>
      { n with quantization := { n.quantization with mode := ⟨v⟩ } }
  | 30 => assign (decodeU32 p) fun v =>
      { n with quantization := { n.quantization with groupSize := v } }
  | 31 => assign (decodeFlag p) fun v =>
      { n with quantization := { n.quantization with symmetric := v } }
  | 32 => assign (decodeStr p) fun v =>
      { n with quantization := { n.quantization with customScheme := v } }
  | 33 => assign (decodeU32 p) fun v => { n with binding := { n.binding with bindingClass := ⟨v⟩ } }
  | 34 => assign (decodeU32 p) fun v => { n with binding := { n.binding with alignment := v } }
  | 35 => assign (decodeStr p) fun v =>
      { n with binding := { n.binding with memoryBindingSchema := v } }
  | 36 => assign (decodeFlag p) fun v =>
      { n with binding := { n.binding with rebindingEligible := v } }
  | 37 => assign (decodeU64 p) fun v => { n with requiredAlignment := v }
  | 38 => assign (decodeU64 p) fun v => { n with childGraphHi := v }
  | 39 => assign (decodeU64 p) fun v => { n with childGraphLo := v }
  | 40 => assign (decodeU64List p) fun v =>
      { n with reactiveInputIndices := n.reactiveInputIndices ++ v.map UInt64.toUInt32 }
  | 41 => assign (decodeU64List p) fun v =>
      { n with reactiveOutputIndices := n.reactiveOutputIndices ++ v.map UInt64.toUInt32 }
  | 42 => some (some { n with backendOpaque := p })
  | _ => some none

def decodeEdgeField (e : GraphEdgeDescriptor) (f : Field) : Option (Option GraphEdgeDescriptor) :=
  let p := f.payload
  match f.tag.toNat with
  | 1 => assign (decodeU64 p) fun v => { e with edgeId := { e.edgeId with hi := v } }
  | 2 => assign (decodeU64 p) fun v => { e with edgeId := { e.edgeId with lo := v } }
  | 3 => assign (decodeU64 p) fun v => { e with fromNode := { e.fromNode with hi := v } }
  | 4 => assign (decodeU64 p) fun v => { e with fromNode := { e.fromNode with lo := v } }
  | 5 => assign (decodeU64 p) fun v => { e with toNode := { e.toNode with hi := v } }
  | 6 => assign (decodeU64 p) fun v => { e with toNode := { e.toNode with lo := v } }
  | 7 => assign (decodeU32 p) fun v => { e with kind := ⟨v⟩ }
  | 8 => assign (decodeStr p) fun v => { e with label := v }
  | _ => some none

def decodeDepField (d : KernelIdentityRef) (f : Field) : Option (Option KernelIdentityRef) :=
  let p := f.payload
  match f.tag.toNat with
  | 1 => assign (decodeStr p) fun v => { d with name := v }
  | 2 => assign (decodeU64 p) fun v => { d with idHi := v }
  | 3 => assign (decodeU64 p) fun v => { d with idLo := v }
  | 4 => assign (decodeU64 p) fun v => { d with generation := v }
  | 5 => assign (decodeU32 p) fun v => { d with abi := v }
  | 6 => assign (decodeStr p) fun v => { d with contentDigest := v }
  | 7 => assign (decodeFlag p) fun v => { d with contributesToCorrectness := v }
  | _ => some none

def decodeNode (bytes : Bytes) : Option (Option GraphNodeDescriptor) :=
  forEach decodeNodeField bytes {}

def decodeEdge (bytes : Bytes) : Option (Option GraphEdgeDescriptor) :=
  forEach decodeEdgeField bytes {}

def decodeDep (bytes : Bytes) : Option (Option KernelIdentityRef) :=
  forEach decodeDepField bytes {}

theorem decodeNodeField_eq (n : GraphNodeDescriptor) (f : Field) :
    decodeNodeField n f = some (GraphCache.decodeNodeField n f) := by
  unfold decodeNodeField GraphCache.decodeNodeField
  simp only [decodeU32_eq, decodeU64_eq, decodeI64_eq, decodeF64_eq, decodeStr_eq, decodeByte_eq,
    decodeFlag_eq, decodeFlagOr_eq, decodeU64List_eq, assign_some]
  generalize f.tag.toNat = tag
  obtain hlisted | ⟨k, rfl⟩ : tag < 43 ∨ ∃ k, tag = k + 43 := by
    rcases Nat.lt_or_ge tag 43 with h | h
    · exact .inl h
    · exact .inr ⟨tag - 43, (Nat.sub_add_cancel h).symm⟩
  · interval_cases tag <;> rfl
  · rfl

theorem decodeEdgeField_eq (e : GraphEdgeDescriptor) (f : Field) :
    decodeEdgeField e f = some (GraphCache.decodeEdgeField e f) := by
  unfold decodeEdgeField GraphCache.decodeEdgeField
  simp only [decodeU32_eq, decodeU64_eq, decodeStr_eq, assign_some]
  generalize f.tag.toNat = tag
  rcases tag with _ | _ | _ | _ | _ | _ | _ | _ | _ | _ <;> rfl

theorem decodeDepField_eq (d : KernelIdentityRef) (f : Field) :
    decodeDepField d f = some (GraphCache.decodeDepField d f) := by
  unfold decodeDepField GraphCache.decodeDepField
  simp only [decodeU32_eq, decodeU64_eq, decodeStr_eq, decodeFlag_eq, assign_some]
  generalize f.tag.toNat = tag
  rcases tag with _ | _ | _ | _ | _ | _ | _ | _ | _ <;> rfl

theorem decodeNode_eq (bytes : Bytes) : decodeNode bytes = some (GraphCache.decodeNode bytes) :=
  forEach_eq decodeNodeField_eq bytes {}

theorem decodeEdge_eq (bytes : Bytes) : decodeEdge bytes = some (GraphCache.decodeEdge bytes) :=
  forEach_eq decodeEdgeField_eq bytes {}

theorem decodeDep_eq (bytes : Bytes) : decodeDep bytes = some (GraphCache.decodeDep bytes) :=
  forEach_eq decodeDepField_eq bytes {}

/-! ## Descriptors and metadata -/

/-- A reader with its offset, that fails with an error. -/
abbrev Loader := StateT SpanReader (ExceptT Error Option)

/-- A field of the stream; the messages of the two failures. -/
abbrev field {α : Type} (tag : UInt16) (check : Bytes → Option (Option α))
    (missing malformed : String) : Loader α :=
  nextField tag check ⟨.persistenceCorrupt, str missing⟩ ⟨.persistenceCorrupt, str malformed⟩

/-- That many fields of one tag. -/
abbrev fields {α : Type} (tag : UInt16) (check : Bytes → Option (Option α))
    (missing malformed : String) : ℕ → Loader (List α) :=
  nextFields tag check ⟨.persistenceCorrupt, str missing⟩ ⟨.persistenceCorrupt, str malformed⟩

/-- `decode_u32`, bounded. -/
def decodeCount (limit : ℕ) (p : Bytes) : Option (Option ℕ) :=
  (decodeU32 p).map fun o => o.bind fun n => if n.toNat > limit then none else some n.toNat

/-- `if (!p.empty()) v = p[0] != 0;`, with `v` false before. -/
def decodeFlagOrFalse (p : Bytes) : Option (Option Bool) := decodeFlagOr p false

def loadBackend : Loader BackendIdentity := do
  let kind ← field 10 decodeU32 "bk_kind" "bk_kind decode"
  let name ← field 11 decodeStr "bk_name" "bk_name"
  let version ← field 12 decodeU32 "bk_ver" "bk_ver decode"
  let implementation ← field 13 decodeStr "bk_impl" "bk_impl"
  return ⟨⟨kind⟩, name, version, implementation⟩

def loadRuntime : Loader RuntimeDescriptor := do
  let version ← field 20 decodeU32 "rt_ver" "rt_ver decode"
  let graphAbi ← field 21 decodeU32 "rt_gabi" "gabi decode"
  let kernelAbi ← field 22 decodeU32 "rt_kabi" "kabi decode"
  let driver ← field 23 decodeU32 "rt_driver" "driver decode"
  return ⟨version, graphAbi, kernelAbi, driver, []⟩

def loadDevice : Loader DeviceDescriptor := do
  let vendor ← field 30 decodeU32 "dev_vendor" "dev_vendor decode"
  let architecture ← field 31 decodeStr "dev_arch" "dev_arch"
  let major ← field 32 decodeU32 "cc_major" "cc_major decode"
  let minor ← field 33 decodeU32 "cc_minor" "cc_minor decode"
  let index ← field 34 decodeU32 "dev_idx" "dev_idx decode"
  let name ← field 35 decodeStr "dev_name" "dev_name"
  return ⟨⟨vendor⟩, architecture, major, minor, index, name⟩

def loadSync : Loader SynchronizationDescriptor := do
  let mode ← field 40 decodeU32 "cap_mode" "cap_mode decode"
  let stream ← field 41 decodeU32 "stream" "stream decode"
  let external ← field 42 decodeFlagOrFalse "extsync" "extsync"
  let events ← field 43 decodeU32 "evt" "evt decode"
  return ⟨⟨mode⟩, ⟨stream⟩, external, events⟩

def loadProvenance : Loader ProvenanceDescriptor := do
  let timestamp ← field 50 decodeU64 "prov_ts" "prov_ts decode"
  let source ← field 51 decodeStr "prov_src" "prov_src"
  let duration ← field 52 decodeU64 "prov_dur" "prov_dur"
  let toolchain ← field 53 decodeStr "prov_tool" "prov_tool"
  let name ← field 54 decodeStr "prov_name" "prov_name"
  return ⟨timestamp, source, duration, toolchain, name⟩

def loadDescriptor : Loader GraphDescriptor := do
  let hi ← field 1 decodeU64 "descriptor: artifact_hi" "artifact_hi decode"
  let lo ← field 2 decodeU64 "artifact_lo" "artifact_lo"
  let generation ← field 3 decodeU64 "generation" "generation"
  let backend ← loadBackend
  let runtime ← loadRuntime
  let device ← loadDevice
  let sync ← loadSync
  let provenance ← loadProvenance
  let nodeCount ← field 60 (decodeCount 8192) "node_count" "node_count decode"
  let nodes ← fields 61 decodeNode "node" "node decode" nodeCount
  let edgeCount ← field 62 (decodeCount 16384) "edge_count" "edge_count decode"
  let edges ← fields 63 decodeEdge "edge" "edge decode" edgeCount
  let depCount ← field 64 (decodeCount 8192) "dep_count" "dep_count decode"
  let dependencies ← fields 65 decodeDep "dep" "dep decode" depCount
  return { artifactId := ⟨hi, lo⟩, generation, backend, runtime, device, sync, provenance, nodes,
           edges, dependencies }

def loadMetadata : Loader PersistedMetadata := do
  let hi ← field 1 decodeU64 "md artifact_hi" "md artifact_hi"
  let lo ← field 2 decodeU64 "md artifact_lo" "md artifact_lo"
  let generation ← field 3 decodeU64 "md gen" "md gen"
  let cacheGeneration ← field 4 decodeU64 "md cache_gen" "md cache_gen"
  let name ← field 10 decodeStr "md wl_name" "md wl_name"
  let version ← field 11 decodeU32 "md wl_ver" "md wl_ver decode"
  let ns ← field 12 decodeStr "md wl_ns" "md wl_ns"
  let mode ← field 13 decodeU32 "md revmode" "md revmode decode"
  let revision ← field 14 decodeStr "md modelrev" "md modelrev"
  let policy ← field 15 decodeStr "md policygen" "md policygen"
  let size ← field 20 decodeU64 "md size" "md size"
  let capture ← field 21 decodeU64 "md cap_cost" "md cap_cost"
  let instantiate ← field 22 decodeU64 "md inst_cost" "md inst_cost"
  let dependency ← field 23 decodeU64 "md dep_gen" "md dep_gen"
  let invalidated ← field 24 decodeFlagOrFalse "md invalidated" "md invalidated"
  return ⟨⟨hi, lo⟩, generation, cacheGeneration, ⟨name, version, ns, ⟨mode⟩, revision, policy⟩,
    size, capture, instantiate, dependency, invalidated⟩

/-- What is read, where the data ends there. -/
def toEnd {α : Type} (load : Loader α) (trailing : String) (bytes : Bytes) : Option (Result α) :=
  (load.run { data := bytes }).run.map fun o => do
    let (a, r) ← o
    if ¬r.atEnd then fail .persistenceTrailingGarbage trailing
    else .ok a

def deserializeDescriptor : Bytes → Option (Result GraphDescriptor) :=
  toEnd loadDescriptor "trailing bytes after descriptor"

def deserializeMetadata : Bytes → Option (Result PersistedMetadata) :=
  toEnd loadMetadata "trailing bytes after metadata"

theorem decodeCount_eq (limit : ℕ) (p : Bytes) :
    decodeCount limit p = some (GraphCache.decodeCount limit p) := by
  rw [decodeCount, decodeU32_eq]
  rfl

theorem decodeFlagOrFalse_eq (p : Bytes) :
    decodeFlagOrFalse p = some (GraphCache.decodeFlagOrFalse p) :=
  decodeFlagOr_eq p false

theorem loadBackend_total : Total Within rest loadBackend GraphCache.loadBackend :=
  .bind (total_nextField decodeU32_eq) fun _ => .bind (total_nextField decodeStr_eq) fun _ =>
    .bind (total_nextField decodeU32_eq) fun _ => .bind (total_nextField decodeStr_eq) fun _ =>
      .pure

theorem loadRuntime_total : Total Within rest loadRuntime GraphCache.loadRuntime :=
  .bind (total_nextField decodeU32_eq) fun _ => .bind (total_nextField decodeU32_eq) fun _ =>
    .bind (total_nextField decodeU32_eq) fun _ => .bind (total_nextField decodeU32_eq) fun _ =>
      .pure

theorem loadDevice_total : Total Within rest loadDevice GraphCache.loadDevice :=
  .bind (total_nextField decodeU32_eq) fun _ => .bind (total_nextField decodeStr_eq) fun _ =>
    .bind (total_nextField decodeU32_eq) fun _ => .bind (total_nextField decodeU32_eq) fun _ =>
      .bind (total_nextField decodeU32_eq) fun _ => .bind (total_nextField decodeStr_eq) fun _ =>
        .pure

theorem loadSync_total : Total Within rest loadSync GraphCache.loadSync :=
  .bind (total_nextField decodeU32_eq) fun _ => .bind (total_nextField decodeU32_eq) fun _ =>
    .bind (total_nextField decodeFlagOrFalse_eq) fun _ =>
      .bind (total_nextField decodeU32_eq) fun _ => .pure

theorem loadProvenance_total : Total Within rest loadProvenance GraphCache.loadProvenance :=
  .bind (total_nextField decodeU64_eq) fun _ => .bind (total_nextField decodeStr_eq) fun _ =>
    .bind (total_nextField decodeU64_eq) fun _ => .bind (total_nextField decodeStr_eq) fun _ =>
      .bind (total_nextField decodeStr_eq) fun _ => .pure

/-- A counted list of records. -/
theorem total_list {α β : Type} {countTag tag : UInt16} {check : Bytes → Option (Option α)}
    {decode : Bytes → Option α} {limit : ℕ} {m₁ m₂ m₃ m₄ : String} {k : List α → Loader β}
    {k' : List α → Decoder β} (h : ∀ p, check p = some (decode p))
    (hk : ∀ as, Total Within rest (k as) (k' as)) :
    Total Within rest (field countTag (decodeCount limit) m₁ m₂ >>= fun n =>
        fields tag check m₃ m₄ n >>= k)
      (GraphCache.field countTag (GraphCache.decodeCount limit) m₁ m₂ >>= fun n =>
        GraphCache.fields tag decode m₃ m₄ n >>= k') :=
  .bind (total_nextField (decodeCount_eq limit)) fun n => .bind (total_nextFields h n) hk

theorem loadDescriptor_total : Total Within rest loadDescriptor GraphCache.loadDescriptor :=
  .bind (total_nextField decodeU64_eq) fun _ => .bind (total_nextField decodeU64_eq) fun _ =>
    .bind (total_nextField decodeU64_eq) fun _ => .bind loadBackend_total fun _ =>
      .bind loadRuntime_total fun _ => .bind loadDevice_total fun _ =>
        .bind loadSync_total fun _ => .bind loadProvenance_total fun _ =>
          total_list decodeNode_eq fun _ => total_list decodeEdge_eq fun _ =>
            total_list decodeDep_eq fun _ => .pure

theorem loadMetadata_total : Total Within rest loadMetadata GraphCache.loadMetadata :=
  .bind (total_nextField decodeU64_eq) fun _ => .bind (total_nextField decodeU64_eq) fun _ =>
    .bind (total_nextField decodeU64_eq) fun _ => .bind (total_nextField decodeU64_eq) fun _ =>
      .bind (total_nextField decodeStr_eq) fun _ => .bind (total_nextField decodeU32_eq) fun _ =>
        .bind (total_nextField decodeStr_eq) fun _ => .bind (total_nextField decodeU32_eq) fun _ =>
          .bind (total_nextField decodeStr_eq) fun _ => .bind (total_nextField decodeStr_eq) fun _ =>
            .bind (total_nextField decodeU64_eq) fun _ =>
              .bind (total_nextField decodeU64_eq) fun _ =>
                .bind (total_nextField decodeU64_eq) fun _ =>
                  .bind (total_nextField decodeU64_eq) fun _ =>
                    .bind (total_nextField decodeFlagOrFalse_eq) fun _ => .pure

theorem toEnd_eq {α : Type} {load : Loader α} {load' : Decoder α} {trailing : String}
    (h : Total Within rest load load') (bytes : Bytes) :
    toEnd load trailing bytes = some (do
      let (a, left) ← load' bytes
      if left ≠ [] then fail .persistenceTrailingGarbage trailing
      else .ok a) := by
  unfold toEnd
  rcases h.run_eq (within_of bytes) id with ⟨e, hrun, hload⟩ | ⟨a, r, hrun, hr, hload⟩
  · rw [hrun, show load' bytes = .error e from hload]
    rfl
  · rw [hrun, show load' bytes = .ok (a, r.rest) from hload, Option.map_some]
    refine congrArg some ?_
    simp only [bind, Except.bind, atEnd_iff hr]

theorem deserializeDescriptor_eq (bytes : Bytes) :
    deserializeDescriptor bytes = some (GraphCache.deserializeDescriptor bytes) :=
  toEnd_eq loadDescriptor_total bytes

theorem deserializeMetadata_eq (bytes : Bytes) :
    deserializeMetadata bytes = some (GraphCache.deserializeMetadata bytes) :=
  toEnd_eq loadMetadata_total bytes

/-! ## Stored entries -/

section

variable {Exec : Type}

/-- One field of a payload : the descriptor or the metadata. -/
def decodePayloadField (acc : Option GraphDescriptor × Option PersistedMetadata) (f : Field) :
    Option (Option (Option GraphDescriptor × Option PersistedMetadata)) :=
  match f.tag.toNat with
  | 1 => assign ((deserializeDescriptor f.payload).map Except.toOption) fun g => (some g, acc.2)
  | 2 => assign ((deserializeMetadata f.payload).map Except.toOption) fun m => (acc.1, some m)
  | _ => some none

def decodeEntryPayload (payload : Bytes) : Option (Option (CacheEntry Exec)) :=
  (forEach decodePayloadField payload (none, none)).map fun o =>
    match o with
    | some (some g, some md) => some (recoveredEntry g md)
    | _ => none

theorem decodePayloadField_eq (acc : Option GraphDescriptor × Option PersistedMetadata)
    (f : Field) : decodePayloadField acc f = some (GraphCache.decodePayloadField acc f) := by
  unfold decodePayloadField GraphCache.decodePayloadField
  simp only [deserializeDescriptor_eq, deserializeMetadata_eq, Option.map_some, assign_some]
  generalize f.tag.toNat = tag
  rcases tag with _ | _ | _ | _ <;> rfl

theorem decodeEntryPayload_eq (payload : Bytes) :
    decodeEntryPayload payload =
      some (GraphCache.decodeEntryPayload payload : Option (CacheEntry Exec)) := by
  rw [decodeEntryPayload, forEach_eq decodePayloadField_eq, Option.map_some]
  rfl

end

/-! ## Messages -/

/-- `if (off + w > data.size()) return false;`, then the bytes one by one. -/
def rdLe (w : ℕ) (data : Bytes) (off : ℕ) : Option (Option ℕ) :=
  if off + w > data.length then some none
  else (indexes data off w).map fun bs => some (leNat bs)

def rdU16Le (data : Bytes) (off : ℕ) : Option (Option UInt16) := assign (rdLe 2 data off) UInt16.ofNat

def rdU32Le (data : Bytes) (off : ℕ) : Option (Option UInt32) := assign (rdLe 4 data off) UInt32.ofNat

def rdU64Le (data : Bytes) (off : ℕ) : Option (Option UInt64) := assign (rdLe 8 data off) UInt64.ofNat

/-- A number that is not there. -/
def orTruncated {α : Type} (message : String) (o : Option (Option α)) : ExceptT Error Option α :=
  ExceptT.mk (o.map (GraphCache.orTruncated message))

/-- `decode_message` after the type and the version, which are the first two bytes. -/
def decodeBody (type version : UInt8) (bytes : Bytes) : ExceptT Error Option RawMessage := do
  let flags ← orTruncated "flags" (rdU16Le bytes 2)
  let requestId ← orTruncated "request_id" (rdU64Le bytes 4)
  let epoch ← orTruncated "epoch" (rdU64Le bytes 12)
  let cacheGen ← orTruncated "cache_gen" (rdU64Le bytes 20)
  let workerId ← orTruncated "worker_id" (rdU64Le bytes 28)
  let workerBoot ← orTruncated "worker_boot" (rdU64Le bytes 36)
  let graphGen ← orTruncated "graph_gen" (rdU64Le bytes 44)
  let captureAttempt ← orTruncated "capture_attempt" (rdU64Le bytes 52)
  let replayAttempt ← orTruncated "replay_attempt" (rdU64Le bytes 60)
  let status ← orTruncated "status" (rdU16Le bytes 68)
  let plen ← orTruncated "payload_len" (rdU32Le bytes 70)
  if plen.toNat > maxPayloadSize then
    ExceptT.mk (some (fail .protocolOverflow "payload exceeds max frame size"))
  else if 74 + plen.toNat ≠ bytes.length then
    ExceptT.mk (some (fail .protocolTruncated "payload length mismatch"))
  else
    -- `bytes.begin() + off` to `bytes.end()`
    let payload ← ExceptT.lift ((minus bytes.length 74).bind (subspan bytes 74))
    return ⟨type, version, flags, requestId, epoch, cacheGen, workerId, workerBoot, graphGen,
      captureAttempt, replayAttempt, ⟨status⟩, payload⟩

def decodeMessage (bytes : Bytes) : Option (Result RawMessage) :=
  if bytes.length < headerMin then some (fail .protocolTruncated "message header truncated")
  else do
    let type ← index bytes 0
    let version ← index bytes 1
    if ¬validType type then return fail .protocolUnknownMessage "unknown message type"
    else if version ≠ protocolVersion then
      return fail .protocolUnknownVersion "protocol version mismatch"
    else decodeBody type version bytes

theorem rdLe_eq (w : ℕ) (data : Bytes) (off : ℕ) : rdLe w data off = some (leAt w data off) := by
  unfold rdLe leAt
  by_cases h : off + w > data.length
  · rw [if_pos h, if_pos h]
  · rw [if_neg h, if_neg h, indexes_eq (Nat.not_lt.mp h), Option.map_some]

theorem orTruncated_rdU16Le (message : String) (bytes : Bytes) (off : ℕ) :
    (orTruncated message (rdU16Le bytes off)).run =
      some (GraphCache.orTruncated message (GraphCache.rdU16Le bytes off)) := by
  rw [rdU16Le, rdLe_eq]
  rfl

theorem orTruncated_rdU32Le (message : String) (bytes : Bytes) (off : ℕ) :
    (orTruncated message (rdU32Le bytes off)).run =
      some (GraphCache.orTruncated message (GraphCache.rdU32Le bytes off)) := by
  rw [rdU32Le, rdLe_eq]
  rfl

theorem orTruncated_rdU64Le (message : String) (bytes : Bytes) (off : ℕ) :
    (orTruncated message (rdU64Le bytes off)).run =
      some (GraphCache.orTruncated message (GraphCache.rdU64Le bytes off)) := by
  rw [rdU64Le, rdLe_eq]
  rfl

theorem decodeMessage_eq (bytes : Bytes) :
    decodeMessage bytes = some (GraphCache.decodeMessage bytes) := by
  unfold decodeMessage GraphCache.decodeMessage
  by_cases hshort : bytes.length < headerMin
  · rw [if_pos hshort, if_pos hshort]
  have hlen : 74 ≤ bytes.length := Nat.not_lt.mp hshort
  have hget : ∀ i, i < 74 → index bytes i = some (bytes.getD i 0) := fun i hi => by
    have hi : i < bytes.length := by omega
    rw [index_eq hi, List.getD_eq_getElem?_getD, List.getElem?_eq_getElem hi, Option.getD_some]
  rw [if_neg hshort, if_neg hshort, hget 0 (by omega), hget 1 (by omega), Option.bind_eq_bind,
    Option.bind_some, Option.bind_some]
  by_cases htype : ¬validType (bytes.getD 0 0)
  · rw [if_pos htype, if_pos htype]
    rfl
  by_cases hversion : bytes.getD 1 0 ≠ protocolVersion
  · rw [if_neg htype, if_neg htype, if_pos hversion, if_pos hversion]
    rfl
  rw [if_neg htype, if_neg htype, if_neg hversion, if_neg hversion]
  refine run_bind_eq (orTruncated_rdU16Le _ _ _) fun _ => ?_
  iterate 8 refine run_bind_eq (orTruncated_rdU64Le _ _ _) fun _ => ?_
  refine run_bind_eq (orTruncated_rdU16Le _ _ _) fun _ => ?_
  refine run_bind_eq (orTruncated_rdU32Le _ _ _) fun plen => ?_
  by_cases hmax : plen.toNat > maxPayloadSize
  · rw [if_pos hmax, if_pos hmax]
    rfl
  by_cases hexact : 74 + plen.toNat ≠ bytes.length
  · rw [if_neg hmax, if_neg hmax, if_pos hexact, if_pos hexact]
    rfl
  have hpayload : (minus bytes.length 74).bind (subspan bytes 74) = some (bytes.drop 74) := by
    rw [minus_eq hlen, Option.bind_some, subspan_eq (by omega),
      List.take_of_length_le (List.length_drop ▸ le_rfl)]
  rw [if_neg hmax, if_neg hmax, if_neg hexact, if_neg hexact, hpayload]
  rfl

/-- On every byte string the decoders have an outcome, that of the decoders without accesses, and
the offset of the reader they use stays within its data. -/
theorem decoders_within_bounds {Exec : Type} (b : Bytes) :
    (∀ k, ∃ r, nexts k { data := b } = some r ∧ r.data = b ∧ r.off ≤ r.data.length) ∧
      deserializeDescriptor b = some (GraphCache.deserializeDescriptor b) ∧
      deserializeMetadata b = some (GraphCache.deserializeMetadata b) ∧
      decodeEntryPayload b = some (GraphCache.decodeEntryPayload b : Option (CacheEntry Exec)) ∧
      decodeMessage b = some (GraphCache.decodeMessage b) := by
  refine ⟨fun k => ?_, deserializeDescriptor_eq b, deserializeMetadata_eq b,
    decodeEntryPayload_eq b, decodeMessage_eq b⟩
  obtain ⟨r, hnexts, hwithin, hdata⟩ := nexts_within k (within_of b)
  exact ⟨r, hnexts, hdata, hwithin⟩

end SpanReader

end GraphCache
