import GraphCache.DecoderBounds
import GraphCache.KeyAgreement

/-!
# The decoders of keys with their accesses

`decode_shape` and `decode_facts` of `compatibility.cpp`, and the two functions that return what
they read, over a reader with its offset. `decode_shape` takes the first four bytes of a list of
dimensions as they are, where `decode_u64_list` of `serialization.cpp` asks first whether there are
four; every other access is preceded by a check.

So these decoders have an outcome unless the walk over the fields of a key comes to a record of a
shape, and the walk over the fields of the shape to a list of dimensions with less than four bytes
(`key_decoders_within_bounds_iff`).
-/

open BigEndian Spans

namespace GraphCache

namespace SpanReader

/-! ## The decoders -/

/-- The loop of `decode_shape` over dimensions, from an offset on. -/
def readDims (p : Bytes) : ℕ → ℕ → Option (Option (List Int64))
  | _, 0 => some (some [])
  | off, n + 1 =>
    if off + 8 > p.length then some none
    else do
      let q ← subspan p off 8
      match ← decodeU64 q with
      | none => return none
      | some v => assign (readDims p (off + 8) n) (v.toInt64 :: ·)

/-- `SH_DIMS`. That there are four bytes is not checked. -/
def decodeShapeDims (p : Bytes) : Option (Option (List Int64)) := do
  let head ← subspan p 0 4
  match ← decodeU32 head with
  | none => return none
  | some n => if n > 4096 then return none else readDims p 4 n.toNat

/-- One turn of the loop of `decode_shape`. -/
def decodeShapeField (s : ShapeDescriptor) (f : Field) : Option (Option ShapeDescriptor) :=
  match f.tag.toNat with
  | 1 => assign (decodeShapeDims f.payload) fun ds => { s with dims := s.dims ++ ds }
  | 2 => assign (decodeFlag f.payload) fun v => { s with dynamic := v }
  | 3 => assign (decodeU32 f.payload) fun v => { s with maxRank := v }
  | _ => some none

def decodeShape (bytes : Bytes) : Option (Option ShapeDescriptor) :=
  forEach decodeShapeField bytes {}

/-- A reader of a key. Failures are not told apart. -/
abbrev KeyLoader := StateT SpanReader (ExceptT Unit Option)

abbrev keyField {α : Type} (tag : UInt16) (check : Bytes → Option (Option α)) : KeyLoader α :=
  nextField tag check () ()

/-- That many fields of one tag. -/
abbrev keyFields {α : Type} (tag : UInt16) (check : Bytes → Option (Option α)) :
    ℕ → KeyLoader (List α) :=
  nextFields tag check () ()

/-- `K_SCALAR_SPEC`, and the values if it is set. -/
def scalarReader : KeyLoader ScalarSpecialization := do
  let specialized ← keyField 70 decodeFlag
  if specialized then
    let intValue ← keyField 71 decodeI64
    let floatValue ← keyField 72 decodeF64
    return { specialized, intValue, floatValue }
  else return { specialized }

/-- `K_Q_MODE`, and the details unless it is `None`. -/
def quantizationReader : KeyLoader QuantizationConfig := do
  let mode ← keyField 73 decodeU32
  if QuantizationMode.mk mode ≠ .none then
    let groupSize ← keyField 74 decodeU32
    let symmetric ← keyField 75 decodeFlag
    let customScheme ← keyField 76 decodeStr
    return { mode := ⟨mode⟩, groupSize, symmetric, customScheme }
  else return { mode := ⟨mode⟩ }

def factsReader : KeyLoader CompatibilityFacts := do
  let logicalName ← keyField 1 decodeStr
  let logicalVersion ← keyField 2 decodeU32
  let namespaceName ← keyField 3 decodeStr
  let revisionMode ← keyField 4 decodeU32
  let modelRevision ← keyField 5 decodeStr
  let policyGen ← keyField 6 decodeStr
  let kind ← keyField 10 decodeU32
  let backendName ← keyField 11 decodeStr
  let backendVersion ← keyField 12 decodeU32
  let implementationName ← keyField 13 decodeStr
  let runtimeVersion ← keyField 20 decodeU32
  let graphAbi ← keyField 21 decodeU32
  let kernelAbi ← keyField 22 decodeU32
  let driverVersion ← keyField 23 decodeU32
  let vendor ← keyField 30 decodeU32
  let architecture ← keyField 31 decodeStr
  let computeMajor ← keyField 32 decodeU32
  let computeMinor ← keyField 33 decodeU32
  let deviceIndex ← keyField 34 decodeU32
  let deviceName ← keyField 35 decodeStr
  let captureMode ← keyField 40 decodeU32
  let streamSemantics ← keyField 41 decodeU32
  let topologyCanonical ← keyField 50 decodeStr
  let inputCount ← keyField 60 (decodeCount 4096)
  let inputShapes ← keyFields 61 decodeShape inputCount
  let outputCount ← keyField 62 (decodeCount 4096)
  let outputShapes ← keyFields 63 decodeShape outputCount
  let datatypeCount ← keyField 64 (decodeCount 4096)
  let datatypes ← keyFields 65 decodeU32 datatypeCount
  let layoutCount ← keyField 66 (decodeCount 4096)
  let layouts ← keyFields 67 decodeU32 layoutCount
  let scalar ← scalarReader
  let quantization ← quantizationReader
  let bindingClass ← keyField 77 decodeU32
  let alignment ← keyField 78 decodeU32
  let bindingSchema ← keyField 79 decodeStr
  let rebindingEligible ← keyField 80 decodeFlag
  let requiredAlignment ← keyField 81 decodeU64
  let memoryBindingSchema ← keyField 82 decodeStr
  let depCount ← keyField 90 (decodeCount 8192)
  let dependencies ← keyFields 91 decodeDep depCount
  let modelOperatorRevision ← keyField 95 decodeStr
  let policyGeneration ← keyField 96 decodeStr
  return {
    workload := ⟨logicalName, logicalVersion, namespaceName, ⟨revisionMode⟩, modelRevision, policyGen⟩
    backend := ⟨⟨kind⟩, backendName, backendVersion, implementationName⟩
    runtime := { runtimeVersion, graphAbi, kernelAbi, driverVersion }
    device :=
      ⟨⟨vendor⟩, architecture, computeMajor, computeMinor, deviceIndex, deviceName⟩
    captureMode := ⟨captureMode⟩
    streamSemantics := ⟨streamSemantics⟩
    topologyCanonical, inputShapes, outputShapes
    datatypes := datatypes.map Datatype.mk
    layouts := layouts.map TensorLayout.mk
    scalar, quantization
    binding := ⟨⟨bindingClass⟩, alignment, bindingSchema, rebindingEligible⟩
    requiredAlignment, memoryBindingSchema, dependencies, modelOperatorRevision, policyGeneration }

/-- `decode_facts`. -/
def decodeFacts (canonical : Bytes) : Option (Option CompatibilityFacts) :=
  (factsReader.run { data := canonical }).run.map fun o =>
    match o with
    | .ok (f, _) => some f
    | .error _ => none

/-- `facts_from_canonical`. -/
def factsFromCanonical (canonical : Bytes) : Option (Result CompatibilityFacts) :=
  (decodeFacts canonical).map fun o =>
    match o with
    | none => fail .persistenceCorrupt "cannot decode canonical compatibility facts"
    | some facts => .ok facts

/-- `GraphCompatibilityKey::from_canonical`. -/
def fromCanonical (canonical : Bytes) : Option (Result GraphCompatibilityKey) :=
  (decodeFacts canonical).map fun o =>
    match o with
    | none =>
      fail .persistenceCorrupt "canonical compatibility metadata is malformed or truncated"
    | some facts =>
      if factsToCanonical facts ≠ canonical then
        fail .persistenceCorrupt "canonical compatibility metadata does not round-trip"
      else .ok (.build facts)

/-! ## Shapes -/

theorem readDims_eq {p : Bytes} : ∀ {n off : ℕ}, off ≤ p.length →
    readDims p off n = some (if off + 8 * n ≤ p.length then
      some ((GraphCache.readU64s n (p.drop off)).map UInt64.toInt64) else none)
  | 0, off, hoff => by
    rw [readDims, if_pos (by omega)]
    rfl
  | n + 1, off, hoff => by
    rw [readDims]
    by_cases h : off + 8 > p.length
    · rw [if_pos h, if_neg (by omega)]
    have hlen : ((p.drop off).take 8).length = 8 := by
      rw [List.length_take, List.length_drop]
      omega
    rw [if_neg h, subspan_eq (by omega)]
    simp only [Option.bind_eq_bind, Option.bind_some, decodeU64_eq, GraphCache.decodeU64,
      if_pos hlen]
    rw [readDims_eq (by omega), GraphCache.readU64s, List.drop_drop]
    have hsum : off + 8 + 8 * n = off + 8 * (n + 1) := by omega
    rw [hsum]
    split_ifs <;> rfl

/-- Without four bytes there is no outcome, else the list is read. -/
theorem decodeShapeDims_eq (p : Bytes) : decodeShapeDims p = if p.length < 4 then none
    else some ((GraphCache.decodeU64List p).map (List.map UInt64.toInt64)) := by
  unfold decodeShapeDims
  by_cases hshort : p.length < 4
  · rw [if_pos hshort, subspan_eq_none (by omega)]
    rfl
  have h4 : 4 ≤ p.length := Nat.not_lt.mp hshort
  rw [if_neg hshort, subspan_eq (by omega), List.drop_zero]
  simp only [Option.bind_eq_bind, Option.bind_some, decodeU32_count h4, count_limit h4,
    toNat_count h4, GraphCache.decodeU64List, readDims_eq h4]
  split_ifs <;> first | rfl | omega

/-- A field of a shape as `decode_shape` reads it : a list of at most 4096 numbers, a flag, or a
number. -/
inductive ShapeField : Field → Prop
  | dims {p : Bytes} (count : 4 ≤ p.length) (limit : beNat (p.take 4) ≤ 4096)
      (size : 4 + 8 * beNat (p.take 4) ≤ p.length) : ShapeField ⟨1, p⟩
  | dynamic {p : Bytes} (present : p ≠ []) : ShapeField ⟨2, p⟩
  | maxRank {p : Bytes} (size : p.length = 4) : ShapeField ⟨3, p⟩

/-- Such fields one after the other, each shorter than 4 GiB. -/
def ShapeFields (ys : CanonicalWriter) : Prop :=
  ∀ y ∈ ys, y.payload.length < 2 ^ 32 ∧ ShapeField y

/-- The payload of a record of a shape. -/
def IsShape (p : Bytes) : Prop :=
  ∃ ys : CanonicalWriter, ShapeFields ys ∧ p = ys.take

/-- The payload of a record with a list of dimensions that has no room for its count, after fields
that are read. -/
def Overruns (p : Bytes) : Prop :=
  ∃ (ys : CanonicalWriter) (q tail : Bytes), ShapeFields ys ∧ q.length < 4 ∧
    p = ys.take ++ ((Field.mk 1 q).bytes ++ tail)

theorem isSome_decodeU64List (p : Bytes) : (GraphCache.decodeU64List p).isSome ↔
    4 ≤ p.length ∧ beNat (p.take 4) ≤ 4096 ∧ 4 + 8 * beNat (p.take 4) ≤ p.length := by
  unfold GraphCache.decodeU64List
  dsimp only
  split_ifs with h
  · exact iff_of_false nofun (by omega)
  · exact iff_of_true rfl (by omega)

theorem isSome_decodeU32 (p : Bytes) : (GraphCache.decodeU32 p).isSome ↔ p.length = 4 := by
  unfold GraphCache.decodeU32
  split_ifs with h <;> simp [h]

theorem isSome_decodeShapeField (s : ShapeDescriptor) (y : Field) :
    (GraphCache.decodeShapeField s y).isSome ↔ ShapeField y := by
  constructor
  · obtain ⟨t, p⟩ := y
    unfold GraphCache.decodeShapeField
    split
    · rename_i htag
      obtain rfl : t = 1 := UInt16.toNat_inj.mp htag
      rw [Option.isSome_map, isSome_decodeU64List]
      exact fun ⟨hcount, hlimit, hsize⟩ => .dims hcount hlimit hsize
    · rename_i htag
      obtain rfl : t = 2 := UInt16.toNat_inj.mp htag
      rw [Option.isSome_map]
      intro hsome
      refine .dynamic ?_
      rintro rfl
      cases hsome
    · rename_i htag
      obtain rfl : t = 3 := UInt16.toNat_inj.mp htag
      rw [Option.isSome_map, isSome_decodeU32]
      exact .maxRank
    · exact nofun
  · rintro (⟨hcount, hlimit, hsize⟩ | hpresent | hsize)
    · have hsome := (isSome_decodeU64List _).mpr ⟨hcount, hlimit, hsize⟩
      simpa [GraphCache.decodeShapeField] using hsome
    · obtain ⟨b, p, rfl⟩ := List.exists_cons_of_ne_nil hpresent
      rfl
    · have hsome := (isSome_decodeU32 _).mpr hsize
      simpa [GraphCache.decodeShapeField] using hsome

/-- The fields that a fold reads, where what is read does not depend on the state. -/
theorem isSome_foldlM {σ : Type} {step : σ → Field → Option σ} {P : Field → Prop}
    (h : ∀ s y, (step s y).isSome ↔ P y) :
    ∀ (ys : List Field) (s : σ), (ys.foldlM step s).isSome ↔ ∀ y ∈ ys, P y
  | [], s => iff_of_true rfl nofun
  | y :: ys, s => by
    rw [List.foldlM_cons, List.forall_mem_cons, ← h s y]
    cases step s y with
    | none => exact iff_of_false nofun fun ⟨hnone, _⟩ => by cases hnone
    | some s' =>
      rw [Option.bind_eq_bind, Option.bind_some, isSome_foldlM h ys s']
      exact (and_iff_right rfl).symm

theorem isSome_decodeShape (p : Bytes) : (GraphCache.decodeShape p).isSome ↔ IsShape p := by
  constructor
  · intro hsome
    obtain ⟨s, hs⟩ := Option.isSome_iff_exists.mp hsome
    obtain ⟨ys, hshort, hbytes, hfold⟩ := CanonicalReader.forEach_eq_some hs
    have hys := (isSome_foldlM isSome_decodeShapeField ys {}).mp (hfold ▸ rfl)
    exact ⟨ys, fun y hy => ⟨hshort y hy, hys y hy⟩, hbytes⟩
  · rintro ⟨ys, hys, rfl⟩
    rw [GraphCache.decodeShape, CanonicalReader.forEach_take _ fun y hy => (hys y hy).1]
    exact (isSome_foldlM isSome_decodeShapeField ys {}).mpr fun y hy => (hys y hy).2

theorem decodeShapeField_join (s : ShapeDescriptor) (f : Field) :
    (decodeShapeField s f).join = GraphCache.decodeShapeField s f := by
  unfold decodeShapeField GraphCache.decodeShapeField
  simp only [decodeShapeDims_eq, decodeFlag_eq, decodeU32_eq, assign_some]
  generalize f.tag.toNat = tag
  by_cases htag : tag = 1
  · subst htag
    by_cases hshort : f.payload.length < 4
    · have hnone : GraphCache.decodeU64List f.payload = none := if_pos (.inl hshort)
      rw [if_pos hshort, hnone]
      rfl
    · rw [if_neg hshort, assign_some, Option.map_map]
      rfl
  · rcases tag with _ | _ | _ | _ | _
    · rfl
    · exact absurd rfl htag
    all_goals rfl

/-- The one access that is not preceded by a check. -/
theorem decodeShapeField_eq_none_iff (s : ShapeDescriptor) (f : Field) :
    decodeShapeField s f = none ↔ f.tag = 1 ∧ f.payload.length < 4 := by
  obtain ⟨t, p⟩ := f
  unfold decodeShapeField
  simp only [decodeShapeDims_eq, decodeFlag_eq, decodeU32_eq, assign_some]
  split
  · rename_i htag
    obtain rfl : t = 1 := UInt16.toNat_inj.mp htag
    split_ifs with hshort
    · exact iff_of_true rfl ⟨rfl, hshort⟩
    · exact iff_of_false nofun fun h => hshort h.2
  all_goals
    refine iff_of_false nofun ?_
    rintro ⟨rfl, -⟩
    simp_all

theorem decodeShape_join (p : Bytes) : (decodeShape p).join = GraphCache.decodeShape p :=
  forEach_join decodeShapeField_join p {}

theorem decodeShape_eq_none_iff (p : Bytes) : decodeShape p = none ↔ Overruns p := by
  rw [decodeShape, forEach_eq_none_iff decodeShapeField_join]
  simp only [LoopStops, decodeShapeField_eq_none_iff]
  constructor
  · rintro ⟨ys, ⟨t, q⟩, tail, s, hshort, -, hfold, ⟨htag, hq⟩, rfl⟩
    obtain rfl : t = 1 := htag
    have hys := (isSome_foldlM isSome_decodeShapeField ys {}).mp (hfold ▸ rfl)
    exact ⟨ys, q, tail, fun y hy => ⟨hshort y hy, hys y hy⟩, hq, rfl⟩
  · rintro ⟨ys, q, tail, hys, hq, rfl⟩
    obtain ⟨s, hs⟩ := Option.isSome_iff_exists.mp
      ((isSome_foldlM isSome_decodeShapeField ys {}).mpr fun y hy => (hys y hy).2)
    have hshort : q.length < 2 ^ 32 := by omega
    exact ⟨ys, ⟨1, q⟩, tail, s, fun y hy => (hys y hy).1, hshort, hs, ⟨rfl, hq⟩, rfl⟩

/-! ## Keys -/

/-- The fields of a key before its shapes : the tags, and the length of the payload of a number. -/
def keyHead : List (UInt16 × Option ℕ) :=
  [(1, none), (2, some 4), (3, none), (4, some 4), (5, none), (6, none), (10, some 4), (11, none),
    (12, some 4), (13, none), (20, some 4), (21, some 4), (22, some 4), (23, some 4),
    (30, some 4), (31, none), (32, some 4), (33, some 4), (34, some 4), (35, none), (40, some 4),
    (41, some 4), (50, none)]

/-- A field with that tag, and with a payload of that length if it is a number. -/
@[mk_iff] structure HeadField (t : UInt16 × Option ℕ) (y : Field) : Prop where
  tag : y.tag = t.1
  short : y.payload.length < 2 ^ 32
  size : ∀ n ∈ t.2, y.payload.length = n

/-- Bytes that begin with such fields, and `G` of what follows them. -/
def AfterHead (spec : List (UInt16 × Option ℕ)) (G : Bytes → Prop) (bytes : Bytes) : Prop :=
  ∃ (hs : CanonicalWriter) (left : Bytes), List.Forall₂ HeadField spec hs ∧
    bytes = hs.take ++ left ∧ G left

/-- A count of at most 4096, and that many records of shapes, under these tags. -/
def ShapeList (countTag tag : UInt16) (us : CanonicalWriter) : Prop :=
  ∃ n ≤ 4096, ∃ ys, Records tag IsShape n ys ∧ us = putU32 countTag (UInt32.ofNat n) :: ys

/-- Bytes that begin with such a list, up to a record that overruns. -/
def ListOverruns (countTag tag : UInt16) (bytes : Bytes) : Prop :=
  ∃ n ≤ 4096, ∃ m < n, ∃ ys tail, Records tag IsShape m ys ∧ Begins tag Overruns tail ∧
    bytes = (putU32 countTag (UInt32.ofNat n)).bytes ++ (ys.take ++ tail)

/-- Bytes that begin as a key does, up to a record of an input or an output shape that overruns. -/
def KeyOverruns : Bytes → Prop :=
  AfterHead keyHead fun left => ListOverruns 60 61 left ∨
    ∃ us left', ShapeList 60 61 us ∧ left = us.take ++ left' ∧ ListOverruns 62 63 left'

section

variable {α β : Type} {G : Bytes → Prop} {spec : List (UInt16 × Option ℕ)} {tag : UInt16}
  {w : Option ℕ} {decode : Bytes → Option α} {check : Bytes → Option (Option α)}

/-- A field before the shapes. -/
theorem tracks_head {k : α → KeyLoader β} {k' : α → StateT Bytes (Except Unit) β}
    (h : ∀ p, check p = some (decode p))
    (hdec : ∀ p, (decode p).isSome ↔ ∀ n ∈ w, p.length = n)
    (hk : ∀ a, Tracks Within rest (AfterHead spec G) (k a) (k' a)) :
    Tracks Within rest (AfterHead ((tag, w) :: spec) G) (keyField tag check >>= k)
      (GraphCache.keyField tag decode >>= k') := by
  refine (Tracks.bind (total_nextField h) hk).congr fun bytes => ?_
  rw [false_or]
  constructor
  · rintro ⟨a, mid, hread, hs, left, hall, rfl, hG⟩
    obtain ⟨p, rfl, hp, ha⟩ := nextField_ok hread
    have hfield : HeadField (tag, w) ⟨tag, p⟩ := ⟨rfl, hp, (hdec p).mp (ha ▸ rfl)⟩
    exact ⟨⟨tag, p⟩ :: hs, left, .cons hfield hall, by simp [CanonicalWriter.take], hG⟩
  · rintro ⟨_, left, hall, rfl, hG⟩
    obtain ⟨⟨t, p⟩, hs, ⟨htag, hp, hsize⟩, hrest, rfl⟩ := List.forall₂_cons_left_iff.mp hall
    obtain rfl : t = tag := htag
    obtain ⟨a, ha⟩ := Option.isSome_iff_exists.mp ((hdec p).mpr hsize)
    refine ⟨a, CanonicalWriter.take hs ++ left, ?_, hs, left, hrest, rfl, hG⟩
    simpa [CanonicalWriter.take] using nextField_append hp ha

theorem tracks_str {k : Str → KeyLoader β} {k' : Str → StateT Bytes (Except Unit) β}
    (hk : ∀ a, Tracks Within rest (AfterHead spec G) (k a) (k' a)) :
    Tracks Within rest (AfterHead ((tag, none) :: spec) G) (keyField tag decodeStr >>= k)
      (GraphCache.keyField tag GraphCache.decodeStr >>= k') :=
  tracks_head decodeStr_eq (fun _ => iff_of_true rfl nofun) hk

theorem tracks_u32 {k : UInt32 → KeyLoader β} {k' : UInt32 → StateT Bytes (Except Unit) β}
    (hk : ∀ a, Tracks Within rest (AfterHead spec G) (k a) (k' a)) :
    Tracks Within rest (AfterHead ((tag, some 4) :: spec) G) (keyField tag decodeU32 >>= k)
      (GraphCache.keyField tag GraphCache.decodeU32 >>= k') :=
  tracks_head decodeU32_eq (fun p => (isSome_decodeU32 p).trans
    ⟨fun h _ hn => h.trans (Option.mem_some_iff.mp hn), fun h => h 4 rfl⟩) hk

theorem tracks_nil {k : KeyLoader β} {k' : StateT Bytes (Except Unit) β}
    (hk : Tracks Within rest G k k') : Tracks Within rest (AfterHead [] G) k k' := by
  refine hk.congr fun bytes => ⟨fun hG => ⟨[], bytes, .nil, rfl, hG⟩, ?_⟩
  rintro ⟨_, left, ⟨⟩, rfl, hG⟩
  exact hG

theorem count_ok_iff {limit n : ℕ} {bytes left : Bytes} (hlimit : limit < 2 ^ 32) :
    GraphCache.keyField tag (GraphCache.decodeCount limit) bytes = .ok (n, left) ↔
      n ≤ limit ∧ bytes = (putU32 tag (UInt32.ofNat n)).bytes ++ left := by
  constructor
  · intro hread
    obtain ⟨p, rfl, -, hcount⟩ := nextField_ok hread
    obtain ⟨hn, rfl⟩ := decodeCount_eq_some hcount
    exact ⟨hn, rfl⟩
  · rintro ⟨hn, rfl⟩
    exact nextField_append (by simp) (decodeCount_ofNat hlimit hn)

theorem bind_ok_iff {r : StateT Bytes (Except Unit) α} {k : α → StateT Bytes (Except Unit) β}
    {bytes left : Bytes} {b : β} : (r >>= k) bytes = .ok (b, left) ↔
      ∃ a mid, r bytes = .ok (a, mid) ∧ k a mid = .ok (b, left) := by
  refine ⟨bind_ok, ?_⟩
  rintro ⟨a, mid, hr, hk⟩
  simp only [bind, StateT.bind, hr, Except.bind]
  exact hk

/-- The fields over which a reader of a list goes. -/
theorem fields_ok_iff {left : Bytes} {n : ℕ} {bytes : Bytes} :
    (∃ as, GraphCache.keyFields tag decode n bytes = .ok (as, left)) ↔
      ∃ ys, Records tag (fun p => (decode p).isSome) n ys ∧ bytes = ys.take ++ left := by
  induction n generalizing bytes with
  | zero =>
    constructor
    · rintro ⟨as, hread⟩
      obtain ⟨-, rfl⟩ := Prod.mk.inj (Except.ok.inj hread)
      exact ⟨[], ⟨rfl, List.forall_mem_nil _⟩, rfl⟩
    · rintro ⟨ys, ⟨hlen, -⟩, rfl⟩
      obtain rfl := List.length_eq_zero_iff.mp hlen
      exact ⟨[], rfl⟩
  | succ n ih =>
    simp only [GraphCache.keyFields, GraphCache.nextFields, bind_ok_iff] at ih ⊢
    constructor
    · rintro ⟨_, a, mid, ha, as, _, has, ⟨⟩⟩
      obtain ⟨p, rfl, hp, hdec⟩ := nextField_ok ha
      obtain ⟨ys, ⟨hlen, hys⟩, rfl⟩ := ih.mp ⟨as, has⟩
      refine ⟨⟨tag, p⟩ :: ys, ⟨congrArg _ hlen, ?_⟩, by simp [CanonicalWriter.take]⟩
      exact List.forall_mem_cons.mpr ⟨⟨rfl, hp, hdec ▸ rfl⟩, hys⟩
    · rintro ⟨ys, ⟨hlen, hys⟩, rfl⟩
      obtain ⟨⟨t, p⟩, ys, rfl⟩ := List.exists_cons_of_length_eq_add_one hlen
      obtain ⟨⟨htag, hp, hdec⟩, hrest⟩ := List.forall_mem_cons.mp hys
      obtain rfl : t = tag := htag
      obtain ⟨a, ha⟩ := Option.isSome_iff_exists.mp hdec
      obtain ⟨as, has⟩ := ih.mpr ⟨ys, ⟨Nat.succ.inj hlen, hrest⟩, rfl⟩
      refine ⟨a :: as, a, CanonicalWriter.take ys ++ left, ?_, as, left, has, rfl⟩
      simpa [CanonicalWriter.take] using nextField_append hp ha

/-- A counted list of shapes, then the rest. -/
theorem tracks_shapes {countTag : UInt16} {k : List ShapeDescriptor → KeyLoader β}
    {k' : List ShapeDescriptor → StateT Bytes (Except Unit) β}
    (hk : ∀ as, Tracks Within rest G (k as) (k' as)) :
    Tracks Within rest (fun bytes => ListOverruns countTag tag bytes ∨
        ∃ us left, ShapeList countTag tag us ∧ bytes = us.take ++ left ∧ G left)
      (keyField countTag (decodeCount 4096) >>= fun n => keyFields tag decodeShape n >>= k)
      (GraphCache.keyField countTag (GraphCache.decodeCount 4096) >>= fun n =>
        GraphCache.keyFields tag GraphCache.decodeShape n >>= k') := by
  refine (Tracks.bind (total_nextField (decodeCount_eq 4096)) fun n =>
    Tracks.bind (tracks_nextFields decodeShape_join n) hk).congr fun bytes => ?_
  have hstops : ∀ n mid, StopsAt tag decodeShape GraphCache.decodeShape n mid ↔
      ∃ m < n, ∃ ys tail, Records tag IsShape m ys ∧ Begins tag Overruns tail ∧
        mid = CanonicalWriter.take ys ++ tail := by
    intro n mid
    simp only [StopsAt, isSome_decodeShape, decodeShape_eq_none_iff]
  have hread : ∀ n mid, (∃ as left, GraphCache.keyFields tag GraphCache.decodeShape n mid =
      .ok (as, left) ∧ G left) ↔ ∃ ys left, Records tag IsShape n ys ∧
        mid = CanonicalWriter.take ys ++ left ∧ G left := by
    intro n mid
    have hshape : IsShape = fun p => (GraphCache.decodeShape p).isSome = true :=
      funext fun p => propext (isSome_decodeShape p).symm
    rw [hshape]
    constructor
    · rintro ⟨as, left, has, hG⟩
      obtain ⟨ys, hys, rfl⟩ := fields_ok_iff.mp ⟨as, has⟩
      exact ⟨ys, left, hys, rfl, hG⟩
    · rintro ⟨ys, left, hys, rfl, hG⟩
      obtain ⟨as, has⟩ := fields_ok_iff.mpr ⟨ys, hys, rfl⟩
      exact ⟨as, left, has, hG⟩
  simp only [false_or, count_ok_iff (by decide : 4096 < 2 ^ 32), hstops, hread]
  constructor
  · rintro ⟨n, mid, ⟨hn, rfl⟩, ⟨m, hm, ys, tail, hys, htail, rfl⟩ | ⟨ys, left, hys, rfl, hG⟩⟩
    · exact .inl ⟨n, hn, m, hm, ys, tail, hys, htail, rfl⟩
    · exact .inr ⟨_, left, ⟨n, hn, ys, hys, rfl⟩, by simp [CanonicalWriter.take], hG⟩
  · rintro (⟨n, hn, m, hm, ys, tail, hys, htail, rfl⟩ | ⟨_, left, ⟨n, hn, ys, hys, rfl⟩, rfl, hG⟩)
    · exact ⟨n, _, ⟨hn, rfl⟩, .inl ⟨m, hm, ys, tail, hys, htail, rfl⟩⟩
    · refine ⟨n, CanonicalWriter.take ys ++ left, ⟨hn, ?_⟩, .inr ⟨ys, left, hys, rfl, hG⟩⟩
      simp [CanonicalWriter.take]

end

theorem total_u32s {countTag tag : UInt16} {β : Type} {k : List UInt32 → KeyLoader β}
    {k' : List UInt32 → StateT Bytes (Except Unit) β} (hk : ∀ vs, Total Within rest (k vs) (k' vs)) :
    Total Within rest
      (keyField countTag (decodeCount 4096) >>= fun n => keyFields tag decodeU32 n >>= k)
      (GraphCache.keyField countTag (GraphCache.decodeCount 4096) >>= fun n =>
        GraphCache.keyFields tag GraphCache.decodeU32 n >>= k') :=
  .bind (total_nextField (decodeCount_eq 4096)) fun n =>
    .bind (total_nextFields decodeU32_eq n) hk

theorem scalarReader_total : Total Within rest scalarReader GraphCache.scalarReader := by
  refine .bind (total_nextField decodeFlag_eq) fun specialized => ?_
  cases specialized with
  | false => exact .pure
  | true =>
    exact .bind (total_nextField decodeI64_eq) fun _ =>
      .bind (total_nextField decodeF64_eq) fun _ => .pure

theorem quantizationReader_total :
    Total Within rest quantizationReader GraphCache.quantizationReader := by
  refine .bind (total_nextField decodeU32_eq) fun mode => ?_
  by_cases hmode : QuantizationMode.mk mode ≠ .none
  · rw [if_pos hmode, if_pos hmode]
    exact .bind (total_nextField decodeU32_eq) fun _ =>
      .bind (total_nextField decodeFlag_eq) fun _ =>
        .bind (total_nextField decodeStr_eq) fun _ => .pure
  · rw [if_neg hmode, if_neg hmode]
    exact .pure

/-- The walk over the fields of a key. -/
theorem factsReader_tracks :
    Tracks Within rest KeyOverruns factsReader GraphCache.factsReader := by
  refine tracks_str fun _ => tracks_u32 fun _ => tracks_str fun _ => tracks_u32 fun _ => ?_
  refine tracks_str fun _ => tracks_str fun _ => ?_
  refine tracks_u32 fun _ => tracks_str fun _ => tracks_u32 fun _ => tracks_str fun _ => ?_
  refine tracks_u32 fun _ => tracks_u32 fun _ => tracks_u32 fun _ => tracks_u32 fun _ => ?_
  refine tracks_u32 fun _ => tracks_str fun _ => tracks_u32 fun _ => tracks_u32 fun _ => ?_
  refine tracks_u32 fun _ => tracks_str fun _ => tracks_u32 fun _ => tracks_u32 fun _ => ?_
  refine tracks_str fun _ => tracks_nil ?_
  refine tracks_shapes fun _ => ?_
  have hlast : ∀ {β : Type} {countTag tag : UInt16} {k : List ShapeDescriptor → KeyLoader β}
      {k' : List ShapeDescriptor → StateT Bytes (Except Unit) β},
      (∀ as, Total Within rest (k as) (k' as)) → Tracks Within rest (ListOverruns countTag tag)
        (keyField countTag (decodeCount 4096) >>= fun n => keyFields tag decodeShape n >>= k)
        (GraphCache.keyField countTag (GraphCache.decodeCount 4096) >>= fun n =>
          GraphCache.keyFields tag GraphCache.decodeShape n >>= k') :=
    fun hk => (tracks_shapes hk).congr fun _ => by simp
  refine hlast fun _ => ?_
  refine total_u32s fun _ => total_u32s fun _ => ?_
  refine .bind scalarReader_total fun _ => .bind quantizationReader_total fun _ => ?_
  refine .bind (total_nextField decodeU32_eq) fun _ => ?_
  refine .bind (total_nextField decodeU32_eq) fun _ => ?_
  refine .bind (total_nextField decodeStr_eq) fun _ => ?_
  refine .bind (total_nextField decodeFlag_eq) fun _ => ?_
  refine .bind (total_nextField decodeU64_eq) fun _ => ?_
  refine .bind (total_nextField decodeStr_eq) fun _ => ?_
  refine .bind (total_nextField (decodeCount_eq 8192)) fun n => ?_
  refine .bind (total_nextFields decodeDep_eq n) fun _ => ?_
  refine .bind (total_nextField decodeStr_eq) fun _ => ?_
  exact .bind (total_nextField decodeStr_eq) fun _ => .pure

theorem decodeFacts_eq_none_iff (b : Bytes) : decodeFacts b = none ↔ KeyOverruns b := by
  rw [decodeFacts, Option.map_eq_none_iff]
  exact factsReader_tracks.run_eq_none_iff (within_of b)

theorem decodeFacts_eq {b : Bytes} (h : ¬KeyOverruns b) :
    decodeFacts b = some (GraphCache.decodeFacts b) := by
  unfold decodeFacts GraphCache.decodeFacts
  rcases factsReader_tracks.run_eq (within_of b) h with ⟨e, hrun, hread⟩ | ⟨f, r, hrun, -, hread⟩
  · rw [hrun, show GraphCache.factsReader b = .error e from hread]
    rfl
  · rw [hrun, show GraphCache.factsReader b = .ok (f, r.rest) from hread]
    rfl

/-- Without such a record the outcomes are those of the decoders without accesses. -/
theorem key_decoders_eq {b : Bytes} (h : ¬KeyOverruns b) :
    factsFromCanonical b = some (GraphCache.factsFromCanonical b) ∧
      fromCanonical b = some (GraphCompatibilityKey.fromCanonical b) := by
  unfold factsFromCanonical fromCanonical
  rw [decodeFacts_eq h]
  exact ⟨rfl, rfl⟩

/-- The decoders of keys have an outcome unless the bytes begin as a key does, up to a record of a
shape with a list of dimensions that has no room for its count. -/
theorem key_decoders_within_bounds_iff (b : Bytes) :
    ((∃ r, factsFromCanonical b = some r) ∧ ∃ r, fromCanonical b = some r) ↔ ¬KeyOverruns b := by
  constructor
  · rintro ⟨⟨r, hr⟩, -⟩ hover
    rw [factsFromCanonical, (decodeFacts_eq_none_iff b).mpr hover] at hr
    cases hr
  · intro h
    obtain ⟨hfacts, hkey⟩ := key_decoders_eq h
    exact ⟨⟨_, hfacts⟩, _, hkey⟩

/-- The head of a key, and one input shape with a list of dimensions of no bytes. -/
def overrunningKey : Bytes :=
  CanonicalWriter.take (List.take 23 (encodeFacts {}) ++
    [putU32 60 1, ⟨61, (Field.mk 1 []).bytes⟩])

theorem keyOverruns_overrunningKey : KeyOverruns overrunningKey := by
  have hhead : List.Forall₂ HeadField keyHead (List.take 23 (encodeFacts {})) := by
    simp [headField_iff, keyHead, encodeFacts, putU32, putStr, putBytes]
  have hover : Overruns (Field.mk 1 []).bytes :=
    ⟨[], [], [], List.forall_mem_nil _, Nat.succ_pos 3, by simp [CanonicalWriter.take]⟩
  have hbegins : Begins 61 Overruns (Field.mk 61 (Field.mk 1 []).bytes).bytes :=
    ⟨_, [], (List.append_nil _).symm, by simp [Field.bytes], hover⟩
  have hlist : ListOverruns 60 61
      (CanonicalWriter.take [putU32 60 1, ⟨61, (Field.mk 1 []).bytes⟩]) :=
    ⟨1, by omega, 0, Nat.one_pos, [], _, ⟨rfl, List.forall_mem_nil _⟩, hbegins,
      by simp [CanonicalWriter.take]⟩
  exact ⟨_, _, hhead, by simp [overrunningKey, CanonicalWriter.take], .inl hlist⟩

/-- So the decoders read outside of a span there. -/
theorem key_decoders_out_of_bounds :
    ¬∀ b : Bytes, (∃ r, factsFromCanonical b = some r) ∧ ∃ r, fromCanonical b = some r := by
  intro h
  obtain ⟨⟨r, hr⟩, -⟩ := h overrunningKey
  rw [factsFromCanonical, (decodeFacts_eq_none_iff _).mpr keyOverruns_overrunningKey] at hr
  cases hr

end SpanReader

end GraphCache
