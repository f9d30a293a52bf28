import GraphCache.Keys
import GraphCache.Rewriting
import GraphCache.Sizes

/-!
# Decoding a key

`decode_facts` and `from_canonical` of `compatibility.cpp`. The fields are expected in the order of
`encode_facts`, shapes and dependencies are nested streams in any order, and the facts are encoded
again and compared with the bytes that were read.

`fromCanonical_image` : what is accepted is exactly what `encode_facts` writes for facts within the
limits of the decoder, and the key is theirs.
-/

namespace GraphCache

/-! ## The decoder -/

/-- A field of a key. Failures are not told apart. -/
abbrev keyField {α : Type} (tag : UInt16) (decode : Bytes → Option α) :
    StateT Bytes (Except Unit) α :=
  nextField tag decode () ()

/-- That many fields of one tag. -/
abbrev keyFields {α : Type} (tag : UInt16) (decode : Bytes → Option α) :
    ℕ → StateT Bytes (Except Unit) (List α) :=
  nextFields tag decode () ()

/-- One turn of the loop of `decode_shape`. Dimensions are appended to what is there; a list that is
cut short is refused, also where the program would read outside the span. -/
def decodeShapeField (s : ShapeDescriptor) (f : Field) : Option ShapeDescriptor :=
  match f.tag.toNat with
  | 1 => (decodeU64List f.payload).map fun vs => { s with dims := s.dims ++ vs.map UInt64.toInt64 }
  | 2 => (decodeFlag f.payload).map fun v => { s with dynamic := v }
  | 3 => (decodeU32 f.payload).map fun v => { s with maxRank := v }
  | _ => none

def decodeShape (bytes : Bytes) : Option ShapeDescriptor :=
  CanonicalReader.forEach decodeShapeField bytes {}

/-- `K_SCALAR_SPEC`, and the values if it is set. -/
def scalarReader : StateT Bytes (Except Unit) ScalarSpecialization := do
  let specialized ← keyField 70 decodeFlag
  if specialized then
    let intValue ← keyField 71 decodeI64
    let floatValue ← keyField 72 decodeF64
    return { specialized, intValue, floatValue }
  else return { specialized }

/-- `K_Q_MODE`, and the details unless it is `None`. -/
def quantizationReader : StateT Bytes (Except Unit) QuantizationConfig := do
  let mode ← keyField 73 decodeU32
  if QuantizationMode.mk mode ≠ .none then
    let groupSize ← keyField 74 decodeU32
    let symmetric ← keyField 75 decodeFlag
    let customScheme ← keyField 76 decodeStr
    return { mode := ⟨mode⟩, groupSize, symmetric, customScheme }
  else return { mode := ⟨mode⟩ }

def factsReader : StateT Bytes (Except Unit) CompatibilityFacts := do
  let logicalName ← keyField 1 decodeStr
  let logicalVersion ← keyField 2 decodeU32
  let namespaceName ← keyField 3 decodeStr
  let revisionMode ← keyField 4 decodeU32
  let modelRevision ← keyField 5 decodeStr
  let policyGen ← keyField 6 decodeStr
  let kind ← keyField 10 decodeU32
  let backendName ← keyField 11 decodeStr
  let backendVersion ← keyField 12 decodeU32
  let implementationName ← keyField 13 decodeStr
  let runtimeVersion ← keyField 20 decodeU32
  let graphAbi ← keyField 21 decodeU32
  let kernelAbi ← keyField 22 decodeU32
  let driverVersion ← keyField 23 decodeU32
  let vendor ← keyField 30 decodeU32
  let architecture ← keyField 31 decodeStr
  let computeMajor ← keyField 32 decodeU32
  let computeMinor ← keyField 33 decodeU32
  let deviceIndex ← keyField 34 decodeU32
  let deviceName ← keyField 35 decodeStr
  let captureMode ← keyField 40 decodeU32
  let streamSemantics ← keyField 41 decodeU32
  let topologyCanonical ← keyField 50 decodeStr
  let inputCount ← keyField 60 (decodeCount 4096)
  let inputShapes ← keyFields 61 decodeShape inputCount
  let outputCount ← keyField 62 (decodeCount 4096)
  let outputShapes ← keyFields 63 decodeShape outputCount
  let datatypeCount ← keyField 64 (decodeCount 4096)
  let datatypes ← keyFields 65 decodeU32 datatypeCount
  let layoutCount ← keyField 66 (decodeCount 4096)
  let layouts ← keyFields 67 decodeU32 layoutCount
  let scalar ← scalarReader
  let quantization ← quantizationReader
  let bindingClass ← keyField 77 decodeU32
  let alignment ← keyField 78 decodeU32
  let bindingSchema ← keyField 79 decodeStr
  let rebindingEligible ← keyField 80 decodeFlag
  let requiredAlignment ← keyField 81 decodeU64
  let memoryBindingSchema ← keyField 82 decodeStr
  let depCount ← keyField 90 (decodeCount 8192)
  let dependencies ← keyFields 91 decodeDep depCount
  let modelOperatorRevision ← keyField 95 decodeStr
  let policyGeneration ← keyField 96 decodeStr
  return {
    workload := ⟨logicalName, logicalVersion, namespaceName, ⟨revisionMode⟩, modelRevision, policyGen⟩
    backend := ⟨⟨kind⟩, backendName, backendVersion, implementationName⟩
    runtime := { runtimeVersion, graphAbi, kernelAbi, driverVersion }
    device :=
      ⟨⟨vendor⟩, architecture, computeMajor, computeMinor, deviceIndex, deviceName⟩
    captureMode := ⟨captureMode⟩
    streamSemantics := ⟨streamSemantics⟩
    topologyCanonical, inputShapes, outputShapes
    datatypes := datatypes.map Datatype.mk
    layouts := layouts.map TensorLayout.mk
    scalar, quantization
    binding := ⟨⟨bindingClass⟩, alignment, bindingSchema, rebindingEligible⟩
    requiredAlignment, memoryBindingSchema, dependencies, modelOperatorRevision, policyGeneration }

/-- `decode_facts`. What follows the last field is not read. -/
def decodeFacts (canonical : Bytes) : Option CompatibilityFacts :=
  match factsReader canonical with
  | .ok (f, _) => some f
  | .error _ => none

namespace GraphCompatibilityKey

def fromCanonical (canonical : Bytes) : Result GraphCompatibilityKey :=
  match decodeFacts canonical with
  | none =>
    fail .persistenceCorrupt "canonical compatibility metadata is malformed or truncated"
  | some facts =>
    if factsToCanonical facts ≠ canonical then
      fail .persistenceCorrupt "canonical compatibility metadata does not round-trip"
    else .ok (build facts)

/-- `operator==`. -/
def eq (k k' : GraphCompatibilityKey) : Bool :=
  k.digest == k'.digest && k.canonical == k'.canonical

end GraphCompatibilityKey

/-! ## Shapes -/

/-- The fields of a shape. -/
def shapeFields (s : ShapeDescriptor) : CanonicalWriter :=
  (if s.dims ≠ [] then [putU64List 1 (s.dims.map Int64.toUInt64)] else []) ++
    putBool 2 s.dynamic :: if s.maxRank ≠ 0 then [putU32 3 s.maxRank] else []

theorem encodeShape_eq (s : ShapeDescriptor) : encodeShape s = (shapeFields s).take := by
  by_cases hd : s.dims = [] <;> by_cases hr : s.maxRank = 0 <;>
    simp [encodeShape, shapeFields, tagged, slotsIf, hd, hr, putU64List, putBool, putU32]

theorem length_encodeShape (s : ShapeDescriptor) :
    (encodeShape s).length ≤ 27 + 8 * s.dims.length := by
  rw [encodeShape_eq, shapeFields]
  split_ifs <;> simp [CanonicalWriter.take, Field.bytes, putU64List, putBool, putU32, length_encU64List] <;>
    omega

/-- What is decoded from a shape has no more dimensions than the bytes have room for. -/
theorem size_decodeShape {p : Bytes} {s : ShapeDescriptor} (h : decodeShape p = some s) :
    8 * s.dims.length ≤ p.length := by
  have hstep : ∀ (s : ShapeDescriptor) (f : Field) (s' : ShapeDescriptor),
      decodeShapeField s f = some s' →
        8 * s'.dims.length ≤ 8 * s.dims.length + f.payload.length := by
    intro s f s' h
    unfold decodeShapeField at h
    split at h
    · obtain ⟨vs, hvs, rfl⟩ := Option.map_eq_some_iff.mp h
      have := decodeU64List_length hvs
      simp only [List.length_append, List.length_map]
      omega
    · obtain ⟨v, -, rfl⟩ := Option.map_eq_some_iff.mp h
      exact Nat.le_add_right _ _
    · obtain ⟨v, -, rfl⟩ := Option.map_eq_some_iff.mp h
      exact Nat.le_add_right _ _
    · cases h
  simpa using CanonicalReader.weight_forEach hstep h

/-- A list of more than 4096 numbers is refused. -/
theorem decodeU64List_long {vs : List UInt64} (hlong : 4096 < vs.length)
    (hshort : vs.length < 2 ^ 32) : decodeU64List (encU64List vs) = none := by
  have hcount : BigEndian.beNat ((encU64List vs).take 4) = vs.length := by
    rw [encU64List, List.take_left' (BigEndian.length_beBytes _ _)]
    exact BigEndian.beNat_beBytes_of_lt hshort
  unfold decodeU64List
  dsimp only
  rw [hcount, if_pos (.inr (.inl hlong))]

/-- A shape is read back exactly if its dimensions are within the limit. -/
theorem decodeShape_encodeShape {s : ShapeDescriptor} (hlen : (encodeShape s).length < 2 ^ 32) :
    decodeShape (encodeShape s) = if s.dims.length ≤ 4096 then some s else none := by
  have hshort : ∀ f ∈ shapeFields s, f.payload.length < 2 ^ 32 := fun f hf =>
    (length_le_take hf).trans_lt (encodeShape_eq s ▸ hlen)
  rw [decodeShape, encodeShape_eq, CanonicalReader.forEach_take _ hshort]
  -- What the fields after the dimensions make of a shape.
  have htail : ∀ ds : List Int64, (putBool 2 s.dynamic :: if s.maxRank ≠ 0 then
      [putU32 3 s.maxRank] else []).foldlM decodeShapeField ⟨ds, false, 0⟩ =
        some ⟨ds, s.dynamic, s.maxRank⟩ := by
    intro ds
    by_cases hr : s.maxRank = 0 <;> simp [decodeShapeField, putBool, putU32, hr]
  by_cases hd : s.dims = []
  · have hnil := htail []
    rw [if_pos (by simp [hd])]
    simp only [shapeFields, hd, ne_eq, not_true_eq_false, if_false, List.nil_append]
    rw [hnil, ← hd]
  · have hfields : shapeFields s = putU64List 1 (s.dims.map Int64.toUInt64) ::
        putBool 2 s.dynamic :: if s.maxRank ≠ 0 then [putU32 3 s.maxRank] else [] := by
      simp [shapeFields, hd]
    rw [hfields, List.foldlM_cons]
    by_cases hle : s.dims.length ≤ 4096
    · have hread : decodeShapeField {} (putU64List 1 (s.dims.map Int64.toUInt64)) =
          some ⟨s.dims, false, 0⟩ := by
        simp [decodeShapeField, putU64List, decodeDims hle, Function.comp_def]
      rw [hread, Option.bind_eq_bind, Option.bind_some, htail, if_pos hle]
    · have hdims := hshort _ (hfields ▸ List.mem_cons_self)
      have hread : decodeShapeField {} (putU64List 1 (s.dims.map Int64.toUInt64)) = none := by
        simp only [putU64List, length_encU64List, List.length_map] at hdims
        have hnone : decodeU64List (encU64List (s.dims.map Int64.toUInt64)) = none :=
          decodeU64List_long (by rw [List.length_map]; omega) (by rw [List.length_map]; omega)
        simp [decodeShapeField, putU64List, hnone]
      rw [hread, if_neg hle]
      rfl

/-! ## What is written again -/

/-- The fields of shapes hold shapes that are decoded. -/
def HoldsShape (x : Field) : Prop :=
  x.tag = 61 ∨ x.tag = 63 → (decodeShape x.payload).isSome

/-- A field as `encode_facts` writes it : a shape or a dependency is what its encoder writes, and a
flag is one byte, zero or one. -/
structure CanonicalKeyField (x : Field) : Prop where
  shape : x.tag = 61 ∨ x.tag = 63 → ∃ s, x.payload = encodeShape s
  dependency : x.tag = 91 → ∃ d, x.payload = (encodeDep d).take
  flag : x.tag = 70 ∨ x.tag = 75 ∨ x.tag = 80 → CanonicalFlag x.payload

/-- The tags of shapes, dependencies and flags. -/
def nestedKeyTags : List UInt16 := [61, 63, 70, 75, 80, 91]

/-- A field `y` stands in a key where `encode_facts` would write `x` : it is `x`, but for the spelling
of a flag and for what a shape or a dependency is. -/
structure SpelledAs (x y : Field) : Prop where
  tag : y.tag = x.tag
  shape : x.tag = 61 ∨ x.tag = 63 → (decodeShape y.payload).isSome
  dependency : x.tag = 91 → (decodeDep y.payload).isSome
  flag : x.tag = 70 ∨ x.tag = 75 ∨ x.tag = 80 →
    ∃ v, x.payload = encBool v ∧ decodeFlag y.payload = some v
  plain : x.tag ∉ nestedKeyTags → y.payload = x.payload

/-- A field that was read, and the field that is written for it. -/
structure Restored (x x' : Field) : Prop extends
    Reencoded slack HoldsShape CanonicalKeyField x x' where
  spelled : SpelledAs x' x

/-- The walk of a reader of a key. -/
abbrev KeyWalks {β : Type} (ok : β → Prop) (done : CanonicalWriter) (write : β → CanonicalWriter)
    (r : StateT Bytes (Except Unit) β) : Prop :=
  Walks Restored ok done write r

theorem decodeCount_eq_some {limit n : ℕ} {p : Bytes} (h : decodeCount limit p = some n) :
    n ≤ limit ∧ encU32 (UInt32.ofNat n) = p := by
  obtain ⟨v, hv, hn⟩ := Option.bind_eq_some_iff.mp h
  split_ifs at hn
  obtain rfl := Option.some.inj hn
  rw [UInt32.ofNat_toNat]
  exact ⟨by omega, encU32_of_decode hv⟩

/-- The bytes of a shape that is decoded are those written for it, if they are those of any. -/
theorem encodeShape_of_decode {p : Bytes} {s : ShapeDescriptor} (hp : p.length < 2 ^ 32)
    (h : decodeShape p = some s) : encodeShape s = p ↔ ∃ s, p = encodeShape s := by
  constructor
  · exact fun heq => ⟨s, heq.symm⟩
  · rintro ⟨s', rfl⟩
    rw [decodeShape_encodeShape hp] at h
    split_ifs at h
    rw [Option.some.inj h]

/-- So for a dependency. -/
theorem encodeDep_of_decode {p : Bytes} {d : KernelIdentityRef} (hp : p.length < 2 ^ 32)
    (h : decodeDep p = some d) : (encodeDep d).take = p ↔ ∃ d : KernelIdentityRef,
      p = (encodeDep d).take := by
  constructor
  · exact fun heq => ⟨d, heq.symm⟩
  · rintro ⟨d', rfl⟩
    rw [decodeDep_encodeDep fun x hx => (length_le_take hx).trans_lt hp] at h
    rw [← Option.some.inj h]
    rfl

section

variable {α β : Type} {ok : β → Prop} {done : CanonicalWriter} {write : β → CanonicalWriter}
  {tag : UInt16} {decode : Bytes → Option α}

/-- A field of a plain tag is written as it was read. -/
theorem restored_plain {p : Bytes} (htag : tag ∉ nestedKeyTags) (hp : p.length < 2 ^ 32) :
    Restored ⟨tag, p⟩ ⟨tag, p⟩ := by
  have hmem := htag
  simp only [nestedKeyTags, List.mem_cons, not_or] at hmem
  obtain ⟨h61, h63, h70, h75, h80, h91, -⟩ := hmem
  have hshape : ¬(tag = 61 ∨ tag = 63) := not_or.mpr ⟨h61, h63⟩
  have hflag : ¬(tag = 70 ∨ tag = 75 ∨ tag = 80) := not_or.mpr ⟨h70, not_or.mpr ⟨h75, h80⟩⟩
  exact {
    tag := rfl
    short := hp
    close := Nat.le_add_right _ _
    fits := fun h => absurd h hshape
    same := iff_of_true rfl ⟨(absurd · hshape), (absurd · h91), (absurd · hflag)⟩
    spelled := ⟨rfl, (absurd · hshape), (absurd · h91), (absurd · hflag), fun _ => rfl⟩ }

/-- A field of a plain tag, with a payload that is written as it was read. -/
theorem walks_plain {k : α → StateT Bytes (Except Unit) β} (e : α → Bytes)
    (htag : tag ∉ nestedKeyTags) (hexact : ∀ p a, decode p = some a → e a = p)
    (hk : ∀ a, KeyWalks ok (done ++ [⟨tag, e a⟩]) write (k a)) :
    KeyWalks ok done write (keyField tag decode >>= k) :=
  .plain e (fun _ => restored_plain htag) hexact hk

theorem walks_str {k : Str → StateT Bytes (Except Unit) β} (htag : tag ∉ nestedKeyTags)
    (hk : ∀ a, KeyWalks ok (done ++ [putStr tag a]) write (k a)) :
    KeyWalks ok done write (keyField tag decodeStr >>= k) :=
  .str (fun _ => restored_plain htag) hk

theorem walks_u32 {k : UInt32 → StateT Bytes (Except Unit) β} (htag : tag ∉ nestedKeyTags)
    (hk : ∀ a, KeyWalks ok (done ++ [putU32 tag a]) write (k a)) :
    KeyWalks ok done write (keyField tag decodeU32 >>= k) :=
  .u32 (fun _ => restored_plain htag) hk

theorem walks_flag {k : Bool → StateT Bytes (Except Unit) β}
    (htag : tag = 70 ∨ tag = 75 ∨ tag = 80)
    (hk : ∀ a, KeyWalks ok (done ++ [putBool tag a]) write (k a)) :
    KeyWalks ok done write (keyField tag decodeFlag >>= k) := by
  refine .field encBool (fun p v hp h => ?_) fun _ a _ => hk a
  obtain ⟨hshape, hdep, hnested⟩ :
      ¬(tag = 61 ∨ tag = 63) ∧ tag ≠ 91 ∧ tag ∈ nestedKeyTags := by
    rcases htag with rfl | rfl | rfl <;> decide
  refine ⟨⟨rfl, hp, by simp [slack], (absurd · hshape), ?_⟩,
    ⟨rfl, (absurd · hshape), (absurd · hdep), fun _ => ⟨v, rfl, h⟩, (absurd hnested ·)⟩⟩
  rw [Field.mk.injEq, encBool_of_decode h]
  constructor
  · exact fun hflag => ⟨(absurd · hshape), (absurd · hdep), fun _ => hflag.2⟩
  · exact fun hcanon => ⟨rfl, hcanon.flag htag⟩

/-- A count, then that many fields, no more than the limit. -/
theorem walks_list {count : UInt16} {limit : ℕ} {k : List α → StateT Bytes (Except Unit) β}
    (e : α → Bytes) (hcount : count ∉ nestedKeyTags)
    (henc : ∀ p a, p.length < 2 ^ 32 → decode p = some a → Restored ⟨tag, p⟩ ⟨tag, e a⟩)
    (hk : ∀ l : List α, l.length ≤ limit → KeyWalks ok
      (done ++ [putU32 count (UInt32.ofNat l.length)] ++ l.map fun a => ⟨tag, e a⟩) write (k l)) :
    KeyWalks ok done write
      (keyField count (decodeCount limit) >>= fun n => keyFields tag decode n >>= k) := by
  refine .field (fun n => encU32 (UInt32.ofNat n)) (fun p n hp h => ?_) fun p n hn => ?_
  · rw [(decodeCount_eq_some h).2]
    exact restored_plain hcount hp
  · refine .fields e henc ?_
    rintro l rfl
    exact hk l (decodeCount_eq_some hn).1

theorem walks_u32s {count : UInt16} {limit : ℕ}
    {k : List UInt32 → StateT Bytes (Except Unit) β} (hcount : count ∉ nestedKeyTags)
    (htag : tag ∉ nestedKeyTags)
    (hk : ∀ l : List UInt32, l.length ≤ limit → KeyWalks ok
      (done ++ [putU32 count (UInt32.ofNat l.length)] ++ l.map (putU32 tag)) write (k l)) :
    KeyWalks ok done write
      (keyField count (decodeCount limit) >>= fun n => keyFields tag decodeU32 n >>= k) := by
  refine walks_list encU32 hcount (fun p v hp h => ?_) hk
  rw [encU32_of_decode h]
  exact restored_plain htag hp

theorem walks_shapes {count : UInt16} {limit : ℕ}
    {k : List ShapeDescriptor → StateT Bytes (Except Unit) β}
    (hcount : count ∉ nestedKeyTags) (htag : tag = 61 ∨ tag = 63)
    (hk : ∀ l : List ShapeDescriptor, l.length ≤ limit → KeyWalks ok
      (done ++ [putU32 count (UInt32.ofNat l.length)] ++ l.map fun s => putBytes tag (encodeShape s))
      write (k l)) :
    KeyWalks ok done write
      (keyField count (decodeCount limit) >>= fun n => keyFields tag decodeShape n >>= k) := by
  refine walks_list encodeShape hcount (fun p s hp h => ?_) hk
  have hroom := size_decodeShape h
  have hlen := length_encodeShape s
  obtain ⟨hdep, hflag, hnested⟩ :
      tag ≠ 91 ∧ ¬(tag = 70 ∨ tag = 75 ∨ tag = 80) ∧ tag ∈ nestedKeyTags := by
    rcases htag with rfl | rfl <;> decide
  have hsome : (decodeShape p).isSome := h ▸ rfl
  refine ⟨⟨rfl, hp, by simp only [slack]; omega, fun _ => hsome, ?_⟩,
    ⟨rfl, fun _ => hsome, (absurd · hdep), (absurd · hflag), (absurd hnested ·)⟩⟩
  rw [Field.mk.injEq, encodeShape_of_decode hp h]
  constructor
  · exact fun hs => ⟨fun _ => hs.2, (absurd · hdep), (absurd · hflag)⟩
  · exact fun hcanon => ⟨rfl, hcanon.shape htag⟩

theorem walks_deps {count : UInt16} {limit : ℕ}
    {k : List KernelIdentityRef → StateT Bytes (Except Unit) β} (hcount : count ∉ nestedKeyTags)
    (hk : ∀ l : List KernelIdentityRef, l.length ≤ limit → KeyWalks ok
      (done ++ [putU32 count (UInt32.ofNat l.length)] ++ l.map fun d => putBytes 91 (encodeDep d).take)
      write (k l)) :
    KeyWalks ok done write
      (keyField count (decodeCount limit) >>= fun n => keyFields 91 decodeDep n >>= k) := by
  refine walks_list (fun d => (encodeDep d).take) hcount (fun p d hp h => ?_) hk
  have hroom := size_decodeDep h
  have hlen := length_encodeDep d
  have hshape : ¬((91 : UInt16) = 61 ∨ (91 : UInt16) = 63) := by decide
  have hflag : ¬((91 : UInt16) = 70 ∨ (91 : UInt16) = 75 ∨ (91 : UInt16) = 80) := by decide
  have hnested : (91 : UInt16) ∈ nestedKeyTags := by decide
  refine ⟨⟨rfl, hp, by simp only [slack]; omega, (absurd · hshape), ?_⟩,
    ⟨rfl, (absurd · hshape), fun _ => h ▸ rfl, (absurd · hflag), (absurd hnested ·)⟩⟩
  rw [Field.mk.injEq, encodeDep_of_decode hp h]
  constructor
  · exact fun hd => ⟨(absurd · hshape), fun _ => hd.2, (absurd · hflag)⟩
  · exact fun hcanon => ⟨rfl, hcanon.dependency rfl⟩

theorem walks_scalar {k : ScalarSpecialization → StateT Bytes (Except Unit) β}
    (hk : ∀ s : ScalarSpecialization, KeyWalks ok
      (done ++ [putBool 70 s.specialized] ++ if s.specialized then
        [putI64 71 s.intValue, ⟨72, encF64 s.floatValue⟩] else []) write (k s)) :
    KeyWalks ok done write (scalarReader >>= k) := by
  simp only [scalarReader, bind_assoc]
  refine walks_flag (.inl rfl) fun specialized => ?_
  cases specialized with
  | false => simpa using hk { specialized := false }
  | true =>
    simp only [if_true, bind_assoc, pure_bind]
    refine walks_plain encI64 (by decide) (fun _ _ => encI64_of_decode) fun intValue => ?_
    refine walks_plain encF64 (by decide) (fun _ _ => encF64_of_decode) fun floatValue => ?_
    simpa [putI64] using hk { specialized := true, intValue, floatValue }

theorem walks_quantization {k : QuantizationConfig → StateT Bytes (Except Unit) β}
    (hk : ∀ q : QuantizationConfig, KeyWalks ok
      (done ++ [putU32 73 q.mode.raw] ++ if q.mode ≠ .none then
        [putU32 74 q.groupSize, putBool 75 q.symmetric, putStr 76 q.customScheme] else [])
      write (k q)) :
    KeyWalks ok done write (quantizationReader >>= k) := by
  simp only [quantizationReader, bind_assoc]
  refine walks_u32 (by decide) fun mode => ?_
  by_cases hmode : QuantizationMode.mk mode = .none
  · simpa [hmode] using hk { mode := ⟨mode⟩ }
  · simp only [ne_eq, hmode, not_false_eq_true, if_true, bind_assoc, pure_bind]
    refine walks_u32 (by decide) fun groupSize => ?_
    refine walks_flag (.inr (.inl rfl)) fun symmetric => ?_
    refine walks_str (by decide) fun customScheme => ?_
    simpa [hmode] using hk { mode := ⟨mode⟩, groupSize, symmetric, customScheme }

end

/-- The limits of the decoder on counts. -/
structure CompatibilityFacts.CountLimits (f : CompatibilityFacts) : Prop where
  inputShapes : f.inputShapes.length ≤ 4096
  outputShapes : f.outputShapes.length ≤ 4096
  datatypes : f.datatypes.length ≤ 4096
  layouts : f.layouts.length ≤ 4096
  dependencies : f.dependencies.length ≤ 8192

/-- The decoder reads, field by field, what `encode_facts` writes for what it returns. -/
theorem walks_facts :
    KeyWalks CompatibilityFacts.CountLimits [] encodeFacts factsReader := by
  unfold factsReader
  refine walks_str (by decide) fun logicalName => ?_
  refine walks_u32 (by decide) fun logicalVersion => ?_
  refine walks_str (by decide) fun namespaceName => ?_
  refine walks_u32 (by decide) fun revisionMode => ?_
  refine walks_str (by decide) fun modelRevision => ?_
  refine walks_str (by decide) fun policyGen => ?_
  refine walks_u32 (by decide) fun kind => ?_
  refine walks_str (by decide) fun backendName => ?_
  refine walks_u32 (by decide) fun backendVersion => ?_
  refine walks_str (by decide) fun implementationName => ?_
  refine walks_u32 (by decide) fun runtimeVersion => ?_
  refine walks_u32 (by decide) fun graphAbi => ?_
  refine walks_u32 (by decide) fun kernelAbi => ?_
  refine walks_u32 (by decide) fun driverVersion => ?_
  refine walks_u32 (by decide) fun vendor => ?_
  refine walks_str (by decide) fun architecture => ?_
  refine walks_u32 (by decide) fun computeMajor => ?_
  refine walks_u32 (by decide) fun computeMinor => ?_
  refine walks_u32 (by decide) fun deviceIndex => ?_
  refine walks_str (by decide) fun deviceName => ?_
  refine walks_u32 (by decide) fun captureMode => ?_
  refine walks_u32 (by decide) fun streamSemantics => ?_
  refine walks_str (by decide) fun topologyCanonical => ?_
  refine walks_shapes (by decide) (.inl rfl) fun inputShapes hin => ?_
  refine walks_shapes (by decide) (.inr rfl) fun outputShapes hout => ?_
  refine walks_u32s (by decide) (by decide) fun datatypes hdt => ?_
  refine walks_u32s (by decide) (by decide) fun layouts hlay => ?_
  refine walks_scalar fun scalar => ?_
  refine walks_quantization fun quantization => ?_
  refine walks_u32 (by decide) fun bindingClass => ?_
  refine walks_u32 (by decide) fun alignment => ?_
  refine walks_str (by decide) fun bindingSchema => ?_
  refine walks_flag (.inr (.inr rfl)) fun rebindingEligible => ?_
  refine walks_plain encU64 (by decide) (fun _ _ => encU64_of_decode) fun requiredAlignment => ?_
  refine walks_str (by decide) fun memoryBindingSchema => ?_
  refine walks_deps (by decide) fun dependencies hdeps => ?_
  refine walks_str (by decide) fun modelOperatorRevision => ?_
  refine walks_str (by decide) fun policyGeneration => ?_
  refine .pure ?_ ⟨hin, hout, by simpa using hdt, by simpa using hlay, hdeps⟩
  simp only [encodeFacts, List.append_assoc, List.cons_append, List.nil_append, List.length_map,
    List.map_map]
  rfl

/-! ## Facts within the limits -/

/-- The facts that the decoder accepts : its limits on counts, and lengths below 4 GiB. -/
structure CompatibilityFacts.KeyLimits (f : CompatibilityFacts) : Prop where
  inputShapes : f.inputShapes.length ≤ 4096
  outputShapes : f.outputShapes.length ≤ 4096
  datatypes : f.datatypes.length ≤ 4096
  layouts : f.layouts.length ≤ 4096
  inputDims : ∀ s ∈ f.inputShapes, s.dims.length ≤ 4096
  outputDims : ∀ s ∈ f.outputShapes, s.dims.length ≤ 4096
  dependencies : f.dependencies.length ≤ 8192
  size : f.Encodable

/-- The facts with what a key does not hold reset. -/
def CompatibilityFacts.normalize (f : CompatibilityFacts) : CompatibilityFacts :=
  { f with
    runtime := { f.runtime with driverVersionString := [] }
    scalar := if f.scalar.specialized then f.scalar else {}
    quantization := if f.quantization.mode ≠ .none then f.quantization else {}
    dependencies := f.dependencies.map (·.normalize) }

section

variable {α β : Type} {tag : UInt16} {decode : Bytes → Option α} {w : CanonicalWriter}
  {r : Except Unit (β × Bytes)}

/-- No field of 4 GiB. -/
def Short (w : CanonicalWriter) : Prop := ∀ x ∈ w, x.payload.length < 2 ^ 32

theorem reads_field {p : Bytes} {a : α} {k : α → StateT Bytes (Except Unit) β}
    (hw : Short (⟨tag, p⟩ :: w)) (hd : decode p = some a)
    (hk : Short w → k a w.take = r) :
    (keyField tag decode >>= k) (CanonicalWriter.take (⟨tag, p⟩ :: w)) = r := by
  rw [nextField_bind _ (hw _ List.mem_cons_self) hd]
  exact hk fun x hx => hw x (List.mem_cons_of_mem _ hx)

theorem reads_list {γ : Type} {count : UInt16} {limit : ℕ} {l : List γ} {e : γ → Bytes} {g : γ → α}
    {k : List α → StateT Bytes (Except Unit) β} (hlimit : limit < 2 ^ 32) (hl : l.length ≤ limit)
    (hw : Short (putU32 count (UInt32.ofNat l.length) :: ((l.map fun a => ⟨tag, e a⟩) ++ w)))
    (hd : ∀ a ∈ l, decode (e a) = some (g a)) (hk : Short w → k (l.map g) w.take = r) :
    (keyField count (decodeCount limit) >>= fun n => keyFields tag decode n >>= k)
      (CanonicalWriter.take
        (putU32 count (UInt32.ofNat l.length) :: ((l.map fun a => ⟨tag, e a⟩) ++ w))) = r := by
  have hcount : decodeCount limit (encU32 (UInt32.ofNat l.length)) = some l.length :=
    decodeCount_ofNat hlimit hl
  have hrest : Short ((l.map fun a => ⟨tag, e a⟩) ++ w) :=
    fun x hx => hw x (List.mem_cons_of_mem _ hx)
  refine reads_field hw hcount fun _ => ?_
  rw [nextFields_bind (e := e) (g := g) _ (fun b hb => ?_) hd]
  · exact hk fun x hx => hrest x (List.mem_append_right _ hx)
  · exact hrest ⟨tag, e b⟩ (List.mem_append_left _ (List.mem_map_of_mem hb))

theorem reads_scalar {s : ScalarSpecialization}
    {k : ScalarSpecialization → StateT Bytes (Except Unit) β}
    (hw : Short (putBool 70 s.specialized :: ((if s.specialized then
      [putI64 71 s.intValue, ⟨72, encF64 s.floatValue⟩] else []) ++ w)))
    (hk : Short w → k (if s.specialized then s else {}) w.take = r) :
    (scalarReader >>= k) (CanonicalWriter.take (putBool 70 s.specialized ::
      ((if s.specialized then [putI64 71 s.intValue, ⟨72, encF64 s.floatValue⟩] else []) ++ w))) =
        r := by
  obtain ⟨specialized, intValue, floatValue⟩ := s
  simp only [scalarReader, bind_assoc]
  refine reads_field hw (decodeFlag_encBool _) fun hw => ?_
  cases specialized with
  | false => exact hk hw
  | true =>
    simp only [if_true, bind_assoc, pure_bind]
    refine reads_field hw (decodeI64_encI64 _) fun hw => ?_
    exact reads_field hw (decodeF64_encF64 _) hk

theorem reads_quantization {q : QuantizationConfig}
    {k : QuantizationConfig → StateT Bytes (Except Unit) β}
    (hw : Short (putU32 73 q.mode.raw :: ((if q.mode ≠ .none then
      [putU32 74 q.groupSize, putBool 75 q.symmetric, putStr 76 q.customScheme] else []) ++ w)))
    (hk : Short w → k (if q.mode ≠ .none then q else {}) w.take = r) :
    (quantizationReader >>= k) (CanonicalWriter.take (putU32 73 q.mode.raw ::
      ((if q.mode ≠ .none then
        [putU32 74 q.groupSize, putBool 75 q.symmetric, putStr 76 q.customScheme] else []) ++ w))) =
        r := by
  simp only [quantizationReader, bind_assoc]
  refine reads_field hw (decodeU32_encU32 _) fun hw => ?_
  by_cases hmode : q.mode = .none
  · simp only [hmode, ne_eq, not_true_eq_false, if_false, List.nil_append] at hw hk ⊢
    exact hk hw
  · simp only [ne_eq, hmode, not_false_eq_true, if_true, bind_assoc, pure_bind] at hw hk ⊢
    refine reads_field hw (decodeU32_encU32 _) fun hw => ?_
    refine reads_field hw (decodeFlag_encBool _) fun hw => ?_
    exact reads_field hw (decodeStr_eq _) hk

end

section

variable {f : CompatibilityFacts}

theorem input_written {s : ShapeDescriptor} (hs : s ∈ f.inputShapes) :
    putBytes 61 (encodeShape s) ∈ encodeFacts f := by
  have hmem := List.mem_map_of_mem (f := fun s => putBytes 61 (encodeShape s)) hs
  simp only [encodeFacts, List.mem_append]
  tauto

theorem output_written {s : ShapeDescriptor} (hs : s ∈ f.outputShapes) :
    putBytes 63 (encodeShape s) ∈ encodeFacts f := by
  have hmem := List.mem_map_of_mem (f := fun s => putBytes 63 (encodeShape s)) hs
  simp only [encodeFacts, List.mem_append]
  tauto

theorem dep_written {d : KernelIdentityRef} (hd : d ∈ f.dependencies) :
    putBytes 91 (encodeDep d).take ∈ encodeFacts f := by
  have hmem := List.mem_map_of_mem (f := fun d => putBytes 91 (encodeDep d).take) hd
  simp only [encodeFacts, List.mem_append]
  tauto

end

/-- Facts within the limits are read back, up to what a key does not hold. -/
theorem factsReader_encode {f : CompatibilityFacts} (h : f.KeyLimits) :
    factsReader (factsToCanonical f) = .ok (f.normalize, []) := by
  have hw : Short (encodeFacts f) := h.size
  have hin : ∀ s ∈ f.inputShapes, decodeShape (encodeShape s) = some s := by
    intro s hs
    rw [decodeShape_encodeShape (hw _ (input_written hs)), if_pos (h.inputDims s hs)]
  have hout : ∀ s ∈ f.outputShapes, decodeShape (encodeShape s) = some s := by
    intro s hs
    rw [decodeShape_encodeShape (hw _ (output_written hs)), if_pos (h.outputDims s hs)]
  have hdep : ∀ d ∈ f.dependencies, decodeDep (encodeDep d).take = some d.normalize := by
    intro d hd
    exact decodeDep_encodeDep fun x hx => (length_le_take hx).trans_lt (hw _ (dep_written hd))
  unfold factsReader factsToCanonical
  simp only [encodeFacts, List.append_assoc, List.cons_append, List.nil_append] at hw ⊢
  refine reads_field hw (decodeStr_eq _) fun hw => ?_
  refine reads_field hw (decodeU32_encU32 _) fun hw => ?_
  refine reads_field hw (decodeStr_eq _) fun hw => ?_
  refine reads_field hw (decodeU32_encU32 _) fun hw => ?_
  refine reads_field hw (decodeStr_eq _) fun hw => ?_
  refine reads_field hw (decodeStr_eq _) fun hw => ?_
  refine reads_field hw (decodeU32_encU32 _) fun hw => ?_
  refine reads_field hw (decodeStr_eq _) fun hw => ?_
  refine reads_field hw (decodeU32_encU32 _) fun hw => ?_
  refine reads_field hw (decodeStr_eq _) fun hw => ?_
  refine reads_field hw (decodeU32_encU32 _) fun hw => ?_
  refine reads_field hw (decodeU32_encU32 _) fun hw => ?_
  refine reads_field hw (decodeU32_encU32 _) fun hw => ?_
  refine reads_field hw (decodeU32_encU32 _) fun hw => ?_
  refine reads_field hw (decodeU32_encU32 _) fun hw => ?_
  refine reads_field hw (decodeStr_eq _) fun hw => ?_
  refine reads_field hw (decodeU32_encU32 _) fun hw => ?_
  refine reads_field hw (decodeU32_encU32 _) fun hw => ?_
  refine reads_field hw (decodeU32_encU32 _) fun hw => ?_
  refine reads_field hw (decodeStr_eq _) fun hw => ?_
  refine reads_field hw (decodeU32_encU32 _) fun hw => ?_
  refine reads_field hw (decodeU32_encU32 _) fun hw => ?_
  refine reads_field hw (decodeStr_eq _) fun hw => ?_
  refine reads_list (by decide) h.inputShapes hw hin fun hw => ?_
  refine reads_list (by decide) h.outputShapes hw hout fun hw => ?_
  refine reads_list (by decide) h.datatypes hw (fun _ _ => decodeU32_encU32 _) fun hw => ?_
  refine reads_list (by decide) h.layouts hw (fun _ _ => decodeU32_encU32 _) fun hw => ?_
  refine reads_scalar hw fun hw => ?_
  refine reads_quantization hw fun hw => ?_
  refine reads_field hw (decodeU32_encU32 _) fun hw => ?_
  refine reads_field hw (decodeU32_encU32 _) fun hw => ?_
  refine reads_field hw (decodeStr_eq _) fun hw => ?_
  refine reads_field hw (decodeFlag_encBool _) fun hw => ?_
  refine reads_field hw (decodeU64_encU64 _) fun hw => ?_
  refine reads_field hw (decodeStr_eq _) fun hw => ?_
  refine reads_list (by decide) h.dependencies hw hdep fun hw => ?_
  refine reads_field hw (decodeStr_eq _) fun hw => ?_
  refine reads_field hw (decodeStr_eq _) fun hw => ?_
  have hdt : Datatype.mk ∘ Datatype.raw = id := rfl
  have hlay : TensorLayout.mk ∘ TensorLayout.raw = id := rfl
  refine congrArg (fun g => Except.ok (g, [])) ?_
  simp [CompatibilityFacts.normalize, hdt, hlay]

theorem encodeFacts_normalize (f : CompatibilityFacts) :
    encodeFacts f.normalize = encodeFacts f := by
  have hspec : f.normalize.scalar.specialized = f.scalar.specialized := by
    cases hs : f.scalar.specialized <;> simp [CompatibilityFacts.normalize, hs]
  have hscalar : (if f.scalar.specialized then [putI64 71 f.normalize.scalar.intValue,
      ⟨72, encF64 f.normalize.scalar.floatValue⟩] else []) =
        if f.scalar.specialized then [putI64 71 f.scalar.intValue,
          ⟨72, encF64 f.scalar.floatValue⟩] else [] := by
    cases hs : f.scalar.specialized <;> simp [CompatibilityFacts.normalize, hs]
  have hmode : f.normalize.quantization.mode = f.quantization.mode := by
    by_cases hm : f.quantization.mode = .none <;> simp [CompatibilityFacts.normalize, hm]
  have hquant : (if f.quantization.mode ≠ .none then [putU32 74 f.normalize.quantization.groupSize,
      putBool 75 f.normalize.quantization.symmetric,
      putStr 76 f.normalize.quantization.customScheme] else []) =
        if f.quantization.mode ≠ .none then [putU32 74 f.quantization.groupSize,
          putBool 75 f.quantization.symmetric, putStr 76 f.quantization.customScheme] else [] := by
    by_cases hm : f.quantization.mode = .none <;> simp [CompatibilityFacts.normalize, hm]
  have hdeps : f.normalize.dependencies.map (fun d => putBytes 91 (encodeDep d).take) =
      f.dependencies.map fun d => putBytes 91 (encodeDep d).take :=
    List.map_map
  have hcount : f.normalize.dependencies.length = f.dependencies.length := List.length_map _
  rw [encodeFacts, encodeFacts, hspec, hscalar, hmode, hquant, hdeps, hcount]
  rfl

theorem factsToCanonical_normalize (f : CompatibilityFacts) :
    factsToCanonical f.normalize = factsToCanonical f := by
  rw [factsToCanonical, encodeFacts_normalize, factsToCanonical]

/-! ## Rebuilding a key -/

namespace GraphCompatibilityKey

theorem fromCanonical_ok_iff {b : Bytes} {k : GraphCompatibilityKey} :
    fromCanonical b = .ok k ↔
      ∃ f, decodeFacts b = some f ∧ factsToCanonical f = b ∧ k = build f := by
  unfold fromCanonical
  cases hd : decodeFacts b with
  | none => simp [fail]
  | some f =>
    by_cases hb : factsToCanonical f = b
    · simp [hb, eq_comm]
    · simp [hb, fail]

/-- Facts that are decoded and encode to what was read are within the limits. -/
theorem keyLimits_of_decode {b : Bytes} {f : CompatibilityFacts} (hf : decodeFacts b = some f)
    (hb : factsToCanonical f = b) : f.KeyLimits := by
  obtain ⟨rest, hrun⟩ : ∃ rest, factsReader b = .ok (f, rest) := by
    unfold decodeFacts at hf
    split at hf
    · rename_i g rest hrun
      obtain rfl := Option.some.inj hf
      exact ⟨rest, hrun⟩
    · cases hf
  obtain ⟨⟨hin, hout, hdt, hlay, hdeps⟩, hfields⟩ :=
    (walks_facts.mono fun _ _ hx => hx.toReencoded).rewrites.eq_of_take hrun hb
  have hdims : ∀ {s : ShapeDescriptor} {tag : UInt16}, tag = 61 ∨ tag = 63 →
      putBytes tag (encodeShape s) ∈ encodeFacts f → s.dims.length ≤ 4096 := by
    intro s tag htag hmem
    obtain ⟨hshort, hfits⟩ := hfields _ hmem
    have hsome := hfits htag
    rw [putBytes, decodeShape_encodeShape hshort] at hsome
    by_contra hlong
    rw [if_neg hlong] at hsome
    exact absurd hsome (by decide)
  exact {
    inputShapes := hin
    outputShapes := hout
    datatypes := hdt
    layouts := hlay
    inputDims := fun s hs => hdims (.inl rfl) (input_written hs)
    outputDims := fun s hs => hdims (.inr rfl) (output_written hs)
    dependencies := hdeps
    size := fun x hx => (hfields x hx).1 }

/-- What is accepted is exactly what is written for facts within the limits, and the key is that of
any facts that are written so; it holds them with what is not written reset. -/
theorem fromCanonical_image (b : Bytes) :
    ((∃ k, fromCanonical b = .ok k) ↔
      ∃ f : CompatibilityFacts, f.KeyLimits ∧ b = factsToCanonical f) ∧
    ∀ k, fromCanonical b = .ok k → ∀ f : CompatibilityFacts, f.KeyLimits → b = factsToCanonical f →
      k.eq (build f) = true ∧ k.facts = f.normalize := by
  have hread : ∀ f : CompatibilityFacts, f.KeyLimits → b = factsToCanonical f →
      fromCanonical b = .ok (build f.normalize) := by
    intro f hf hb
    rw [hb]
    refine fromCanonical_ok_iff.mpr ⟨f.normalize, ?_, factsToCanonical_normalize f, rfl⟩
    rw [decodeFacts, factsReader_encode hf]
  refine ⟨⟨?_, ?_⟩, ?_⟩
  · rintro ⟨k, hk⟩
    obtain ⟨f, hf, hb, -⟩ := fromCanonical_ok_iff.mp hk
    exact ⟨f, keyLimits_of_decode hf hb, hb.symm⟩
  · rintro ⟨f, hf, hb⟩
    exact ⟨_, hread f hf hb⟩
  · intro k hk f hf hb
    obtain rfl := Except.ok.inj ((hread f hf hb).symm.trans hk)
    simp [eq, build, factsToCanonical_normalize]

/-- Bytes after the last field are refused. -/
example : fromCanonical (factsToCanonical {} ++ [0]) =
    fail .persistenceCorrupt "canonical compatibility metadata does not round-trip" := by
  decide +kernel

end GraphCompatibilityKey

end GraphCache
