import GraphCache.SpanReader
import GraphCache.Serialization

/-!
# Streams parse uniquely

A stream is read by calling `next` until it returns `false` (`readAll`). Since every field moves the
offset, this ends, and the offset tells a whole stream from one that stops before its end : a header
that promises too much has been passed over by then, but the reader is malformed.

`framing_unique` : the fields that were put are read back, and no others; a stream that is read to
its end is what its fields are written as; and each typed payload is decoded to the value it was put
for. The decoders of fixed width take no other payload. A list decoder reads as many words as the
count says, and leaves further bytes unread.
-/

open BigEndian

namespace GraphCache

/-! ## Streams -/

namespace SpanReader

/-- What `next` gives until it returns `false`, and the reader then. -/
def readFields : ℕ → SpanReader → Option (CanonicalWriter × SpanReader)
  | 0, _ => none
  | n + 1, r => r.next.bind fun x =>
    match x with
    | (none, r') => some ([], r')
    | (some f, r') => (readFields n r').map fun y => (f :: y.1, y.2)

/-- A whole stream. A field takes six bytes, so the fuel suffices. -/
def readAll (data : Bytes) : Option (CanonicalWriter × SpanReader) :=
  readFields (data.length + 1) ⟨data, 0, false⟩

section

variable {r r₁ : SpanReader} {n : ℕ}

theorem fields_stop (h : r.next = some (none, r₁)) : readFields (n + 1) r = some ([], r₁) := by
  rw [readFields, h]
  rfl

theorem fields_field {f : Field} (h : r.next = some (some f, r₁)) :
    readFields (n + 1) r = (readFields n r₁).map fun y => (f :: y.1, y.2) := by
  rw [readFields, h]
  rfl

end

/-- Reading ends. -/
theorem fields_total : ∀ (n : ℕ) {r : SpanReader}, r.Within → r.rest.length < n →
    ∃ w r', readFields n r = some (w, r')
  | n + 1, r, h, hn => by
    obtain ⟨r₁, hnext, h₁, -, -⟩ := next_spec h
    cases hf : r.view.next.1 with
    | none => exact ⟨[], r₁, fields_stop (hf ▸ hnext)⟩
    | some f =>
      rw [hf] at hnext
      obtain ⟨-, hrest, -⟩ := next_some h hnext
      obtain ⟨w, r', hw⟩ := fields_total n h₁ (length_of_field hrest hn)
      exact ⟨f :: w, r', by rw [fields_field hnext, hw]; rfl⟩

/-- Without a malformed header, the fields read are what is left of the data. -/
theorem bytes_of_fields : ∀ {n : ℕ} {r r' : SpanReader} {w : CanonicalWriter}, r.Within →
    readFields n r = some (w, r') → r'.malformed = false → r.rest = w.take
  | n + 1, r, r', w, h, hread, hgood => by
    obtain ⟨r₁, hnext, h₁, -, hview⟩ := next_spec h
    cases hf : r.view.next.1 with
    | none =>
      rw [hf] at hnext
      rw [fields_stop hnext, Option.some.injEq, Prod.mk.injEq] at hread
      obtain ⟨rfl, rfl⟩ := hread
      have hstop : r.view.next = (none, r₁.view) := Prod.ext hf hview.symm
      exact CanonicalReader.rest_of_next hstop hgood
    | some f =>
      rw [hf] at hnext
      rw [fields_field hnext] at hread
      obtain ⟨⟨w', r''⟩, hw, heq⟩ := Option.map_eq_some_iff.mp hread
      obtain ⟨rfl, rfl⟩ := Prod.mk.inj heq
      obtain ⟨-, hrest, -⟩ := next_some h hnext
      rw [hrest, bytes_of_fields h₁ hw hgood]
      rfl

/-- The fields put are read, to the end. -/
theorem fields_take : ∀ (w : CanonicalWriter) {r : SpanReader} {n : ℕ}, r.Within →
    (∀ f ∈ w, f.payload.length < 2 ^ 32) → r.malformed = false → r.rest = w.take → w.length < n →
    ∃ r', readFields n r = some (w, r') ∧ r'.atEnd = true ∧ r'.malformed = false
  | [], r, n + 1, h, _, hgood, hrest, _ => by
    have hend : r.off = r.data.length := by
      simpa [atEnd] using (atEnd_iff h).mpr hrest
    have hstop : r.next = some (none, r) := by
      rw [next, if_pos hend]
    exact ⟨r, fields_stop hstop, (atEnd_iff h).mpr hrest, hgood⟩
  | f :: w, r, n + 1, h, hw, hgood, hrest, hn => by
    obtain ⟨r₁, hnext, h₁, -, hview⟩ := next_spec h
    have hread : r.view.next = (some f, ⟨CanonicalWriter.take w, r.malformed⟩) := by
      rw [view, hrest]
      exact CanonicalReader.next_bytes f (hw f (by simp)) (CanonicalWriter.take w) _
    rw [hread] at hnext hview
    obtain ⟨r', hfields, hend, hflag⟩ := fields_take w h₁ (fun x hx => hw x (by simp [hx]))
      ((congrArg CanonicalReader.malformed hview).trans hgood)
      (congrArg CanonicalReader.rest hview) (Nat.lt_of_succ_lt_succ hn)
    exact ⟨r', by rw [fields_field hnext, hfields]; rfl, hend, hflag⟩

theorem readAll_total (data : Bytes) : ∃ w r, readAll data = some (w, r) :=
  fields_total _ (within_of data) (Nat.lt_succ_self _)

theorem readAll_take {w : CanonicalWriter} (hw : ∀ f ∈ w, f.payload.length < 2 ^ 32) :
    ∃ r, readAll w.take = some (w, r) ∧ r.atEnd = true ∧ r.malformed = false :=
  fields_take w (within_of w.take) hw rfl rfl (Nat.lt_succ_of_le w.length_le_take)

theorem take_of_readAll {data : Bytes} {w : CanonicalWriter} {r : SpanReader}
    (h : readAll data = some (w, r)) (hgood : r.malformed = false) : w.take = data :=
  (bytes_of_fields (within_of data) h hgood).symm

end SpanReader

/-! ## Typed payloads -/

def encU16 (v : UInt16) : Bytes := beBytes 2 v.toNat

def putU16 (tag : UInt16) (v : UInt16) : Field := ⟨tag, encU16 v⟩

def putF64 (tag : UInt16) (v : Double) : Field := ⟨tag, encF64 v⟩

def decodeU16 (p : Bytes) : Option UInt16 :=
  if p.length = 2 then some (UInt16.ofNat (beNat p)) else none

/-- Every value is put under its tag as a payload of `width` bytes, and these are the payloads that
are decoded, each to the value it was put for. -/
structure TypedPair {α : Type} (put : UInt16 → α → Field) (decode : Bytes → Option α) (width : ℕ) :
    Prop where
  tag : ∀ t v, (put t v).tag = t
  length : ∀ t v, (put t v).payload.length = width
  decode_iff : ∀ t p v, decode p = some v ↔ p = (put t v).payload
  accepts : ∀ p, p.length = width → (decode p).isSome = true
  rejects : ∀ p, p.length ≠ width → decode p = none

/-- A word is decoded from its bytes, and from no others. -/
theorem typedPair_of {α : Type} {enc : α → Bytes} {decode : Bytes → Option α} {width : ℕ}
    (hlength : ∀ v, (enc v).length = width) (hdecode : ∀ v, decode (enc v) = some v)
    (hwritten : ∀ {p v}, decode p = some v → enc v = p)
    (haccepts : ∀ p, p.length = width → (decode p).isSome = true) :
    TypedPair (fun t v => ⟨t, enc v⟩) decode width where
  tag _ _ := rfl
  length _ v := hlength v
  decode_iff _ p v := ⟨fun h => (hwritten h).symm, fun h => h ▸ hdecode v⟩
  accepts := haccepts
  rejects p hp := by
    cases hd : decode p with
    | none => rfl
    | some v => exact absurd (hwritten hd ▸ hlength v) hp

theorem decodeU16_encU16 (v : UInt16) : decodeU16 (encU16 v) = some v := by
  simp [decodeU16, encU16,
    beNat_beBytes_of_lt (w := 2) (n := v.toNat) (by simpa using v.toNat_lt)]

theorem encU16_of_decode {p : Bytes} {v : UInt16} (h : decodeU16 p = some v) : encU16 v = p := by
  unfold decodeU16 at h
  split_ifs at h with hlen
  obtain rfl := Option.some.inj h
  have hlt : beNat p < 2 ^ 16 := (beNat_lt p).trans_eq (by rw [hlen]; norm_num)
  rw [encU16, UInt16.toNat_ofNat', Nat.mod_eq_of_lt hlt, ← hlen, beBytes_beNat]

theorem typed_pairs : TypedPair putU16 decodeU16 2 ∧ TypedPair putU32 decodeU32 4 ∧
    TypedPair putU64 decodeU64 8 ∧ TypedPair putI64 decodeI64 8 ∧ TypedPair putF64 decodeF64 8 := by
  have haccepts (p : Bytes) (h : p.length = 8) : (decodeU64 p).isSome = true := by
    simp [decodeU64, h]
  refine ⟨?_, ?_, ?_, ?_, ?_⟩
  · exact typedPair_of (fun _ => length_beBytes _ _) decodeU16_encU16 encU16_of_decode
      fun p h => by simp [decodeU16, h]
  · exact typedPair_of length_encU32 decodeU32_encU32 encU32_of_decode
      fun p h => by simp [decodeU32, h]
  · exact typedPair_of length_encU64 decodeU64_encU64 encU64_of_decode haccepts
  · exact typedPair_of length_encI64 decodeI64_encI64 encI64_of_decode
      fun p h => by simp [decodeI64, haccepts p h]
  · exact typedPair_of length_encF64 decodeF64_encF64 encF64_of_decode
      fun p h => by simp [decodeF64, haccepts p h]

theorem flatMap_readU64s : ∀ {n : ℕ} {p : Bytes}, 8 * n ≤ p.length →
    (readU64s n p).length = n ∧ (readU64s n p).flatMap encU64 = p.take (8 * n)
  | 0, p, _ => ⟨rfl, (List.take_zero).symm⟩
  | n + 1, p, h => by
    obtain ⟨hlength, hrest⟩ := @flatMap_readU64s n (p.drop 8) (by rw [List.length_drop]; omega)
    have hword : encU64 (UInt64.ofNat (beNat (p.take 8))) = p.take 8 :=
      encU64_of_decode (by rw [decodeU64, if_pos (by rw [List.length_take]; omega)])
    refine ⟨congrArg Nat.succ hlength, ?_⟩
    rw [readU64s, List.flatMap_cons, hword, hrest, Nat.mul_succ, Nat.add_comm, List.take_add]

/-- A list is decoded from a payload that begins as it is put. More bytes may follow. -/
theorem decodeU64List_prefix {p : Bytes} {vs : List UInt64} (h : decodeU64List p = some vs) :
    vs.length ≤ 4096 ∧ encU64List vs <+: p := by
  unfold decodeU64List at h
  dsimp only at h
  split_ifs at h with hbad
  obtain rfl := Option.some.inj h
  obtain ⟨hlong, hcount, hsize⟩ : 4 ≤ p.length ∧ beNat (p.take 4) ≤ 4096 ∧
      4 + 8 * beNat (p.take 4) ≤ p.length := by omega
  obtain ⟨hlength, hwords⟩ :=
    @flatMap_readU64s (beNat (p.take 4)) (p.drop 4) (by rw [List.length_drop]; omega)
  refine ⟨hlength.trans_le hcount, ?_⟩
  have hhead : beBytes 4 (beNat (p.take 4)) = p.take 4 := by
    have hback := beBytes_beNat (p.take 4)
    rwa [List.length_take_of_le hlong] at hback
  rw [encU64List, hlength, hwords, hhead, ← List.take_add]
  exact List.take_prefix _ _

/-- Streams parse uniquely, to the values they were put for. -/
theorem framing_unique :
    (∀ w : CanonicalWriter, (∀ f ∈ w, f.payload.length < 2 ^ 32) →
      ∃ r, SpanReader.readAll w.take = some (w, r) ∧ r.atEnd = true ∧ r.malformed = false) ∧
    (∀ data, ∃ w r, SpanReader.readAll data = some (w, r) ∧
      (r.atEnd = true → r.malformed = false → w.take = data)) ∧
    (TypedPair putU16 decodeU16 2 ∧ TypedPair putU32 decodeU32 4 ∧ TypedPair putU64 decodeU64 8 ∧
      TypedPair putI64 decodeI64 8 ∧ TypedPair putF64 decodeF64 8) ∧
    (∀ tag s, decodeStr (putStr tag s).payload = some s ∧
      ∀ p, decodeStr p = some s → p = (putStr tag s).payload) ∧
    (∀ tag vs, vs.length ≤ 4096 → decodeU64List (putU64List tag vs).payload = some vs) ∧
    ∀ tag p vs, decodeU64List p = some vs →
      vs.length ≤ 4096 ∧ (putU64List tag vs).payload <+: p := by
  refine ⟨fun w hw => SpanReader.readAll_take hw, fun data => ?_, typed_pairs,
    fun _ s => ⟨rfl, fun p h => Option.some.inj h⟩, fun _ _ h => decodeU64List_encU64List h,
    fun _ _ _ h => decodeU64List_prefix h⟩
  obtain ⟨w, r, hread⟩ := SpanReader.readAll_total data
  exact ⟨w, r, hread, fun _ hgood => SpanReader.take_of_readAll hread hgood⟩

end GraphCache
