import GraphCache.Types

/-!
# The persistence envelope

`build_envelope` and `parse_envelope` of `persistence.cpp`. An envelope is a header of twelve bytes
(magic, format version, length of the payload), the payload, the length of a checksum, and the
checksum. Lengths and offsets are added as 32-bit words before they are compared with sizes.

`parse_envelope` reads data as a payload exactly when it is the envelope of that payload, except
where the sum wraps around : for the format version 32 the version is then read again as the length
of the checksum, and the payload is taken from outside of the data (`parseEnvelope_exact_iff`).
-/

open BigEndian

namespace GraphCache

namespace PersistenceStore

/-! ## The source -/

/-- `kMagic`. -/
def magic : UInt32 := 0x47434652

/-- `kFormatVersion`, the version of a store that is opened without one. -/
def formatVersion : UInt32 := 1

/-- `kChecksumLen`. -/
def checksumLen : ℕ := 32

def buildEnvelope (version : UInt32) (payload : Bytes) : Bytes :=
  encU32 magic ++ encU32 version ++ encU32 (UInt32.ofNat payload.length) ++ payload ++
    encU32 (UInt32.ofNat checksumLen) ++ Sha256.compute payload

def rdU32 (data : Bytes) (off : ℕ) : Option UInt32 :=
  if off + 4 > data.length then none else some (UInt32.ofNat (beNat ((data.drop off).take 4)))

/-- The loop over the bytes of the digest, which are compared from `off` on. There is no outcome
where a byte outside of the data is read. -/
def sameChecksum (data : Bytes) : ℕ → Digest → Option Bool
  | _, [] => some true
  | off, b :: digest =>
    match data[off]? with
    | none => none
    | some c => if c ≠ b then some false else sameChecksum data (off + 1) digest

/-- `parse_envelope` from `payload.assign` on. -/
def readPayload (data : Bytes) (plen : UInt32) : Option (Except ErrorCode Bytes) :=
  if 12 + plen.toNat > data.length then none
  else
    let payload := (data.drop 12).take plen.toNat
    (sameChecksum data (16 + plen).toNat (Sha256.compute payload)).map fun same =>
      if same then .ok payload else .error .persistenceChecksumMismatch

/-- `parse_envelope`. There is no outcome where a byte outside of the data is read. -/
def parseEnvelope (version : UInt32) (data : Bytes) : Option (Except ErrorCode Bytes) :=
  if data.length < 16 then some (.error .persistenceTruncated)
  else
    match rdU32 data 0 with
    | none => some (.error .persistenceTruncated)
    | some m =>
      if m ≠ magic then some (.error .persistenceCorrupt)
      else
        match rdU32 data 4 with
        | none => some (.error .persistenceTruncated)
        | some ver =>
          if ver ≠ version then some (.error .persistenceUnknownVersion)
          else
            match rdU32 data 8 with
            | none => some (.error .persistenceTruncated)
            | some plen =>
              if (12 + plen + 4).toNat + checksumLen ≠ data.length then
                if (12 + plen + 4).toNat + checksumLen > data.length then
                  some (.error .persistenceTruncated)
                else some (.error .persistenceTrailingGarbage)
              else
                match rdU32 data (12 + plen).toNat with
                | none => some (.error .persistenceTruncated)
                | some clen =>
                  if clen.toNat ≠ checksumLen then some (.error .persistenceCorrupt)
                  else readPayload data plen

/-! ## Words and checksums -/

section

variable {data : Bytes} {off : ℕ}

theorem rdU32_eq_some {v : UInt32} :
    rdU32 data off = some v ↔ (data.drop off).take 4 = encU32 v := by
  unfold rdU32
  split_ifs with hshort
  · refine ⟨nofun, fun h => ?_⟩
    have hlen := congrArg List.length h
    rw [length_encU32, List.length_take, List.length_drop] at hlen
    omega
  · have hlen : ((data.drop off).take 4).length = 4 := by
      rw [List.length_take, List.length_drop]
      omega
    constructor
    · intro h
      have hlt := beNat_lt ((data.drop off).take 4)
      rw [hlen] at hlt
      rw [← Option.some.inj h, encU32, UInt32.toNat_ofNat_of_lt' hlt]
      conv_lhs => rw [← beBytes_beNat ((data.drop off).take 4), hlen]
    · intro h
      have hdecode := decodeU32_encU32 v
      rwa [← h, decodeU32, if_pos hlen] at hdecode

/-- The bytes of a word that is read. -/
theorem getElem?_of_rdU32 {v : UInt32} (h : rdU32 data off = some v) {i : ℕ} (hi : i < 4) :
    data[off + i]? = (encU32 v)[i]? := by
  rw [← rdU32_eq_some.mp h, List.getElem?_take_of_lt hi, List.getElem?_drop]

/-- What is within the data is compared as a whole. -/
theorem sameChecksum_eq : ∀ {off : ℕ} {digest : Digest}, off + digest.length ≤ data.length →
    sameChecksum data off digest = some (decide ((data.drop off).take digest.length = digest))
  | _, [], _ => by simp [sameChecksum]
  | off, b :: digest, h => by
    rw [List.length_cons] at h
    have hoff : off < data.length := by omega
    rw [sameChecksum, List.getElem?_eq_getElem hoff, List.drop_eq_getElem_cons hoff,
      List.length_cons, List.take_succ_cons]
    have hrest := sameChecksum_eq (show off + 1 + digest.length ≤ data.length by omega)
    by_cases hb : data[off] = b
    · simp [hb, hrest]
    · simp [hb]

/-- The length of a SHA-256 digest. -/
@[simp] theorem length_compute (payload : Bytes) :
    (Sha256.compute payload).length = checksumLen :=
  Sha256.length_final _

end

/-! ## What passes the checks -/

/-- The data passes all checks before its payload is taken. -/
structure Checked (version plen : UInt32) (data : Bytes) : Prop where
  magicWord : rdU32 data 0 = some magic
  versionWord : rdU32 data 4 = some version
  plenWord : rdU32 data 8 = some plen
  size : (12 + plen + 4).toNat + checksumLen = data.length
  clenWord : rdU32 data (12 + plen).toNat = some (UInt32.ofNat checksumLen)

variable {version plen : UInt32} {data : Bytes}

theorem parseEnvelope_of_checked (h : Checked version plen data) :
    parseEnvelope version data = readPayload data plen := by
  have hlen := h.size
  have hchecksum : checksumLen = 32 := rfl
  rw [parseEnvelope, if_neg (by omega), h.magicWord]
  dsimp only
  rw [if_neg (not_not.mpr rfl), h.versionWord]
  dsimp only
  rw [if_neg (not_not.mpr rfl), h.plenWord]
  dsimp only
  rw [if_neg (not_not.mpr h.size), h.clenWord]
  dsimp only
  rw [if_neg (by decide)]

/-- What is not refused has passed the checks. -/
theorem exists_checked (h : ∀ err, parseEnvelope version data ≠ some (.error err)) :
    ∃ plen, Checked version plen data := by
  unfold parseEnvelope at h
  split_ifs at h
  · exact absurd rfl (h _)
  split at h
  · exact absurd rfl (h _)
  rename_i m hmagic
  split_ifs at h with hm
  · exact absurd rfl (h _)
  split at h
  · exact absurd rfl (h _)
  rename_i ver hversion
  split_ifs at h with hver
  · exact absurd rfl (h _)
  split at h
  · exact absurd rfl (h _)
  rename_i plen hplen
  split_ifs at h with hsize
  · exact absurd rfl (h _)
  · exact absurd rfl (h _)
  split at h
  · exact absurd rfl (h _)
  rename_i clen hclen
  split_ifs at h with hc
  · exact absurd rfl (h _)
  have hc : UInt32.ofNat checksumLen = clen := by
    rw [← not_not.mp hc, UInt32.ofNat_toNat]
  exact ⟨plen, not_not.mp hm ▸ hmagic, not_not.mp hver ▸ hversion, hplen, not_not.mp hsize,
    hc ▸ hclen⟩

/-- The sum of the length of the payload with the sizes around it is a 32-bit word. -/
def Fits (plen : UInt32) : Prop := plen.toNat + 16 < 2 ^ 32

/-- The header of a payload of `2 ^ 32 - 8` bytes, under version 32, and 28 bytes. -/
structure Wrapped (version : UInt32) (data : Bytes) : Prop where
  version : version = 32
  length : data.length = 40
  header : data.take 12 = encU32 magic ++ encU32 32 ++ encU32 0xFFFFFFF8

/-- The header of data that passes the checks. -/
theorem Checked.header (h : Checked version plen data) :
    data.take 12 = encU32 magic ++ encU32 version ++ encU32 plen := by
  rw [← rdU32_eq_some.mp h.magicWord, ← rdU32_eq_some.mp h.versionWord,
    ← rdU32_eq_some.mp h.plenWord, List.drop_zero, ← List.take_add, ← List.take_add]

/-- The sixteen lengths for which the sum wraps around : where the length of the checksum is then
read, and what the header says. -/
theorem wrapped_words : ∀ k < 16,
    (12 + UInt32.ofNat (2 ^ 32 - 16 + k)).toNat = (if k < 4 then 2 ^ 32 - 4 + k else k - 4) ∧
      (12 + UInt32.ofNat (2 ^ 32 - 16 + k) + 4).toNat = k ∧
      encU32 (UInt32.ofNat (2 ^ 32 - 16 + k)) = [255, 255, 255, UInt8.ofNat (240 + k)] := by
  decide

/-- Where the sum wraps around, the length of the checksum is read in the header, and only the
version can have its value. -/
theorem Checked.wrapped (h : Checked version plen data) (hfits : ¬Fits plen) :
    Wrapped version data := by
  have hlt : plen.toNat < 2 ^ 32 := plen.toNat_lt
  unfold Fits at hfits
  obtain ⟨k, hk, rfl⟩ : ∃ k < 16, plen = UInt32.ofNat (2 ^ 32 - 16 + k) := by
    refine ⟨plen.toNat - (2 ^ 32 - 16), by omega, ?_⟩
    rw [show 2 ^ 32 - 16 + (plen.toNat - (2 ^ 32 - 16)) = plen.toNat by omega, UInt32.ofNat_toNat]
  obtain ⟨hoff, htotal, hword⟩ := wrapped_words k hk
  have hlen : k + 32 = data.length := htotal ▸ h.size
  have hclen : ∀ i < 4, data[(if k < 4 then 2 ^ 32 - 4 + k else k - 4) + i]? =
      (encU32 32)[i]? := fun i hi => hoff ▸ getElem?_of_rdU32 h.clenWord hi
  have hplen : ∀ i < 4, data[8 + i]? = [255, 255, 255, UInt8.ofNat (240 + k)][i]? :=
    fun i hi => hword ▸ getElem?_of_rdU32 h.plenWord hi
  have hzero : (encU32 32)[0]? = some 0 := by decide
  have hno255 : ∀ i < 4, (encU32 32)[i]? ≠ some 255 := by decide
  by_cases hk4 : k < 4
  · -- past the end of the data
    have hfirst := hclen 0 (by omega)
    rw [if_pos hk4, hzero, List.getElem?_eq_none (by omega)] at hfirst
    cases hfirst
  rw [if_neg hk4] at hclen
  by_cases hk8 : k < 8
  · -- over the magic
    have hmagic := getElem?_of_rdU32 h.magicWord (i := k - 4) (by omega)
    have hfirst := hclen 0 (by omega)
    rw [hzero, Nat.add_zero, ← Nat.zero_add (k - 4), hmagic] at hfirst
    have hno0 : ∀ i < 4, (encU32 magic)[i]? ≠ some 0 := by decide
    exact absurd hfirst (hno0 _ (by omega))
  by_cases hk9 : k = 8
  · -- over the version
    subst hk9
    have hversion : version = 32 := by
      have hclen := rdU32_eq_some.mp h.clenWord
      rw [hoff] at hclen
      exact encU32_inj.mp ((rdU32_eq_some.mp h.versionWord).symm.trans hclen)
    exact ⟨hversion, by omega, hversion ▸ h.header⟩
  · -- over a byte 255 of the length
    have hover : ∀ k < 16, 8 < k → ∃ i < 4, k - 4 ≤ 8 + i ∧ 8 + i < k ∧
        [255, 255, 255, UInt8.ofNat (240 + k)][i]? = some 255 := by decide
    obtain ⟨i, hi, hlow, hhigh, hbyte⟩ := hover k hk (by omega)
    have hsame := hclen (8 + i - (k - 4)) (by omega)
    rw [show k - 4 + (8 + i - (k - 4)) = 8 + i by omega, hplen i hi, hbyte] at hsame
    exact absurd hsame.symm (hno255 _ (by omega))

/-! ## Exactness -/

section

variable {payload : Bytes}

theorem Fits.toNat_total (h : Fits plen) : (12 + plen + 4).toNat = 16 + plen.toNat := by
  unfold Fits at h
  simp only [UInt32.toNat_add, UInt32.reduceToNat]
  omega

theorem Fits.toNat_clen (h : Fits plen) : (12 + plen).toNat = 12 + plen.toNat := by
  unfold Fits at h
  simp only [UInt32.toNat_add, UInt32.reduceToNat]
  omega

theorem Fits.toNat_checksum (h : Fits plen) : (16 + plen).toNat = 16 + plen.toNat := by
  unfold Fits at h
  simp only [UInt32.toNat_add, UInt32.reduceToNat]
  omega

/-- Where the sum does not wrap around, the checksum decides. -/
theorem readPayload_of_fits (h : Checked version plen data) (hfits : Fits plen) :
    readPayload data plen = some (if (data.drop (16 + plen.toNat)).take checksumLen =
      Sha256.compute ((data.drop 12).take plen.toNat) then .ok ((data.drop 12).take plen.toNat)
      else .error .persistenceChecksumMismatch) := by
  have hsize := h.size
  rw [hfits.toNat_total] at hsize
  rw [readPayload, if_neg (by omega)]
  dsimp only
  rw [hfits.toNat_checksum, sameChecksum_eq (by rw [length_compute]; omega), length_compute]
  simp

/-- What is read was built. -/
theorem buildEnvelope_of_checked (h : Checked version plen data) (hfits : Fits plen)
    (hsum : (data.drop (16 + plen.toNat)).take checksumLen =
      Sha256.compute ((data.drop 12).take plen.toNat)) :
    data = buildEnvelope version ((data.drop 12).take plen.toNat) ∧
      ((data.drop 12).take plen.toNat).length < 2 ^ 32 - 16 := by
  have hsize := h.size
  rw [hfits.toNat_total] at hsize
  have hlen : ((data.drop 12).take plen.toNat).length = plen.toNat := by
    rw [List.length_take, List.length_drop]
    omega
  have hclen := rdU32_eq_some.mp h.clenWord
  rw [hfits.toNat_clen] at hclen
  have htail : data.drop (16 + plen.toNat) =
      Sha256.compute ((data.drop 12).take plen.toNat) := by
    rw [← hsum, List.take_of_length_le (by rw [List.length_drop]; omega)]
  unfold Fits at hfits
  refine ⟨?_, by omega⟩
  rw [buildEnvelope, hlen, UInt32.ofNat_toNat, ← h.header, ← htail, ← hclen, ← List.take_add]
  rw [show 16 + plen.toNat = 12 + plen.toNat + 4 by omega, ← List.take_add,
    List.take_append_drop]

@[simp] theorem length_buildEnvelope (version : UInt32) (payload : Bytes) :
    (buildEnvelope version payload).length = 48 + payload.length := by
  simp only [buildEnvelope, List.length_append, length_encU32, length_compute, checksumLen]
  omega

theorem rdU32_append (v : UInt32) (pre post : Bytes) :
    rdU32 (pre ++ (encU32 v ++ post)) pre.length = some v :=
  rdU32_eq_some.mpr (by rw [List.drop_left, List.take_left' (length_encU32 v)])

theorem checked_buildEnvelope (version : UInt32) (h : payload.length + 16 < 2 ^ 32) :
    Fits (UInt32.ofNat payload.length) ∧
      Checked version (UInt32.ofNat payload.length) (buildEnvelope version payload) := by
  have hlen : (UInt32.ofNat payload.length).toNat = payload.length :=
    UInt32.toNat_ofNat_of_lt' (show payload.length < 2 ^ 32 by omega)
  have hfits : Fits (UInt32.ofNat payload.length) := by rwa [Fits, hlen]
  refine ⟨hfits, ?_, ?_, ?_, ?_, ?_⟩
  · have hword := rdU32_append magic []
    simp only [buildEnvelope, List.append_assoc]
    exact hword _
  · have hword := rdU32_append version (encU32 magic)
    rw [length_encU32] at hword
    simp only [buildEnvelope, List.append_assoc]
    exact hword _
  · have hword := rdU32_append (UInt32.ofNat payload.length) (encU32 magic ++ encU32 version)
    rw [List.length_append, length_encU32, length_encU32] at hword
    simp only [buildEnvelope, List.append_assoc] at hword ⊢
    exact hword _
  · rw [hfits.toNat_total, hlen, length_buildEnvelope, checksumLen]
    omega
  · have hword := rdU32_append (UInt32.ofNat checksumLen) (encU32 magic ++ encU32 version ++
      encU32 (UInt32.ofNat payload.length) ++ payload) (Sha256.compute payload)
    simp only [List.length_append, length_encU32] at hword
    rw [hfits.toNat_clen, hlen, buildEnvelope, List.append_assoc]
    exact hword

/-- What is built is read back. -/
theorem parseEnvelope_buildEnvelope (version : UInt32) (h : payload.length + 16 < 2 ^ 32) :
    parseEnvelope version (buildEnvelope version payload) = some (.ok payload) := by
  obtain ⟨hfits, hchecked⟩ := checked_buildEnvelope version h
  have hlen : (UInt32.ofNat payload.length).toNat = payload.length :=
    UInt32.toNat_ofNat_of_lt' (show payload.length < 2 ^ 32 by omega)
  have hpayload : ((buildEnvelope version payload).drop 12).take payload.length = payload := by
    rw [buildEnvelope, List.append_assoc, List.append_assoc, List.drop_left' (by simp),
      List.take_left]
  have hsum : ((buildEnvelope version payload).drop (16 + payload.length)).take checksumLen =
      Sha256.compute payload := by
    rw [buildEnvelope, List.drop_left' (by simp; omega), List.take_of_length_le (by simp)]
  rw [parseEnvelope_of_checked hchecked, readPayload_of_fits hchecked hfits, hlen, hpayload,
    if_pos hsum]

end

/-- The envelopes of a version are exact on the data : no byte outside of it is read, and a payload
is read from the envelope of this payload and from nothing else. -/
def EnvelopeExact (version : UInt32) (data : Bytes) : Prop :=
  parseEnvelope version data ≠ none ∧
    ∀ payload, parseEnvelope version data = some (.ok payload) ↔
      data = buildEnvelope version payload ∧ payload.length < 2 ^ 32 - 16

/-- Under the header that wraps around, the payload is taken from outside of the data. -/
theorem parseEnvelope_wrapped (h : Wrapped version data) : parseEnvelope version data = none := by
  have hword : ∀ off v, off + 4 ≤ 12 → ((data.take 12).drop off).take 4 = encU32 v →
      rdU32 data off = some v := by
    intro off v hoff hv
    rw [List.drop_take, List.take_take, min_eq_left (by omega)] at hv
    exact rdU32_eq_some.mpr hv
  rw [h.header] at hword
  have hversion : rdU32 data 4 = some 32 := hword 4 _ (by omega) (by decide)
  have hchecked : Checked version 0xFFFFFFF8 data :=
    ⟨hword 0 _ (by omega) (by decide), h.version ▸ hversion, hword 8 _ (by omega) (by decide),
      by rw [h.length]; decide, hversion⟩
  have hbeyond : 12 + (0xFFFFFFF8 : UInt32).toNat > 40 := by decide
  rw [parseEnvelope_of_checked hchecked, readPayload, if_pos (by rw [h.length]; exact hbeyond)]

/-- Elsewhere data is refused, or it is an envelope and its payload is read. -/
theorem parseEnvelope_of_not_wrapped (hw : ¬Wrapped version data) :
    (∃ err, parseEnvelope version data = some (.error err)) ∨
      ∃ payload, parseEnvelope version data = some (.ok payload) ∧
        data = buildEnvelope version payload ∧ payload.length < 2 ^ 32 - 16 := by
  by_cases hpass : ∀ err, parseEnvelope version data ≠ some (.error err)
  · obtain ⟨plen, hchecked⟩ := exists_checked hpass
    have hfits : Fits plen := not_not.mp fun hfits => hw (hchecked.wrapped hfits)
    have hparse := parseEnvelope_of_checked hchecked
    rw [readPayload_of_fits hchecked hfits] at hparse
    split_ifs at hparse with hsum
    · exact .inr ⟨_, hparse, buildEnvelope_of_checked hchecked hfits hsum⟩
    · exact absurd hparse (hpass _)
  · exact .inl (not_forall_not.mp hpass)

/-- Envelopes are exact but for one header of version 32. -/
theorem parseEnvelope_exact_iff (version : UInt32) (data : Bytes) :
    EnvelopeExact version data ↔ ¬Wrapped version data := by
  refine ⟨fun h hw => h.1 (parseEnvelope_wrapped hw), fun hw => ?_⟩
  have hbuilt : ∀ payload, data = buildEnvelope version payload ∧ payload.length < 2 ^ 32 - 16 →
      parseEnvelope version data = some (.ok payload) := by
    rintro payload ⟨rfl, hlen⟩
    exact parseEnvelope_buildEnvelope version (by omega)
  rcases parseEnvelope_of_not_wrapped hw with ⟨err, herr⟩ | ⟨payload, hok, hbuild⟩
  · refine ⟨by simp [herr], fun payload => ⟨fun hok => ?_, hbuilt payload⟩⟩
    rw [herr] at hok
    cases hok
  · refine ⟨by simp [hok], fun payload' => ⟨fun hok' => ?_, hbuilt payload'⟩⟩
    rw [hok] at hok'
    cases hok'
    exact hbuild

/-- Forty bytes whose length wraps around. -/
def wrappedEnvelope : Bytes :=
  encU32 magic ++ encU32 32 ++ encU32 0xFFFFFFF8 ++ List.replicate 28 0

theorem parseEnvelope_inexact : parseEnvelope 32 wrappedEnvelope = none ∧
    ¬EnvelopeExact 32 wrappedEnvelope := by
  have hnone : parseEnvelope 32 wrappedEnvelope = none :=
    parseEnvelope_wrapped ⟨rfl, by decide, by decide⟩
  exact ⟨hnone, fun h => h.1 hnone⟩

end PersistenceStore

end GraphCache
