import GraphCache.Serialization
import Mathlib.Data.List.TakeWhile

/-!
# Protocol messages

The messages of `protocol.hpp`, and what the payloads of the control plane hold. A lookup and the
capture instruction made from it carry a descriptor and a workload (`readCapture`); a capture
result and a replay start with the text of an artifact id (`decodeArtifact`).

The coordinator turns that text into an id with `sscanf` and back with `to_string`. `scanArtifact`
follows the C standard on `"%16llx:%16llx"` : blanks, a sign and `0x` may stand before the digits,
and what does not match leaves zeros. `scanArtifact_toStr` : the text of an id is read as that id.
-/

open BigEndian

namespace GraphCache

inductive ProtocolMessageType
  | hello
  | welcome
  | register
  | registerAck
  | lookup
  | lookupResult
  | captureInstruct
  | captureResult
  | replayInstruct
  | replayResult
  | invalidate
  | invalidateAck
  | shutdown
  deriving DecidableEq, Repr

/-- The decoder casts any 16-bit word to a status. -/
@[ext] structure ProtocolStatus where
  raw : UInt16
  deriving DecidableEq, Repr

namespace ProtocolStatus

def ok : ProtocolStatus := ⟨0⟩

def staleEpoch : ProtocolStatus := ⟨1⟩

def staleWorkerBoot : ProtocolStatus := ⟨2⟩

def staleCacheGeneration : ProtocolStatus := ⟨3⟩

def staleGraphGeneration : ProtocolStatus := ⟨4⟩

def duplicateCaptureCompletion : ProtocolStatus := ⟨7⟩

def invalidRequest : ProtocolStatus := ⟨10⟩

def workerUnavailable : ProtocolStatus := ⟨11⟩

def captureFailed : ProtocolStatus := ⟨13⟩

def replayFailed : ProtocolStatus := ⟨14⟩

def malformed : ProtocolStatus := ⟨17⟩

end ProtocolStatus

/-- `MaxFrameSize`, the longest frame that is read. -/
def maxFrameSize : ℕ := 8 * 1024 * 1024

/-- `MaxPayloadSize`; `decode_message` refuses a longer payload. -/
def maxPayloadSize : ℕ := maxFrameSize - 96

abbrev CoordinatorEpoch := UInt64

abbrev WorkerId := UInt64

abbrev WorkerBootId := UInt64

abbrev ReplayAttemptId := UInt64

structure ProtocolMessage where
  type : ProtocolMessageType := .hello
  version : UInt8 := 1
  flags : UInt16 := 0
  requestId : UInt64 := 0
  epoch : CoordinatorEpoch := 0
  cacheGen : CacheGeneration := 0
  workerId : WorkerId := 0
  workerBoot : WorkerBootId := 0
  graphGen : GraphGeneration := 0
  captureAttempt : CaptureAttemptId := 0
  replayAttempt : ReplayAttemptId := 0
  status : ProtocolStatus := .ok
  payload : Bytes := []
  deriving DecidableEq, Repr

/-! ## Payloads -/

/-- The payload of a lookup and of a capture instruction. -/
def encodeCapture (g : GraphDescriptor) (wl : WorkloadIdentity) : Bytes :=
  CanonicalWriter.take [putBytes 1 (serializeDescriptor g), putStr 2 wl.logicalName,
    putU32 3 wl.logicalVersion, putStr 4 wl.namespaceName, putStr 5 wl.modelOperatorRevision]

/-- The reader of that payload. A field that is missing or does not decode is one error, a
descriptor that does not decode another. -/
def captureReader {ε : Type} (invalid malformed : ε) :
    StateT Bytes (Except ε) (GraphDescriptor × WorkloadIdentity) := do
  let g ← nextField 1 (fun p => (deserializeDescriptor p).toOption) invalid malformed
  let logicalName ← nextField 2 decodeStr invalid invalid
  let logicalVersion ← nextField 3 decodeU32 invalid invalid
  let namespaceName ← nextField 4 decodeStr invalid invalid
  let modelOperatorRevision ← nextField 5 decodeStr invalid invalid
  return (g, { logicalName, logicalVersion, namespaceName, modelOperatorRevision })

/-- What follows the last field is not read. -/
def readCapture {ε : Type} (invalid malformed : ε) (payload : Bytes) :
    Except ε (GraphDescriptor × WorkloadIdentity) :=
  match captureReader invalid malformed payload with
  | .ok (gw, _) => .ok gw
  | .error e => .error e

/-- The text of an artifact id at the head of a payload. -/
def decodeArtifact (payload : Bytes) : Option Str :=
  match nextField 1 decodeStr () () payload with
  | .ok (artifactHex, _) => some artifactHex
  | .error _ => none

/-- A reader that fails with one of the errors `E` only. -/
def FailsWith {ε α : Type} (E : ε → Prop) (x : StateT Bytes (Except ε) α) : Prop :=
  ∀ bytes e, x bytes = .error e → E e

theorem FailsWith.bind {ε α β : Type} {E : ε → Prop} {x : StateT Bytes (Except ε) α}
    {k : α → StateT Bytes (Except ε) β} (hx : FailsWith E x) (hk : ∀ a, FailsWith E (k a)) :
    FailsWith E (x >>= k) := by
  intro bytes e h
  simp only [Bind.bind, StateT.bind, Except.bind] at h
  split at h
  · exact hx bytes e (by simp_all)
  · exact hk _ _ e h

theorem FailsWith.pure {ε α : Type} {E : ε → Prop} (a : α) :
    FailsWith E (Pure.pure a : StateT Bytes (Except ε) α) :=
  fun _ _ h => nomatch h

theorem failsWith_nextField {ε α : Type} {E : ε → Prop} {tag : UInt16}
    {decode : Bytes → Option α} {missing malformed : ε} (hm : E missing) (hd : E malformed) :
    FailsWith E (nextField tag decode missing malformed) := by
  intro bytes e h
  unfold nextField at h
  split at h
  · split_ifs at h
    · split at h
      · cases h
      · exact Except.error.inj h ▸ hd
    · exact Except.error.inj h ▸ hm
  · exact Except.error.inj h ▸ hm

/-- The reader has two errors only. -/
theorem readCapture_error {ε : Type} {invalid malformed e : ε} {payload : Bytes}
    (h : readCapture invalid malformed payload = .error e) : e = invalid ∨ e = malformed := by
  have hread : FailsWith (fun e => e = invalid ∨ e = malformed) (captureReader invalid malformed) :=
    (failsWith_nextField (.inl rfl) (.inr rfl)).bind fun _ =>
      (failsWith_nextField (.inl rfl) (.inl rfl)).bind fun _ =>
        (failsWith_nextField (.inl rfl) (.inl rfl)).bind fun _ =>
          (failsWith_nextField (.inl rfl) (.inl rfl)).bind fun _ =>
            (failsWith_nextField (.inl rfl) (.inl rfl)).bind fun _ => .pure _
  refine hread payload e ?_
  unfold readCapture at h
  split at h
  · cases h
  · rename_i heq
    rw [heq, Except.error.inj h]

/-! ## The text of an artifact id -/

/-- The value of a hexadecimal digit, in either case. -/
def hexValue (c : UInt8) : Option ℕ :=
  if 48 ≤ c ∧ c ≤ 57 then some (c.toNat - 48)
  else if 97 ≤ c ∧ c ≤ 102 then some (c.toNat - 87)
  else if 65 ≤ c ∧ c ≤ 70 then some (c.toNat - 55)
  else none

/-- The number that hexadecimal digits spell. -/
def hexNat (ds : Str) : ℕ :=
  ds.foldl (fun v d => v * 16 + (hexValue d).getD 0) 0

/-- `isspace`. -/
def isSpace (c : UInt8) : Bool :=
  c = 32 ∨ 9 ≤ c ∧ c ≤ 13

/-- The digits of a field of at most `width` characters, and what follows them. -/
def scanDigits (width : ℕ) (s : Str) : Option (ℕ × Str) :=
  let ds := (s.take width).takeWhile fun c => (hexValue c).isSome
  if ds = [] then none else some (hexNat ds, s.drop ds.length)

/-- The digits after an optional `0x`. -/
def scanUnsigned (width : ℕ) (s : Str) : Option (ℕ × Str) :=
  match s with
  | 48 :: x :: s' =>
    if (x = 120 ∨ x = 88) ∧ 2 ≤ width then scanDigits (width - 2) s' else scanDigits width s
  | _ => scanDigits width s

/-- `%16llx` : blanks, then an optional sign, which counts towards the width. -/
def scanHex (s : Str) : Option (UInt64 × Str) :=
  match s.dropWhile isSpace with
  | 45 :: s' => (scanUnsigned 15 s').map fun (v, rest) => (-UInt64.ofNat v, rest)
  | 43 :: s' => (scanUnsigned 15 s').map fun (v, rest) => (UInt64.ofNat v, rest)
  | s' => (scanUnsigned 16 s').map fun (v, rest) => (UInt64.ofNat v, rest)

/-- `sscanf(artifact_hex.c_str(), "%16llx:%16llx", &hi, &lo)` with `hi` and `lo` zero before. -/
def scanArtifact (artifactHex : Str) : GraphArtifactId :=
  match scanHex (artifactHex.takeWhile (· ≠ 0)) with
  | none => {}
  | some (hi, 58 :: rest) => ⟨hi, ((scanHex rest).map Prod.fst).getD 0⟩
  | some (hi, _) => ⟨hi, 0⟩

/-! ## Reading the text of an id back -/

theorem hexValue_digit {n : ℕ} (h : n < 16) : hexValue (Sha256.digit n) = some n := by
  have hall : ∀ n ∈ List.range 16, hexValue (Sha256.digit n) = some n := by decide
  exact hall n (List.mem_range.mpr h)

/-- A digest is written in hexadecimal digits. -/
theorem isSome_hexValue_of_mem_hex {d : Digest} {c : UInt8} (h : c ∈ Sha256.hex d) :
    (hexValue c).isSome := by
  obtain ⟨b, -, hc⟩ := List.mem_flatMap.mp h
  have hb := b.toNat_lt
  simp only [List.mem_cons, List.not_mem_nil, or_false] at hc
  rcases hc with rfl | rfl <;> rw [hexValue_digit (by omega)] <;> rfl

theorem length_hex (d : Digest) : (Sha256.hex d).length = 2 * d.length := by
  induction d with
  | nil => rfl
  | cons b d ih =>
    have hcons : Sha256.hex (b :: d) =
        Sha256.digit (b.toNat / 16) :: Sha256.digit (b.toNat % 16) :: Sha256.hex d := rfl
    simp only [hcons, List.length_cons, ih]
    ring

theorem foldl_hexNat (v : ℕ) (d : Digest) :
    (Sha256.hex d).foldl (fun v c => v * 16 + (hexValue c).getD 0) v =
      d.foldl (fun v b => v * 256 + b.toNat) v := by
  induction d generalizing v with
  | nil => rfl
  | cons b d ih =>
    have hcons : Sha256.hex (b :: d) =
        Sha256.digit (b.toNat / 16) :: Sha256.digit (b.toNat % 16) :: Sha256.hex d := rfl
    have hb := b.toNat_lt
    rw [hcons, List.foldl_cons, List.foldl_cons, hexValue_digit (n := b.toNat / 16) (by omega),
      hexValue_digit (n := b.toNat % 16) (by omega), List.foldl_cons, ← ih]
    congr 1
    simp only [Option.getD_some]
    omega

theorem hexNat_hex (d : Digest) : hexNat (Sha256.hex d) = beNat d :=
  foldl_hexNat 0 d

/-- A digit is no blank, sign, `x` or terminator. -/
theorem digit_plain {c : UInt8} (h : (hexValue c).isSome) :
    isSpace c = false ∧ c ≠ 45 ∧ c ≠ 43 ∧ c ≠ 120 ∧ c ≠ 88 ∧ c ≠ 0 := by
  refine ⟨?_, ?_, ?_, ?_, ?_, ?_⟩
  · by_contra hs
    simp only [isSpace, Bool.not_eq_false, decide_eq_true_eq] at hs
    simp only [hexValue] at h
    simp only [UInt8.le_iff_toNat_le, ← UInt8.toNat_inj] at h hs
    grind
  all_goals
    rintro rfl
    exact absurd h (by decide)

theorem scanDigits_append {ds : Str} (hdigit : ∀ c ∈ ds, (hexValue c).isSome) (hne : ds ≠ [])
    (rest : Str) : scanDigits ds.length (ds ++ rest) = some (hexNat ds, rest) := by
  have hwhile : ds.takeWhile (fun c => (hexValue c).isSome) = ds :=
    List.takeWhile_eq_self_iff.mpr hdigit
  simp [scanDigits, hwhile, hne]

/-- Digits are read as they stand : nothing at their head is skipped. -/
theorem scanHex_append {c c' : UInt8} {tl : Str}
    (hdigit : ∀ d ∈ c :: c' :: tl, (hexValue d).isSome) (hlen : (c :: c' :: tl).length = 16)
    (rest : Str) :
    scanHex (c :: c' :: tl ++ rest) = some (UInt64.ofNat (hexNat (c :: c' :: tl)), rest) := by
  obtain ⟨hspace, hminus, hplus, -⟩ := digit_plain (hdigit c (by simp))
  obtain ⟨-, -, -, hx, hX, -⟩ := digit_plain (hdigit c' (by simp))
  have hscan := scanDigits_append hdigit (by simp) rest
  rw [hlen, List.cons_append, List.cons_append] at hscan
  have hunsigned : scanUnsigned 16 (c :: c' :: (tl ++ rest)) =
      some (hexNat (c :: c' :: tl), rest) := by
    unfold scanUnsigned
    split
    · rename_i heq
      obtain ⟨rfl, rfl, rfl⟩ : c = 48 ∧ c' = _ ∧ tl ++ rest = _ := by simpa using heq
      rw [if_neg (by simp [hx, hX]), hscan]
    · exact hscan
  rw [List.cons_append, List.cons_append, scanHex, List.dropWhile_cons_of_neg (by simp [hspace])]
  split
  · rename_i heq
    exact absurd (List.cons.inj heq).1 hminus
  · rename_i heq
    exact absurd (List.cons.inj heq).1 hplus
  · rw [hunsigned]
    rfl

/-- The sixteen digits of a word are one `%16llx`. -/
theorem scanHex_hex (v : UInt64) (rest : Str) :
    scanHex (Sha256.hex (encU64 v) ++ rest) = some (v, rest) := by
  have hlen : (Sha256.hex (encU64 v)).length = 16 := by simp [length_hex]
  have hdigit : ∀ c ∈ Sha256.hex (encU64 v), (hexValue c).isSome :=
    fun c => isSome_hexValue_of_mem_hex
  have hnat : UInt64.ofNat (hexNat (Sha256.hex (encU64 v))) = v := by
    rw [hexNat_hex, encU64, beNat_beBytes_of_lt (by simpa using v.toNat_lt)]
    exact UInt64.ofNat_toNat
  generalize Sha256.hex (encU64 v) = ds at hlen hdigit hnat ⊢
  rcases ds with _ | ⟨c, _ | ⟨c', tl⟩⟩
  · simp at hlen
  · simp at hlen
  · rw [scanHex_append hdigit hlen, hnat]

/-- The text of an id is read as that id. -/
theorem scanArtifact_toStr (i : GraphArtifactId) : scanArtifact i.toStr = i := by
  have hcolon : str ":" = [58] := by decide
  have hnul : i.toStr.takeWhile (· ≠ 0) = i.toStr := by
    refine List.takeWhile_eq_self_iff.mpr fun c hc => ?_
    simp only [Id128.toStr, List.mem_append] at hc
    rcases hc with (hc | hc) | hc
    · simpa using (digit_plain (isSome_hexValue_of_mem_hex hc)).2.2.2.2.2
    · obtain rfl : c = 58 := by simpa [hcolon] using hc
      decide
    · simpa using (digit_plain (isSome_hexValue_of_mem_hex hc)).2.2.2.2.2
  have hlo : scanHex (Sha256.hex (encU64 i.lo)) = some (i.lo, []) := by
    simpa using scanHex_hex i.lo []
  rw [scanArtifact, hnul, Id128.toStr, List.append_assoc, scanHex_hex]
  simp [hcolon, hlo]

end GraphCache
