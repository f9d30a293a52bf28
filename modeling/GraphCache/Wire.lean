import GraphCache.LittleEndian
import GraphCache.Protocol
import Mathlib.Tactic.IntervalCases

/-!
# The wire format

`encode_message` and `decode_message` of `protocol.cpp`. A message is a header of 74 bytes, twelve
little-endian numbers and the length of the payload, and then the payload. The length is cast to 32
bits.

A message type is any byte in the program, so a `RawMessage` is a message with such a type. What is
decoded is a message with one of the types (`exists_of_decode`).
-/

open LittleEndian

namespace GraphCache

/-- A `ProtocolMessage` of the program. -/
@[ext] structure RawMessage where
  type : UInt8 := 1
  version : UInt8 := 1
  flags : UInt16 := 0
  requestId : UInt64 := 0
  epoch : CoordinatorEpoch := 0
  cacheGen : CacheGeneration := 0
  workerId : WorkerId := 0
  workerBoot : WorkerBootId := 0
  graphGen : GraphGeneration := 0
  captureAttempt : CaptureAttemptId := 0
  replayAttempt : ReplayAttemptId := 0
  status : ProtocolStatus := .ok
  payload : Bytes := []
  deriving DecidableEq, Repr

def protocolVersion : UInt8 := 1

/-- `kHeaderMin`. -/
def headerMin : ℕ := 1 + 1 + 2 + 8 * 8 + 2 + 4

def putU8 (v : UInt8) : Bytes := [v]

def putU16Le (v : UInt16) : Bytes := leBytes 2 v.toNat

def putU32Le (v : UInt32) : Bytes := leBytes 4 v.toNat

def putU64Le (v : UInt64) : Bytes := leBytes 8 v.toNat

def rdU16Le (data : Bytes) (off : ℕ) : Option UInt16 := (leAt 2 data off).map UInt16.ofNat

def rdU32Le (data : Bytes) (off : ℕ) : Option UInt32 := (leAt 4 data off).map UInt32.ofNat

def rdU64Le (data : Bytes) (off : ℕ) : Option UInt64 := (leAt 8 data off).map UInt64.ofNat

def validType (t : UInt8) : Bool := t ≥ 1 ∧ t ≤ 13

def encodeMessage (m : RawMessage) : Bytes :=
  putU8 m.type ++ putU8 m.version ++ putU16Le m.flags ++ putU64Le m.requestId ++
    putU64Le m.epoch ++ putU64Le m.cacheGen ++ putU64Le m.workerId ++ putU64Le m.workerBoot ++
    putU64Le m.graphGen ++ putU64Le m.captureAttempt ++ putU64Le m.replayAttempt ++
    putU16Le m.status.raw ++ putU32Le (UInt32.ofNat m.payload.length) ++ m.payload

/-- A number that is not there. -/
def orTruncated {α : Type} (message : String) : Option α → Result α
  | some a => .ok a
  | none => fail .protocolTruncated message

def decodeMessage (bytes : Bytes) : Result RawMessage :=
  if bytes.length < headerMin then fail .protocolTruncated "message header truncated"
  else if ¬validType (bytes.getD 0 0) then fail .protocolUnknownMessage "unknown message type"
  else if bytes.getD 1 0 ≠ protocolVersion then
    fail .protocolUnknownVersion "protocol version mismatch"
  else do
    let flags ← orTruncated "flags" (rdU16Le bytes 2)
    let requestId ← orTruncated "request_id" (rdU64Le bytes 4)
    let epoch ← orTruncated "epoch" (rdU64Le bytes 12)
    let cacheGen ← orTruncated "cache_gen" (rdU64Le bytes 20)
    let workerId ← orTruncated "worker_id" (rdU64Le bytes 28)
    let workerBoot ← orTruncated "worker_boot" (rdU64Le bytes 36)
    let graphGen ← orTruncated "graph_gen" (rdU64Le bytes 44)
    let captureAttempt ← orTruncated "capture_attempt" (rdU64Le bytes 52)
    let replayAttempt ← orTruncated "replay_attempt" (rdU64Le bytes 60)
    let status ← orTruncated "status" (rdU16Le bytes 68)
    let plen ← orTruncated "payload_len" (rdU32Le bytes 70)
    if plen.toNat > maxPayloadSize then fail .protocolOverflow "payload exceeds max frame size"
    else if 74 + plen.toNat ≠ bytes.length then
      fail .protocolTruncated "payload length mismatch"
    else return ⟨bytes.getD 0 0, bytes.getD 1 0, flags, requestId, epoch, cacheGen, workerId,
      workerBoot, graphGen, captureAttempt, replayAttempt, ⟨status⟩, bytes.drop 74⟩

/-! ## The header as a record -/

/-- The numbers of the header. -/
def RawMessage.header (m : RawMessage) : Layout :=
  [(1, m.type.toNat), (1, m.version.toNat), (2, m.flags.toNat), (8, m.requestId.toNat),
    (8, m.epoch.toNat), (8, m.cacheGen.toNat), (8, m.workerId.toNat), (8, m.workerBoot.toNat),
    (8, m.graphGen.toNat), (8, m.captureAttempt.toNat), (8, m.replayAttempt.toNat),
    (2, m.status.raw.toNat), (4, (UInt32.ofNat m.payload.length).toNat)]

def headerWidths : List ℕ := [1, 1, 2, 8, 8, 8, 8, 8, 8, 8, 8, 2, 4]

theorem encodeMessage_eq (m : RawMessage) : encodeMessage m = record m.header ++ m.payload := by
  have hbyte : ∀ v : UInt8, leBytes 1 v.toNat = [v] := fun v => by simp [leBytes]
  simp [encodeMessage, RawMessage.header, record, putU8, putU16Le, putU32Le, putU64Le, hbyte]

/-- Where a number of the header begins does not depend on the message. -/
theorem width_take_header (m : RawMessage) (i : ℕ) :
    width (m.header.take i) = (headerWidths.take i).sum := by
  rw [width, List.map_take]
  rfl

theorem length_record_header (m : RawMessage) : (record m.header).length = 74 :=
  (length_record _).trans (width_take_header m 13)

theorem length_encodeMessage (m : RawMessage) :
    (encodeMessage m).length = 74 + m.payload.length := by
  rw [encodeMessage_eq, List.length_append, length_record_header]

section

variable {b : Bytes} {off : ℕ}

theorem toNat_of_rdU16Le {v : UInt16} (h : rdU16Le b off = some v) :
    v.toNat = leNat ((b.drop off).take 2) := by
  obtain ⟨n, hn, rfl⟩ := Option.map_eq_some_iff.mp h
  obtain ⟨rfl, hlt⟩ := leAt_eq_some hn
  exact Nat.mod_eq_of_lt hlt

theorem toNat_of_rdU32Le {v : UInt32} (h : rdU32Le b off = some v) :
    v.toNat = leNat ((b.drop off).take 4) := by
  obtain ⟨n, hn, rfl⟩ := Option.map_eq_some_iff.mp h
  obtain ⟨rfl, hlt⟩ := leAt_eq_some hn
  exact Nat.mod_eq_of_lt hlt

theorem toNat_of_rdU64Le {v : UInt64} (h : rdU64Le b off = some v) :
    v.toNat = leNat ((b.drop off).take 8) := by
  obtain ⟨n, hn, rfl⟩ := Option.map_eq_some_iff.mp h
  obtain ⟨rfl, hlt⟩ := leAt_eq_some hn
  exact Nat.mod_eq_of_lt hlt

theorem toNat_getD {i : ℕ} (h : i < b.length) :
    (b.getD i 0).toNat = leNat ((b.drop i).take 1) := by
  have hget : b.getD i 0 = b[i] := by simp [h]
  rw [hget, List.drop_eq_getElem_cons h, List.take_succ_cons, List.take_zero]
  rfl

end

theorem orTruncated_bind {α β : Type} {message : String} {o : Option α} {k : α → Result β} {r : β} :
    (orTruncated message o >>= k) = .ok r ↔ ∃ v, o = some v ∧ k v = .ok r := by
  cases o with
  | none => simp [orTruncated, fail, bind, Except.bind]
  | some v => simp [orTruncated, bind, Except.bind]

/-- A message is what its bytes say. -/
theorem encodeMessage_of_decode {b : Bytes} {m : RawMessage} (h : decodeMessage b = .ok m) :
    encodeMessage m = b ∧ validType m.type ∧ m.version = protocolVersion ∧
      m.payload.length ≤ maxPayloadSize := by
  unfold decodeMessage at h
  obtain ⟨hlen, h⟩ := of_check h
  obtain ⟨htype, h⟩ := of_check h
  obtain ⟨hversion, h⟩ := of_check h
  have htype : validType (b.getD 0 0) = true := not_not.mp htype
  have hversion : b.getD 1 0 = protocolVersion := not_not.mp hversion
  simp only [orTruncated_bind] at h
  obtain ⟨flags, hflags, requestId, hrequest, epoch, hepoch, cacheGen, hcache, workerId, hworker,
    workerBoot, hboot, graphGen, hgraph, captureAttempt, hcapture, replayAttempt, hreplay, status,
    hstatus, plen, hplen, h⟩ := h
  obtain ⟨hmax, h⟩ := of_check h
  obtain ⟨hexact, h⟩ := of_check h
  obtain rfl := Except.ok.inj h
  have hlong : 74 ≤ b.length := not_lt.mp hlen
  have hexact : 74 + plen.toNat = b.length := not_not.mp hexact
  have hbody : (b.drop 74).length = plen.toNat := by
    rw [List.length_drop]
    omega
  refine ⟨?_, htype, hversion, ?_⟩
  · have hheader : RawMessage.header ⟨b.getD 0 0, b.getD 1 0, flags, requestId, epoch, cacheGen,
        workerId, workerBoot, graphGen, captureAttempt, replayAttempt, ⟨status⟩, b.drop 74⟩ =
        slices headerWidths 0 b := by
      have hlength : UInt32.ofNat (b.drop 74).length = plen := by
        rw [hbody, UInt32.ofNat_toNat]
      have hfirst : 0 < b.length ∧ 1 < b.length := by omega
      simp only [RawMessage.header, hlength, toNat_getD hfirst.1, toNat_getD hfirst.2,
        toNat_of_rdU16Le hflags, toNat_of_rdU64Le hrequest, toNat_of_rdU64Le hepoch,
        toNat_of_rdU64Le hcache, toNat_of_rdU64Le hworker, toNat_of_rdU64Le hboot,
        toNat_of_rdU64Le hgraph, toNat_of_rdU64Le hcapture, toNat_of_rdU64Le hreplay,
        toNat_of_rdU16Le hstatus, toNat_of_rdU32Le hplen]
      rfl
    rw [encodeMessage_eq, hheader, record_slices headerWidths 0 b hlong]
    exact List.take_append_drop 74 b
  · dsimp only
    omega

section

variable {m : RawMessage} {i off : ℕ}

theorem rdU16Le_header {v : UInt16} (rest : Bytes) (h : m.header[i]? = some (2, v.toNat))
    (hoff : (headerWidths.take i).sum = off) : rdU16Le (record m.header ++ rest) off = some v := by
  rw [rdU16Le, leAt_record rest h ((width_take_header m i).trans hoff), Option.map_some,
    Nat.mod_eq_of_lt (show v.toNat < 256 ^ 2 from v.toNat_lt), UInt16.ofNat_toNat]

theorem rdU32Le_header {v : UInt32} (rest : Bytes) (h : m.header[i]? = some (4, v.toNat))
    (hoff : (headerWidths.take i).sum = off) : rdU32Le (record m.header ++ rest) off = some v := by
  rw [rdU32Le, leAt_record rest h ((width_take_header m i).trans hoff), Option.map_some,
    Nat.mod_eq_of_lt (show v.toNat < 256 ^ 4 from v.toNat_lt), UInt32.ofNat_toNat]

theorem rdU64Le_header {v : UInt64} (rest : Bytes) (h : m.header[i]? = some (8, v.toNat))
    (hoff : (headerWidths.take i).sum = off) : rdU64Le (record m.header ++ rest) off = some v := by
  rw [rdU64Le, leAt_record rest h ((width_take_header m i).trans hoff), Option.map_some,
    Nat.mod_eq_of_lt (show v.toNat < 256 ^ 8 from v.toNat_lt), UInt64.ofNat_toNat]

end

/-- A message that the decoder has no reason to refuse is read back. -/
theorem decodeMessage_encode {m : RawMessage} (htype : validType m.type = true)
    (hversion : m.version = protocolVersion) (hpayload : m.payload.length ≤ maxPayloadSize) :
    decodeMessage (encodeMessage m) = .ok m := by
  have hmax : maxPayloadSize < 2 ^ 32 := by decide
  have hplen : (UInt32.ofNat m.payload.length).toNat = m.payload.length := by
    rw [UInt32.toNat_ofNat']
    exact Nat.mod_eq_of_lt (by omega)
  have hlen := length_encodeMessage m
  have hfirst : (encodeMessage m).getD 0 0 = m.type ∧ (encodeMessage m).getD 1 0 = m.version := by
    simp [encodeMessage, putU8]
  have hrest : (record m.header ++ m.payload).drop 74 = m.payload :=
    List.drop_left' (length_record_header m)
  unfold decodeMessage
  rw [if_neg (by rw [hlen, headerMin]; omega), hfirst.1, hfirst.2, if_neg (not_not.mpr htype),
    if_neg (not_not.mpr hversion), hlen, encodeMessage_eq]
  simp only [orTruncated_bind]
  refine ⟨m.flags, rdU16Le_header (i := 2) _ rfl rfl, m.requestId,
    rdU64Le_header (i := 3) _ rfl rfl, m.epoch, rdU64Le_header (i := 4) _ rfl rfl, m.cacheGen,
    rdU64Le_header (i := 5) _ rfl rfl, m.workerId, rdU64Le_header (i := 6) _ rfl rfl, m.workerBoot,
    rdU64Le_header (i := 7) _ rfl rfl, m.graphGen, rdU64Le_header (i := 8) _ rfl rfl,
    m.captureAttempt, rdU64Le_header (i := 9) _ rfl rfl, m.replayAttempt,
    rdU64Le_header (i := 10) _ rfl rfl, m.status.raw, rdU16Le_header (i := 11) _ rfl rfl,
    UInt32.ofNat m.payload.length, rdU32Le_header (i := 12) _ rfl rfl, ?_⟩
  rw [if_neg (by omega), if_neg (by omega), hrest]
  rfl

theorem validType_iff {t : UInt8} : validType t = true ↔ 1 ≤ t ∧ t ≤ 13 := by
  simp [validType]

/-- The codec is a bijection between the messages that the protocol allows and the bytes that are
decoded. -/
theorem messageCodec_bijective :
    (∀ m : RawMessage, decodeMessage (encodeMessage m) = .ok m ↔
      (1 ≤ m.type ∧ m.type ≤ 13) ∧ m.version = protocolVersion ∧
        m.payload.length ≤ maxPayloadSize) ∧
    ∀ (b : Bytes) (m : RawMessage), decodeMessage b = .ok m → encodeMessage m = b := by
  refine ⟨fun m => ⟨fun h => ?_, fun ⟨htype, hversion, hpayload⟩ => ?_⟩,
    fun b m h => (encodeMessage_of_decode h).1⟩
  · obtain ⟨-, htype, hversion, hpayload⟩ := encodeMessage_of_decode h
    exact ⟨validType_iff.mp htype, hversion, hpayload⟩
  · exact decodeMessage_encode (validType_iff.mpr htype) hversion hpayload

/-- A header without its last byte. -/
example : decodeMessage ((encodeMessage {}).take 73) =
    fail .protocolTruncated "message header truncated" := by rfl

/-! ## Messages of a known type -/

/-- The byte of a type. -/
def ProtocolMessageType.code : ProtocolMessageType → UInt8
  | .hello => 1
  | .welcome => 2
  | .register => 3
  | .registerAck => 4
  | .lookup => 5
  | .lookupResult => 6
  | .captureInstruct => 7
  | .captureResult => 8
  | .replayInstruct => 9
  | .replayResult => 10
  | .invalidate => 11
  | .invalidateAck => 12
  | .shutdown => 13

theorem ProtocolMessageType.exists_of_valid {t : UInt8} (h : validType t = true) :
    ∃ type : ProtocolMessageType, type.code = t := by
  obtain ⟨hlow, hhigh⟩ := validType_iff.mp h
  have hlow : 1 ≤ t.toNat := UInt8.le_iff_toNat_le.mp hlow
  have hhigh : t.toNat ≤ 13 := UInt8.le_iff_toNat_le.mp hhigh
  rw [← UInt8.ofNat_toNat (x := t)]
  generalize t.toNat = n at hlow hhigh
  interval_cases n
  exacts [⟨.hello, rfl⟩, ⟨.welcome, rfl⟩, ⟨.register, rfl⟩, ⟨.registerAck, rfl⟩, ⟨.lookup, rfl⟩,
    ⟨.lookupResult, rfl⟩, ⟨.captureInstruct, rfl⟩, ⟨.captureResult, rfl⟩, ⟨.replayInstruct, rfl⟩,
    ⟨.replayResult, rfl⟩, ⟨.invalidate, rfl⟩, ⟨.invalidateAck, rfl⟩, ⟨.shutdown, rfl⟩]

/-- The message on the wire. -/
def ProtocolMessage.raw (m : ProtocolMessage) : RawMessage where
  type := m.type.code
  version := m.version
  flags := m.flags
  requestId := m.requestId
  epoch := m.epoch
  cacheGen := m.cacheGen
  workerId := m.workerId
  workerBoot := m.workerBoot
  graphGen := m.graphGen
  captureAttempt := m.captureAttempt
  replayAttempt := m.replayAttempt
  status := m.status
  payload := m.payload

/-- What is decoded is a message of a known type. -/
theorem exists_of_decode {b : Bytes} {m : RawMessage} (h : decodeMessage b = .ok m) :
    ∃ p : ProtocolMessage, p.raw = m ∧ p.version = protocolVersion ∧
      p.payload.length ≤ maxPayloadSize := by
  obtain ⟨-, htype, hversion, hpayload⟩ := encodeMessage_of_decode h
  obtain ⟨type, htype⟩ := ProtocolMessageType.exists_of_valid htype
  refine ⟨{ m with type }, ?_, hversion, hpayload⟩
  ext1 <;> first | exact htype | rfl

end GraphCache
