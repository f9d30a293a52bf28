import GraphCache.Wire

/-!
# Frames

`send_frame` and `recv_frame` of `protocol.cpp`. A frame is the length of an encoded message, four
bytes, and then the message. A socket delivers bytes in portions of its own, so what is to be
received is a list of portions, and `tcp_read_exact` goes over them until it has enough or the peer
has closed.

The sender bounds the encoded message by `MaxFrameSize`, the receiver bounds the payload by
`MaxPayloadSize`, which leaves 96 bytes for a header of 74. The messages between the two bounds are
sent and then refused (`sendFrame_delivered_iff`).
-/

open LittleEndian

namespace GraphCache

/-! ## The source -/

/-- `tcp_read_exact`, with what is left to be received. -/
def tcpReadExact : ℕ → List Bytes → Result Bytes × List Bytes
  | 0, segs => (.ok [], segs)
  | _ + 1, [] => (fail .protocolTruncated "peer closed", [])
  | n + 1, seg :: segs =>
    if n + 1 < seg.length then (.ok (seg.take (n + 1)), seg.drop (n + 1) :: segs)
    else
      let (r, segs) := tcpReadExact (n + 1 - seg.length) segs
      (r.map (seg ++ ·), segs)

/-- The prefix of a frame and its body. -/
def frameOf (body : Bytes) : Bytes := putU32Le (UInt32.ofNat body.length) ++ body

/-- The bytes that `send_frame` writes. -/
def sendFrame (m : RawMessage) : Result Bytes :=
  let body := encodeMessage m
  if body.length > maxFrameSize then fail .protocolOverflow "frame exceeds max size"
  else .ok (frameOf body)

/-- `recv_frame` up to the decoding. -/
def recvBody (segs : List Bytes) : Result Bytes × List Bytes :=
  match tcpReadExact 4 segs with
  | (.error e, segs) => (.error e, segs)
  | (.ok lenbuf, segs) =>
    let len := UInt32.ofNat (leNat lenbuf)
    if len = 0 then (fail .protocolZeroLength "zero-length frame", segs)
    else if len.toNat > maxFrameSize then (fail .protocolOverflow "frame exceeds max size", segs)
    else
      match tcpReadExact len.toNat segs with
      | (.error _, segs) => (fail .protocolTruncated "frame truncated", segs)
      | (.ok body, segs) => (.ok body, segs)

def recvFrame (segs : List Bytes) : Result RawMessage × List Bytes :=
  let (r, segs) := recvBody segs
  (r.bind decodeMessage, segs)

/-! ## Reading a frame -/

/-- Where enough is to come, the reader takes it off the front. -/
theorem tcpReadExact_ok : ∀ {n : ℕ} {segs : List Bytes}, n ≤ segs.flatten.length →
    ∃ rest, tcpReadExact n segs = (.ok (segs.flatten.take n), rest) ∧
      rest.flatten = segs.flatten.drop n
  | 0, segs, _ => ⟨segs, by simp [tcpReadExact], by simp⟩
  | n + 1, [], h => by simp at h
  | n + 1, seg :: segs, h => by
    rw [List.flatten_cons, List.length_append] at h
    rw [tcpReadExact, List.flatten_cons]
    split_ifs with hlong
    · refine ⟨seg.drop (n + 1) :: segs, ?_, ?_⟩
      · rw [List.take_append_of_le_length (by omega)]
      · rw [List.flatten_cons, List.drop_append_of_le_length (by omega)]
    · obtain ⟨rest, hread, hrest⟩ :=
        tcpReadExact_ok (show n + 1 - seg.length ≤ segs.flatten.length by omega)
      refine ⟨rest, ?_, ?_⟩
      · rw [hread, List.take_append, List.take_of_length_le (l := seg) (by omega)]
        rfl
      · rw [hrest, List.drop_append, List.drop_of_length_le (l := seg) (by omega),
          List.nil_append]

/-- Where the peer closes too early, the reader fails. -/
theorem tcpReadExact_closed : ∀ {n : ℕ} {segs : List Bytes}, segs.flatten.length < n →
    tcpReadExact n segs = (fail .protocolTruncated "peer closed", [])
  | n + 1, [], _ => rfl
  | n + 1, seg :: segs, h => by
    rw [List.flatten_cons, List.length_append] at h
    rw [tcpReadExact, if_neg (by omega), tcpReadExact_closed (by omega)]
    rfl

@[simp] theorem length_putU32Le (v : UInt32) : (putU32Le v).length = 4 := length_leBytes 4 _

theorem ofNat_leNat_putU32Le (v : UInt32) : UInt32.ofNat (leNat (putU32Le v)) = v := by
  rw [putU32Le, leNat_leBytes, Nat.mod_eq_of_lt (show v.toNat < 256 ^ 4 from v.toNat_lt),
    UInt32.ofNat_toNat]

/-- A length that fits in the prefix. -/
theorem toNat_length {body : Bytes} (h : body.length ≤ maxFrameSize) :
    (UInt32.ofNat body.length).toNat = body.length := by
  have hmax : maxFrameSize < 2 ^ 32 := by decide
  rw [UInt32.toNat_ofNat']
  exact Nat.mod_eq_of_lt (by omega)

theorem ofNat_length_ne_zero {body : Bytes} (hpos : 1 ≤ body.length)
    (hmax : body.length ≤ maxFrameSize) : UInt32.ofNat body.length ≠ 0 := by
  intro hzero
  have hlen := toNat_length hmax
  rw [hzero, UInt32.toNat_zero] at hlen
  omega

/-- A frame at the head of the stream is read in whatever portions it comes. -/
theorem recvBody_frameOf {body more : Bytes} (hpos : 1 ≤ body.length)
    (hmax : body.length ≤ maxFrameSize) {segs : List Bytes}
    (hsegs : segs.flatten = frameOf body ++ more) :
    ∃ rest, recvBody segs = (.ok body, rest) ∧ rest.flatten = more := by
  have hlen := toNat_length hmax
  have hsegs : segs.flatten = putU32Le (UInt32.ofNat body.length) ++ (body ++ more) := by
    rw [hsegs, frameOf, List.append_assoc]
  obtain ⟨rest, hread, hrest⟩ := tcpReadExact_ok (show 4 ≤ segs.flatten.length by simp [hsegs])
  rw [hsegs, List.take_left' (length_putU32Le _)] at hread
  rw [hsegs, List.drop_left' (length_putU32Le _)] at hrest
  obtain ⟨rest', hread', hrest'⟩ := tcpReadExact_ok
    (show body.length ≤ rest.flatten.length by simp [hrest])
  rw [hrest, List.take_left] at hread'
  rw [hrest, List.drop_left] at hrest'
  refine ⟨rest', ?_, hrest'⟩
  simp only [recvBody, hread, ofNat_leNat_putU32Le, hlen, hread']
  rw [if_neg (ofNat_length_ne_zero hpos hmax), if_neg (by omega)]

/-! ## What is sent is received -/

/-- What `send_frame` writes is received as the message, unless the sender refuses it. -/
def Delivered (m : RawMessage) : Prop :=
  ∀ frame, sendFrame m = .ok frame →
    ∀ segs : List Bytes, segs.flatten = frame → (recvFrame segs).1 = .ok m

theorem sendFrame_of_le {m : RawMessage} (h : 74 + m.payload.length ≤ maxFrameSize) :
    sendFrame m = .ok (frameOf (encodeMessage m)) := by
  unfold sendFrame
  dsimp only
  rw [length_encodeMessage, if_neg (by omega)]

theorem sendFrame_of_lt {m : RawMessage} (h : maxFrameSize < 74 + m.payload.length) :
    sendFrame m = fail .protocolOverflow "frame exceeds max size" := by
  unfold sendFrame
  dsimp only
  rw [length_encodeMessage, if_pos (by omega)]

/-- A message that is sent arrives as its encoding. -/
theorem recvFrame_frameOf {m : RawMessage} (h : 74 + m.payload.length ≤ maxFrameSize)
    {segs : List Bytes} (hsegs : segs.flatten = frameOf (encodeMessage m)) :
    (recvFrame segs).1 = decodeMessage (encodeMessage m) := by
  have hlen := length_encodeMessage m
  have hsegs : segs.flatten = frameOf (encodeMessage m) ++ [] := by rw [hsegs, List.append_nil]
  obtain ⟨rest, hbody, -⟩ := recvBody_frameOf (by omega) (by omega) hsegs
  simp only [recvFrame, hbody, Except.bind]

/-- Between the two bounds a message is sent and refused. -/
theorem not_delivered {m : RawMessage} (hlow : maxPayloadSize < m.payload.length)
    (hhigh : 74 + m.payload.length ≤ maxFrameSize) : ¬Delivered m := by
  intro h
  have hreceived := h _ (sendFrame_of_le hhigh) [frameOf (encodeMessage m)] List.flatten_singleton
  rw [recvFrame_frameOf hhigh List.flatten_singleton] at hreceived
  have hpayload := (encodeMessage_of_decode hreceived).2.2.2
  omega

/-- A message is delivered exactly when the receiver accepts its payload or the sender refuses to
send it. -/
theorem sendFrame_delivered_iff {m : RawMessage} (htype : validType m.type = true)
    (hversion : m.version = protocolVersion) :
    Delivered m ↔ m.payload.length ≤ maxPayloadSize ∨ maxFrameSize < 74 + m.payload.length := by
  constructor
  · intro h
    by_contra hbetween
    obtain ⟨hlow, hhigh⟩ := not_or.mp hbetween
    exact not_delivered (by omega) (by omega) h
  · rintro (hpayload | hlong) frame hsent segs hsegs
    · have hsize : 74 + maxPayloadSize ≤ maxFrameSize := by decide
      have hfits : 74 + m.payload.length ≤ maxFrameSize := by omega
      obtain rfl := Except.ok.inj ((sendFrame_of_le hfits).symm.trans hsent)
      rw [recvFrame_frameOf hfits hsegs]
      exact decodeMessage_encode htype hversion hpayload
    · rw [sendFrame_of_lt hlong] at hsent
      exact absurd hsent (fail_ne_ok _ _ _)

/-- A result of worker 7 for capture attempt 2. -/
def capturedMessage : RawMessage where
  type := 8
  requestId := 9
  epoch := 1
  cacheGen := 3
  workerId := 7
  workerBoot := 5
  graphGen := 3
  captureAttempt := 2
  status := .captureFailed
  payload := [0x6E, 0x6F]

theorem sendFrame_delivered_captured : Delivered capturedMessage :=
  (sendFrame_delivered_iff (m := capturedMessage) rfl rfl).mpr (.inl (by decide))

/-- A payload of one byte more than the receiver accepts. -/
def longMessage : RawMessage where
  payload := List.replicate (maxPayloadSize + 1) 0

theorem sendFrame_undelivered : validType longMessage.type = true ∧
    longMessage.version = protocolVersion ∧ ¬Delivered longMessage := by
  have hlen : longMessage.payload.length = maxPayloadSize + 1 := List.length_replicate
  have hsize : 74 + (maxPayloadSize + 1) ≤ maxFrameSize := by decide
  exact ⟨rfl, rfl, not_delivered (by omega) (by omega)⟩

end GraphCache
