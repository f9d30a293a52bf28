import GraphCache.Chunks
import GraphCache.Frames

/-!
# Reassembly of the stream

The coordinator reads a connection in chunks of whatever size `recv` returns. It appends a chunk to
the buffer of the connection and extracts the frames that are complete; what `decode_message` makes
of a body does not change the buffer. A length of zero is skipped, and the connection is closed at a
length above `MaxFrameSize`.

The loop ends after every chunk, and the bodies and the final state of the connection depend on the
bytes of the stream only. On a stream of frames they are the bodies that `recv_frame` reads
(`receiveAll_chunks`).
-/

open LittleEndian Chunks

namespace GraphCache

/-! ## The source -/

/-- `while (progress && c.buf.size() >= 4)`, for as many turns as there is fuel : the bodies that are
decoded, and the connection with what remains of its buffer, or marked for closing. -/
def extractFrames : ℕ → Bytes → Option (List Bytes × Rest UInt8)
  | 0, _ => none
  | fuel + 1, buf =>
    if buf.length < 4 then some ([], .waiting buf)
    else
      let len := UInt32.ofNat (leNat (buf.take 4))
      if len = 0 then extractFrames fuel (buf.drop 4)
      else if len.toNat > maxFrameSize then some ([], .stopped)
      else if buf.length < 4 + len.toNat then some ([], .waiting buf)
      else
        let body := (buf.drop 4).take len.toNat
        (extractFrames fuel (buf.drop (4 + len.toNat))).map fun (bodies, c) => (body :: bodies, c)

/-- One chunk of a connection, after the bodies that it has brought before. From a connection that
is closed nothing is read. -/
def receive : List Bytes × Rest UInt8 → Bytes → Option (List Bytes × Rest UInt8)
  | (bodies, .waiting buf), chunk =>
    (extractFrames ((buf ++ chunk).length + 1) (buf ++ chunk)).map fun (new, c) => (bodies ++ new, c)
  | (bodies, .stopped), _ => some (bodies, .stopped)

def receiveAll (chunks : List Bytes) : Option (List Bytes × Rest UInt8) :=
  chunks.foldlM receive ([], .waiting [])

/-- `recv_frame`, again and again : the bodies of `n` calls, none of which failed to read one. -/
def recvBodies : ℕ → List Bytes → Result (List Bytes) × List Bytes
  | 0, segs => (.ok [], segs)
  | n + 1, segs =>
    match recvBody segs with
    | (.error e, segs) => (.error e, segs)
    | (.ok body, segs) =>
      let (r, segs) := recvBodies n segs
      (r.map (body :: ·), segs)

/-! ## The loop as a receiver -/

/-- What one turn of the loop finds. -/
def extractTurn (buf : Bytes) : Look Bytes :=
  if buf.length < 4 then .wait
  else
    let len := UInt32.ofNat (leNat (buf.take 4))
    if len = 0 then .take 4 none
    else if len.toNat > maxFrameSize then .stop
    else if buf.length < 4 + len.toNat then .wait
    else .take (4 + len.toNat) (some ((buf.drop 4).take len.toNat))

theorem extractTurn_take {buf : Bytes} {n : ℕ} {item : Option Bytes}
    (h : extractTurn buf = .take n item) : 4 ≤ n ∧ n ≤ buf.length := by
  unfold extractTurn at h
  dsimp only at h
  split_ifs at h with hshort hzero hmax hpartial
  · obtain ⟨rfl, -⟩ := Look.take.inj h
    omega
  · obtain ⟨rfl, -⟩ := Look.take.inj h
    omega

theorem extractTurn_append {buf : Bytes} (h : extractTurn buf ≠ .wait) (s : Bytes) :
    extractTurn (buf ++ s) = extractTurn buf := by
  unfold extractTurn at h ⊢
  dsimp only at h ⊢
  have hshort : ¬buf.length < 4 := by
    intro hshort
    simp [hshort] at h
  have htake : (buf ++ s).take 4 = buf.take 4 := List.take_append_of_le_length (by omega)
  have hdrop : (buf ++ s).drop 4 = buf.drop 4 ++ s := List.drop_append_of_le_length (by omega)
  rw [if_neg hshort] at h ⊢
  rw [if_neg (by rw [List.length_append]; omega), htake, hdrop]
  split_ifs at h with hzero hmax hpartial
  · rw [if_pos hzero, if_pos hzero]
  · rw [if_neg hzero, if_pos hmax, if_neg hzero, if_pos hmax]
  · exact absurd rfl h
  · rw [if_neg hzero, if_neg hmax, if_neg hzero, if_neg hmax, if_neg hpartial,
      if_neg (by rw [List.length_append]; omega),
      List.take_append_of_le_length (by rw [List.length_drop]; omega)]

/-- The coordinator's loop decides by the head of the buffer. -/
def frameReceiver : Receiver UInt8 Bytes where
  look := extractTurn
  take_pos := fun h => by
    obtain ⟨hpos, hle⟩ := extractTurn_take h
    exact ⟨by omega, hle⟩
  look_append := extractTurn_append

/-- The loop ends. Every turn but the last takes at least four bytes off the buffer. -/
theorem extractFrames_eq : ∀ {fuel : ℕ} {buf : Bytes}, buf.length < fuel →
    extractFrames fuel buf = some (frameReceiver.drain buf)
  | 0, _, h => absurd h (Nat.not_lt_zero _)
  | fuel + 1, buf, h => by
    have hturn : frameReceiver.look buf = extractTurn buf := rfl
    rw [extractFrames]
    unfold extractTurn at hturn
    dsimp only at hturn ⊢
    split_ifs at hturn ⊢ with hshort hzero hmax hpartial
    · rw [Receiver.drain_wait hturn]
    · rw [Receiver.drain_take hturn, extractFrames_eq (by rw [List.length_drop]; omega)]
      rfl
    · rw [Receiver.drain_stop hturn]
    · rw [Receiver.drain_wait hturn]
    · rw [Receiver.drain_take hturn, extractFrames_eq (by rw [List.length_drop]; omega)]
      rfl

theorem receive_eq (x : List Bytes × Rest UInt8) (chunk : Bytes) :
    receive x chunk = some (frameReceiver.more x chunk) := by
  obtain ⟨bodies, buf | _⟩ := x
  · rw [receive, extractFrames_eq (Nat.lt_succ_self _)]
    rfl
  · rfl

/-- What is received is what the whole stream holds. -/
theorem receiveAll_eq (chunks : List Bytes) :
    receiveAll chunks = some (frameReceiver.drain chunks.flatten) := by
  have hrun : ∀ (chunks : List Bytes) (x : List Bytes × Rest UInt8),
      chunks.foldlM receive x = some (chunks.foldl frameReceiver.more x) := by
    intro chunks
    induction chunks with
    | nil => exact fun _ => rfl
    | cons chunk chunks ih =>
      intro x
      rw [List.foldlM_cons, receive_eq]
      exact ih _
  have hstart : frameReceiver.drain [] = ([], .waiting []) := Receiver.drain_wait rfl
  rw [receiveAll, hrun, ← hstart, Receiver.foldl_more, List.nil_append]

/-! ## Streams of frames -/

theorem extractTurn_frameOf {body : Bytes} (hpos : 1 ≤ body.length)
    (hmax : body.length ≤ maxFrameSize) (s : Bytes) :
    extractTurn (frameOf body ++ s) = .take (frameOf body).length (some body) := by
  have hlen := toNat_length hmax
  have hsplit : frameOf body ++ s = putU32Le (UInt32.ofNat body.length) ++ (body ++ s) :=
    List.append_assoc _ _ _
  have hlength : (frameOf body).length = 4 + body.length := by simp [frameOf]
  have hzero : UInt32.ofNat body.length ≠ 0 := ofNat_length_ne_zero hpos hmax
  unfold extractTurn
  dsimp only
  rw [hsplit, List.take_left' (length_putU32Le _), List.drop_left' (length_putU32Le _),
    ofNat_leNat_putU32Le, hlen, List.take_left, hlength, if_neg, if_neg hzero, if_neg (by omega),
    if_neg]
  · simp only [List.length_append, length_putU32Le]
    omega
  · simp only [List.length_append, length_putU32Le]
    omega

theorem recvBodies_frames : ∀ {bodies : List Bytes} {segs : List Bytes},
    (∀ body ∈ bodies, 1 ≤ body.length ∧ body.length ≤ maxFrameSize) →
      segs.flatten = bodies.flatMap frameOf →
        ∃ rest, recvBodies bodies.length segs = (.ok bodies, rest) ∧ rest.flatten = []
  | [], segs, _, hsegs => ⟨segs, rfl, hsegs⟩
  | body :: bodies, segs, h, hsegs => by
    obtain ⟨hpos, hmax⟩ := h body List.mem_cons_self
    obtain ⟨rest, hbody, hrest⟩ := recvBody_frameOf hpos hmax hsegs
    obtain ⟨rest', hbodies, hrest'⟩ :=
      recvBodies_frames (fun b hb => h b (List.mem_cons_of_mem body hb)) hrest
    exact ⟨rest', by simp [recvBodies, hbody, hbodies, Except.map], hrest'⟩

/-- The loop ends on every buffer, and ends alike with more fuel. What chunks bring depends only on
the bytes in them. From frames of a length that is allowed they bring the bodies that repeated calls
of `recv_frame` read, and then neither side has anything left. -/
theorem receiveAll_chunks :
    (∀ (fuel : ℕ) (buf : Bytes), buf.length < fuel → ∃ x, ∀ fuel', fuel ≤ fuel' →
      extractFrames fuel' buf = some x) ∧
    (∀ chunks : List Bytes, ∃ x, ∀ chunks' : List Bytes, chunks'.flatten = chunks.flatten →
      receiveAll chunks' = some x) ∧
    ∀ bodies : List Bytes, (∀ body ∈ bodies, 1 ≤ body.length ∧ body.length ≤ maxFrameSize) →
      ∀ chunks segs : List Bytes, chunks.flatten = bodies.flatMap frameOf →
        segs.flatten = bodies.flatMap frameOf →
          receiveAll chunks = some (bodies, .waiting []) ∧
            ∃ rest, recvBodies bodies.length segs = (.ok bodies, rest) ∧
              (recvBody rest).1 = fail .protocolTruncated "peer closed" := by
  refine ⟨fun fuel buf h => ⟨_, fun fuel' hle => extractFrames_eq (h.trans_le hle)⟩,
    fun chunks => ⟨_, fun chunks' hsame => (receiveAll_eq chunks').trans (by rw [hsame])⟩,
    fun bodies hbodies chunks segs hchunks hsegs => ⟨?_, ?_⟩⟩
  · have hturn : ∀ body ∈ bodies, ∀ s,
        frameReceiver.look (frameOf body ++ s) = .take (frameOf body).length (some body) := by
      intro body hmem s
      obtain ⟨hpos, hmax⟩ := hbodies body hmem
      exact extractTurn_frameOf hpos hmax s
    rw [receiveAll_eq, hchunks, Receiver.drain_flatMap rfl hturn]
  · obtain ⟨rest, hread, hrest⟩ := recvBodies_frames hbodies hsegs
    have hclosed := tcpReadExact_closed (show rest.flatten.length < 4 by simp [hrest])
    refine ⟨rest, hread, ?_⟩
    simp [recvBody, hclosed, fail]

end GraphCache
