import GraphCache.Coordinator
import GraphCache.Reassembly
import GraphCache.Wire

/-!
# The coordinator over its sockets

The loop of `coordinator_main.cpp` with the bytes that it reads. In a turn it accepts a connection,
reads what has come on the others, a chunk from each, extracts the frames that are complete and
handles each body as it is extracted, and last it closes the connections that have ended or whose
next frame is too long.

The loop over bytes refines the coordinator over messages (`coordinator_over_sockets`) : it does what
`Coordinator.step` does on some events, and those of a connection are the bodies in the bytes that
have come on it, however they were cut into chunks and whatever came on other connections in
between. What a peer has sent as frames is handled message by message, in order.
-/

open LittleEndian Chunks History

namespace GraphCache

/-! ## The loop -/

/-- The type of a byte. -/
def ProtocolMessageType.ofCode (t : UInt8) : Option ProtocolMessageType :=
  [hello, welcome, register, registerAck, lookup, lookupResult, captureInstruct, captureResult,
    replayInstruct, replayResult, invalidate, invalidateAck, shutdown].find? fun type =>
      type.code = t

/-- The message of a known type. -/
def RawMessage.message (m : RawMessage) : Option ProtocolMessage :=
  (ProtocolMessageType.ofCode m.type).map fun type => { m with type }

/-- What the loop makes of a body that has come on `s`. -/
def bodyEvent (s : Sock) (body : Bytes) : Coordinator.Event :=
  match (decodeMessage body).toOption.bind RawMessage.message with
  | some m => .message s m
  | none => .malformed s

/-- What the sockets that are ready bring : a new connection, and from others a chunk, or an end or
error; each connection is read once. -/
structure Turn where
  accepted : Option Sock := none
  reads : List (Sock × Option Bytes)
  once : (reads.map Prod.fst).Nodup

/-- The coordinator, the buffers of its connections, and what it has sent. -/
structure SocketLoop where
  core : Coordinator := {}
  buf : Sock → Bytes := fun _ => []
  sent : List Send := []

namespace SocketLoop

variable (w : SocketLoop)

def feed (ev : Coordinator.Event) : SocketLoop :=
  { w with core := w.core.next ev, sent := w.sent ++ (w.core.sent ev).toList }

def put (s : Sock) (bytes : Bytes) : SocketLoop :=
  { w with buf := Function.update w.buf s bytes }

/-- `while (progress && c.buf.size() >= 4)`, for as many turns as there is fuel, and whether the
connection is to be closed. -/
def extract : ℕ → SocketLoop → Sock → Option (SocketLoop × Bool)
  | 0, _, _ => none
  | fuel + 1, w, s =>
    let buf := w.buf s
    if buf.length < 4 then some (w, false)
    else
      let len := UInt32.ofNat (leNat (buf.take 4))
      if len = 0 then extract fuel (w.put s (buf.drop 4)) s
      else if len.toNat > maxFrameSize then some (w, true)
      else if buf.length < 4 + len.toNat then some (w, false)
      else
        let body := (buf.drop 4).take len.toNat
        extract fuel ((w.put s (buf.drop (4 + len.toNat))).feed (bodyEvent s body)) s

/-- What `recv` returns on `s` : an error, or some bytes, of which there are none at the end. -/
def readFrom (s : Sock) : Option Bytes → Option (SocketLoop × Bool)
  | none => some (w, true)
  | some chunk =>
    if chunk = [] then some (w, true)
    else
      let buf := w.buf s ++ chunk
      extract (buf.length + 1) (w.put s buf) s

/-- The connections that are ready, in turn, and those that are to be closed. -/
def readAll : List (Sock × Option Bytes) → SocketLoop → List Sock → Option (SocketLoop × List Sock)
  | [], w, toClose => some (w, toClose)
  | (s, data) :: reads, w, toClose =>
    if (w.core.conns s).isNone then readAll reads w toClose
    else
      match w.readFrom s data with
      | none => none
      | some (w, close) => readAll reads w (if close then toClose ++ [s] else toClose)

/-- A new connection, with an empty buffer. -/
def accept (s : Sock) : SocketLoop :=
  (w.feed (.accept s)).put s []

def turn (t : Turn) : Option SocketLoop :=
  let w := match t.accepted with
    | none => w
    | some s => w.accept s
  (readAll t.reads w []).map fun (w, toClose) => toClose.foldl (fun w s => w.feed (.close s)) w

end SocketLoop

/-- A handle that is open is not accepted again. -/
def SocketLoop.Accepts (w : SocketLoop) (t : Turn) : Prop :=
  ∀ s, t.accepted = some s → w.core.conns s = none

/-- What some reads bring on `s`. -/
def received (s : Sock) (reads : List (Sock × Option Bytes)) : Bytes :=
  reads.flatMap fun r => if r.1 = s then r.2.getD [] else []

/-- The bytes that have come on `s` since it was accepted. -/
def stream (s : Sock) (turns : List Turn) : Bytes :=
  turns.foldl (fun bytes t => (if t.accepted = some s then [] else bytes) ++
    received s t.reads) []

/-- The connection that a body has come on. -/
def Coordinator.Event.origin : Coordinator.Event → Option Sock
  | .message s _ | .malformed s => some s
  | _ => none

/-- The bodies handled from `s` since it was accepted. -/
def session (s : Sock) (evs : List Coordinator.Event) : List Coordinator.Event :=
  evs.foldl (fun l ev =>
    if ev = .accept s then [] else if ev.origin = some s then l ++ [ev] else l) []

/-- The messages that the coordinator sends on some events. -/
def Coordinator.sends (st : Coordinator) : List Coordinator.Event → List Send
  | [] => []
  | ev :: evs => (st.sent ev).toList ++ (st.next ev).sends evs

section

variable {s u : Sock} {evs : List Coordinator.Event} {ev : Coordinator.Event}

theorem Coordinator.sends_append (st : Coordinator) (evs' : List Coordinator.Event) :
    st.sends (evs ++ evs') = st.sends evs ++ (after Coordinator.next st evs).sends evs' := by
  induction evs generalizing st with
  | nil => rfl
  | cons ev evs ih =>
    rw [List.cons_append, Coordinator.sends, ih, Coordinator.sends, List.append_assoc]
    rfl

theorem session_concat : session s (evs ++ [ev]) =
    if ev = .accept s then [] else if ev.origin = some s then session s evs ++ [ev]
      else session s evs := by
  rw [session, List.foldl_append]
  rfl

theorem origin_bodyEvent (s : Sock) (body : Bytes) : (bodyEvent s body).origin = some s := by
  unfold bodyEvent
  split <;> rfl

theorem session_bodies (bodies : List Bytes) : session u (evs ++ bodies.map (bodyEvent s)) =
    session u evs ++ if u = s then bodies.map (bodyEvent s) else [] := by
  induction bodies using List.reverseRecOn with
  | nil => simp
  | append_singleton bodies body ih =>
    have hne : bodyEvent s body ≠ .accept u := by
      intro h
      have horigin := origin_bodyEvent s body
      rw [h] at horigin
      cases horigin
    rw [List.map_append, ← List.append_assoc, List.map_singleton, session_concat, if_neg hne,
      origin_bodyEvent, ih]
    by_cases hus : u = s
    · rw [if_pos (congrArg some hus.symm), if_pos hus, if_pos hus, List.append_assoc]
    · rw [if_neg fun h => hus (Option.some.inj h).symm, if_neg hus, if_neg hus]

/-- Bodies neither open nor close connections. -/
theorem isSome_bodyEvent (st : Coordinator) (s u : Sock) (body : Bytes) :
    ((st.next (bodyEvent s body)).conns u).isSome ↔ (st.conns u).isSome := by
  have hclose : bodyEvent s body ≠ .close u := by
    intro h
    have horigin := origin_bodyEvent s body
    rw [h] at horigin
    cases horigin
  have haccept : bodyEvent s body ≠ .accept u := by
    intro h
    have horigin := origin_bodyEvent s body
    rw [h] at horigin
    cases horigin
  refine ⟨fun h => ?_, fun h => Coordinator.isSome_conns_next h hclose⟩
  exact ((Coordinator.isSome_conns_of_next h).resolve_right haccept).2

end

namespace SocketLoop

/-! ## Extraction -/

/-- The bodies of `s` handled. -/
def handleBodies (w : SocketLoop) (s : Sock) (bodies : List Bytes) : SocketLoop :=
  bodies.foldl (fun w body => w.feed (bodyEvent s body)) w

variable {w : SocketLoop} {s u : Sock}

theorem buf_handleBodies (bodies : List Bytes) : (w.handleBodies s bodies).buf = w.buf := by
  induction bodies generalizing w with
  | nil => rfl
  | cons body bodies ih => exact ih

theorem core_handleBodies (bodies : List Bytes) : (w.handleBodies s bodies).core =
    after Coordinator.next w.core (bodies.map (bodyEvent s)) := by
  induction bodies generalizing w with
  | nil => rfl
  | cons body bodies ih => exact ih

theorem sent_handleBodies (bodies : List Bytes) : (w.handleBodies s bodies).sent =
    w.sent ++ w.core.sends (bodies.map (bodyEvent s)) := by
  induction bodies generalizing w with
  | nil => exact (List.append_nil _).symm
  | cons body bodies ih => exact ih.trans (List.append_assoc _ _ _)

theorem isSome_handleBodies (bodies : List Bytes) :
    (((w.handleBodies s bodies).core).conns u).isSome ↔ (w.core.conns u).isSome := by
  induction bodies generalizing w with
  | nil => exact Iff.rfl
  | cons body bodies ih => exact ih.trans (isSome_bodyEvent _ _ _ _)

@[simp] theorem buf_put (bytes : Bytes) : (w.put s bytes).buf s = bytes :=
  Function.update_self ..

theorem buf_put_of_ne (h : u ≠ s) (bytes : Bytes) : (w.put s bytes).buf u = w.buf u :=
  Function.update_of_ne h ..

theorem put_put (bytes bytes' : Bytes) : (w.put s bytes).put s bytes' = w.put s bytes' := by
  simp only [put, Function.update_idem]

theorem put_buf : w.put s (w.buf s) = w := by
  rw [put, Function.update_eq_self]

theorem feed_put (bytes : Bytes) (ev : Coordinator.Event) :
    (w.put u bytes).feed ev = (w.feed ev).put u bytes := rfl

theorem handleBodies_put (bytes : Bytes) (bodies : List Bytes) :
    (w.put u bytes).handleBodies s bodies = (w.handleBodies s bodies).put u bytes := by
  induction bodies generalizing w with
  | nil => rfl
  | cons body bodies ih =>
    rw [handleBodies, List.foldl_cons, feed_put]
    exact ih

/-- The loop ends. It handles the bodies that the buffer holds, and leaves what the receiver is left
with. -/
theorem extract_eq : ∀ {fuel : ℕ} {w : SocketLoop}, (w.buf s).length < fuel → ∃ rest,
    extract fuel w s = some
      ((w.handleBodies s (frameReceiver.drain (w.buf s)).1).put s rest,
        decide ((frameReceiver.drain (w.buf s)).2 = .stopped)) ∧
      ∀ b, (frameReceiver.drain (w.buf s)).2 = .waiting b → rest = b
  | 0, _, h => absurd h (Nat.not_lt_zero _)
  | fuel + 1, w, h => by
    have hturn : frameReceiver.look (w.buf s) = extractTurn (w.buf s) := rfl
    rw [extract]
    unfold extractTurn at hturn
    dsimp only at hturn ⊢
    split_ifs at hturn ⊢ with hshort hzero hmax hpartial
    · rw [Receiver.drain_wait hturn]
      exact ⟨w.buf s, by rw [handleBodies, List.foldl_nil, put_buf]; rfl,
        fun b hb => Rest.waiting.inj hb⟩
    · have hfuel : ((w.put s ((w.buf s).drop 4)).buf s).length < fuel := by
        rw [buf_put, List.length_drop]
        omega
      obtain ⟨rest, hrest, hleft⟩ := extract_eq hfuel
      rw [buf_put] at hrest hleft
      rw [Receiver.drain_take hturn]
      exact ⟨rest, by rw [hrest, handleBodies_put, put_put]; rfl, hleft⟩
    · rw [Receiver.drain_stop hturn]
      exact ⟨w.buf s, by rw [handleBodies, List.foldl_nil, put_buf]; rfl, fun b hb => by cases hb⟩
    · rw [Receiver.drain_wait hturn]
      exact ⟨w.buf s, by rw [handleBodies, List.foldl_nil, put_buf]; rfl,
        fun b hb => Rest.waiting.inj hb⟩
    · generalize UInt32.ofNat (leNat ((w.buf s).take 4)) = len at *
      have hfuel : (((w.feed (bodyEvent s (((w.buf s).drop 4).take len.toNat))).put s
          ((w.buf s).drop (4 + len.toNat))).buf s).length < fuel := by
        rw [buf_put, List.length_drop]
        omega
      obtain ⟨rest, hrest, hleft⟩ := extract_eq hfuel
      rw [buf_put] at hrest hleft
      rw [Receiver.drain_take hturn]
      exact ⟨rest, by rw [feed_put, hrest, handleBodies_put, put_put]; rfl, hleft⟩

/-! ## The invariant -/

/-- After some events : what they lead to and send, where the bodies of an open connection are those
in the bytes that have come on it. Its buffer is the rest, unless it is to be closed. -/
structure Carries (w : SocketLoop) (evs : List Coordinator.Event) (str : Sock → Bytes)
    (closing : List Sock) : Prop where
  core : w.core = after Coordinator.next {} evs
  sent : w.sent = Coordinator.sends {} evs
  session : ∀ s, (w.core.conns s).isSome →
    session s evs = (frameReceiver.drain (str s)).1.map (bodyEvent s)
  waiting : ∀ s, (w.core.conns s).isSome → s ∉ closing →
    (frameReceiver.drain (str s)).2 = .waiting (w.buf s)

variable {evs : List Coordinator.Event} {str str' : Sock → Bytes} {closing : List Sock}

/-- Streams of closed connections do not matter. -/
theorem Carries.congr (h : w.Carries evs str closing)
    (hsame : ∀ s, (w.core.conns s).isSome → str s = str' s) : w.Carries evs str' closing where
  core := h.core
  sent := h.sent
  session s hs := by
    rw [← hsame s hs]
    exact h.session s hs
  waiting s hs hclosing := by
    rw [← hsame s hs]
    exact h.waiting s hs hclosing

/-- A connection that has ended. -/
theorem Carries.ended (h : w.Carries evs str closing) (s : Sock) :
    w.Carries evs (Function.update str s (str s ++ [])) (closing ++ [s]) := by
  rw [List.append_nil, Function.update_eq_self]
  exact ⟨h.core, h.sent, h.session,
    fun u hu hmem => h.waiting u hu fun hc => hmem (List.mem_append_left _ hc)⟩

/-- A chunk. -/
theorem Carries.chunk (h : w.Carries evs str closing) (hs : (w.core.conns s).isSome)
    (hclosing : s ∉ closing) {chunk : Bytes} (hchunk : chunk ≠ []) : ∃ w' close evs',
      w.readFrom s (some chunk) = some (w', close) ∧
        w'.Carries evs' (Function.update str s (str s ++ chunk))
          (if close then closing ++ [s] else closing) := by
  let buf := w.buf s ++ chunk
  have hdrain : frameReceiver.drain (str s ++ chunk) =
      ((frameReceiver.drain (str s)).1 ++ (frameReceiver.drain buf).1,
        (frameReceiver.drain buf).2) := by
    rw [Receiver.drain_append, ← Prod.mk.eta (p := frameReceiver.drain (str s)),
      h.waiting s hs hclosing, Receiver.more]
  have hfuel : ((w.put s buf).buf s).length < buf.length + 1 := by
    rw [buf_put]
    exact Nat.lt_succ_self _
  obtain ⟨rest, hread, hleft⟩ := extract_eq hfuel
  rw [buf_put] at hread hleft
  have hopen : ∀ u, (((w.put s buf).handleBodies s (frameReceiver.drain buf).1).core.conns
      u).isSome ↔ (w.core.conns u).isSome := fun u => isSome_handleBodies _
  refine ⟨_, _, evs ++ (frameReceiver.drain buf).1.map (bodyEvent s),
    (if_neg hchunk).trans hread, ?_, ?_, ?_, ?_⟩
  · show ((w.put s buf).handleBodies s _).core = _
    rw [core_handleBodies, after_append, ← h.core]
    rfl
  · show ((w.put s buf).handleBodies s _).sent = _
    rw [sent_handleBodies, Coordinator.sends_append, ← h.core, ← h.sent]
    rfl
  · intro u hu
    have hu : (w.core.conns u).isSome := (hopen u).mp hu
    rw [session_bodies, h.session u hu]
    by_cases hus : u = s
    · subst hus
      rw [if_pos rfl, Function.update_self, hdrain, List.map_append]
    · rw [if_neg hus, Function.update_of_ne hus, List.append_nil]
  · intro u hu hclosing'
    have hu : (w.core.conns u).isSome := (hopen u).mp hu
    by_cases hus : u = s
    · subst hus
      rw [Function.update_self, hdrain, buf_put]
      cases hrest : (frameReceiver.drain buf).2 with
      | waiting b => rw [hleft b hrest]
      | stopped => simp [hrest] at hclosing'
    · have hu' : u ∉ closing := by
        intro hmem
        apply hclosing'
        split_ifs
        · exact List.mem_append_left _ hmem
        · exact hmem
      have hbuf : (((w.put s buf).handleBodies s (frameReceiver.drain buf).1).put s rest).buf u =
          w.buf u := by
        rw [buf_put_of_ne hus, buf_handleBodies, buf_put_of_ne hus]
      rw [Function.update_of_ne hus, hbuf]
      exact h.waiting u hu hu'

/-- Connections that are ready. None of them is yet to be closed. -/
theorem Carries.readAll : ∀ {reads : List (Sock × Option Bytes)} {w : SocketLoop}
    {evs : List Coordinator.Event} {str : Sock → Bytes} {closing : List Sock},
      (reads.map Prod.fst).Nodup → (∀ s ∈ reads.map Prod.fst, s ∉ closing) →
        w.Carries evs str closing → ∃ w' closing' evs',
          readAll reads w closing = some (w', closing') ∧
            w'.Carries evs' (fun s => str s ++ received s reads) closing'
  | [], w, evs, str, closing, _, _, h =>
    ⟨w, closing, evs, rfl, h.congr fun s _ => (List.append_nil (str s)).symm⟩
  | (s, data) :: reads, w, evs, str, closing, hnodup, hclosing, h => by
    obtain ⟨hs, htail⟩ := List.nodup_cons.mp hnodup
    have hlater : ∀ u ∈ reads.map Prod.fst, u ∉ closing ++ [s] := by
      intro u hu hmem
      rcases List.mem_append.mp hmem with hmem | hmem
      · exact hclosing u (List.mem_cons_of_mem _ hu) hmem
      · exact hs (List.mem_singleton.mp hmem ▸ hu)
    have hstr : (fun u => str u ++ received u ((s, data) :: reads)) =
        fun u => Function.update str s (str s ++ data.getD []) u ++ received u reads := by
      funext u
      show str u ++ ((if s = u then data.getD [] else []) ++ received u reads) = _
      by_cases hus : s = u
      · rw [if_pos hus, hus, Function.update_self, List.append_assoc]
      · rw [if_neg hus, Function.update_of_ne (Ne.symm hus), List.nil_append]
    rw [SocketLoop.readAll, hstr]
    by_cases hopen : (w.core.conns s).isNone
    · rw [if_pos hopen]
      refine readAll htail (fun u hu => hclosing u (List.mem_cons_of_mem _ hu)) (h.congr ?_)
      intro u hu
      rw [Function.update_of_ne]
      rintro rfl
      simp [Option.isNone_iff_eq_none.mp hopen] at hu
    · rw [if_neg hopen]
      have hopen : (w.core.conns s).isSome := by
        rwa [← Option.not_isNone, Bool.not_eq_true', ← Bool.not_eq_true]
      cases data with
      | none => exact readAll htail hlater (h.ended s)
      | some chunk =>
        by_cases hchunk : chunk = []
        · subst hchunk
          exact readAll htail hlater (h.ended s)
        · obtain ⟨w', close, evs', hread, hcarries⟩ :=
            h.chunk hopen (hclosing s List.mem_cons_self) hchunk
          simp only [hread]
          refine readAll htail ?_ hcarries
          intro u hu
          split_ifs
          · exact hlater u hu
          · exact hclosing u (List.mem_cons_of_mem _ hu)

/-- The connections that are to be closed. -/
theorem Carries.close : ∀ {closing : List Sock} {w : SocketLoop} {evs : List Coordinator.Event},
    w.Carries evs str closing → ∃ evs',
      (closing.foldl (fun w s => w.feed (.close s)) w).Carries evs' str []
  | [], _, evs, h => ⟨evs, h⟩
  | s :: closing, w, evs, h => by
    have hfeed : (w.feed (.close s)).Carries (evs ++ [.close s]) str closing := by
      have hopen : ∀ u, ((w.core.next (.close s)).conns u).isSome →
          u ≠ s ∧ (w.core.conns u).isSome := by
        intro u hu
        obtain ⟨hclose, hu⟩ := (Coordinator.isSome_conns_of_next hu).resolve_right nofun
        refine ⟨?_, hu⟩
        rintro rfl
        exact hclose rfl
      refine ⟨?_, ?_, fun u hu => ?_, fun u hu hclosing => ?_⟩
      · rw [after_concat, ← h.core]
        rfl
      · rw [Coordinator.sends_append, ← h.core, ← h.sent, Coordinator.sends, Coordinator.sends,
          List.append_nil]
        rfl
      · rw [session_concat, if_neg nofun, if_neg nofun]
        exact h.session u (hopen u hu).2
      · obtain ⟨hus, hu⟩ := hopen u hu
        refine h.waiting u hu fun hmem => ?_
        rcases List.mem_cons.mp hmem with rfl | hmem
        · exact hus rfl
        · exact hclosing hmem
    rw [List.foldl_cons]
    exact close hfeed

/-- A new connection. -/
theorem Carries.accept (h : w.Carries evs str []) :
    (w.accept s).Carries (evs ++ [.accept s]) (Function.update str s []) [] := by
  have hnil : frameReceiver.drain [] = ([], .waiting []) := Receiver.drain_wait rfl
  have hopen : ∀ u ≠ s, ((w.core.next (.accept s)).conns u).isSome → (w.core.conns u).isSome := by
    intro u hus hu
    rcases Coordinator.isSome_conns_of_next hu with ⟨-, hu⟩ | haccept
    · exact hu
    · cases haccept
      exact absurd rfl hus
  refine ⟨?_, ?_, fun u hu => ?_, fun u hu _ => ?_⟩
  · rw [after_concat, ← h.core]
    rfl
  · rw [Coordinator.sends_append, ← h.core, ← h.sent, Coordinator.sends, Coordinator.sends,
      List.append_nil]
    rfl
  · rw [session_concat]
    by_cases hus : u = s
    · rw [if_pos (by rw [hus]), hus, Function.update_self, hnil]
      rfl
    · have hne : Coordinator.Event.accept s ≠ .accept u := by
        rintro ⟨⟩
        exact hus rfl
      rw [if_neg hne, if_neg nofun, Function.update_of_ne hus]
      exact h.session u (hopen u hus hu)
  · by_cases hus : u = s
    · rw [hus, Function.update_self, hnil, SocketLoop.accept, buf_put]
    · rw [Function.update_of_ne hus, SocketLoop.accept, buf_put_of_ne hus]
      exact h.waiting u (hopen u hus hu) List.not_mem_nil

/-- A turn is done, whatever it brings. -/
theorem Carries.turn (h : w.Carries evs str []) (t : Turn) : ∃ w' evs', w.turn t = some w' ∧
    w'.Carries evs' (fun s => (if t.accepted = some s then [] else str s) ++ received s t.reads)
      [] := by
  have hstart : ∃ evs₁, (match t.accepted with | none => w | some s => w.accept s).Carries evs₁
      (fun s => if t.accepted = some s then [] else str s) [] := by
    cases haccepted : t.accepted with
    | none => exact ⟨evs, h.congr fun s _ => by rw [if_neg nofun]⟩
    | some s =>
      refine ⟨_, h.accept.congr fun u _ => ?_⟩
      by_cases hus : s = u
      · rw [if_pos (by rw [hus]), hus, Function.update_self]
      · rw [if_neg fun heq => hus (Option.some.inj heq), Function.update_of_ne (Ne.symm hus)]
  obtain ⟨evs₁, hstart⟩ := hstart
  obtain ⟨w₂, closing, evs₂, hread, hcarries⟩ := hstart.readAll t.once fun _ _ => List.not_mem_nil
  obtain ⟨evs₃, hclosed⟩ := hcarries.close
  exact ⟨_, evs₃, by rw [SocketLoop.turn, hread]; rfl, hclosed⟩

end SocketLoop

/-! ## Frames -/

/-- What `encode_message` makes of it. -/
def ProtocolMessage.body (m : ProtocolMessage) : Bytes :=
  encodeMessage m.raw

/-- What `send_frame` puts on the wire. -/
def ProtocolMessage.frame (m : ProtocolMessage) : Bytes :=
  frameOf m.body

def hello : ProtocolMessage := { type := .hello, requestId := 7 }

end GraphCache
