import GraphCache.Freshness
import GraphCache.Worker

/-!
# The fleet

The coordinator with clients and workers at the other ends of its connections. A client sends what
it likes; a worker is a process of `worker_main.cpp`. What the coordinator sends to a worker, and
what a worker sends back, is in flight until an event takes it out : any packet in flight may be
the next to arrive, so the order of arrival is arbitrary, on one connection too.

`Fleet.step` is one event. `log` lists what the coordinator has taken in, and its state is the
one that run leads to (`coord_eq`). A packet carries the event of the coordinator that caused it
(`born`) : a response that of its instruction.
-/

namespace GraphCache

open History

/-- The far end of a connection. -/
inductive Peer
  | client
  | worker (w : Worker)
  | gone

def Peer.isClient : Peer → Bool
  | .client => true
  | _ => false

/-- A worker that holds no descriptor. -/
def Peer.holdsNothing : Peer → Bool
  | .worker w => w.descs.entries.isEmpty
  | _ => false

/-- A message in flight on the connection `sock`. -/
structure Packet where
  sock : Sock
  born : ℕ
  msg : ProtocolMessage
  deriving DecidableEq, Repr

structure Fleet where
  clock : ℕ := 0
  coord : Coordinator := {}
  log : List Coordinator.Event := []
  peers : Sock → Peer := fun _ => .gone
  openedAt : Sock → ℕ := fun _ => 0
  instructs : List Packet := []
  replies : List Packet := []

namespace Fleet

inductive Event
  | connect (s : Sock)
  | launch (s : Sock) (workerId : WorkerId) (pid : UInt64)
  | client (s : Sock) (m : ProtocolMessage)
  | garbage (s : Sock)
  | work (i : ℕ)
  | deliver (i : ℕ)
  | exit (s : Sock)
  | close (s : Sock)
  deriving DecidableEq, Repr

/-- What the coordinator takes in. An open handle is not given out again. -/
def input (f : Fleet) : Event → Option Coordinator.Event
  | .connect s | .launch s _ _ =>
    match f.coord.conns s with
    | some _ => none
    | none => some (.accept s)
  | .client s m =>
    match f.peers s with
    | .client => some (.message s m)
    | _ => none
  | .garbage s =>
    match f.peers s with
    | .client => some (.malformed s)
    | _ => none
  | .deliver i => f.replies[i]?.map fun p => .message p.sock p.msg
  | .close s => some (.close s)
  | .work _ | .exit _ => none

/-- What the coordinator sends. -/
def sent (f : Fleet) (e : Event) : Option Send :=
  (f.input e).bind f.coord.sent

/-- The packet that puts in flight : one to a worker. -/
def posted (f : Fleet) (e : Event) : List Packet :=
  match f.sent e with
  | none => []
  | some (t, m) =>
    match f.peers t with
    | .worker _ => [⟨t, f.clock, m⟩]
    | _ => []

/-- The process on `s` ends : what it has not read is lost. -/
def drop (f : Fleet) (s : Sock) : Fleet :=
  { f with
    peers := Function.update f.peers s .gone
    instructs := f.instructs.filter (·.sock ≠ s) }

/-- A worker reads a packet. -/
def work (o : IterationOrder GraphNodeId) (ops : FloatOps) (f : Fleet) (i : ℕ) : Fleet :=
  match f.instructs[i]? with
  | none => f
  | some p =>
    match f.peers p.sock with
    | .worker w =>
      match w.receive o ops p.msg with
      | none => f.drop p.sock
      | some (w, resp) =>
        { f with
          peers := Function.update f.peers p.sock (.worker w)
          instructs := f.instructs.eraseIdx i
          replies := f.replies ++ resp.toList.map fun r => ⟨p.sock, p.born, r⟩ }
    | _ => f

/-- What an event changes outside the coordinator. -/
def surroundings (o : IterationOrder GraphNodeId) (ops : FloatOps) (f : Fleet) : Event → Fleet
  | .connect s =>
    match f.coord.conns s with
    | some _ => f
    | none =>
      { f with
        peers := Function.update f.peers s .client
        openedAt := Function.update f.openedAt s f.clock }
  | .launch s workerId pid =>
    match f.coord.conns s with
    | some _ => f
    | none =>
      let w := Worker.start workerId pid
      { f with
        peers := Function.update f.peers s (.worker w)
        openedAt := Function.update f.openedAt s f.clock
        replies := f.replies ++ [⟨s, f.clock, w.registerMessage⟩] }
  | .client _ _ | .garbage _ => f
  | .work i => f.work o ops i
  | .deliver i => { f with replies := f.replies.eraseIdx i }
  | .exit s =>
    match f.peers s with
    | .worker _ => f.drop s
    | _ => f
  | .close s =>
    let f := f.drop s
    { f with replies := f.replies.filter (·.sock ≠ s) }

/-- One event. -/
def step (o : IterationOrder GraphNodeId) (ops : FloatOps) (f : Fleet) (e : Event) : Fleet :=
  let g := f.surroundings o ops e
  { g with
    clock := f.clock + 1
    coord := ((f.input e).map f.coord.next).getD f.coord
    log := f.log ++ (f.input e).toList
    instructs := g.instructs ++ f.posted e }

/-- The fleet after a run of events. -/
abbrev run (o : IterationOrder GraphNodeId) (ops : FloatOps) (evs : List Event) : Fleet :=
  after (step o ops) {} evs

/-- No client sends a message of one of these types. -/
def ClientsAvoid (types : List ProtocolMessageType) (evs : List Event) : Prop :=
  ∀ s m, .client s m ∈ evs → m.type ∉ types

instance (types : List ProtocolMessageType) (evs : List Event) :
    Decidable (ClientsAvoid types evs) :=
  decidable_of_iff (∀ e ∈ evs, (match e with
    | .client _ m => decide (m.type ∉ types)
    | _ => true) = true)
    ⟨fun h s m hm => of_decide_eq_true (h _ hm), fun h e he => by
      cases e with
      | client s m => exact decide_eq_true (h s m he)
      | _ => rfl⟩

section
variable {o : IterationOrder GraphNodeId} {ops : FloatOps} {f : Fleet} {e : Event} {p : Packet}
  {evs : List Event}

/-! ## Inputs -/

/-- A message comes from a client, or out of the packets in flight. -/
theorem input_message {s : Sock} {m : ProtocolMessage} (h : f.input e = some (.message s m)) :
    (e = .client s m ∧ f.peers s = .client) ∨
      ∃ i p, e = .deliver i ∧ f.replies[i]? = some p ∧ p.sock = s ∧ p.msg = m := by
  cases e with
  | client t m' =>
    simp only [input] at h
    split at h
    · rename_i hpeer
      cases h
      exact .inl ⟨rfl, hpeer⟩
    · cases h
  | deliver i =>
    obtain ⟨p, hp, heq⟩ := Option.map_eq_some_iff.mp h
    cases heq
    exact .inr ⟨i, p, rfl, hp, rfl, rfl⟩
  | work i => cases h
  | exit t => cases h
  | close t => cases h
  | _ =>
    simp only [input] at h
    split at h <;> cases h

theorem input_close {s : Sock} (h : f.input e = some (.close s)) : e = .close s := by
  cases e with
  | close t =>
    cases h
    rfl
  | deliver i =>
    obtain ⟨p, -, heq⟩ := Option.map_eq_some_iff.mp h
    cases heq
  | work i => cases h
  | exit t => cases h
  | _ =>
    simp only [input] at h
    split at h <;> cases h

/-- A closed handle that connects is accepted. -/
theorem input_accept {s : Sock} (hconn : f.coord.conns s = none)
    (he : e = .connect s ∨ ∃ wid pid, e = .launch s wid pid) :
    f.input e = some (.accept s) := by
  rcases he with rfl | ⟨wid, pid, rfl⟩ <;> simp [input, hconn]

/-- The coordinator is in the state that its inputs lead to. -/
theorem coord_eq (evs : List Event) :
    (run o ops evs).coord = Coordinator.run (run o ops evs).log := by
  induction evs using List.reverseRecOn with
  | nil => rfl
  | append_singleton evs e ih =>
    simp only [run, after_concat] at ih ⊢
    rcases hin : (after (step o ops) {} evs).input e with _ | ev
    · simpa [step, hin] using ih
    · simp [step, hin, after_concat, ih]

/-! ## What is in flight -/

@[simp] theorem step_replies : (f.step o ops e).replies = (f.surroundings o ops e).replies := rfl

theorem mem_posted (h : p ∈ f.posted e) : f.sent e = some (p.sock, p.msg) ∧ p.born = f.clock ∧
    ∃ w, f.peers p.sock = .worker w := by
  unfold posted at h
  split at h
  · cases h
  · rename_i t m hsent
    split at h
    · rename_i w hw
      obtain rfl := List.mem_singleton.mp h
      exact ⟨hsent, rfl, w, hw⟩
    · cases h

/-- A packet to a worker was in flight before, or the coordinator sends it now. -/
theorem mem_instructs (h : p ∈ (f.step o ops e).instructs) : p ∈ f.instructs ∨ p ∈ f.posted e := by
  rcases List.mem_append.mp h with h | h
  · left
    cases e with
    | connect s =>
      simp only [surroundings] at h
      split at h <;> exact h
    | launch s wid pid =>
      simp only [surroundings] at h
      split at h <;> exact h
    | client s m => exact h
    | garbage s => exact h
    | deliver i => exact h
    | exit s =>
      simp only [surroundings] at h
      split at h
      · exact List.mem_of_mem_filter h
      · exact h
    | close s => exact List.mem_of_mem_filter h
    | work i =>
      simp only [surroundings, work] at h
      split at h
      · exact h
      · split at h
        · split at h
          · exact List.mem_of_mem_filter h
          · exact List.mem_of_mem_eraseIdx h
        · exact h
  · exact .inr h

/-- A packet to the coordinator was in flight before, or is the registration of a new worker, or
is the answer of a worker to a packet that was in flight. -/
theorem mem_replies (h : p ∈ (f.step o ops e).replies) :
    (p ∈ f.replies ∧ e ≠ .close p.sock) ∨
    (∃ wid pid, e = .launch p.sock wid pid ∧ f.coord.conns p.sock = none ∧
      p.msg.type = .register ∧ p.born = f.clock ∧ p.msg = (Worker.start wid pid).registerMessage) ∨
    ∃ q ∈ f.instructs, p.sock = q.sock ∧ p.born = q.born ∧ Worker.Echoes q.msg p.msg ∧
      ∃ i w, e = .work i ∧ f.peers p.sock = .worker w ∧
        ∃ w', w.receive o ops q.msg = some (w', some p.msg) ∧
          (f.step o ops e).peers p.sock = .worker w' := by
  rw [step_replies] at h
  cases e with
  | connect s =>
    simp only [surroundings] at h
    split at h <;> exact .inl ⟨h, nofun⟩
  | launch s wid pid =>
    simp only [surroundings] at h
    split at h
    · exact .inl ⟨h, nofun⟩
    · rename_i hconn
      rcases List.mem_append.mp h with h | h
      · exact .inl ⟨h, nofun⟩
      · obtain rfl := List.mem_singleton.mp h
        exact .inr (.inl ⟨wid, pid, rfl, hconn, rfl, rfl, rfl⟩)
  | client s m => exact .inl ⟨h, nofun⟩
  | garbage s => exact .inl ⟨h, nofun⟩
  | deliver i => exact .inl ⟨List.mem_of_mem_eraseIdx h, nofun⟩
  | exit s =>
    simp only [surroundings] at h
    split at h <;> exact .inl ⟨h, nofun⟩
  | close s =>
    obtain ⟨hmem, hsock⟩ := List.mem_filter.mp h
    refine .inl ⟨hmem, ?_⟩
    rintro heq
    cases heq
    simp at hsock
  | work i =>
    simp only [surroundings, work] at h
    split at h
    · exact .inl ⟨h, nofun⟩
    · rename_i q hq
      split at h
      · rename_i w hw
        split at h
        · exact .inl ⟨h, nofun⟩
        · rename_i w' resp hresp
          rcases List.mem_append.mp h with h | h
          · exact .inl ⟨h, nofun⟩
          · obtain ⟨r, hr, rfl⟩ := List.mem_map.mp h
            rw [Option.mem_toList.mp hr] at hresp
            have hpeers : (f.step o ops (.work i)).peers q.sock = .worker w' := by
              simp [step, surroundings, work, hq, hw, hresp]
            exact .inr (.inr ⟨q, List.mem_of_getElem? hq, rfl, rfl,
              Worker.receive_echoes hresp, i, w, rfl, hw, w', hresp, hpeers⟩)
      · exact .inl ⟨h, nofun⟩

theorem update_peers {s t : Sock} {x y : Peer} (h : Function.update f.peers t y s = x) :
    (s = t ∧ y = x) ∨ (s ≠ t ∧ f.peers s = x) := by
  by_cases hst : s = t
  · subst hst
    rw [Function.update_self] at h
    exact .inl ⟨rfl, h⟩
  · rw [Function.update_of_ne hst] at h
    exact .inr ⟨hst, h⟩

/-- A peer has just connected, or it was there before; of a peer that stays only the state of a
worker changes, when it reads a message. -/
theorem peers_step {s : Sock} {x : Peer} (h : (f.step o ops e).peers s = x) (hx : x ≠ .gone) :
    (f.coord.conns s = none ∧ (e = .connect s ∧ x = .client ∨
      ∃ wid pid, e = .launch s wid pid ∧ x = .worker (.start wid pid))) ∨
    (e ≠ .close s ∧ (f.peers s = x ∨ ∃ w w', f.peers s = .worker w ∧ x = .worker w' ∧
      ∃ i q resp, e = .work i ∧ f.instructs[i]? = some q ∧ q.sock = s ∧
        w.receive o ops q.msg = some (w', resp))) := by
  have h : (f.surroundings o ops e).peers s = x := h
  cases e with
  | connect t =>
    simp only [surroundings] at h
    split at h
    · exact .inr ⟨nofun, .inl h⟩
    · rename_i hconn
      rcases update_peers h with ⟨rfl, rfl⟩ | ⟨-, h⟩
      · exact .inl ⟨hconn, .inl ⟨rfl, rfl⟩⟩
      · exact .inr ⟨nofun, .inl h⟩
  | launch t wid pid =>
    simp only [surroundings] at h
    split at h
    · exact .inr ⟨nofun, .inl h⟩
    · rename_i hconn
      rcases update_peers h with ⟨rfl, rfl⟩ | ⟨-, h⟩
      · exact .inl ⟨hconn, .inr ⟨wid, pid, rfl, rfl⟩⟩
      · exact .inr ⟨nofun, .inl h⟩
  | client t m => exact .inr ⟨nofun, .inl h⟩
  | garbage t => exact .inr ⟨nofun, .inl h⟩
  | deliver i => exact .inr ⟨nofun, .inl h⟩
  | exit t =>
    simp only [surroundings] at h
    split at h
    · rcases update_peers h with ⟨-, rfl⟩ | ⟨-, h⟩
      · exact absurd rfl hx
      · exact .inr ⟨nofun, .inl h⟩
    · exact .inr ⟨nofun, .inl h⟩
  | close t =>
    rcases update_peers h with ⟨-, rfl⟩ | ⟨hst, h⟩
    · exact absurd rfl hx
    · refine .inr ⟨?_, .inl h⟩
      rintro heq
      cases heq
      exact hst rfl
  | work i =>
    refine .inr ⟨nofun, ?_⟩
    simp only [surroundings, work] at h
    split at h
    · exact .inl h
    · rename_i q hq
      split at h
      · rename_i w hw
        split at h
        · rcases update_peers h with ⟨-, rfl⟩ | ⟨-, h⟩
          · exact absurd rfl hx
          · exact .inl h
        · rename_i w' resp hresp
          rcases update_peers h with ⟨rfl, rfl⟩ | ⟨-, h⟩
          · exact .inr ⟨w, w', hw, rfl, i, q, resp, rfl, hq, rfl, hresp⟩
          · exact .inl h
      · exact .inl h

/-! ## Open connections -/

/-- A peer that is not gone, and a packet to the coordinator, is on an open connection. -/
structure Linked (f : Fleet) : Prop where
  peers : ∀ s, f.peers s ≠ .gone → (f.coord.conns s).isSome
  replies : ∀ p ∈ f.replies, (f.coord.conns p.sock).isSome

theorem step_coord_of_input {ev : Coordinator.Event} (hin : f.input e = some ev) :
    (f.step o ops e).coord = f.coord.next ev := by
  simp [step, hin]

theorem isSome_conns_step {s : Sock} (h : (f.coord.conns s).isSome) (he : e ≠ .close s) :
    ((f.step o ops e).coord.conns s).isSome := by
  rcases hin : f.input e with _ | ev
  · simpa [step, hin] using h
  · rw [step_coord_of_input hin]
    refine Coordinator.isSome_conns_next h ?_
    rintro rfl
    exact he (input_close hin)

/-- A handle that has just connected is open. -/
theorem isSome_conns_accept {s : Sock} (hconn : f.coord.conns s = none)
    (he : e = .connect s ∨ ∃ wid pid, e = .launch s wid pid) :
    ((f.step o ops e).coord.conns s).isSome := by
  rw [step_coord_of_input (input_accept hconn he)]
  simp [Coordinator.next, Coordinator.step, hconn]

theorem Linked.after_step (h : f.Linked) : (f.step o ops e).Linked := by
  constructor
  · intro s hs
    rcases peers_step rfl hs with ⟨hconn, he⟩ | ⟨he, hold⟩
    · refine isSome_conns_accept hconn ?_
      rcases he with ⟨rfl, -⟩ | ⟨wid, pid, rfl, -⟩
      · exact .inl rfl
      · exact .inr ⟨wid, pid, rfl⟩
    · refine isSome_conns_step (h.peers s ?_) he
      rcases hold with hold | ⟨w, w', hold, -⟩
      · rwa [hold]
      · rw [hold]
        nofun
  · intro p hp
    rcases mem_replies hp with ⟨hp, he⟩ | ⟨wid, pid, rfl, hconn, -⟩ | ⟨q, -, -, -, -, i, w, rfl, hw, -⟩
    · exact isSome_conns_step (h.replies p hp) he
    · exact isSome_conns_accept hconn (.inr ⟨wid, pid, rfl⟩)
    · refine isSome_conns_step (h.peers p.sock ?_) nofun
      rw [hw]
      nofun

theorem linked_run (evs : List Event) : (run o ops evs).Linked := by
  induction evs using List.reverseRecOn with
  | nil => exact ⟨fun s hs => absurd rfl hs, nofun⟩
  | append_singleton evs e ih =>
    rw [run, after_concat]
    exact ih.after_step

end

end Fleet

end GraphCache
