import GraphCache.Completion

/-!
# Replays find their way back

The coordinator remembers who asked for a replay under the request id that the client chose
(`pending_replays`). Two replays in flight under one id share the entry : the later asker gets the
first result, and the second result finds no entry and goes back to the worker
(`result_misrouted`). The entry holds a socket handle, so a connection accepted on the handle of an
asker that has closed gets its result.

Where neither happens, every result goes to the connection that asked, at most once, and none to a
worker (`results_routed`). The proof follows each replay in flight : its request id leads to its
asker, whose connection has not been opened anew (`Routed`).
-/

namespace GraphCache

open History

namespace Fleet

variable {o : IterationOrder GraphNodeId} {ops : FloatOps} {f : Fleet} {e : Event} {p : Packet}
  {evs : List Event}

/-! ## One answer to each packet -/

/-- The events that the packets in flight go back to. -/
def borns (f : Fleet) : List ℕ :=
  f.instructs.map Packet.born ++ f.replies.map Packet.born

/-- Packets in flight come from different events of the past. -/
structure Numbered (f : Fleet) : Prop where
  below : ∀ b ∈ f.borns, b < f.clock
  nodup : f.borns.Nodup

/-- Nothing in flight goes back to the event `b`. -/
def Spent (b : ℕ) (f : Fleet) : Prop :=
  b < f.clock ∧ b ∉ f.borns

theorem count_eraseIdx {l : List Packet} {i : ℕ} (h : l[i]? = some p) (b : ℕ) :
    ((l.eraseIdx i).map Packet.born).count b + [p.born].count b = (l.map Packet.born).count b := by
  obtain ⟨hi, rfl⟩ := List.getElem?_eq_some_iff.mp h
  rw [← ((List.getElem_cons_eraseIdx_perm hi).map Packet.born).count_eq b, Nat.add_comm,
    ← List.count_append]
  rfl

theorem count_filter_le {l : List Packet} (q : Packet → Bool) (b : ℕ) :
    ((l.filter q).map Packet.born).count b ≤ (l.map Packet.born).count b :=
  (List.filter_sublist.map Packet.born).count_le b

theorem count_posted (b : ℕ) : ((f.posted e).map Packet.born).count b ≤ [f.clock].count b := by
  unfold posted
  split
  · exact Nat.zero_le _
  · split
    · exact le_rfl
    · exact Nat.zero_le _

/-- What an event leaves in flight was there before, but for the registration of a new worker. -/
theorem count_surroundings (he : ∀ s wid pid, e ≠ .launch s wid pid) (b : ℕ) :
    (f.surroundings o ops e).borns.count b ≤ f.borns.count b := by
  simp only [borns, List.count_append]
  cases e with
  | connect s =>
    simp only [surroundings]
    split <;> exact le_rfl
  | launch s wid pid => exact absurd rfl (he s wid pid)
  | client s m => exact le_rfl
  | garbage s => exact le_rfl
  | deliver i =>
    refine Nat.add_le_add_left ?_ _
    exact ((List.eraseIdx_sublist _ i).map Packet.born).count_le b
  | exit s =>
    simp only [surroundings]
    split
    · exact Nat.add_le_add_right (count_filter_le _ b) _
    · exact le_rfl
  | close s => exact Nat.add_le_add (count_filter_le _ b) (count_filter_le _ b)
  | work i =>
    simp only [surroundings, work]
    split
    · exact le_rfl
    · rename_i q hq
      split
      · split
        · exact Nat.add_le_add_right (count_filter_le _ b) _
        · rename_i w resp hresp
          -- the answer, if there is one, takes the place of the instruction
          have hanswer : ((resp.toList.map fun r => (⟨q.sock, q.born, r⟩ : Packet)).map
              Packet.born).count b ≤ [q.born].count b := by
            cases resp with
            | none => exact Nat.zero_le _
            | some r => exact le_rfl
          have := count_eraseIdx hq b
          simp only [List.map_append, List.count_append]
          omega
      · exact le_rfl

theorem posted_launch (s : Sock) (wid : WorkerId) (pid : UInt64) :
    f.posted (.launch s wid pid) = [] := by
  have hsent : f.sent (.launch s wid pid) = none := by
    rcases hconn : f.coord.conns s with _ | c
    · simp [sent, input, hconn, Coordinator.sent, Coordinator.step]
    · simp [sent, input, hconn]
  simp [posted, hsent]

/-- One event adds at most one packet, of its own. -/
theorem count_step (b : ℕ) :
    (f.step o ops e).borns.count b ≤ f.borns.count b + [f.clock].count b := by
  have hstep : (f.step o ops e).borns.count b = (f.surroundings o ops e).borns.count b +
      ((f.posted e).map Packet.born).count b := by
    simp only [borns, step, List.map_append, List.count_append]
    omega
  rw [hstep]
  by_cases he : ∃ s wid pid, e = .launch s wid pid
  · obtain ⟨s, wid, pid, rfl⟩ := he
    rw [posted_launch]
    simp only [surroundings]
    split
    · exact Nat.le_add_right _ _
    · simp only [borns, List.map_append, List.count_append]
      exact (Nat.add_assoc _ _ _).ge
  · refine Nat.add_le_add (count_surroundings ?_ b) (count_posted b)
    exact fun s wid pid h => he ⟨s, wid, pid, h⟩

theorem mem_borns_step {b : ℕ} (hb : b ∈ (f.step o ops e).borns) : b ∈ f.borns ∨ b = f.clock := by
  have hcount := (List.count_pos_iff.mpr hb).trans_le (count_step b)
  rw [← List.count_append, List.count_pos_iff, List.mem_append, List.mem_singleton] at hcount
  exact hcount

theorem Numbered.after_step (h : f.Numbered) : (f.step o ops e).Numbered := by
  constructor
  · intro b hb
    rcases mem_borns_step hb with hb | rfl
    · exact Nat.lt_succ_of_lt (h.below b hb)
    · exact Nat.lt_succ_self _
  · refine List.nodup_iff_count_le_one.mpr fun b => (count_step b).trans ?_
    by_cases hb : b = f.clock
    · subst hb
      have hnew : f.clock ∉ f.borns := fun hmem => lt_irrefl _ (h.below _ hmem)
      simp [List.count_eq_zero_of_not_mem hnew]
    · have hold := List.nodup_iff_count_le_one.mp h.nodup b
      rwa [List.count_singleton, if_neg (by simpa using Ne.symm hb)]

theorem numbered_run (evs : List Event) : (run o ops evs).Numbered := by
  induction evs using List.reverseRecOn with
  | nil => exact ⟨nofun, List.nodup_nil⟩
  | append_singleton evs e ih =>
    rw [run, after_concat]
    exact ih.after_step

theorem Spent.after_step {b : ℕ} (h : f.Spent b) : (f.step o ops e).Spent b := by
  refine ⟨Nat.lt_succ_of_lt h.1, fun hb => ?_⟩
  rcases mem_borns_step hb with hb | rfl
  · exact h.2 hb
  · exact lt_irrefl _ h.1

theorem Spent.after_run {b : ℕ} (h : f.Spent b) (evs : List Event) :
    (after (step o ops) f evs).Spent b := by
  induction evs using List.reverseRecOn with
  | nil => exact h
  | append_singleton evs e ih =>
    rw [after_concat]
    exact ih.after_step

theorem mem_borns_of_replies (hp : p ∈ f.replies) : p.born ∈ f.borns :=
  List.mem_append_right _ (List.mem_map_of_mem hp)

theorem mem_borns_of_instructs (hp : p ∈ f.instructs) : p.born ∈ f.borns :=
  List.mem_append_left _ (List.mem_map_of_mem hp)

/-- A packet that is delivered leaves nothing behind. -/
theorem Numbered.spent_deliver (h : f.Numbered) {i : ℕ} (hp : f.replies[i]? = some p) :
    (f.step o ops (.deliver i)).Spent p.born := by
  have hbelow := h.below _ (mem_borns_of_replies (List.mem_of_getElem? hp))
  refine ⟨Nat.lt_succ_of_lt hbelow, List.count_eq_zero.mp ?_⟩
  have herase := count_eraseIdx hp p.born
  have hposted := count_posted (f := f) (e := .deliver i) p.born
  have hone := List.nodup_iff_count_le_one.mp h.nodup p.born
  rw [List.count_singleton_self] at herase
  rw [List.count_singleton, if_neg (by simpa using hbelow.ne')] at hposted
  simp only [borns, List.count_append] at hone
  simp only [borns, step, surroundings, List.map_append, List.count_append]
  omega

/-! ## Clients and workers -/

/-- No client is taken for a worker, and what comes in flight comes from workers. -/
structure Roles (f : Fleet) : Prop where
  clients : ∀ s c, f.peers s = .client → f.coord.conns s = some c → c.isWorker = false
  replies : ∀ p ∈ f.replies, f.peers p.sock ≠ .client
  types : ∀ p ∈ f.replies, p.msg.type ≠ .replayInstruct

theorem peers_ne_client_step {s : Sock} (hconn : (f.coord.conns s).isSome)
    (h : f.peers s ≠ .client) : (f.step o ops e).peers s ≠ .client := by
  intro hpeer
  rcases peers_step hpeer nofun with ⟨hnone, -⟩ | ⟨-, hold | ⟨w, w', -, hx, -⟩⟩
  · simp [hnone] at hconn
  · exact h hold
  · cases hx

theorem Roles.after_step (h : f.Roles) (hlinked : f.Linked)
    (hclient : ∀ s m, e = .client s m → m.type ∉ [.register, .replayResult]) :
    (f.step o ops e).Roles := by
  constructor
  · intro s c hpeer hc
    rcases peers_step hpeer (by simp) with ⟨hconn, he⟩ | ⟨he, hstays⟩
    · have he : e = .connect s := by
        rcases he with ⟨rfl, -⟩ | ⟨wid, pid, -, hx⟩
        · rfl
        · cases hx
      rw [step_coord_of_input (input_accept hconn (.inl he))] at hc
      simp only [Coordinator.next, Coordinator.step, hconn, Function.update_self] at hc
      rw [← Option.some.inj hc]
    · have hold : f.peers s = .client := by
        rcases hstays with hold | ⟨w, w', -, hx, -⟩
        · exact hold
        · cases hx
      obtain ⟨c', hc'⟩ := Option.isSome_iff_exists.mp (hlinked.peers s (by simp [hold]))
      have hfalse := h.clients s c' hold hc'
      rcases hin : f.input e with _ | ev
      · rw [step, hin] at hc
        cases hc'.symm.trans hc
        exact hfalse
      · rw [step_coord_of_input hin] at hc
        have hsame : ((f.coord.next ev).conns s).map Conn.isWorker =
            (f.coord.conns s).map Conn.isWorker := by
          refine Coordinator.isWorker_next_of_ne (by simp [hc']) ?_ ?_
          · rintro rfl
            exact he (input_close hin)
          · rintro m rfl
            rcases input_message hin with ⟨rfl, -⟩ | ⟨i, p, rfl, hp, rfl, rfl⟩
            · intro htype
              exact hclient s m rfl (by simp [htype])
            · exact absurd hold (h.replies p (List.mem_of_getElem? hp))
        rw [hc, hc'] at hsame
        exact (Option.some.inj hsame).trans hfalse
  · intro p hp
    rcases mem_replies hp with ⟨hp, -⟩ | ⟨wid, pid, rfl, hconn, -⟩ | ⟨q, -, -, -, -, i, w, rfl, hw, -⟩
    · exact peers_ne_client_step (hlinked.replies p hp) (h.replies p hp)
    · simp [step, surroundings, hconn]
    · refine peers_ne_client_step (hlinked.peers _ ?_) ?_ <;> simp [hw]
  · intro p hp
    rcases mem_replies hp with ⟨hp, -⟩ | ⟨-, -, -, -, htype, -⟩ | ⟨q, -, -, -, hechoes, -⟩
    · exact h.types p hp
    · simp [htype]
    · rcases hechoes.type with ⟨-, htype⟩ | ⟨-, htype⟩ <;> simp [htype]

theorem ClientsAvoid.concat {types : List ProtocolMessageType}
    (h : ClientsAvoid types (evs ++ [e])) :
    ClientsAvoid types evs ∧ ∀ s m, e = .client s m → m.type ∉ types :=
  ⟨fun s m hm => h s m (List.mem_append_left _ hm), fun s m he => h s m (by simp [he])⟩

theorem roles_run (evs : List Event) (hclients : ClientsAvoid [.register, .replayResult] evs) :
    (run o ops evs).Roles := by
  induction evs using List.reverseRecOn with
  | nil =>
    exact ⟨fun s c hs => (nomatch hs), fun p hp => absurd hp List.not_mem_nil,
      fun p hp => absurd hp List.not_mem_nil⟩
  | append_singleton evs e ih =>
    obtain ⟨hevs, he⟩ := hclients.concat
    rw [run, after_concat]
    exact (ih hevs).after_step (linked_run evs) he

/-- The time of the next event is the number of events so far. -/
theorem clock_run (evs : List Event) : (run o ops evs).clock = evs.length := by
  induction evs using List.reverseRecOn with
  | nil => rfl
  | append_singleton evs e ih =>
    rw [run, after_concat, List.length_append, ← ih]
    rfl

/-- A connection is as old as its last connect. -/
theorem openedAt_step (s : Sock) : (f.step o ops e).openedAt s = f.openedAt s ∨
    (f.step o ops e).openedAt s = f.clock ∧ f.input e = some (.accept s) := by
  have hupdate (t : Sock) (hconn : f.coord.conns t = none)
      (he : e = .connect t ∨ ∃ wid pid, e = .launch t wid pid) :
      Function.update f.openedAt t f.clock s = f.openedAt s ∨
      Function.update f.openedAt t f.clock s = f.clock ∧ f.input e = some (.accept s) := by
    by_cases hst : s = t
    · subst hst
      exact .inr ⟨Function.update_self _ _ _, input_accept hconn he⟩
    · exact .inl (Function.update_of_ne hst _ _)
  simp only [step]
  cases e with
  | connect t =>
    simp only [surroundings]
    split
    · exact .inl rfl
    · rename_i hconn
      exact hupdate t hconn (.inl rfl)
  | launch t wid pid =>
    simp only [surroundings]
    split
    · exact .inl rfl
    · rename_i hconn
      exact hupdate t hconn (.inr ⟨wid, pid, rfl⟩)
  | exit t =>
    simp only [surroundings]
    split <;> exact .inl rfl
  | work i =>
    left
    simp only [surroundings, work]
    split
    · rfl
    · split
      · split <;> rfl
      · rfl
  | _ => exact .inl rfl

theorem openedAt_le (evs : List Event) (s : Sock) :
    (run o ops evs).openedAt s ≤ (run o ops evs).clock := by
  induction evs using List.reverseRecOn with
  | nil => exact le_rfl
  | append_singleton evs e ih =>
    rw [run, after_concat]
    rcases openedAt_step s with h | ⟨h, -⟩ <;> rw [h]
    · exact Nat.le_succ_of_le ih
    · exact Nat.le_succ _

/-- A peer has connected before. -/
theorem openedAt_lt (evs : List Event) {s : Sock} (hpeer : (run o ops evs).peers s ≠ .gone) :
    (run o ops evs).openedAt s < (run o ops evs).clock := by
  rcases List.eq_nil_or_concat evs with rfl | ⟨evs, e, rfl⟩
  · exact absurd rfl hpeer
  · rw [List.concat_eq_append, run, after_concat]
    refine Nat.lt_succ_of_le ?_
    rcases openedAt_step s with h | ⟨h, -⟩ <;> rw [h]
    exact openedAt_le evs s

/-! ## The way of a replay -/

/-- A replay in flight : its instruction, or its result. -/
def InFlight (f : Fleet) (p : Packet) : Prop :=
  p ∈ f.instructs ∧ p.msg.type = .replayInstruct ∨ p ∈ f.replies ∧ p.msg.type = .replayResult

/-- No replay is forwarded under the request id of one in flight, and no connection is accepted
on the handle that a result in flight is to go to. -/
structure ReplaySafe (f : Fleet) (e : Event) : Prop where
  requestId : ∀ s m ent target, f.input e = some (.message s m) →
    f.coord.Forwards s m ent target → ∀ p, f.InFlight p → p.msg.requestId ≠ m.requestId
  handle : ∀ s, f.input e = some (.accept s) →
    ∀ p, f.InFlight p → f.coord.pendingReplays p.msg.requestId ≠ some s

/-- The packet `p` goes back to a replay that the client on `s` asked for. -/
def Asked (o : IterationOrder GraphNodeId) (ops : FloatOps) (evs : List Event) (p : Packet)
    (s : Sock) : Prop :=
  ∃ m ent, evs[p.born]? = some (.client s m) ∧ m.requestId = p.msg.requestId ∧
    (run o ops (evs.take p.born)).coord.Forwards s m ent p.sock

/-- The result of `p` will go to `s` : the connection that asked, if it is still open. -/
structure Leads (f : Fleet) (p : Packet) (s : Sock) : Prop where
  pending : f.coord.pendingReplays p.msg.requestId = some s
  opened : f.openedAt s < p.born
  client : (f.coord.conns s).isSome → f.peers s = .client

/-- Every replay in flight leads to its asker, and has its request id for itself. -/
structure Routed (o : IterationOrder GraphNodeId) (ops : FloatOps) (evs : List Event) : Prop where
  leads : ∀ p, (run o ops evs).InFlight p →
    ∃ s, Asked o ops evs p s ∧ (run o ops evs).Leads p s
  distinct : ∀ p q, (run o ops evs).InFlight p → (run o ops evs).InFlight q →
    p.msg.requestId = q.msg.requestId → p.born = q.born

theorem Asked.concat {s : Sock} (h : Asked o ops evs p s) (e : Event) :
    Asked o ops (evs ++ [e]) p s := by
  obtain ⟨m, ent, hev, hid, hf⟩ := h
  have hlt : p.born < evs.length := (List.getElem?_eq_some_iff.mp hev).1
  refine ⟨m, ent, ?_, hid, ?_⟩
  · rwa [List.getElem?_append_left hlt]
  · rwa [List.take_append_of_le_length hlt.le]

theorem InFlight.mem_borns (h : f.InFlight p) : p.born ∈ f.borns := by
  rcases h with ⟨hp, -⟩ | ⟨hp, -⟩
  · exact mem_borns_of_instructs hp
  · exact mem_borns_of_replies hp

/-- A replay in flight was in flight before, or is forwarded now. -/
theorem inFlight_step (h : (f.step o ops e).InFlight p) :
    (∃ q, f.InFlight q ∧ p.born = q.born ∧ p.sock = q.sock ∧
      p.msg.requestId = q.msg.requestId) ∨
    (p.born = f.clock ∧ ∃ s m ent, f.input e = some (.message s m) ∧
      f.coord.Forwards s m ent p.sock ∧ p.msg = f.coord.replayInstruct m ent) := by
  rcases h with ⟨hp, htype⟩ | ⟨hp, htype⟩
  · rcases mem_instructs hp with hp | hp
    · exact .inl ⟨p, .inl ⟨hp, htype⟩, rfl, rfl, rfl⟩
    · obtain ⟨hsent, hborn, -⟩ := mem_posted hp
      obtain ⟨ev, hin, hsent⟩ := Option.bind_eq_some_iff.mp hsent
      obtain ⟨s, m, ent, rfl, hf, hmsg⟩ := Coordinator.forwards_of_sent hsent htype
      exact .inr ⟨hborn, s, m, ent, hin, hf, hmsg⟩
  · rcases mem_replies hp with ⟨hp, -⟩ | ⟨-, -, -, -, hreg, -⟩ | ⟨q, hq, hsock, hborn, hechoes, -⟩
    · exact .inl ⟨p, .inr ⟨hp, htype⟩, rfl, rfl, rfl⟩
    · cases hreg.symm.trans htype
    · refine .inl ⟨q, .inl ⟨hq, ?_⟩, hborn, hsock, hechoes.requestId⟩
      rcases hechoes.type with ⟨-, hcap⟩ | ⟨hinst, -⟩
      · cases hcap.symm.trans htype
      · exact hinst

/-- A client stays at its end of an open connection. -/
theorem peers_client_step {s : Sock} (hpeer : f.peers s = .client)
    (hconn : (f.coord.conns s).isSome) (he : e ≠ .close s) :
    (f.step o ops e).peers s = .client := by
  have hupdate (t : Sock) (x : Peer) (ht : t ≠ s) : Function.update f.peers t x s = .client := by
    rwa [Function.update_of_ne ht.symm]
  show (f.surroundings o ops e).peers s = .client
  cases e with
  | connect t =>
    simp only [surroundings]
    split
    · exact hpeer
    · rename_i hnone
      exact hupdate t _ fun hts => by simp [← hts, hnone] at hconn
  | launch t wid pid =>
    simp only [surroundings]
    split
    · exact hpeer
    · rename_i hnone
      exact hupdate t _ fun hts => by simp [← hts, hnone] at hconn
  | client t m => exact hpeer
  | garbage t => exact hpeer
  | deliver i => exact hpeer
  | exit t =>
    simp only [surroundings]
    split
    · rename_i w hw
      exact hupdate t _ fun hts => by simp [hts, hpeer] at hw
    · exact hpeer
  | close t => exact hupdate t _ fun hts => he (by rw [hts])
  | work i =>
    simp only [surroundings, work]
    split
    · exact hpeer
    · rename_i q hq
      split
      · rename_i w hw
        have hne : q.sock ≠ s := fun hts => by simp [hts, hpeer] at hw
        split
        · exact hupdate q.sock _ hne
        · exact hupdate q.sock _ hne
      · exact hpeer

/-- A replay in flight keeps its way, unless a result under its request id arrives. -/
theorem Leads.after_step {s : Sock} (h : f.Leads p s) (hp : f.InFlight p) (hsafe : f.ReplaySafe e)
    (hresult : ∀ t m, f.input e = some (.message t m) → m.type = .replayResult →
      m.requestId ≠ p.msg.requestId) : (f.step o ops e).Leads p s := by
  have haccept : f.input e ≠ some (.accept s) := fun hin => hsafe.handle s hin p hp h.pending
  constructor
  · rcases hin : f.input e with _ | ev
    · rw [step, hin]
      exact h.pending
    · rw [step_coord_of_input hin]
      rcases Coordinator.pendingReplays_next f.coord ev p.msg.requestId with
        hsame | ⟨t, m, ent, target, rfl, hf, hid⟩ | ⟨t, m, rfl, htype, hid, -⟩
      · rw [hsame]
        exact h.pending
      · exact absurd hid (hsafe.requestId t m ent target hin hf p hp)
      · exact absurd hid.symm (hresult t m hin htype)
  · rcases openedAt_step s with hsame | ⟨-, hin⟩
    · rw [hsame]
      exact h.opened
    · exact absurd hin haccept
  · intro hconn
    rcases hin : f.input e with _ | ev
    · rw [step, hin] at hconn
      refine peers_client_step (h.client hconn) hconn ?_
      rintro rfl
      cases hin
    · rw [step_coord_of_input hin] at hconn
      rcases Coordinator.isSome_conns_of_next hconn with ⟨hev, hconn⟩ | rfl
      · refine peers_client_step (h.client hconn) hconn ?_
        rintro rfl
        exact hev (Option.some.inj hin).symm
      · exact absurd hin haccept

theorem Routed.concat (h : Routed o ops evs) (hroles : (run o ops evs).Roles)
    (hclient : ∀ s m, e = .client s m → m.type ∉ [.register, .replayResult])
    (hsafe : (run o ops evs).ReplaySafe e) : Routed o ops (evs ++ [e]) := by
  set f := run o ops evs with hf
  have hrun : run o ops (evs ++ [e]) = f.step o ops e := after_concat
  constructor
  · intro p hp
    rw [hrun] at hp ⊢
    rcases inFlight_step hp with ⟨q, hq, hborn, hsock, hid⟩ | ⟨hborn, s, m, ent, hin, hfwd, hmsg⟩
    · obtain ⟨s, hasked, hleads⟩ := h.leads q hq
      have hleads' : (f.step o ops e).Leads q s := by
        refine hleads.after_step hq hsafe fun t m hin htype hideq => ?_
        rcases input_message hin with ⟨rfl, -⟩ | ⟨i, r, rfl, hr, rfl, rfl⟩
        · exact hclient t m rfl (by simp [htype])
        · -- the result would be of this very replay, which then is no longer in flight
          have hrq := h.distinct r q (.inr ⟨List.mem_of_getElem? hr, htype⟩) hq hideq
          have hspent : (f.step o ops (.deliver i)).Spent r.born :=
            (numbered_run evs).spent_deliver hr
          rw [hrq, ← hborn] at hspent
          exact hspent.2 hp.mem_borns
      refine ⟨s, ?_, ?_, ?_, hleads'.client⟩
      · unfold Asked
        rw [hborn, hsock, hid]
        exact hasked.concat e
      · rw [hid]
        exact hleads'.pending
      · rw [hborn]
        exact hleads'.opened
    · rcases input_message hin with ⟨rfl, hpeer⟩ | ⟨i, r, rfl, hr, rfl, rfl⟩
      · have hclock : p.born = evs.length := hborn.trans (clock_run evs)
        refine ⟨s, ⟨m, ent, ?_, ?_, ?_⟩, ?_, ?_, fun _ => hpeer⟩
        · rw [hclock, List.getElem?_concat_length]
        · rw [hmsg]
          rfl
        · rw [hclock, List.take_left]
          exact hfwd
        · rw [step_coord_of_input hin, Coordinator.next, hfwd.step_eq, hmsg]
          exact Function.update_self _ _ _
        · rw [hborn]
          exact openedAt_lt evs (by simp [← hf, hpeer])
      · exact absurd hfwd.type (hroles.types r (List.mem_of_getElem? hr))
  · intro p q hp hq hid
    rw [hrun] at hp hq
    rcases inFlight_step hp with ⟨p', hp', hpborn, -, hpid⟩ | ⟨hpborn, s, m, ent, hin, hfwd, hmsg⟩
    · rcases inFlight_step hq with ⟨q', hq', hqborn, -, hqid⟩ | ⟨-, s, m, ent, hin, hfwd, hmsg⟩
      · rw [hpborn, hqborn]
        exact h.distinct p' q' hp' hq' (hpid.symm.trans (hid.trans hqid))
      · refine absurd ?_ (hsafe.requestId s m ent q.sock hin hfwd p' hp')
        rw [← hpid, hid, hmsg]
        rfl
    · rcases inFlight_step hq with ⟨q', hq', -, -, hqid⟩ | ⟨hqborn, -⟩
      · refine absurd ?_ (hsafe.requestId s m ent p.sock hin hfwd q' hq')
        rw [← hqid, ← hid, hmsg]
        rfl
      · rw [hpborn, hqborn]

theorem routed_run (evs : List Event) (hclients : ClientsAvoid [.register, .replayResult] evs)
    (hsafe : Throughout (step o ops) {} ReplaySafe evs) : Routed o ops evs := by
  induction evs using List.reverseRecOn with
  | nil =>
    have hnone : ∀ p, ¬ (run o ops []).InFlight p := by
      rintro p (⟨hp, -⟩ | ⟨hp, -⟩) <;> cases hp
    exact ⟨fun p hp => absurd hp (hnone p), fun p q hp => absurd hp (hnone p)⟩
  | append_singleton evs e ih =>
    obtain ⟨hevs, he⟩ := hclients.concat
    obtain ⟨hsafe, hlast⟩ := throughout_concat.mp hsafe
    exact (ih hevs hsafe).concat (roles_run evs hevs) he hlast

/-- On `e` the coordinator forwards the result `p` to `t`. -/
def ForwardsResult (f : Fleet) (e : Event) (p : Packet) (t : Sock) : Prop :=
  ∃ i resp, e = .deliver i ∧ f.replies[i]? = some p ∧ p.msg.type = .replayResult ∧
    f.sent e = some (t, resp) ∧ resp.type = .replayResult

/-- Replay results reach the client that asked. -/
structure ResultsRouted (o : IterationOrder GraphNodeId) (ops : FloatOps) (evs : List Event) :
    Prop where
  /-- A result is forwarded to the handle whose replay produced it, which has not been opened
  anew since then. -/
  toAsker : ∀ pre e post p t, evs = pre ++ e :: post → (run o ops pre).ForwardsResult e p t →
    Asked o ops pre p t ∧ (run o ops pre).openedAt t < p.born
  /-- No two results are forwarded that go back to one replay. -/
  once : ∀ pre e mid e' post p p' t t', evs = pre ++ e :: mid ++ e' :: post →
    (run o ops pre).ForwardsResult e p t → (run o ops (pre ++ e :: mid)).ForwardsResult e' p' t' →
    p.born ≠ p'.born
  /-- No replay result is sent to a worker. -/
  notToWorker : ∀ pre e post t resp, evs = pre ++ e :: post →
    (run o ops pre).sent e = some (t, resp) → resp.type = .replayResult →
    (∀ w, (run o ops pre).peers t ≠ .worker w) ∧
      ∀ c, (run o ops pre).coord.conns t = some c → c.isWorker = false

/-- What is known of a run on which no replay takes the request id of one in flight. -/
theorem routed_pre {pre post : List Event} (h : evs = pre ++ post)
    (hclients : ClientsAvoid [.register, .replayResult] evs)
    (hsafe : Throughout (step o ops) {} ReplaySafe evs) :
    Routed o ops pre ∧ (run o ops pre).Roles := by
  have hpre : ClientsAvoid [.register, .replayResult] pre :=
    fun s m hm => hclients s m (by simp [h, hm])
  refine ⟨routed_run pre hpre fun pre' e post' hsplit => ?_, roles_run pre hpre⟩
  exact hsafe pre' e (post' ++ post) (by simp [h, hsplit])

theorem Leads.sent_eq {s t : Sock} {i : ℕ} {resp : ProtocolMessage} (h : f.Leads p s)
    (hp : f.replies[i]? = some p) (htype : p.msg.type = .replayResult)
    (hsent : f.sent (.deliver i) = some (t, resp)) (hresp : resp.type = .replayResult) : t = s := by
  obtain ⟨ev, hin, hsent⟩ := Option.bind_eq_some_iff.mp hsent
  obtain ⟨s', m, rfl, hm⟩ := Coordinator.replayResult_of_sent hsent hresp
  obtain ⟨p', hp', heq⟩ := Option.map_eq_some_iff.mp hin
  obtain rfl := Option.some.inj (hp.symm.trans hp')
  cases heq
  rcases hm with ⟨hm, -⟩ | ⟨-, ht⟩
  · cases hm.symm.trans htype
  · rwa [h.pending] at ht

/-- In a run where no replay is forwarded under the request id of one in flight, and no handle
that a result in flight is to go to is given out again, replay results reach the client that
asked. -/
theorem results_routed (o : IterationOrder GraphNodeId) (ops : FloatOps) (evs : List Event)
    (hclients : ClientsAvoid [.register, .replayResult] evs)
    (hsafe : Throughout (step o ops) {} ReplaySafe evs) : ResultsRouted o ops evs := by
  constructor
  · rintro pre e post p t hsplit ⟨i, resp, rfl, hp, htype, hsent, hresp⟩
    obtain ⟨hrouted, -⟩ := routed_pre hsplit hclients hsafe
    obtain ⟨s, hasked, hleads⟩ := hrouted.leads p (.inr ⟨List.mem_of_getElem? hp, htype⟩)
    obtain rfl := hleads.sent_eq hp htype hsent hresp
    exact ⟨hasked, hleads.opened⟩
  · rintro pre e mid e' post p p' t t' - ⟨i, resp, rfl, hp, -⟩ ⟨i', resp', rfl, hp', -⟩ hborn
    have hspent : ((run o ops pre).step o ops (.deliver i)).Spent p.born :=
      (numbered_run pre).spent_deliver hp
    have hlater : (run o ops (pre ++ .deliver i :: mid)).Spent p.born := by
      rw [run, after_append]
      exact hspent.after_run mid
    rw [hborn] at hlater
    exact hlater.2 (mem_borns_of_replies (List.mem_of_getElem? hp'))
  · intro pre e post t resp hsplit hsent hresp
    obtain ⟨hrouted, hroles⟩ := routed_pre hsplit hclients hsafe
    -- the receiver is a client, or its connection has closed
    have hclient : ((run o ops pre).coord.conns t).isSome → (run o ops pre).peers t = .client := by
      obtain ⟨ev, hin, hev⟩ := Option.bind_eq_some_iff.mp hsent
      obtain ⟨s, m, rfl, hm⟩ := Coordinator.replayResult_of_sent hev hresp
      rcases input_message hin with ⟨rfl, hpeer⟩ | ⟨i, p, rfl, hp, rfl, rfl⟩
      · rcases hm with ⟨-, rfl⟩ | ⟨hm, -⟩
        · exact fun _ => hpeer
        · exact absurd (by simp [hm]) (hclients s m (by simp [hsplit]))
      · rcases hm with ⟨hm, -⟩ | ⟨hm, -⟩
        · exact absurd hm (hroles.types p (List.mem_of_getElem? hp))
        · obtain ⟨s, -, hleads⟩ := hrouted.leads p (.inr ⟨List.mem_of_getElem? hp, hm⟩)
          obtain rfl := hleads.sent_eq hp hm hsent hresp
          exact hleads.client
    constructor
    · intro w hw
      have hopen := (linked_run pre).peers t (by rw [hw]; simp)
      cases hw.symm.trans (hclient hopen)
    · intro c hc
      exact hroles.clients t c (hclient (by simp [hc])) hc

/-- No replay is in flight, or `e` neither brings a replay nor opens a connection. -/
def quiet (f : Fleet) (e : Event) : Bool :=
  f.instructs.all (·.msg.type ≠ .replayInstruct) && f.replies.all (·.msg.type ≠ .replayResult) ||
    match f.input e with
    | some (.accept _) => false
    | some (.message _ m) => m.type ≠ .replayInstruct
    | _ => true

theorem replaySafe_of_quiet (h : f.quiet e = true) : f.ReplaySafe e := by
  rcases Bool.or_eq_true_iff.mp h with hnone | hother
  · have hnone : ∀ p, ¬ f.InFlight p := by
      rw [Bool.and_eq_true, List.all_eq_true, List.all_eq_true] at hnone
      rintro p (⟨hp, htype⟩ | ⟨hp, htype⟩)
      · simpa [htype] using hnone.1 p hp
      · simpa [htype] using hnone.2 p hp
    exact ⟨fun _ _ _ _ _ _ p hp => absurd hp (hnone p), fun _ _ p hp => absurd hp (hnone p)⟩
  · constructor
    · intro s m ent target hin hf
      simp [hin, hf.type] at hother
    · intro s hin
      simp [hin] at hother

/-- A replay of the empty graph, on no input. -/
def emptyReplay : ProtocolMessage where
  type := .replayInstruct
  requestId := 9
  payload := CanonicalWriter.take [putStr 1 (str "4e665454ed9cf45c:06008474acab38c0"), putU32 2 0]

/-- The client of `captureRun` has its graph replayed. -/
def replayRun : List Event :=
  captureRun ++ [.deliver 0, .client 2 emptyReplay, .work 0, .deliver 0]

set_option maxRecDepth 100000 in
theorem results_routed_first : ResultsRouted (.insertion _) .unit replayRun := by
  have hquiet : Throughout (step (.insertion _) .unit) {} (fun f e => f.quiet e = true)
      replayRun := by decide +kernel
  exact results_routed _ _ replayRun (by decide) (hquiet.imp fun f e => replaySafe_of_quiet)

/-- Two clients ask for the replay under one request id, and the worker answers the first. -/
def misroutedRun : List Event :=
  captureRun ++
    [.deliver 0, .connect 3, .client 2 emptyReplay, .client 3 emptyReplay, .work 0]

def misrouted : Fleet := run (.insertion _) .unit misroutedRun

set_option maxRecDepth 100000 in
/-- The result of the first replay, event 8 of the run, goes to the second client. -/
theorem misrouted_facts : ∃ p resp, misrouted.replies[0]? = some p ∧
    misrouted.sent (.deliver 0) = some (3, resp) ∧ p.msg.type = .replayResult ∧
    resp.type = .replayResult ∧ p.born = 8 := by
  have hfacts : (misrouted.replies[0]?.bind fun p =>
      (misrouted.sent (.deliver 0)).map fun r => decide (r.1 = 3 ∧ p.msg.type = .replayResult ∧
        r.2.type = .replayResult ∧ p.born = 8)) = some true := by decide +kernel
  obtain ⟨p, hp, hfacts⟩ := Option.bind_eq_some_iff.mp hfacts
  obtain ⟨⟨t, resp⟩, hsent, hfacts⟩ := Option.map_eq_some_iff.mp hfacts
  obtain ⟨rfl, hfacts⟩ := of_decide_eq_true hfacts
  exact ⟨p, resp, hp, hsent, hfacts⟩

theorem result_misrouted :
    ¬ ∀ (o : IterationOrder GraphNodeId) (ops : FloatOps) (evs : List Event),
      ClientsAvoid [.register, .replayResult] evs → ResultsRouted o ops evs := by
  intro h
  obtain ⟨p, resp, hp, hsent, htype, hresp, hborn⟩ := misrouted_facts
  have hrouted := h (.insertion _) .unit (misroutedRun ++ [.deliver 0]) (by decide)
  obtain ⟨⟨m, ent, hasker, -⟩, -⟩ := hrouted.toAsker misroutedRun (.deliver 0) [] p 3 rfl
    ⟨0, resp, rfl, hp, htype, hsent, hresp⟩
  rw [hborn] at hasker
  have hsecond : misroutedRun[8]? = some (.client 2 emptyReplay) := rfl
  cases Option.some.inj (hsecond.symm.trans hasker)

end Fleet

end GraphCache
