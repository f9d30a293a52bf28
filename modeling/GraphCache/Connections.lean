import GraphCache.Freshness

/-!
# The tables of connections

Five tables of the coordinator refer to connections : the set of connected workers, and the handles
in `worker_sock`, in `pending`, in `pending_replays` and of the loop itself. A connection that
closes takes its worker id out of the first, and its handle stays in the others.

`matched_iff` says exactly which runs keep the tables in step with the open connections : those
on which no connection closes while its handle is stored or while another one is registered under
its worker id, and none registers again under another id that leaves the first without a
connection (`Tidy`).
-/

namespace GraphCache

namespace Coordinator

open History

variable {st : Coordinator} {s t : Sock} {m : ProtocolMessage} {ev : Event} {evs : List Event}
  {c : Conn} {wid : WorkerId}

/-- The worker id that a connection is registered under. -/
def Conn.role (c : Conn) : Option WorkerId :=
  if c.isWorker then some c.workerId else none

/-- The worker id that an open connection is registered under. -/
def roleAt (st : Coordinator) (s : Sock) : Option WorkerId :=
  (st.conns s).bind Conn.role

/-- The tables match the open connections. -/
structure Matched (st : Coordinator) : Prop where
  connected : ∀ wid, wid ∈ st.workerConnected ↔ ∃ s, st.roleAt s = some wid
  workerSock : ∀ wid s, st.workerSock wid = some s → (st.conns s).isSome
  pending : ∀ a pc, st.pending a = some pc → (st.conns pc.clientSock).isSome
  pendingReplays : ∀ r s, st.pendingReplays r = some s → (st.conns s).isSome

/-- A connection closes only when no table holds its handle, and none but it is registered under
its worker id; and it registers under another id only when the first one keeps a connection. -/
structure Tidy (st : Coordinator) (ev : Event) : Prop where
  workerSock : ∀ s, ev = .close s → (st.conns s).isSome → ∀ wid, st.workerSock wid ≠ some s
  pending : ∀ s, ev = .close s → (st.conns s).isSome →
    ∀ a pc, st.pending a = some pc → pc.clientSock ≠ s
  pendingReplays : ∀ s, ev = .close s → (st.conns s).isSome → ∀ r, st.pendingReplays r ≠ some s
  others : ∀ s wid, ev = .close s → st.roleAt s = some wid → ∀ t, st.roleAt t = some wid → t = s
  moves : ∀ s c m wid, ev = .message s m → st.Joins s c m → st.roleAt s = some wid →
    wid ≠ m.workerId → ∃ t ≠ s, st.roleAt t = some wid

/-! ## What a step does to the tables -/

/-- Serving a message stores no new handle of a worker that is connected. -/
theorem workerSock_serve (hsock : ∀ wid ∈ st.workerConnected, (st.workerSock wid).isSome) :
    (st.serve s m).1.workerSock = st.workerSock := by
  rcases links_serve.2.2 with hsame | ⟨wid, hwid, hins⟩
  · exact hsame
  · obtain ⟨t, ht⟩ := Option.isSome_iff_exists.mp (hsock wid hwid)
    rw [hins, insertSock, Function.update_eq_self_iff, ht]
    rfl

/-- What an input does not change unless a connection closes or a worker joins. -/
structure Settled (st st' : Coordinator) : Prop where
  roleAt : st'.roleAt = st.roleAt
  workerConnected : st'.workerConnected = st.workerConnected
  workerSock : st'.workerSock = st.workerSock

theorem settled_update (hs : st.conns s = some c ∨ st.conns s = none ∧ c.isWorker = false)
    {c' : Conn} (hw : c'.isWorker = c.isWorker) (hid : c'.workerId = c.workerId) :
    st.Settled { st with conns := Function.update st.conns s (some c') } := by
  refine ⟨funext fun t => ?_, rfl, rfl⟩
  by_cases hts : t = s
  · subst hts
    rcases hs with hs | ⟨hs, hc⟩
    · simp [Coordinator.roleAt, Conn.role, hs, hw, hid]
    · simp [Coordinator.roleAt, Conn.role, hs, hw, hc]
  · simp [Coordinator.roleAt, Function.update_of_ne hts]

/-- Unless a connection closes or a worker joins, all this stays as it is. -/
theorem settled_next (hsock : ∀ wid ∈ st.workerConnected, (st.workerSock wid).isSome)
    (hclose : ∀ s c, ev = .close s → st.conns s ≠ some c)
    (hjoin : ∀ s c m, ev = .message s m → ¬ st.Joins s c m) : st.Settled (st.next ev) := by
  have hrfl : st.Settled st := ⟨rfl, rfl, rfl⟩
  cases ev with
  | accept s =>
    simp only [next, step]
    split
    · exact hrfl
    · rename_i hconn
      exact settled_update (c := {}) (.inr ⟨hconn, rfl⟩) rfl rfl
  | malformed s =>
    simp only [next, step]
    split <;> exact hrfl
  | close s =>
    rcases hconn : st.conns s with _ | c
    · simp only [next, step, hconn]
      exact hrfl
    · exact absurd hconn (hclose s c rfl)
  | message s m =>
    by_cases hr : m.type = .register
    · rw [next_register hr fun c => hjoin s c m rfl]
      exact hrfl
    rcases hconn : st.conns s with _ | c
    · simp only [next, step, hconn]
      exact hrfl
    have hopen : (st.conns s).isSome := by simp [hconn]
    by_cases hh : m.type = .hello
    · simp only [next, step, hconn, handle, hh, reduceCtorEq, if_false, if_true, handleHello]
      exact settled_update (.inl hconn) rfl rfl
    by_cases hc : st.Current m
    · rw [next, step_served hopen hr hh hc]
      refine ⟨?_, links_serve.2.1, workerSock_serve hsock⟩
      unfold Coordinator.roleAt
      rw [links_serve.1]
    · obtain ⟨_, _, -, hstep⟩ := step_refused hopen hr hh hc
      rw [next, hstep]
      exact hrfl

/-- A capture or a replay that is pending is that of an open connection, as long as no connection
closes. -/
theorem Matched.pending_next (h : st.Matched)
    (hopen : ∀ t, (st.conns t).isSome → ((st.next ev).conns t).isSome) :
    (∀ a pc, (st.next ev).pending a = some pc → ((st.next ev).conns pc.clientSock).isSome) ∧
      ∀ r t, (st.next ev).pendingReplays r = some t → ((st.next ev).conns t).isSome := by
  constructor
  · intro a pc hpc
    rcases Coordinator.pending_next hpc with ⟨s, m, g, wl, wid, rfl, hd, -, rfl⟩ | ⟨hold, -⟩
    · exact hopen s hd.isOpen
    · exact hopen _ (h.pending a pc hold)
  · intro r t ht
    rcases pendingReplays_next st ev r with hsame | ⟨s, m, e, target, rfl, hf, rfl⟩ |
      ⟨-, -, -, -, -, hnone⟩
    · exact hopen t (h.pendingReplays r t (hsame ▸ ht))
    · rw [next, hf.step_eq] at ht
      have ht : Function.update st.pendingReplays m.requestId (some s) m.requestId = some t := ht
      rw [Function.update_self] at ht
      obtain rfl := Option.some.inj ht
      exact hopen s hf.isOpen
    · rw [hnone] at ht
      cases ht

/-! ## One step -/

theorem Matched.next_settled (h : st.Matched) (hs : st.Settled (st.next ev))
    (hopen : ∀ t, (st.conns t).isSome → ((st.next ev).conns t).isSome) :
    (st.next ev).Matched := by
  refine ⟨fun wid => ?_, fun wid t ht => ?_, (h.pending_next hopen).1, (h.pending_next hopen).2⟩
  · rw [hs.workerConnected, hs.roleAt]
    exact h.connected wid
  · rw [hs.workerSock] at ht
    exact hopen t (h.workerSock wid t ht)

theorem Joins.roleAt_next (h : st.Joins s c m) :
    (st.next (.message s m)).roleAt = Function.update st.roleAt s (some m.workerId) := by
  funext t
  rw [h.next_eq]
  by_cases hts : t = s
  · subst hts
    simp [roleAt, Conn.role]
  · simp [roleAt, Function.update_of_ne hts]

/-- A worker that joins keeps the tables in step exactly if the id it leaves has a connection. -/
theorem Matched.joins_iff (h : st.Matched) (hj : st.Joins s c m) :
    (st.next (.message s m)).Matched ↔
      ∀ wid, st.roleAt s = some wid → wid ≠ m.workerId → ∃ t ≠ s, st.roleAt t = some wid := by
  have hrole := hj.roleAt_next
  have hmem : ∀ wid, wid ∈ (st.next (.message s m)).workerConnected ↔
      wid = m.workerId ∨ wid ∈ st.workerConnected := by
    intro wid
    rw [hj.next_eq]
    exact List.mem_insert_iff
  have hopen : ∀ t, (st.conns t).isSome → ((st.next (.message s m)).conns t).isSome :=
    fun t ht => isSome_conns_next ht nofun
  constructor
  · intro h' wid hwid hne
    obtain ⟨t, ht⟩ := (h'.connected wid).mp ((hmem wid).mpr (.inr ((h.connected wid).mpr ⟨s, hwid⟩)))
    rw [hrole] at ht
    have hts : t ≠ s := by
      rintro rfl
      rw [Function.update_self] at ht
      exact hne (Option.some.inj ht).symm
    rw [Function.update_of_ne hts] at ht
    exact ⟨t, hts, ht⟩
  · intro hmoves
    refine ⟨fun wid => ?_, fun wid t ht => ?_, (h.pending_next hopen).1, (h.pending_next hopen).2⟩
    · rw [hmem, hrole]
      constructor
      · intro hwid
        by_cases heq : wid = m.workerId
        · exact ⟨s, by rw [Function.update_self, heq]⟩
        · obtain ⟨t, ht⟩ := (h.connected wid).mp (hwid.resolve_left heq)
          by_cases hts : t = s
          · obtain ⟨t', hne, ht'⟩ := hmoves wid (hts ▸ ht) heq
            exact ⟨t', by rwa [Function.update_of_ne hne]⟩
          · exact ⟨t, by rwa [Function.update_of_ne hts]⟩
      · rintro ⟨t, ht⟩
        by_cases hts : t = s
        · rw [hts, Function.update_self] at ht
          exact .inl (Option.some.inj ht).symm
        · rw [Function.update_of_ne hts] at ht
          exact .inr ((h.connected wid).mpr ⟨t, ht⟩)
    · refine hopen t ?_
      rw [hj.next_eq] at ht
      have ht : Function.update st.workerSock m.workerId (some s) wid = some t := ht
      by_cases hw : wid = m.workerId
      · rw [hw, Function.update_self] at ht
        obtain rfl := Option.some.inj ht
        simp [hj.conn]
      · rw [Function.update_of_ne hw] at ht
        exact h.workerSock wid t ht

theorem next_close (hc : st.conns s = some c) : st.next (.close s) =
    { st with
      workerConnected := if c.isWorker then st.workerConnected.filter (· ≠ c.workerId)
        else st.workerConnected
      conns := Function.update st.conns s none } := by
  simp [next, step, hc]

theorem roleAt_close (hc : st.conns s = some c) :
    (st.next (.close s)).roleAt = Function.update st.roleAt s none := by
  funext t
  rw [next_close hc]
  by_cases hts : t = s
  · subst hts
    simp [roleAt]
  · simp [roleAt, Function.update_of_ne hts]

theorem mem_connected_close (hc : st.conns s = some c) :
    wid ∈ (st.next (.close s)).workerConnected ↔
      wid ∈ st.workerConnected ∧ st.roleAt s ≠ some wid := by
  have hrole : st.roleAt s = if c.isWorker then some c.workerId else none := by
    simp [roleAt, Conn.role, hc]
  rw [next_close hc, hrole]
  cases c.isWorker with
  | false => simp
  | true =>
    simp only [if_true, List.mem_filter, decide_eq_true_eq, ne_eq, Option.some.injEq]
    exact and_congr_right fun _ => not_congr eq_comm

theorem isSome_close (hc : st.conns s = some c) :
    ((st.next (.close s)).conns t).isSome ↔ t ≠ s ∧ (st.conns t).isSome := by
  rw [next_close hc]
  by_cases hts : t = s
  · simp [hts]
  · simp [hts]

/-- A connection that closes keeps the tables in step exactly if no handle of it is stored and no
other connection is registered under its id. -/
theorem Matched.close_iff (h : st.Matched) (hc : st.conns s = some c) :
    (st.next (.close s)).Matched ↔ (∀ wid, st.workerSock wid ≠ some s) ∧
      (∀ a pc, st.pending a = some pc → pc.clientSock ≠ s) ∧
      (∀ r, st.pendingReplays r ≠ some s) ∧
      ∀ wid, st.roleAt s = some wid → ∀ t, st.roleAt t = some wid → t = s := by
  have hnext := next_close hc
  have hsock : (st.next (.close s)).workerSock = st.workerSock := by rw [hnext]
  have hpending : (st.next (.close s)).pending = st.pending := by rw [hnext]
  have hreplays : (st.next (.close s)).pendingReplays = st.pendingReplays := by rw [hnext]
  have hrole := roleAt_close hc
  constructor
  · intro h'
    refine ⟨fun wid hwid => ?_, fun a pc hpc heq => ?_, fun r hr => ?_, fun wid hs t ht => ?_⟩
    · exact ((isSome_close hc).mp (h'.workerSock wid s (hsock ▸ hwid))).1 rfl
    · exact ((isSome_close hc).mp (h'.pending a pc (hpending ▸ hpc))).1 heq
    · exact ((isSome_close hc).mp (h'.pendingReplays r s (hreplays ▸ hr))).1 rfl
    · by_contra hts
      have ht' : (st.next (.close s)).roleAt t = some wid := by
        rw [hrole, Function.update_of_ne hts, ht]
      exact ((mem_connected_close hc).mp ((h'.connected wid).mpr ⟨t, ht'⟩)).2 hs
  · rintro ⟨hsocks, hpendings, hreplay, hothers⟩
    refine ⟨fun wid => ?_, fun wid t ht => ?_, fun a pc hpc => ?_, fun r t ht => ?_⟩
    · rw [mem_connected_close hc, hrole]
      constructor
      · rintro ⟨hwid, hs⟩
        obtain ⟨t, ht⟩ := (h.connected wid).mp hwid
        refine ⟨t, ?_⟩
        rwa [Function.update_of_ne]
        rintro rfl
        exact hs ht
      · rintro ⟨t, ht⟩
        have hts : t ≠ s := by
          rintro rfl
          simp at ht
        rw [Function.update_of_ne hts] at ht
        exact ⟨(h.connected wid).mpr ⟨t, ht⟩, fun hs => hts (hothers wid hs t ht)⟩
    · rw [hsock] at ht
      refine (isSome_close hc).mpr ⟨?_, h.workerSock wid t ht⟩
      rintro rfl
      exact hsocks wid ht
    · rw [hpending] at hpc
      exact (isSome_close hc).mpr ⟨hpendings a pc hpc, h.pending a pc hpc⟩
    · rw [hreplays] at ht
      refine (isSome_close hc).mpr ⟨?_, h.pendingReplays r t ht⟩
      rintro rfl
      exact hreplay r ht

theorem Matched.next_iff (h : st.Matched)
    (hsock : ∀ wid ∈ st.workerConnected, (st.workerSock wid).isSome) :
    (st.next ev).Matched ↔ st.Tidy ev := by
  by_cases hclose : ∃ s c, ev = .close s ∧ st.conns s = some c
  · obtain ⟨s, c, rfl, hc⟩ := hclose
    have hopen : (st.conns s).isSome := by simp [hc]
    rw [h.close_iff hc]
    constructor
    · rintro ⟨hsocks, hpending, hreplays, hothers⟩
      refine ⟨?_, ?_, ?_, ?_, fun _ _ _ _ hev => by cases hev⟩
      · rintro _ ⟨⟩ -
        exact hsocks
      · rintro _ ⟨⟩ -
        exact hpending
      · rintro _ ⟨⟩ -
        exact hreplays
      · rintro _ wid ⟨⟩
        exact hothers wid
    · intro ht
      exact ⟨ht.workerSock s rfl hopen, ht.pending s rfl hopen, ht.pendingReplays s rfl hopen,
        fun wid => ht.others s wid rfl⟩
  by_cases hjoin : ∃ s c m, ev = .message s m ∧ st.Joins s c m
  · obtain ⟨s, c, m, rfl, hj⟩ := hjoin
    rw [h.joins_iff hj]
    constructor
    · intro hmoves
      refine ⟨nofun, nofun, nofun, nofun, ?_⟩
      rintro _ _ _ wid ⟨⟩ -
      exact hmoves wid
    · exact fun ht wid => ht.moves s c m wid rfl hj
  · have hclosed : ∀ s c, ev = .close s → st.conns s ≠ some c :=
      fun s c hev hc => hclose ⟨s, c, hev, hc⟩
    have hnot : ∀ s, ev = .close s → ¬ (st.conns s).isSome := by
      intro s hev hopen
      obtain ⟨c, hc⟩ := Option.isSome_iff_exists.mp hopen
      exact hclosed s c hev hc
    have hjoins : ∀ s c m, ev = .message s m → ¬ st.Joins s c m :=
      fun s c m hev hj => hjoin ⟨s, c, m, hev, hj⟩
    constructor
    · intro _
      refine ⟨fun s hev hopen => absurd hopen (hnot s hev),
        fun s hev hopen => absurd hopen (hnot s hev),
        fun s hev hopen => absurd hopen (hnot s hev), fun s wid hev hrole => ?_,
        fun s c m wid hev hj => absurd hj (hjoins s c m hev)⟩
      obtain ⟨c, hc, -⟩ := Option.bind_eq_some_iff.mp hrole
      exact absurd hc (hclosed s c hev)
    · intro _
      refine h.next_settled (settled_next hsock hclosed hjoins) fun t ht => ?_
      exact isSome_conns_next ht fun hev => hnot t hev ht

/-! ## Whole runs -/

/-- A worker that is connected has a handle. -/
theorem sighted_run (evs : List Event) :
    ∀ wid ∈ (run evs).workerConnected, ((run evs).workerSock wid).isSome := by
  induction evs using List.reverseRecOn with
  | nil => nofun
  | append_singleton evs ev ih =>
    rw [run, after_concat]
    intro wid hwid
    by_cases hclose : ∃ s c, ev = .close s ∧ (run evs).conns s = some c
    · obtain ⟨s, c, rfl, hc⟩ := hclose
      have hold := ((mem_connected_close hc).mp hwid).1
      rw [next_close hc]
      exact ih wid hold
    by_cases hjoin : ∃ s c m, ev = .message s m ∧ (run evs).Joins s c m
    · obtain ⟨s, c, m, rfl, hj⟩ := hjoin
      rw [hj.next_eq] at hwid ⊢
      by_cases hw : wid = m.workerId
      · simp [hw]
      · simpa [hw] using ih wid ((List.mem_insert_iff.mp hwid).resolve_left hw)
    · have hs : (run evs).Settled ((run evs).next ev) := settled_next ih
        (fun s c hev hc => hclose ⟨s, c, hev, hc⟩) fun s c m hev hj => hjoin ⟨s, c, m, hev, hj⟩
      rw [hs.workerConnected] at hwid
      rw [hs.workerSock]
      exact ih wid hwid

/-- The tables match the open connections all along a run exactly if each of its inputs is
tidy. -/
theorem matched_iff (evs : List Event) :
    Always next {} Matched evs ↔ Throughout next {} Tidy evs := by
  induction evs using List.reverseRecOn with
  | nil =>
    refine iff_of_true (always_nil.mpr ⟨fun wid => ?_, nofun, nofun, nofun⟩) throughout_nil
    simp [roleAt]
  | append_singleton evs ev ih =>
    rw [always_concat, throughout_concat, ih, after_concat]
    refine and_congr_right fun htidy => ?_
    have hmatched : (run evs).Matched := ih.mpr htidy evs [] (by simp)
    exact hmatched.next_iff (sighted_run evs)

/-- A worker registers and closes : its handle stays in `worker_sock`. -/
theorem not_matched_closed : ¬ ∀ evs : List Event, Always next {} Matched evs := by
  intro h
  have hsock : (run [.accept 1, .message 1 { type := .register, workerId := 7 },
      .close 1]).workerSock 7 = some 1 := by decide
  have hopen := (h [.accept 1, .message 1 { type := .register, workerId := 7 }, .close 1] _ []
    (by simp)).workerSock 7 1 hsock
  revert hopen
  decide

end Coordinator

end GraphCache
