import GraphCache.Freshness
import GraphCache.Worker

/-!
# Authority and registration

What the authority fields of a message decide, in any state of the coordinator. A message that
names an old epoch, an old cache generation or an old boot changes nothing and is answered to its
sender only (`stale_authority_inert`). Zero names nothing : the worker id 0 is not checked, even
if somebody has registered under it (`stale_boot_of_worker_zero`).

A registration carries an epoch like any other message, and `worker_main` fills in 1. So a worker
that starts after the epoch has rolled is refused (`new_worker_joins`).
-/

namespace GraphCache

namespace Coordinator

variable {st : Coordinator} {s : Sock} {m : ProtocolMessage}

/-! ## Stale authority -/

/-- A message under an authority that is not current : another epoch, or, for a type that is
checked further, another cache generation or a boot that is `staleBoot`. -/
def Outdated (staleBoot : Prop) (st : Coordinator) (m : ProtocolMessage) : Prop :=
  m.epoch ≠ 0 ∧ m.epoch ≠ st.epoch ∨
    m.type ≠ .register ∧ m.type ≠ .hello ∧
      (m.cacheGen ≠ 0 ∧ m.cacheGen ≠ st.cacheGen ∨ staleBoot)

/-- The boot of the worker that `m` names is known, and `m` carries another one. -/
def NamesOtherBoot (st : Coordinator) (m : ProtocolMessage) : Prop :=
  ∃ b, st.workerBoot m.workerId = some b ∧ m.workerBoot ≠ 0 ∧ m.workerBoot ≠ b

/-- Nothing changes but what the loop keeps of the connection, and only `s` gets a reply. -/
def Inert (st : Coordinator) (s : Sock) (m : ProtocolMessage) : Prop :=
  st.next (.message s m) = { st with conns := (st.next (.message s m)).conns } ∧
    ∃ resp, st.sent (.message s m) = some (s, resp)

theorem inert_register (hopen : (st.conns s).isSome) (hm : m.type = .register)
    (he : st.staleEpoch m = true) : st.Inert s m := by
  obtain ⟨c, hc⟩ := Option.isSome_iff_exists.mp hopen
  have hstep : st.step (.message s m) =
      (st, some (s, st.statusMessage .registerAck m.requestId .staleEpoch)) := by
    simp [step, hc, handle, hm, handleRegister, he]
  simp [Inert, next, sent, hstep]

theorem inert_hello (hopen : (st.conns s).isSome) (hm : m.type = .hello) : st.Inert s m := by
  obtain ⟨c, hc⟩ := Option.isSome_iff_exists.mp hopen
  have hstep : st.step (.message s m) = st.handleHello s c m := by
    simp [step, hc, handle, hm]
  simp [Inert, next, sent, hstep, handleHello]

theorem inert_refused (hopen : (st.conns s).isSome) (hr : m.type ≠ .register)
    (hh : m.type ≠ .hello) (hc : ¬ st.Current m) : st.Inert s m := by
  obtain ⟨type, status, -, hstep⟩ := step_refused hopen hr hh hc
  simp [Inert, next, sent, hstep]

/-- A message that is outdated leaves the state as it is and is answered to its sender only. A
boot counts if neither the worker id nor the boot on record is zero. -/
theorem stale_authority_inert (st : Coordinator) (s : Sock) (m : ProtocolMessage)
    (hopen : (st.conns s).isSome)
    (h : st.Outdated (m.workerId ≠ 0 ∧ st.bootFor m.workerId ≠ 0 ∧ st.NamesOtherBoot m) m) :
    st.Inert s m := by
  by_cases hr : m.type = .register
  · rcases h with hepoch | ⟨hne, -⟩
    · exact inert_register hopen hr (by simpa [staleEpoch] using hepoch)
    · exact absurd hr hne
  by_cases hh : m.type = .hello
  · exact inert_hello hopen hh
  refine inert_refused hopen hr hh fun hc => ?_
  obtain ⟨hepoch, hgen, hboot⟩ := hc
  rcases h with h | ⟨-, -, h | ⟨hid, hknown, b, hb, hne, hother⟩⟩
  · tauto
  · tauto
  · have hfor : st.bootFor m.workerId = b := by simp [bootFor, hb]
    rw [hfor] at hboot hknown
    tauto

/-- The state once handle 1 is open. -/
def greeted : Coordinator := run [.accept 1]

theorem stale_authority_inert_epoch : greeted.Inert 1 { type := .invalidate, epoch := 7 } :=
  stale_authority_inert greeted 1 _ (by decide) (.inl (by decide))

/-- Handle 1 registers as worker 0 with boot 5, and sends a `Shutdown` under boot 7. -/
theorem stale_boot_of_worker_zero :
    ¬ ∀ (st : Coordinator) (s : Sock) (m : ProtocolMessage), (st.conns s).isSome →
      st.Outdated (st.NamesOtherBoot m) m → st.Inert s m := by
  intro h
  have hinert := h (run [.accept 1, .message 1 { type := .register, workerBoot := 5 }]) 1
    { type := .shutdown, workerBoot := 7 } (by decide)
    (.inr ⟨by decide, by decide, .inr ⟨5, by decide, by decide, by decide⟩⟩)
  have hrunning := congrArg Coordinator.running hinert.1
  revert hrunning
  decide

/-! ## Registration -/

/-- In every run, a new worker under an id that is not connected is acknowledged exactly if the
epoch is still the first one. -/
theorem new_worker_joins (evs : List Event) (s : Sock) (wid : WorkerId) (pid : UInt64)
    (hopen : ((run evs).conns s).isSome) (hnew : wid ∉ (run evs).workerConnected) :
    (∃ ack, (run evs).sent (.message s (Worker.start wid pid).registerMessage) = some (s, ack) ∧
      ack.type = .registerAck ∧ ack.status = .ok) ↔ (run evs).epoch = 1 := by
  obtain ⟨c, hc⟩ := Option.isSome_iff_exists.mp hopen
  have hid : (Worker.start wid pid).registerMessage.workerId = wid := rfl
  have hepoch : (run evs).staleEpoch (Worker.start wid pid).registerMessage = true ↔
      (run evs).epoch ≠ 1 := by
    have hone : (Worker.start wid pid).registerMessage.epoch = 1 := rfl
    simp only [staleEpoch, hone, decide_eq_true_eq]
    exact ⟨fun h => h.2.symm, fun h => ⟨by decide, h.symm⟩⟩
  have hstep : (run evs).sent (.message s (Worker.start wid pid).registerMessage) =
      ((run evs).handleRegister s c (Worker.start wid pid).registerMessage).2 := by
    simp [sent, step, hc, handle, Worker.registerMessage]
  rw [hstep, handleRegister]
  by_cases he : (run evs).epoch = 1
  · rw [if_neg (by simpa [hepoch] using he), hid, if_neg (by simp [hnew])]
    simp [he, statusMessage]
  · have hne : ProtocolStatus.staleEpoch ≠ .ok := by decide
    rw [if_pos (hepoch.mpr he)]
    simp only [he, iff_false]
    rintro ⟨ack, hack, -, hok⟩
    obtain ⟨-, rfl⟩ := Prod.mk.inj (Option.some.inj hack)
    exact hne hok

theorem new_worker_joins_first :
    ∃ ack, greeted.sent (.message 1 (Worker.start 7 5).registerMessage) = some (1, ack) ∧
      ack.type = .registerAck ∧ ack.status = .ok :=
  (new_worker_joins [.accept 1] 1 7 5 (by decide) (by decide)).mpr rfl

/-- A client has the epoch rolled, and then a worker starts. -/
theorem new_worker_refused :
    ¬ ∀ (evs : List Event) (s : Sock) (wid : WorkerId) (pid : UInt64),
      ((run evs).conns s).isSome → wid ∉ (run evs).workerConnected →
      ∃ ack, (run evs).sent (.message s (Worker.start wid pid).registerMessage) = some (s, ack) ∧
        ack.type = .registerAck ∧ ack.status = .ok := by
  intro h
  obtain ⟨ack, hsent, -, hok⟩ := h [.accept 1, .message 1 { type := .invalidate, flags := 1 },
    .accept 2] 2 7 5 (by decide) (by decide)
  have hrefused : ((run [.accept 1, .message 1 { type := .invalidate, flags := 1 },
      .accept 2]).sent (.message 2 (Worker.start 7 5).registerMessage)).map (·.2.status) =
      some .staleEpoch := by decide
  rw [hsent, Option.map_some, hok] at hrefused
  exact absurd hrefused (by decide)

end Coordinator

end GraphCache
