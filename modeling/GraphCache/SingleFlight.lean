import GraphCache.History
import GraphCache.Types
import Mathlib.Data.Set.Card

/-!
# One capture in flight per key

`run_single_flight` of `cache.cpp`, one atomic step at a time, for any number of threads. A thread
that finds no attempt for its key in `inflight` puts a new one there and owns it : it counts itself
in `active_captures`, runs the function it was given, stores the result in the attempt and marks
it done, erases the key, counts itself out and returns. A thread that finds an attempt joins it :
it waits until the attempt is done and returns the result it reads there. The attempt is a shared
object, which outlives its place in the table.

The function is arbitrary code of the owner. `Stage.executing` carries its local state, of any
type `β`; it may move as it likes, and returns any result.
-/

namespace GraphCache

/-! ## Attempts and threads -/

/-- `CaptureAttempt`. -/
structure CaptureAttempt where
  done : Bool := false
  res : Result GraphArtifactId := .ok {}
  waiters : UInt32 := 0

/-- `inflight`, the attempts it points to, and `active_captures`. -/
structure Flights where
  attempts : ℕ → CaptureAttempt := fun _ => {}
  next : ℕ := 0
  inflight : Str → Option ℕ := fun _ => none
  activeCaptures : UInt64 := 0

/-- Where the owner of an attempt is. -/
inductive Stage (β : Type)
  | inserted
  | executing (body : β)
  | produced (res : Result GraphArtifactId)
  | completed (res : Result GraphArtifactId)
  | erased (res : Result GraphArtifactId)

/-- Where a thread is in `run_single_flight` : its key, and the attempt it owns or joined. -/
inductive Phase (β : Type)
  | outside
  | called (k : Str)
  | owner (k : Str) (a : ℕ) (stage : Stage β)
  | waiter (k : Str) (a : ℕ)
  | woken (k : Str) (a : ℕ)
  | returned (k : Str) (a : ℕ) (res : Result GraphArtifactId) (owned : Bool)

namespace Stage

variable {β : Type}

/-- Between the insert into `inflight` and the erase. -/
def inTable : Stage β → Bool
  | .erased _ => false
  | _ => true

/-- Between the increment of `active_captures` and the decrement. -/
def counted : Stage β → Bool
  | .inserted => false
  | _ => true

/-- The attempt is done. -/
def closed : Stage β → Bool
  | .completed _ | .erased _ => true
  | _ => false

/-- What the function returned. -/
def result : Stage β → Option (Result GraphArtifactId)
  | .inserted | .executing _ => none
  | .produced res | .completed res | .erased res => some res

end Stage

def Phase.key {β : Type} : Phase β → Option Str
  | .outside => none
  | .called k | .owner k _ _ | .waiter k _ | .woken k _ | .returned k _ _ _ => some k

/-- What the phase of a thread says of the table. -/
def Phase.Ok {β : Type} (f : Flights) : Phase β → Prop
  | .outside | .called _ => True
  | .owner k a st => a < f.next ∧ (st.inTable → f.inflight k = some a) ∧
      (f.attempts a).done = st.closed
  | .waiter _ a => a < f.next
  | .woken _ a | .returned _ a _ _ => a < f.next ∧ (f.attempts a).done

/-- The thread is an owner between the increment of `active_captures` and the decrement. -/
def Phase.counted {β : Type} : Phase β → Bool
  | .owner _ _ stage => stage.counted
  | _ => false

namespace Flights

/-- A new attempt for `k`. -/
def insert (f : Flights) (k : Str) : Flights :=
  { f with
    attempts := Function.update f.attempts f.next {}
    next := f.next + 1
    inflight := Function.update f.inflight k (some f.next) }

def join (f : Flights) (a : ℕ) : Flights :=
  let attempt := f.attempts a
  { f with
    attempts := Function.update f.attempts a { attempt with waiters := attempt.waiters + 1 } }

def complete (f : Flights) (a : ℕ) (res : Result GraphArtifactId) : Flights :=
  { f with attempts := Function.update f.attempts a { f.attempts a with res, done := true } }

def erase (f : Flights) (k : Str) : Flights :=
  { f with inflight := Function.update f.inflight k none }

@[simp, grind =] theorem insert_next (f : Flights) (k : Str) : (f.insert k).next = f.next + 1 := rfl

@[simp, grind =] theorem insert_inflight (f : Flights) (k k' : Str) :
    (f.insert k).inflight k' = if k' = k then some f.next else f.inflight k' :=
  Function.update_apply _ _ _ _

@[simp, grind =] theorem insert_attempts (f : Flights) (k : Str) (a : ℕ) :
    (f.insert k).attempts a = if a = f.next then {} else f.attempts a :=
  Function.update_apply _ _ _ _

@[simp, grind =] theorem join_next (f : Flights) (a : ℕ) : (f.join a).next = f.next := rfl

@[simp, grind =] theorem join_inflight (f : Flights) (a : ℕ) (k : Str) :
    (f.join a).inflight k = f.inflight k := rfl

@[simp, grind =] theorem join_done (f : Flights) (a b : ℕ) :
    ((f.join a).attempts b).done = (f.attempts b).done := by
  by_cases h : b = a <;> simp [join, h]

@[simp, grind =] theorem join_res (f : Flights) (a b : ℕ) :
    ((f.join a).attempts b).res = (f.attempts b).res := by
  by_cases h : b = a <;> simp [join, h]

@[simp, grind =] theorem complete_next (f : Flights) (a : ℕ) (res : Result GraphArtifactId) :
    (f.complete a res).next = f.next := rfl

@[simp, grind =] theorem complete_inflight (f : Flights) (a : ℕ) (res : Result GraphArtifactId)
    (k : Str) : (f.complete a res).inflight k = f.inflight k := rfl

@[simp, grind =] theorem complete_attempts (f : Flights) (a b : ℕ)
    (res : Result GraphArtifactId) : (f.complete a res).attempts b =
      if b = a then { f.attempts a with res, done := true } else f.attempts b :=
  Function.update_apply _ _ _ _

@[simp, grind =] theorem erase_next (f : Flights) (k : Str) : (f.erase k).next = f.next := rfl

@[simp, grind =] theorem erase_attempts (f : Flights) (k : Str) (a : ℕ) :
    (f.erase k).attempts a = f.attempts a := rfl

@[simp, grind =] theorem erase_inflight (f : Flights) (k k' : Str) :
    (f.erase k).inflight k' = if k' = k then none else f.inflight k' :=
  Function.update_apply _ _ _ _

variable {β : Type} (start : β)

/-- The next atomic step of a thread, but for those of the function it runs, which starts in
`start`. -/
def advance (f : Flights) : Phase β → Flights × Phase β
  | .called k =>
    match f.inflight k with
    | some a => (f.join a, .waiter k a)
    | none => (f.insert k, .owner k f.next .inserted)
  | .owner k a .inserted =>
    ({ f with activeCaptures := f.activeCaptures + 1 }, .owner k a (.executing start))
  | .owner k a (.produced res) => (f.complete a res, .owner k a (.completed res))
  | .owner k a (.completed res) => (f.erase k, .owner k a (.erased res))
  | .owner k a (.erased res) =>
    ({ f with activeCaptures := f.activeCaptures - 1 }, .returned k a res true)
  | .waiter k a => (f, if (f.attempts a).done then .woken k a else .waiter k a)
  | .woken k a => (f, .returned k a (f.attempts a).res false)
  | p => (f, p)

end Flights

/-- Threads in `run_single_flight`. -/
structure SingleFlight (β : Type) where
  flights : Flights := {}
  phase : ℕ → Phase β := fun _ => .outside

/-- What thread `t` does : it calls `run_single_flight`, takes a step there, moves in the function
or returns from it, or goes on after the call. -/
inductive FlightEvent (β : Type)
  | call (t : ℕ) (k : Str)
  | step (t : ℕ)
  | work (t : ℕ) (body : β)
  | finish (t : ℕ) (res : Result GraphArtifactId)
  | leave (t : ℕ)

namespace SingleFlight

open History

variable {β : Type}

def move (s : SingleFlight β) (t : ℕ) (p : Phase β) : SingleFlight β :=
  { s with phase := Function.update s.phase t p }

variable (start : β)

/-- An event that thread `t` is not ready for changes nothing. -/
def next (s : SingleFlight β) : FlightEvent β → SingleFlight β
  | .call t k =>
    match s.phase t with
    | .outside => s.move t (.called k)
    | _ => s
  | .step t =>
    let (flights, p) := s.flights.advance start (s.phase t)
    { s.move t p with flights }
  | .work t body =>
    match s.phase t with
    | .owner k a (.executing _) => s.move t (.owner k a (.executing body))
    | _ => s
  | .finish t res =>
    match s.phase t with
    | .owner k a (.executing _) => s.move t (.owner k a (.produced res))
    | _ => s
  | .leave t =>
    match s.phase t with
    | .returned _ _ _ _ => s.move t .outside
    | _ => s

/-- The state after a run, from the start, when no thread is inside. -/
abbrev run (evs : List (FlightEvent β)) : SingleFlight β :=
  after (next start) {} evs

/-! ## Moves -/

/-- What a thread can do : the phase it leaves and the one it reaches, and what becomes of the
table. -/
inductive Move (f : Flights) : Phase β → Flights → Phase β → Prop
  | call (k : Str) : Move f .outside f (.called k)
  | own (k : Str) (h : f.inflight k = none) :
    Move f (.called k) (f.insert k) (.owner k f.next .inserted)
  | join (k : Str) (a : ℕ) (h : f.inflight k = some a) :
    Move f (.called k) (f.join a) (.waiter k a)
  | enter (k : Str) (a : ℕ) : Move f (.owner k a .inserted)
    { f with activeCaptures := f.activeCaptures + 1 } (.owner k a (.executing start))
  | work (k : Str) (a : ℕ) (b b' : β) :
    Move f (.owner k a (.executing b)) f (.owner k a (.executing b'))
  | finish (k : Str) (a : ℕ) (b : β) (res : Result GraphArtifactId) :
    Move f (.owner k a (.executing b)) f (.owner k a (.produced res))
  | complete (k : Str) (a : ℕ) (res : Result GraphArtifactId) :
    Move f (.owner k a (.produced res)) (f.complete a res) (.owner k a (.completed res))
  | erase (k : Str) (a : ℕ) (res : Result GraphArtifactId) :
    Move f (.owner k a (.completed res)) (f.erase k) (.owner k a (.erased res))
  | exit (k : Str) (a : ℕ) (res : Result GraphArtifactId) : Move f (.owner k a (.erased res))
    { f with activeCaptures := f.activeCaptures - 1 } (.returned k a res true)
  | wake (k : Str) (a : ℕ) (h : (f.attempts a).done = true) : Move f (.waiter k a) f (.woken k a)
  | read (k : Str) (a : ℕ) : Move f (.woken k a) f (.returned k a (f.attempts a).res false)
  | leave (k : Str) (a : ℕ) (res : Result GraphArtifactId) (owned : Bool) :
    Move f (.returned k a res owned) f .outside

variable {start} {s : SingleFlight β} {f f' : Flights} {p p' : Phase β} {ev : FlightEvent β}
  {evs : List (FlightEvent β)} {t u : ℕ} {k k' : Str} {a a' : ℕ} {stage : Stage β}
  {res res' : Result GraphArtifactId}

theorem advance_cases (start : β) (f : Flights) (p : Phase β) : f.advance start p = (f, p) ∨
    Move start f p (f.advance start p).1 (f.advance start p).2 := by
  rcases p with _ | k | ⟨k, a, _ | b | res | res | res⟩ | ⟨k, a⟩ | ⟨k, a⟩ | ⟨k, a, res, owned⟩
  · exact .inl rfl
  · rcases h : f.inflight k with _ | a
    · refine .inr ?_
      simp only [Flights.advance, h]
      exact .own k h
    · refine .inr ?_
      simp only [Flights.advance, h]
      exact .join k a h
  · exact .inr (.enter k a)
  · exact .inl rfl
  · exact .inr (.complete k a res)
  · exact .inr (.erase k a res)
  · exact .inr (.exit k a res)
  · by_cases h : (f.attempts a).done
    · refine .inr ?_
      simp only [Flights.advance, h, if_true]
      exact .wake k a h
    · exact .inl (by simp [Flights.advance, h])
  · exact .inr (.read k a)
  · exact .inl rfl

theorem key_advance (start : β) (f : Flights) (p : Phase β) : (f.advance start p).2.key = p.key := by
  rcases p with _ | k | ⟨k, a, _ | b | res | res | res⟩ | ⟨k, a⟩ | ⟨k, a⟩ | ⟨k, a, res, owned⟩
  case called =>
    rcases h : f.inflight k with _ | a <;> simp [Flights.advance, h, Phase.key]
  case waiter =>
    simp only [Flights.advance]
    split_ifs <;> rfl
  all_goals rfl

/-- An event changes nothing, or it moves one thread. -/
theorem next_cases (start : β) (s : SingleFlight β) (ev : FlightEvent β) : s.next start ev = s ∨
    ∃ t p f p', s.phase t = p ∧ Move start s.flights p f p' ∧
      s.next start ev = ⟨f, Function.update s.phase t p'⟩ := by
  cases ev with
  | call t k =>
    rcases hp : s.phase t with _ | k' | ⟨k', a, st⟩ | ⟨k', a⟩ | ⟨k', a⟩ | ⟨k', a, res, owned⟩
    case outside => exact .inr ⟨t, _, _, _, hp, .call k, by simp [next, hp, move]⟩
    all_goals exact .inl (by simp [next, hp])
  | step t =>
    rcases advance_cases start s.flights (s.phase t) with h | h
    · refine .inl ?_
      simp [next, h, move, Function.update_eq_self]
    · exact .inr ⟨t, _, _, _, rfl, h, rfl⟩
  | work t b =>
    rcases hp : s.phase t with _ | k | ⟨k, a, _ | b' | res | res | res⟩ | ⟨k, a⟩ | ⟨k, a⟩ |
      ⟨k, a, res, owned⟩
    case owner.executing =>
      exact .inr ⟨t, _, _, _, hp, .work k a b' b, by simp [next, hp, move]⟩
    all_goals exact .inl (by simp [next, hp])
  | finish t res =>
    rcases hp : s.phase t with _ | k | ⟨k, a, _ | b | res' | res' | res'⟩ | ⟨k, a⟩ | ⟨k, a⟩ |
      ⟨k, a, res', owned⟩
    case owner.executing =>
      exact .inr ⟨t, _, _, _, hp, .finish k a b res, by simp [next, hp, move]⟩
    all_goals exact .inl (by simp [next, hp])
  | leave t =>
    rcases hp : s.phase t with _ | k | ⟨k, a, st⟩ | ⟨k, a⟩ | ⟨k, a⟩ | ⟨k, a, res, owned⟩
    case returned =>
      exact .inr ⟨t, _, _, _, hp, .leave k a res owned, by simp [next, hp, move]⟩
    all_goals exact .inl (by simp [next, hp])

/-- A move is the effect of some event. -/
theorem Move.event (hm : Move start s.flights p f p') (hp : s.phase t = p) :
    ∃ ev, s.next start ev = ⟨f, Function.update s.phase t p'⟩ := by
  cases hm with
  | call k => exact ⟨.call t k, by simp [next, move, hp]⟩
  | work k a b b' => exact ⟨.work t b', by simp [next, move, hp]⟩
  | finish k a b res => exact ⟨.finish t res, by simp [next, move, hp]⟩
  | leave k a res owned => exact ⟨.leave t, by simp [next, move, hp]⟩
  | own k h => exact ⟨.step t, by simp [next, move, hp, Flights.advance, h]⟩
  | join k a h => exact ⟨.step t, by simp [next, move, hp, Flights.advance, h]⟩
  | wake k a h => exact ⟨.step t, by simp [next, move, hp, Flights.advance, h]⟩
  | _ => exact ⟨.step t, by simp [next, move, hp, Flights.advance]⟩

/-- What holds at the start and is kept by every move holds at every moment. -/
theorem run_invariant {I : SingleFlight β → Prop} (h₀ : I {})
    (hmove : ∀ {s t p f p'}, I s → s.phase t = p → Move start s.flights p f p' →
      I ⟨f, Function.update s.phase t p'⟩) (evs : List (FlightEvent β)) : I (run start evs) := by
  induction evs using List.reverseRecOn with
  | nil => exact h₀
  | append_singleton evs ev ih =>
    rw [run, after_concat]
    rcases next_cases start (run start evs) ev with h | ⟨t, p, f, p', hp, hm, h⟩
    · rwa [h]
    · rw [h]
      exact hmove ih hp hm

/-! ## The invariant -/

/-- The table holds only attempts whose owners are between insert and erase, each attempt has one
owner, and a thread waits for an attempt that is done or has an owner. -/
structure Inv (s : SingleFlight β) : Prop where
  ok : ∀ t, (s.phase t).Ok s.flights
  owned : ∀ k a, s.flights.inflight k = some a → ∃ t st, s.phase t = .owner k a st ∧ st.inTable
  one : ∀ t u k k' a st st', s.phase t = .owner k a st → s.phase u = .owner k' a st' → t = u
  waits : ∀ t k a, s.phase t = .waiter k a →
    (s.flights.attempts a).done ∨ ∃ u st, s.phase u = .owner k a st

theorem Move.done (hm : Move start f p f' p') (ha : a < f.next) (hd : (f.attempts a).done) :
    (f'.attempts a).done := by
  cases hm <;> grind

theorem Move.of_done (hm : Move start f p f' p') (hd : (f'.attempts a).done) :
    (f.attempts a).done ∨ ∃ k res, p = .owner k a (.produced res) := by
  cases hm with
  | complete k b res =>
    by_cases hab : a = b
    · exact .inr ⟨k, res, by rw [hab]⟩
    · exact .inl (by simpa [hab] using hd)
  | _ => exact .inl (by grind)

theorem Move.inflight (hm : Move start f p f' p') (h : f'.inflight k = some a) :
    f.inflight k = some a ∨ p' = .owner k a .inserted := by
  cases hm <;> grind

/-- The thread that moves keeps its attempt, takes it out of the table, or leaves it done. -/
theorem Move.owner (hm : Move start f (.owner k a stage) f' p') :
    (∃ st, p' = .owner k a st ∧ (stage.inTable → st.inTable ∨ f'.inflight k = none)) ∨
      stage.closed ∧ stage.inTable = false := by
  cases hm <;> simp [Stage.inTable, Stage.closed]

/-- A thread gets to own an attempt only when it is new. -/
theorem Move.of_owner (hm : Move start f p f' (.owner k a stage)) :
    (∃ st, p = .owner k a st) ∨ a = f.next := by
  cases hm <;> simp

theorem Move.of_inserted (hm : Move start f p f' (.owner k a .inserted)) : a = f.next := by
  cases hm with
  | own => rfl

theorem Move.next_le (hm : Move start f p f' p') : f.next ≤ f'.next := by
  cases hm <;> simp

theorem Move.of_executing {b : β} (hm : Move start f p f' (.owner k a (.executing b))) :
    p = .owner k a .inserted ∨ ∃ b, p = .owner k a (.executing b) := by
  cases hm with
  | enter => exact .inl rfl
  | work _ _ b _ => exact .inr ⟨b, rfl⟩

theorem Move.of_waiter (hm : Move start f p f' (.waiter k a)) :
    p = .called k ∧ f.inflight k = some a := by
  cases hm with
  | join _ _ h => exact ⟨rfl, h⟩

/-- What the phase it reaches says of the table is so. -/
theorem Move.ok (hm : Move start f p f' p') (hp : p.Ok f)
    (hin : ∀ k a, f.inflight k = some a → a < f.next) : p'.Ok f' := by
  cases hm <;> grind [Phase.Ok, Stage.inTable, Stage.closed]

/-- So is what the others say, who own other attempts. -/
theorem Move.ok_other {q : Phase β} (hm : Move start f p f' p') (hp : p.Ok f) (hq : q.Ok f)
    (hne : ∀ k k' a st st', p = .owner k a st → q ≠ .owner k' a st') : q.Ok f' := by
  cases q with
  | outside => trivial
  | called k => trivial
  | owner k a st => cases hm <;> grind [Phase.Ok, Stage.inTable, Stage.closed]
  | waiter k a => cases hm <;> grind [Phase.Ok]
  | woken k a => cases hm <;> grind [Phase.Ok]
  | returned k a res o => cases hm <;> grind [Phase.Ok]

theorem Inv.alloc (h : s.Inv) (ht : s.phase t = .owner k a stage) : a < s.flights.next := by
  have := h.ok t
  rw [ht] at this
  exact this.1

theorem Inv.lt (h : s.Inv) (hk : s.flights.inflight k = some a) : a < s.flights.next := by
  obtain ⟨t, st, ht, -⟩ := h.owned k a hk
  exact h.alloc ht

theorem Inv.listed (h : s.Inv) (ht : s.phase t = .owner k a stage) (hst : stage.inTable) :
    s.flights.inflight k = some a := by
  have := h.ok t
  rw [ht] at this
  exact this.2.1 hst

theorem Inv.closed (h : s.Inv) (ht : s.phase t = .owner k a stage) :
    (s.flights.attempts a).done = stage.closed := by
  have := h.ok t
  rw [ht] at this
  exact this.2.2

theorem Inv.woken (h : s.Inv) (ht : s.phase t = .woken k a) : (s.flights.attempts a).done := by
  have := h.ok t
  rw [ht] at this
  exact this.2

theorem Inv.returned (h : s.Inv) {owned : Bool} (ht : s.phase t = .returned k a res owned) :
    (s.flights.attempts a).done := by
  have := h.ok t
  rw [ht] at this
  exact this.2

theorem Inv.moved (h : s.Inv) (hp : s.phase t = p) (hm : Move start s.flights p f p') :
    Inv ⟨f, Function.update s.phase t p'⟩ := by
  have hpok : p.Ok s.flights := hp ▸ h.ok t
  have hself : Function.update s.phase t p' t = p' := Function.update_self t p' s.phase
  have hother : ∀ {u}, u ≠ t → Function.update s.phase t p' u = s.phase u :=
    fun hu => Function.update_of_ne hu p' s.phase
  -- an owner among the others does not own the attempt that the mover reaches
  have hone : ∀ u k k' a st st', u ≠ t → p' = .owner k a st → s.phase u ≠ .owner k' a st' := by
    rintro u k k' a st st' hut rfl hu
    rcases hm.of_owner with ⟨st₀, rfl⟩ | rfl
    · exact hut (h.one u t k' k a st' st₀ hu hp)
    · exact absurd (h.alloc hu) (lt_irrefl _)
  refine ⟨fun u => ?_, fun k a hk => ?_, fun u v k k' a st st' hu hv => ?_, fun u k a hu => ?_⟩
  · change (Function.update s.phase t p' u).Ok f
    by_cases hut : u = t
    · rw [hut, hself]
      exact hm.ok hpok fun k a => h.lt
    · rw [hother hut]
      refine hm.ok_other hpok (h.ok u) fun k k' a st st' ht hu => hut ?_
      exact h.one u t k' k a st' st hu (hp.trans ht)
  · rcases hm.inflight hk with hold | rfl
    · obtain ⟨u, st, hu, hst⟩ := h.owned k a hold
      by_cases hut : u = t
      · obtain rfl : p = .owner k a st := by rw [← hp, ← hut, hu]
        rcases hm.owner with ⟨st', rfl, hst'⟩ | ⟨-, hst'⟩
        · exact ⟨t, st', hself, (hst' hst).resolve_right (by simp_all)⟩
        · simp [hst] at hst'
      · exact ⟨u, st, (hother hut).trans hu, hst⟩
    · exact ⟨t, .inserted, hself, rfl⟩
  · by_cases hut : u = t <;> by_cases hvt : v = t
    · rw [hut, hvt]
    · subst hut
      exact absurd ((hother hvt).symm.trans hv) (hone v k k' a st st' hvt (hself.symm.trans hu))
    · subst hvt
      exact absurd ((hother hut).symm.trans hu) (hone u k' k a st' st hut (hself.symm.trans hv))
    · exact h.one u v k k' a st st' ((hother hut).symm.trans hu) ((hother hvt).symm.trans hv)
  · by_cases hut : u = t
    · subst hut
      obtain rfl : p' = .waiter k a := hself.symm.trans hu
      obtain ⟨rfl, hk⟩ := hm.of_waiter
      obtain ⟨v, st, hv, -⟩ := h.owned k a hk
      have hvu : v ≠ u := by
        rintro rfl
        rw [hp] at hv
        cases hv
      exact .inr ⟨v, st, (hother hvu).trans hv⟩
    · have hu' : s.phase u = .waiter k a := (hother hut).symm.trans hu
      have hlt : a < s.flights.next := by
        have := h.ok u
        rwa [hu'] at this
      rcases h.waits u k a hu' with hd | ⟨v, st, hv⟩
      · exact .inl (hm.done hlt hd)
      · by_cases hvt : v = t
        · obtain rfl : p = .owner k a st := by rw [← hp, ← hvt, hv]
          rcases hm.owner with ⟨st', rfl, -⟩ | ⟨hclosed, -⟩
          · exact .inr ⟨t, st', hself⟩
          · exact .inl (hm.done hlt ((h.closed hp).trans hclosed))
        · exact .inr ⟨v, st, (hother hvt).trans hv⟩

theorem inv_run (evs : List (FlightEvent β)) : (run start evs).Inv := by
  refine run_invariant (I := Inv) ?_ (fun h hp hm => h.moved hp hm) evs
  exact ⟨fun t => trivial, by simp, by simp, by simp⟩

/-! ## Counting owners -/

/-- The owners between their increment and their decrement. -/
def active (s : SingleFlight β) : Set ℕ := {t | (s.phase t).counted}

theorem Move.counted (hm : Move start f p f' p') :
    (p'.counted = p.counted ∧ f'.activeCaptures = f.activeCaptures) ∨
    (p.counted = false ∧ p'.counted ∧ f'.activeCaptures = f.activeCaptures + 1) ∨
    (p.counted ∧ p'.counted = false ∧ f'.activeCaptures = f.activeCaptures - 1) := by
  cases hm with
  | enter k a => exact .inr (.inl ⟨rfl, rfl, rfl⟩)
  | exit k a res => exact .inr (.inr ⟨rfl, rfl, rfl⟩)
  | _ => exact .inl ⟨rfl, rfl⟩

/-- The number of owners that are counted, as `active_captures` holds it. -/
def Tallied (s : SingleFlight β) : Prop :=
  s.active.Finite ∧ s.flights.activeCaptures = UInt64.ofNat s.active.ncard

theorem Tallied.moved (h : s.Tallied) (hp : s.phase t = p) (hm : Move start s.flights p f p') :
    Tallied ⟨f, Function.update s.phase t p'⟩ := by
  obtain ⟨hfin, hcount⟩ := h
  unfold Tallied
  rcases hm.counted with ⟨hc, hf⟩ | ⟨hp', hc, hf⟩ | ⟨hp', hc, hf⟩
  · have hset : active ⟨f, Function.update s.phase t p'⟩ = s.active := by
      ext u
      by_cases hu : u = t <;> simp [active, hu, hc, hp]
    exact hset ▸ ⟨hfin, hf.trans hcount⟩
  · have hset : active ⟨f, Function.update s.phase t p'⟩ = insert t s.active := by
      ext u
      by_cases hu : u = t <;> simp [active, hu, hc]
    have ht : t ∉ s.active := by simp [active, hp, hp']
    refine hset ▸ ⟨hfin.insert t, ?_⟩
    rw [hf, hcount, Set.ncard_insert_of_notMem ht hfin, UInt64.ofNat_add]
    rfl
  · have hset : active ⟨f, Function.update s.phase t p'⟩ = s.active \ {t} := by
      ext u
      by_cases hu : u = t <;> simp [active, hu, hc]
    have ht : t ∈ s.active := by simp [active, hp, hp']
    refine hset ▸ ⟨hfin.sdiff, ?_⟩
    rw [hf, hcount, ← Set.ncard_sdiff_singleton_add_one ht hfin, UInt64.ofNat_add]
    exact UInt64.add_sub_cancel _ _

theorem tallied_run (evs : List (FlightEvent β)) : (run start evs).Tallied := by
  refine run_invariant (I := Tallied) ?_ (fun h hp hm => h.moved hp hm) evs
  have hempty : active ({} : SingleFlight β) = ∅ := by
    ext t
    simp [active, Phase.counted]
  simp [Tallied, hempty]

/-! ## The result of an attempt -/

variable (start) in
/-- At some moment the function of the owner of `a` had returned `res`. -/
def Produced (a : ℕ) (res : Result GraphArtifactId) (evs : List (FlightEvent β)) : Prop :=
  Sometime (next start) {} (fun s => ∃ u k, s.phase u = .owner k a (.produced res)) evs

/-- Whoever knows a result of attempt `a` knows `res`. -/
structure Settled (a : ℕ) (res : Result GraphArtifactId) (s : SingleFlight β) : Prop where
  alloc : a < s.flights.next
  owner : ∀ t k st, s.phase t = .owner k a st → st.result = some res
  done : (s.flights.attempts a).done → (s.flights.attempts a).res = res
  returned : ∀ t k res' o, s.phase t = .returned k a res' o → res' = res

theorem Inv.settled (h : s.Inv) (hp : s.phase t = .owner k a (.produced res)) :
    s.Settled a res := by
  have hopen : (s.flights.attempts a).done = false := h.closed hp
  refine ⟨h.alloc hp, fun u k' st hu => ?_, fun hd => ?_, fun u k' r o hu => ?_⟩
  · obtain rfl := h.one t u k k' a _ st hp hu
    rw [hp] at hu
    cases hu
    rfl
  · rw [hopen] at hd
    cases hd
  · have hd := h.returned hu
    rw [hopen] at hd
    cases hd

/-- A settled attempt stays settled. -/
theorem Settled.moved (hs : s.Settled a res) (h : s.Inv) (hp : s.phase t = p)
    (hm : Move start s.flights p f p') : Settled a res ⟨f, Function.update s.phase t p'⟩ := by
  obtain ⟨h1, h2, h3, h4⟩ := hs
  -- what the thread that moves knows of `a`, the others being where they were
  have hmoved : a < f.next ∧ ((f.attempts a).done → (f.attempts a).res = res) ∧
      (∀ k st, p' = .owner k a st → st.result = some res) ∧
      (∀ k res' o, p' = .returned k a res' o → res' = res) := by
    cases hm with
    | own k hk => grind
    | join k b hb => grind
    | finish k b body r => grind [Stage.result]
    | complete k b r => grind [Stage.result]
    | erase k b r => grind [Stage.result]
    | exit k b r => grind [Stage.result]
    | enter k b => grind [Stage.result]
    | work k b x y => grind [Stage.result]
    | read k b => grind [h.woken hp]
    | _ => grind
  refine ⟨hmoved.1, fun u k st hu => ?_, hmoved.2.1, fun u k r o hu => ?_⟩
  · by_cases hut : u = t
    · subst hut
      exact hmoved.2.2.1 k st (by simpa using hu)
    · exact h2 u k st (by simpa [hut] using hu)
  · by_cases hut : u = t
    · subst hut
      exact hmoved.2.2.2 k r o (by simpa using hu)
    · exact h4 u k r o (by simpa [hut] using hu)

theorem settled_run (h : Produced start a res evs) : (run start evs).Settled a res := by
  obtain ⟨pre, post, rfl, u, k, hu⟩ := h
  induction post using List.reverseRecOn with
  | nil =>
    rw [List.append_nil]
    exact (inv_run pre).settled hu
  | append_singleton post ev ih =>
    rw [← List.append_assoc, run, after_concat]
    rcases next_cases start (run start (pre ++ post)) ev with h | ⟨t, p, f, p', hp, hm, h⟩
    · rwa [h]
    · rw [h]
      exact ih.moved (inv_run _) hp hm

variable (start) in
/-- Whoever knows a result knows one that the owner's function returned. -/
structure Told (evs : List (FlightEvent β)) : Prop where
  owner : ∀ t k a st res, (run start evs).phase t = .owner k a st → st.result = some res →
    Produced start a res evs
  done : ∀ a, ((run start evs).flights.attempts a).done →
    Produced start a ((run start evs).flights.attempts a).res evs
  returned : ∀ t k a res o, (run start evs).phase t = .returned k a res o → Produced start a res evs

theorem Told.moved (h : Told start evs) (hp : (run start evs).phase t = p)
    (hm : Move start (run start evs).flights p f p')
    (hnext : run start (evs ++ [ev]) = ⟨f, Function.update (run start evs).phase t p'⟩) :
    Told start (evs ++ [ev]) := by
  have hold : ∀ {a res}, Produced start a res evs → Produced start a res (evs ++ [ev]) :=
    fun h => h.append [ev]
  have hphase : ∀ u, (run start (evs ++ [ev])).phase u =
      if u = t then p' else (run start evs).phase u := fun u => by
    rw [hnext]
    exact Function.update_apply _ _ _ _
  have howner : ∀ k a st res, p = .owner k a st → st.result = some res →
      Produced start a res (evs ++ [ev]) :=
    fun k a st res hp' hres => hold (h.owner t k a st res (hp.trans hp') hres)
  have hmoved : (∀ k a st res, p' = .owner k a st → st.result = some res →
        Produced start a res (evs ++ [ev])) ∧
      (∀ a, (f.attempts a).done → Produced start a (f.attempts a).res (evs ++ [ev])) ∧
      (∀ k a res o, p' = .returned k a res o → Produced start a res (evs ++ [ev])) := by
    have hdone : ∀ a, ((run start evs).flights.attempts a).done →
        Produced start a ((run start evs).flights.attempts a).res (evs ++ [ev]) :=
      fun a hd => hold (h.done a hd)
    cases hm with
    | finish k a b res =>
      have hnow : Produced start a res (evs ++ [ev]) := .now ⟨t, k, by rw [hphase]; simp⟩
      grind [Stage.result]
    | complete k a res =>
      have hres := howner k a _ res rfl rfl
      grind [Stage.result]
    | erase k a res =>
      have hres := howner k a _ res rfl rfl
      grind [Stage.result]
    | exit k a res =>
      have hres := howner k a _ res rfl rfl
      grind
    | read k a =>
      have hres := hdone a ((inv_run evs).woken hp)
      grind
    | _ => grind [Stage.result]
  refine ⟨fun u k a st res hu hres => ?_, fun a hd => ?_, fun u k a res o hu => ?_⟩
  · rw [hphase] at hu
    split_ifs at hu
    · exact hmoved.1 k a st res hu hres
    · exact hold (h.owner u k a st res hu hres)
  · rw [hnext] at hd ⊢
    exact hmoved.2.1 a hd
  · rw [hphase] at hu
    split_ifs at hu
    · exact hmoved.2.2 k a res o hu
    · exact hold (h.returned u k a res o hu)

theorem told_run (evs : List (FlightEvent β)) : Told start evs := by
  induction evs using List.reverseRecOn with
  | nil => constructor <;> simp
  | append_singleton evs ev ih =>
    have hstep : run start (evs ++ [ev]) = (run start evs).next start ev := after_concat
    rcases next_cases start (run start evs) ev with h | ⟨t, p, f, p', hp, hm, h⟩
    · refine ⟨?_, ?_, ?_⟩ <;> rw [hstep, h]
      · exact fun t k a st res ht hres => (ih.owner t k a st res ht hres).append [ev]
      · exact fun a hd => (ih.done a hd).append [ev]
      · exact fun t k a res o ht => (ih.returned t k a res o ht).append [ev]
    · exact ih.moved hp hm (hstep.trans h)

/-! ## A waiter returns -/

/-- The owner of an attempt that is not done can complete it, once its function returns. -/
theorem completes (start : β) (hu : s.phase u = .owner k a stage) (hopen : stage.closed = false)
    (res : Result GraphArtifactId) : ∃ more, ((after (next start) s more).flights.attempts a).done ∧
      ∀ t ≠ u, (after (next start) s more).phase t = s.phase t := by
  cases stage with
  | inserted =>
    refine ⟨[.step u, .finish u res, .step u], ?_, fun t ht => ?_⟩
    · simp [after, next, move, Flights.advance, hu]
    · simp [after, next, move, Flights.advance, hu, ht]
  | executing b =>
    refine ⟨[.finish u res, .step u], ?_, fun t ht => ?_⟩
    · simp [after, next, move, Flights.advance, hu]
    · simp [after, next, move, Flights.advance, hu, ht]
  | produced r =>
    refine ⟨[.step u], ?_, fun t ht => ?_⟩
    · simp [after, next, move, Flights.advance, hu]
    · simp [after, next, move, Flights.advance, hu, ht]
  | completed r => cases hopen
  | erased r => cases hopen

theorem returns_of_done (ht : s.phase t = .waiter k a) (hd : (s.flights.attempts a).done) :
    (after (next start) s [.step t, .step t]).phase t =
      .returned k a (s.flights.attempts a).res false := by
  simp [after, next, move, Flights.advance, ht, hd]

/-- A thread that waits is never stuck : steps of the owner and its own make it return. -/
theorem returns (ht : (run start evs).phase t = .waiter k a) :
    ∃ more res, (run start (evs ++ more)).phase t = .returned k a res false := by
  by_cases hd : ((run start evs).flights.attempts a).done
  · refine ⟨[.step t, .step t], ((run start evs).flights.attempts a).res, ?_⟩
    rw [run, after_append]
    exact returns_of_done ht hd
  · obtain ⟨u, st, hu⟩ := ((inv_run evs).waits t k a ht).resolve_left hd
    have hopen : st.closed = false := by
      rw [← (inv_run evs).closed hu]
      simpa using hd
    obtain ⟨more, hdone, hother⟩ := completes start hu hopen (.ok {})
    have htu : t ≠ u := by
      rintro rfl
      rw [ht] at hu
      cases hu
    refine ⟨more ++ [.step t, .step t],
      ((after (next start) (run start evs) more).flights.attempts a).res, ?_⟩
    rw [run, after_append, after_append]
    exact returns_of_done ((hother t htu).trans ht) hdone

/-! ## Single flight -/

variable (start) in
/-- At this moment : one thread at most runs the function for a key; a thread that joined an attempt
returns what its owner's function returned, and nothing keeps it from returning; a key is in the
table exactly while an owner is between insert and erase; and `active_captures` is the number of
owners between increment and decrement. -/
structure Guarantees (evs : List (FlightEvent β)) : Prop where
  exclusive : ∀ t u k a b x y, (run start evs).phase t = .owner k a (.executing x) →
    (run start evs).phase u = .owner k b (.executing y) → t = u
  shared : ∀ t k a res, (run start evs).phase t = .returned k a res false →
    Produced start a res evs ∧ ∀ res', Produced start a res' evs → res' = res
  returns : ∀ t k a, (run start evs).phase t = .waiter k a →
    ∃ more res, (run start (evs ++ more)).phase t = .returned k a res false
  inflight : ∀ k, ((run start evs).flights.inflight k).isSome ↔
    ∃ t a st, (run start evs).phase t = .owner k a st ∧ st.inTable
  active : (run start evs).flights.activeCaptures = UInt64.ofNat (run start evs).active.ncard
  idle : (∀ t, (run start evs).phase t = .outside) → (run start evs).flights.activeCaptures = 0

theorem Inv.exclusive (h : s.Inv) {x y : β} (ht : s.phase t = .owner k a (.executing x))
    (hu : s.phase u = .owner k a' (.executing y)) : t = u := by
  have ha : s.flights.inflight k = some a := h.listed ht rfl
  have ha' : s.flights.inflight k = some a' := h.listed hu rfl
  obtain rfl : a = a' := Option.some.inj (ha.symm.trans ha')
  exact h.one t u k k a _ _ ht hu

/-- Whatever the threads do, and in whatever order. -/
theorem single_flight (start : β) (evs : List (FlightEvent β)) : Guarantees start evs := by
  have hinv : (run start evs).Inv := inv_run evs
  obtain ⟨-, hcount⟩ : (run start evs).Tallied := tallied_run evs
  refine ⟨fun t u k a b x y => hinv.exclusive, fun t k a res ht => ⟨?_, fun res' hres' => ?_⟩,
    fun t k a => returns, fun k => ⟨fun hk => ?_, ?_⟩, hcount, fun hout => ?_⟩
  · exact (told_run evs).returned t k a res false ht
  · exact ((settled_run hres').returned t k res false ht).symm
  · obtain ⟨a, ha⟩ := Option.isSome_iff_exists.mp hk
    obtain ⟨t, st, ht, hst⟩ := hinv.owned k a ha
    exact ⟨t, a, st, ht, hst⟩
  · rintro ⟨t, a, st, ht, hst⟩
    rw [hinv.listed ht hst]
    rfl
  · have hempty : (run start evs).active = ∅ := by
      ext t
      simp [SingleFlight.active, hout t, Phase.counted]
    rw [hcount, hempty, Set.ncard_empty]
    rfl

end SingleFlight

end GraphCache
