import GraphCache.FairRuns
import GraphCache.Threads
import Mathlib.Data.Prod.Lex

/-!
# Every call returns

Threads that share a cache wait for each other in one place : a lookup that finds a capture of its
key in flight waits for the thread that owns it. Under a scheduler that neglects no thread in a call
(`Threads.Fair`) every lookup and every invalidation returns, and no key stays in flight
(`calls_return`).

The owner of an attempt waits for nobody. Its steps bring it nearer to its return, and it completes
the attempt on the way (`owner_erases`); so whoever waits is woken, and every other step of a call
leaves less of it (`Pc.left`).
-/

namespace GraphCache

open FairRun

variable {Exec : Type} {cfg : Config Exec}

/-! ## What is left of a call -/

def CaptureStage.left : CaptureStage Exec → ℕ
  | .entered => 7
  | .loaded _ => 6
  | .built _ _ _ => 5
  | .drawn _ _ _ _ => 4
  | .stamped _ _ => 3
  | .checked _ _ => 2
  | .inserted _ => 1

/-- The steps that are left in `run_single_flight`, but for those in which the thread waits. -/
def Phase.left : Phase (CaptureStage Exec) → ℕ
  | .outside => 0
  | .called _ => 13
  | .owner _ _ .inserted => 12
  | .owner _ _ (.executing stage) => 4 + stage.left
  | .owner _ _ (.produced _) => 4
  | .owner _ _ (.completed _) => 3
  | .owner _ _ (.erased _) => 2
  | .waiter _ _ => 3
  | .woken _ _ => 2
  | .returned _ _ _ _ => 1

/-- The steps that are left of a call. How many targets an invalidation marks is settled when it
collects them. -/
def Pc.left : Pc Exec → ℕ ×ₗ ℕ
  | .idle | .answered _ | .invalidated _ => toLex (0, 0)
  | .started _ => toLex (0, 23)
  | .search _ miss => toLex (0, (if miss.isNone then 18 else 0) + 4)
  | .materialize _ miss _ _ => toLex (0, (if miss.isNone then 18 else 0) + 3)
  | .recheck _ miss _ _ => toLex (0, (if miss.isNone then 18 else 0) + 2)
  | .lease _ miss _ _ => toLex (0, (if miss.isNone then 18 else 0) + 1)
  | .missed _ _ => toLex (0, 18)
  | .flight _ _ _ phase => toLex (0, phase.left + 4)
  | .roll _ => toLex (2, 0)
  | .collect _ _ => toLex (1, 0)
  | .mark _ _ targets _ => toLex (0, targets.length + 1)

/-- A call of the interface. -/
inductive CallKind
  | lookup
  | invalidation

/-- The call that a thread is in, or has returned from. -/
def Pc.kind : Pc Exec → Option CallKind
  | .idle => none
  | .roll _ | .collect _ _ | .mark _ _ _ _ | .invalidated _ => some .invalidation
  | _ => some .lookup

/-- The thread is in no call. -/
def Pc.rests : Pc Exec → Bool
  | .idle | .answered _ | .invalidated _ => true
  | _ => false

theorem Threads.resting_iff {s : Threads Exec} {t : ℕ} : s.Resting t ↔ (s.pc t).rests = true := by
  unfold Threads.Resting
  cases s.pc t <;> simp [Pc.rests]

theorem toLex_lt {i n k : ℕ} (h : n < k) : toLex (i, n) < toLex (i, k) :=
  Prod.Lex.toLex_lt_toLex.mpr (.inr ⟨rfl, h⟩)

theorem left_afterMiss (s : State Exec) (l : LookupCall) (cand : GraphLookupResult Exec)
    (miss : Option (GraphLookupResult Exec × Bool)) :
    (afterMiss cfg s l cand miss).2.left ≤ toLex (0, if miss.isNone then 18 else 0) := by
  rcases miss with _ | ⟨res, owned⟩
  · rw [Option.isNone_none, if_pos rfl]
    unfold afterMiss
    dsimp only
    split_ifs
    · exact le_rfl
    · exact (toLex_lt (by decide)).le
  · exact le_rfl

theorem left_afterHit (s : State Exec) (l : LookupCall) (cand : GraphLookupResult Exec)
    (miss : Option (GraphLookupResult Exec × Bool)) :
    (afterHit s l cand miss).2.left = toLex (0, 0) := by
  rcases miss with _ | ⟨res, owned⟩ <;> rfl

theorem kind_afterMiss (s : State Exec) (l : LookupCall) (cand : GraphLookupResult Exec)
    (miss : Option (GraphLookupResult Exec × Bool)) :
    (afterMiss cfg s l cand miss).2.kind = some .lookup := by
  rcases miss with _ | ⟨res, owned⟩
  · unfold afterMiss
    dsimp only
    split_ifs <;> rfl
  · rfl

theorem kind_afterHit (s : State Exec) (l : LookupCall) (cand : GraphLookupResult Exec)
    (miss : Option (GraphLookupResult Exec × Bool)) :
    (afterHit s l cand miss).2.kind = some .lookup := by
  rcases miss with _ | ⟨res, owned⟩ <;> rfl

variable (cfg) in
/-- A step outside of `run_single_flight` leaves less, of the same call. -/
theorem engineStep_left (s : State Exec) {p : Pc Exec} (hrest : ¬p.rests)
    (hp : ∀ l res attempt phase, p ≠ .flight l res attempt phase) :
    (engineStep cfg s p).2.left < p.left ∧ (engineStep cfg s p).2.kind = p.kind := by
  have hmiss : ∀ s l cand miss, ∀ n > 0, (afterMiss cfg s l cand miss).2.left <
      toLex (0, (if miss.isNone then 18 else 0) + n) := fun s l cand miss n hn =>
    (left_afterMiss s l cand miss).trans_lt (toLex_lt (by omega))
  cases p with
  | idle | answered | invalidated => exact absurd rfl hrest
  | started l => exact ⟨toLex_lt (show 22 < 23 by decide), rfl⟩
  | search l miss =>
    simp only [engineStep]
    split
    · split
      · exact ⟨hmiss _ _ _ _ 4 (by decide), kind_afterMiss _ _ _ _⟩
      · exact ⟨hmiss _ _ _ _ 4 (by decide), kind_afterMiss _ _ _ _⟩
    · exact ⟨toLex_lt (by omega), rfl⟩
  | materialize l miss a dec =>
    simp only [engineStep]
    split
    · exact ⟨hmiss _ _ _ _ 3 (by decide), kind_afterMiss _ _ _ _⟩
    · exact ⟨toLex_lt (by omega), rfl⟩
  | recheck l miss a dec =>
    simp only [engineStep]
    split_ifs
    · exact ⟨hmiss _ _ _ _ 2 (by decide), kind_afterMiss _ _ _ _⟩
    · exact ⟨toLex_lt (by omega), rfl⟩
  | lease l miss a dec =>
    refine ⟨?_, kind_afterHit _ _ _ _⟩
    simp only [engineStep, left_afterHit]
    exact toLex_lt (by omega)
  | missed l res => exact ⟨toLex_lt (show 17 < 18 by decide), rfl⟩
  | flight l res attempt phase => exact absurd rfl (hp l res attempt phase)
  | roll req => exact ⟨Prod.Lex.toLex_lt_toLex.mpr (.inl (by decide)), rfl⟩
  | collect req newGen => exact ⟨Prod.Lex.toLex_lt_toLex.mpr (.inl Nat.zero_lt_one), rfl⟩
  | mark req newGen targets res =>
    rcases targets with _ | ⟨a, targets⟩
    · exact ⟨toLex_lt Nat.zero_lt_one, rfl⟩
    · exact ⟨toLex_lt (Nat.lt_succ_self _), rfl⟩

theorem CaptureMove.left {s s' : State Exec} {l : LookupCall} {attempt : CaptureAttemptId}
    {stage stage' : CaptureStage Exec} (h : CaptureMove cfg s l attempt stage s' stage') :
    stage'.left < stage.left := by
  cases h <;> simp [CaptureStage.left]

/-- The thread waits for an attempt that is not done. -/
def Pc.Blocked (f : Flights) (p : Pc Exec) : Prop :=
  ∃ k a, p.phase = .waiter k a ∧ (f.attempts a).done = false

variable (cfg) in
/-- A step leaves less, of the same call, unless the thread is blocked. -/
theorem advance_left (s : Shared Exec) {p : Pc Exec} (hrest : ¬p.rests)
    (hblocked : ¬p.Blocked s.flights)
    (hinside : ∀ l res attempt phase, p = .flight l res attempt phase → phase ≠ .outside) :
    (s.advance cfg p).2.left < p.left ∧ (s.advance cfg p).2.kind = p.kind := by
  cases p with
  | flight l res attempt phase =>
    rcases phase with _ | k | ⟨k, a, _ | stage | r | r | r⟩ | ⟨k, a⟩ | ⟨k, a⟩ | ⟨k, a, r, owned⟩
    case outside => exact absurd rfl (hinside _ _ _ _ rfl)
    case called =>
      rcases hk : s.flights.inflight k with _ | a
      · simp only [Shared.advance, Flights.advance, hk]
        exact ⟨toLex_lt (by simp [Phase.left]), rfl⟩
      · simp only [Shared.advance, Flights.advance, hk]
        exact ⟨toLex_lt (by simp [Phase.left]), rfl⟩
    case owner.executing =>
      simp only [Shared.advance]
      rcases hc : captureStep cfg s.engine l attempt stage with ⟨engine, stage' | r⟩
      · have hleft := (captureStep_move hc).left
        exact ⟨toLex_lt (by simp only [Phase.left]; omega), rfl⟩
      · exact ⟨toLex_lt (by cases stage <;> simp [Phase.left, CaptureStage.left]), rfl⟩
    case waiter =>
      have hdone : (s.flights.attempts a).done = true := by
        by_contra hd
        exact hblocked ⟨k, a, rfl, Bool.not_eq_true _ ▸ hd⟩
      simp only [Shared.advance, Flights.advance, hdone, if_true]
      exact ⟨toLex_lt (by simp [Phase.left]), rfl⟩
    case returned =>
      rcases r with e | id
      · exact ⟨toLex_lt (by simp [Phase.left]), rfl⟩
      · exact ⟨toLex_lt (by simp [Phase.left]), rfl⟩
    all_goals exact ⟨toLex_lt (by simp [Phase.left, CaptureStage.left]), rfl⟩
  | _ => exact engineStep_left cfg s.engine hrest (by simp)

/-! ## Fair schedules -/

namespace Threads

open History

variable (cfg) in
/-- The threads over a cache at a moment of a schedule. -/
abbrev moment (engine : State Exec) (sched : ℕ → ThreadEvent) : ℕ → Threads Exec :=
  FairRun.moment (next cfg) { engine } sched

variable (cfg) in
/-- A thread in a call is given another step. -/
def Fair (engine : State Exec) (sched : ℕ → ThreadEvent) : Prop :=
  ∀ n t, ¬(moment cfg engine sched n).Resting t → ∃ k, n ≤ k ∧ sched k = .step t

variable {engine : State Exec} {sched : ℕ → ThreadEvent} {t u : ℕ} {p : Pc Exec}

theorem moment_succ (n : ℕ) : moment cfg engine sched (n + 1) =
    (moment cfg engine sched n).next cfg (sched n) :=
  FairRun.moment_succ _ _ _ n

/-- What a moment does to a thread in a call : nothing, or it is the thread's own step. -/
theorem pc_succ {n : ℕ} (hrest : ¬((moment cfg engine sched n).pc t).rests) :
    (sched n = .step t ∧ (moment cfg engine sched (n + 1)).pc t =
        (Shared.advance cfg (moment cfg engine sched n).toShared
          ((moment cfg engine sched n).pc t)).2) ∨
      (sched n ≠ .step t ∧
        (moment cfg engine sched (n + 1)).pc t = (moment cfg engine sched n).pc t) := by
  rw [moment_succ]
  rcases next_cases cfg (moment cfg engine sched n) (sched n) with h | ⟨u, p, hu, hp, h⟩ | ⟨u, hev⟩
  · rw [h]
    by_cases hev : sched n = .step t
    · refine .inl ⟨hev, ?_⟩
      rw [hev, next] at h
      have hpc := congrFun (congrArg Threads.pc h) t
      rw [move_pc, if_pos rfl] at hpc
      exact hpc.symm
    · exact .inr ⟨hev, rfl⟩
  · have hne : t ≠ u := by
      rintro rfl
      exact hrest (resting_iff.mp hu)
    refine .inr ⟨?_, by rw [h, move_pc, if_neg hne]⟩
    rcases hp with ⟨l, hev, -⟩ | ⟨req, hev, -⟩ <;> simp [hev]
  · rw [hev, next, move_pc]
    by_cases htu : t = u
    · subst htu
      exact .inl ⟨rfl, if_pos rfl⟩
    · exact .inr ⟨fun h => htu (ThreadEvent.step.inj h).symm, if_neg htu⟩

/-- A thread in a call goes on from where it is. -/
theorem leads_step (h : Fair cfg engine sched) (hrest : ¬p.rests) :
    LeadsTo (moment cfg engine sched) (fun s => s.pc t = p) fun s =>
      ∃ sh, s.pc t = (Shared.advance cfg sh p).2 := by
  refine .of_fair (E := fun n => sched n = .step t) ?_ ?_ ?_
  · intro n (hp : (moment cfg engine sched n).pc t = p)
    rcases pc_succ (hp ▸ hrest) with ⟨-, hpc⟩ | ⟨-, hpc⟩
    · exact .inr ⟨_, hp ▸ hpc⟩
    · exact .inl (hpc.trans hp)
  · intro n (hp : (moment cfg engine sched n).pc t = p) hev
    rcases pc_succ (hp ▸ hrest) with ⟨-, hpc⟩ | ⟨hev', -⟩
    · exact ⟨_, hp ▸ hpc⟩
    · exact absurd hev hev'
  · intro n (hp : (moment cfg engine sched n).pc t = p)
    exact h n t fun hr => hrest (hp ▸ resting_iff.mp hr)

/-! ## Owners -/

theorem inv_moment (n : ℕ) : (moment cfg engine sched n).single.Inv := single_inv engine _

theorem keyed_moment (n : ℕ) : (moment cfg engine sched n).Keyed := keyed_run engine _

theorem not_rests_of_phase (h : p.phase ≠ .outside) : ¬p.rests := by
  cases p with
  | flight l res attempt phase => exact Bool.false_ne_true
  | _ => exact absurd rfl h

/-- The owner of an attempt gets to erase its key. -/
theorem owner_erases (h : Fair cfg engine sched) (u : ℕ) (k : Str) (a : ℕ) :
    LeadsTo (moment cfg engine sched) (fun s => ∃ stage, (s.pc u).phase = .owner k a stage)
      fun s => ∃ res, (s.pc u).phase = .owner k a (.erased res) := by
  refine .of_rank (fun s => (s.pc u).left) fun r n ⟨⟨stage, hstage⟩, hr⟩ => ?_
  have hflight : (((moment cfg engine sched n).pc u).phase) ≠ .outside := by
    rw [hstage]
    simp
  by_cases hin : stage.inTable = false
  · cases stage with
    | erased res => exact ⟨n, le_rfl, .inr ⟨res, hstage⟩⟩
    | _ => cases hin
  · obtain ⟨j, hnj, sh, hpc⟩ := leads_step h (not_rests_of_phase hflight) n rfl
    obtain ⟨l, res, attempt, hp⟩ := Pc.eq_flight hstage (by simp)
    have hleft := (advance_left cfg sh (not_rests_of_phase hflight)
      (by rintro ⟨k', a', hw, -⟩; rw [hstage] at hw; cases hw)
      (by rintro l' res' attempt' phase' hp' rfl; rw [hp'] at hflight; exact hflight rfl)).1
    have howner : ∃ stage', ((sh.advance cfg ((moment cfg engine sched n).pc u)).2).phase =
        .owner k a stage' := by
      rcases advance_move cfg sh ((moment cfg engine sched n).pc u) with ⟨-, hsame⟩ | hmove
      · exact ⟨stage, hsame.trans hstage⟩
      · rw [hstage] at hmove
        rcases hmove.owner with ⟨stage', hstage', -⟩ | ⟨-, hout⟩
        · exact ⟨stage', hstage'⟩
        · exact absurd hout hin
    refine ⟨j, hnj, .inl ⟨?_, ?_⟩⟩
    · rw [hpc]
      exact howner
    · rw [hpc, ← hr]
      exact hleft

/-- So an attempt that a thread waits for gets done. -/
theorem waiter_served (h : Fair cfg engine sched) (t : ℕ) (k : Str) (a : ℕ) :
    LeadsTo (moment cfg engine sched) (fun s => (s.pc t).phase = .waiter k a)
      fun s => (s.flights.attempts a).done = true := by
  intro n hw
  rcases (inv_moment n).waits t k a hw with hdone | ⟨u, stage, hu⟩
  · exact ⟨n, le_rfl, hdone⟩
  · obtain ⟨j, hnj, res, hres⟩ := owner_erases h u k a n ⟨stage, hu⟩
    exact ⟨j, hnj, (inv_moment j).closed (t := u) hres⟩

theorem done_next {s : Threads Exec} (hinv : s.single.Inv) {k : Str} {a : ℕ}
    (hw : (s.pc t).phase = .waiter k a) (hdone : (s.flights.attempts a).done = true)
    (ev : ThreadEvent) : ((s.next cfg ev).flights.attempts a).done = true := by
  have hlt : a < s.flights.next := by
    have hok := hinv.ok t
    rwa [show s.single.phase t = .waiter k a from hw] at hok
  rcases single_cases cfg s ev with hsame | ⟨u, p, f, p', -, hmove, heq⟩
  · rw [show (s.next cfg ev).flights = s.flights from congrArg SingleFlight.flights hsame]
    exact hdone
  · rw [show (s.next cfg ev).flights = f from congrArg SingleFlight.flights heq]
    exact hmove.done hlt hdone

/-- A thread that waits wakes up. -/
theorem waiter_wakes (h : Fair cfg engine sched) {l : LookupCall} {res : GraphLookupResult Exec}
    {attempt : CaptureAttemptId} {k : Str} {a : ℕ} :
    LeadsTo (moment cfg engine sched) (fun s => s.pc t = .flight l res attempt (.waiter k a))
      fun s => s.pc t = .flight l res attempt (.woken k a) := by
  have hrest : ∀ {n}, (moment cfg engine sched n).pc t = .flight l res attempt (.waiter k a) →
      ¬((moment cfg engine sched n).pc t).rests := fun hp => by
    rw [hp]
    exact Bool.false_ne_true
  have hlast : Unless (moment cfg engine sched)
      (fun s => s.pc t = .flight l res attempt (.waiter k a))
      fun s => s.pc t = .flight l res attempt (.woken k a) := by
    intro n (hp : (moment cfg engine sched n).pc t = .flight l res attempt (.waiter k a))
    rcases pc_succ (hrest hp) with ⟨-, hpc⟩ | ⟨-, hpc⟩
    · rw [hp] at hpc
      rcases hd : ((moment cfg engine sched n).flights.attempts a).done with _ | _
      · simp only [Shared.advance, Flights.advance, hd] at hpc
        exact .inl hpc
      · simp only [Shared.advance, Flights.advance, hd] at hpc
        exact .inr hpc
    · exact .inl (hpc.trans hp)
  have hserved : LeadsTo (moment cfg engine sched)
      (fun s => s.pc t = .flight l res attempt (.waiter k a))
      fun s => (s.flights.attempts a).done = true := by
    intro n (hp : (moment cfg engine sched n).pc t = .flight l res attempt (.waiter k a))
    exact waiter_served h t k a n (congrArg Pc.phase hp)
  have hwoken : LeadsTo (moment cfg engine sched)
      (fun s => s.pc t = .flight l res attempt (.waiter k a) ∧ (s.flights.attempts a).done = true)
      fun s => s.pc t = .flight l res attempt (.woken k a) := by
    refine .of_fair (E := fun n => sched n = .step t) ?_ ?_ ?_
    · rintro n ⟨hp, hd⟩
      have hd' : ((moment cfg engine sched (n + 1)).flights.attempts a).done = true := by
        rw [moment_succ]
        exact done_next (inv_moment n) (congrArg Pc.phase hp) hd (sched n)
      exact (hlast n hp).imp_left fun hp' => ⟨hp', hd'⟩
    · rintro n ⟨hp, hd⟩ hev
      rcases pc_succ (hrest hp) with ⟨-, hpc⟩ | ⟨hev', -⟩
      · rw [hp] at hpc
        simp only [Shared.advance, Flights.advance, hd] at hpc
        exact hpc
      · exact absurd hev hev'
    · rintro n ⟨hp, -⟩
      exact h n t fun hr => hrest hp (resting_iff.mp hr)
  refine (hserved.meets hlast).trans ?_
  rintro n (hn | hn)
  · exact hwoken n hn
  · exact ⟨n, le_rfl, hn⟩

/-! ## Calls -/

/-- A thread in a call returns from it. -/
theorem call_returns (h : Fair cfg engine sched) (t : ℕ) (c : CallKind) :
    LeadsTo (moment cfg engine sched) (fun s => ¬(s.pc t).rests ∧ (s.pc t).kind = some c)
      fun s => (s.pc t).rests ∧ (s.pc t).kind = some c := by
  refine .of_rank (fun s => (s.pc t).left) fun r n ⟨⟨hrest, hkind⟩, hr⟩ => ?_
  by_cases hw : ∃ k a, ((moment cfg engine sched n).pc t).phase = .waiter k a
  · obtain ⟨k, a, hw⟩ := hw
    obtain ⟨l, res, attempt, hp⟩ := Pc.eq_flight hw (by simp)
    obtain ⟨j, hnj, hpc⟩ := waiter_wakes h n hp
    rw [hp] at hkind hr
    refine ⟨j, hnj, .inl ⟨⟨?_, ?_⟩, ?_⟩⟩
    · rw [hpc]
      exact Bool.false_ne_true
    · rw [hpc]
      exact hkind
    · rw [hpc, ← hr]
      exact toLex_lt (show 6 < 7 by decide)
  · obtain ⟨j, hnj, sh, hpc⟩ := leads_step h hrest n rfl
    obtain ⟨hleft, hsame⟩ := advance_left cfg sh hrest (fun ⟨k, a, hk, _⟩ => hw ⟨k, a, hk⟩)
      (fun l res attempt phase hp hout => by
        have hkey := keyed_moment n t l res attempt phase hp
        rw [hout] at hkey
        cases hkey)
    rw [← hpc, hr] at hleft
    rw [← hpc, hkind] at hsame
    by_cases hrest' : ((moment cfg engine sched j).pc t).rests
    · exact ⟨j, hnj, .inr ⟨hrest', hsame⟩⟩
    · exact ⟨j, hnj, .inl ⟨⟨hrest', hsame⟩, hleft⟩⟩

/-- Lookups and invalidations are answered, and keys do not stay in flight. -/
structure CallsReturn (m : ℕ → Threads Exec) : Prop where
  lookup : ∀ n t, ((m n).pc t).kind = some .lookup →
    ∃ k, n ≤ k ∧ ∃ res, (m k).pc t = .answered res
  invalidate : ∀ n t, ((m n).pc t).kind = some .invalidation →
    ∃ k, n ≤ k ∧ ∃ res, (m k).pc t = .invalidated res
  lands : ∀ n k a, (m n).flights.inflight k = some a →
    ∃ j, n ≤ j ∧ (m j).flights.inflight k ≠ some a

theorem answered_of_kind (hrest : p.rests) (hkind : p.kind = some .lookup) :
    ∃ res, p = .answered res := by
  cases p with
  | answered res => exact ⟨res, rfl⟩
  | idle | invalidated => cases hkind
  | _ => cases hrest

theorem invalidated_of_kind (hrest : p.rests) (hkind : p.kind = some .invalidation) :
    ∃ res, p = .invalidated res := by
  cases p with
  | invalidated res => exact ⟨res, rfl⟩
  | idle | answered => cases hkind
  | _ => cases hrest

end Threads

open Threads

/-- No call waits for ever, whatever the threads do and in whatever order, if none of them is
neglected. -/
theorem calls_return (cfg : Config Exec) (engine : State Exec) (sched : ℕ → ThreadEvent)
    (hfair : Fair cfg engine sched) : CallsReturn (moment cfg engine sched) := by
  have hreturns : ∀ c n t, ((moment cfg engine sched n).pc t).kind = some c →
      ∃ k, n ≤ k ∧ ((moment cfg engine sched k).pc t).rests ∧
        ((moment cfg engine sched k).pc t).kind = some c := by
    intro c n t hkind
    by_cases hrest : ((moment cfg engine sched n).pc t).rests
    · exact ⟨n, le_rfl, hrest, hkind⟩
    · exact call_returns hfair t c n ⟨hrest, hkind⟩
  refine ⟨fun n t hkind => ?_, fun n t hkind => ?_, fun n k a hin => ?_⟩
  · obtain ⟨j, hnj, hrest, hkind⟩ := hreturns _ n t hkind
    exact ⟨j, hnj, answered_of_kind hrest hkind⟩
  · obtain ⟨j, hnj, hrest, hkind⟩ := hreturns _ n t hkind
    exact ⟨j, hnj, invalidated_of_kind hrest hkind⟩
  · have hinv : (moment cfg engine sched n).single.Inv := inv_moment n
    obtain ⟨u, stage, hu, -⟩ := hinv.owned k a hin
    obtain ⟨j, hnj, res, hres⟩ := owner_erases hfair u k a n ⟨stage, hu⟩
    refine ⟨j, hnj, fun hin' => ?_⟩
    -- whoever had it in the table would be its owner, who has erased it
    obtain ⟨v, stage', hv, hin''⟩ := (inv_moment j).owned k a hin'
    obtain rfl := (inv_moment j).one u v k k a _ _ hres hv
    rw [show (moment cfg engine sched j).single.phase u = .owner k a (.erased res) from hres] at hv
    cases hv
    cases hin''

/-- Two threads look up the same graph, and then take turns. -/
def takeTurns (n : ℕ) : ThreadEvent :=
  if n < 2 then .lookup n blankCall else .step (n % 2)

theorem calls_return_two : ∃ n res,
    (moment (.cpu (.insertion _) .unit) (.fresh none) takeTurns n).pc 1 = .answered res := by
  have hfair : Fair (.cpu (.insertion _) .unit) (.fresh none) takeTurns := by
    intro n t hrest
    have ht : t < 2 := by
      by_contra ht
      refine hrest (.inl (pc_idle _ _ fun ev hev => ?_))
      obtain ⟨i, -, rfl⟩ := List.mem_map.mp hev
      unfold takeTurns
      split_ifs
      · exact fun h : i = t => by omega
      · exact fun h : i % 2 = t => by omega
    refine ⟨2 * n + 2 + t, by omega, ?_⟩
    rw [takeTurns, if_neg (by omega), show (2 * n + 2 + t) % 2 = t by omega]
  obtain ⟨n, -, res, hres⟩ := (calls_return _ _ _ hfair).lookup 2 1 rfl
  exact ⟨n, res, hres⟩

end GraphCache
