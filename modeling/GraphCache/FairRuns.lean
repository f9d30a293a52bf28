import GraphCache.History
import Mathlib.Order.WellFounded

/-!
# Runs that go on

A schedule gives the event of every moment, without end; `moment` is the state that it has led to.
`P` leads to `Q` where, from each moment at which `P` holds, one comes at which `Q` holds
(`LeadsTo`). What leads to what is shown from three rules : an event that helps comes about while
`P` lasts (`LeadsTo.of_fair`), what comes meets `P` still there or over (`LeadsTo.meets`), and a
rank goes down until `Q` (`LeadsTo.of_rank`).
-/

namespace FairRun

open History

variable {σ ε : Type*}

/-- The state at moment `n`. -/
def moment (step : σ → ε → σ) (s₀ : σ) (sched : ℕ → ε) (n : ℕ) : σ :=
  after step s₀ ((List.range n).map sched)

theorem moment_succ (step : σ → ε → σ) (s₀ : σ) (sched : ℕ → ε) (n : ℕ) :
    moment step s₀ sched (n + 1) = step (moment step s₀ sched n) (sched n) := by
  rw [moment, List.range_succ, List.map_append, List.map_singleton, after_concat]
  rfl

/-- From each moment at which `P` holds, one comes at which `Q` holds. -/
def LeadsTo (m : ℕ → σ) (P Q : σ → Prop) : Prop :=
  ∀ n, P (m n) → ∃ k, n ≤ k ∧ Q (m k)

/-- `P` lasts until `Q`. -/
def Unless (m : ℕ → σ) (P Q : σ → Prop) : Prop :=
  ∀ n, P (m n) → P (m (n + 1)) ∨ Q (m (n + 1))

variable {m : ℕ → σ} {P Q R : σ → Prop}

theorem Unless.lasts (h : Unless m P Q) {n k : ℕ} (hn : P (m n)) (hk : n ≤ k) :
    P (m k) ∨ ∃ j, n ≤ j ∧ j ≤ k ∧ Q (m j) := by
  induction k, hk using Nat.le_induction with
  | base => exact .inl hn
  | succ k hk ih =>
    rcases ih with hp | ⟨j, hnj, hjk, hq⟩
    · rcases h k hp with hp | hq
      · exact .inl hp
      · exact .inr ⟨k + 1, by omega, le_rfl, hq⟩
    · exact .inr ⟨j, hnj, by omega, hq⟩

namespace LeadsTo

theorem trans (h : LeadsTo m P Q) (h' : LeadsTo m Q R) : LeadsTo m P R := by
  intro n hp
  obtain ⟨k, hnk, hq⟩ := h n hp
  obtain ⟨j, hkj, hr⟩ := h' k hq
  exact ⟨j, hnk.trans hkj, hr⟩

/-- What `P` leads to meets `P` still there, or over. -/
theorem meets (h : LeadsTo m P R) (hlast : Unless m P Q) :
    LeadsTo m P fun s => P s ∧ R s ∨ Q s := by
  intro n hp
  obtain ⟨k, hnk, hr⟩ := h n hp
  rcases hlast.lasts hp hnk with hp' | ⟨j, hnj, -, hq⟩
  · exact ⟨k, hnk, .inl ⟨hp', hr⟩⟩
  · exact ⟨j, hnj, .inr hq⟩

/-- While `P` lasts an event comes that helps. -/
theorem of_fair {E : ℕ → Prop} (hlast : Unless m P Q)
    (hhelps : ∀ n, P (m n) → E n → Q (m (n + 1)))
    (hfair : ∀ n, P (m n) → ∃ k, n ≤ k ∧ E k) : LeadsTo m P Q := by
  intro n hp
  obtain ⟨k, hnk, hk⟩ := hfair n hp
  rcases hlast.lasts hp hnk with hp' | ⟨j, hnj, -, hq⟩
  · exact ⟨k + 1, by omega, hhelps k hp' hk⟩
  · exact ⟨j, hnj, hq⟩

/-- A rank that goes down until `Q` holds. -/
theorem of_rank {ρ : Type*} [LT ρ] [WellFoundedLT ρ] (rank : σ → ρ)
    (h : ∀ r, LeadsTo m (fun s => P s ∧ rank s = r) fun s => P s ∧ rank s < r ∨ Q s) :
    LeadsTo m P Q := by
  have hall : ∀ r n, P (m n) → rank (m n) = r → ∃ k, n ≤ k ∧ Q (m k) := by
    intro r
    induction r using WellFoundedLT.induction with
    | ind r ih =>
      intro n hp hr
      obtain ⟨k, hnk, ⟨hp', hlt⟩ | hq⟩ := h r n ⟨hp, hr⟩
      · obtain ⟨j, hkj, hq⟩ := ih _ hlt k hp' rfl
        exact ⟨j, hnk.trans hkj, hq⟩
      · exact ⟨k, hnk, hq⟩
  exact fun n hp => hall _ n hp rfl

end LeadsTo

end FairRun
