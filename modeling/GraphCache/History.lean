import Mathlib.Data.List.Induction
import Mathlib.Order.Basic

/-!
# Runs and their past

A machine is a function `step : σ → ε → σ`; a run is the list of its events, and `after` is the
state they lead to. Properties of a run speak of the events it took, each in the state it found.

`Throughout R` : every event of the run met `R`. `Since P Q` : some event met `P`, and no later
one met `Q`. `Always I` : every state of the run met `I`; `Sometime I` : one did. The first three
are decided one event at a time (`throughout_concat`, `since_concat`, `always_concat`), which is how
a proof by induction on a run uses them; `Throughout` can also be run.
-/

namespace History

variable {σ ε : Type*} (step : σ → ε → σ) (s₀ : σ)

/-- The state after the events of a run. -/
def after (evs : List ε) : σ :=
  evs.foldl step s₀

/-- Every event of the run met `R` in the state it found. -/
def Throughout (R : σ → ε → Prop) (evs : List ε) : Prop :=
  ∀ pre e post, evs = pre ++ e :: post → R (after step s₀ pre) e

/-- Some event of the run met `P`, and none after it met `Q`. -/
def Since (P Q : σ → ε → Prop) (evs : List ε) : Prop :=
  ∃ pre e post, evs = pre ++ e :: post ∧ P (after step s₀ pre) e ∧
    ∀ pre' e' post', post = pre' ++ e' :: post' → ¬ Q (after step s₀ (pre ++ e :: pre')) e'

/-- The number of events, from `s` on, that met `Q`. -/
def count (Q : σ → ε → Prop) [∀ s e, Decidable (Q s e)] : σ → List ε → ℕ
  | _, [] => 0
  | s, e :: evs => (if Q s e then 1 else 0) + count Q (step s e) evs

/-- The state met `I` all along the run, from the start to the end. -/
def Always (I : σ → Prop) (evs : List ε) : Prop :=
  ∀ pre post, evs = pre ++ post → I (after step s₀ pre)

/-- Some event of the run met `P` in the state it found. -/
def Once (P : σ → ε → Prop) (evs : List ε) : Prop :=
  ∃ pre e post, evs = pre ++ e :: post ∧ P (after step s₀ pre) e

/-- The state met `I` at some moment of the run. -/
def Sometime (I : σ → Prop) (evs : List ε) : Prop :=
  ∃ pre post, evs = pre ++ post ∧ I (after step s₀ pre)

variable {step s₀} {I : σ → Prop} {P Q R : σ → ε → Prop} {evs : List ε} {e : ε}

@[simp] theorem after_nil : after step s₀ [] = s₀ := rfl

@[simp] theorem after_concat : after step s₀ (evs ++ [e]) = step (after step s₀ evs) e := by
  simp [after]

theorem after_append (evs evs' : List ε) :
    after step s₀ (evs ++ evs') = after step (after step s₀ evs) evs' := by
  simp [after]

@[simp] theorem throughout_nil : Throughout step s₀ R [] :=
  fun pre e post h => by simp at h

/-- An event of a longer run is the last one or an event of the run before it. -/
theorem concat_eq_split {pre post : List ε} {e' : ε} (h : evs ++ [e] = pre ++ e' :: post) :
    (evs = pre ∧ e = e' ∧ post = []) ∨ ∃ post', post = post' ++ [e] ∧ evs = pre ++ e' :: post' := by
  rcases List.eq_nil_or_concat post with rfl | ⟨post', x, rfl⟩
  · obtain ⟨h₁, h₂⟩ := List.append_inj' h rfl
    exact .inl ⟨h₁, by simpa using h₂, rfl⟩
  · rw [List.concat_eq_append, ← List.cons_append, ← List.append_assoc] at h
    obtain ⟨h₁, h₂⟩ := List.append_inj' h rfl
    obtain rfl : e = x := by simpa using h₂
    exact .inr ⟨post', by simp, h₁⟩

theorem throughout_concat :
    Throughout step s₀ R (evs ++ [e]) ↔ Throughout step s₀ R evs ∧ R (after step s₀ evs) e := by
  constructor
  · intro h
    refine ⟨fun pre e' post hsplit => h pre e' (post ++ [e]) (by simp [hsplit]), ?_⟩
    exact h evs e [] rfl
  · rintro ⟨h, he⟩ pre e' post hsplit
    rcases concat_eq_split hsplit with ⟨rfl, rfl, -⟩ | ⟨post', -, hevs⟩
    · exact he
    · exact h pre e' post' hevs

@[simp] theorem not_since_nil : ¬ Since step s₀ P Q [] := by
  rintro ⟨pre, e, post, h, -⟩
  simp at h

theorem since_concat : Since step s₀ P Q (evs ++ [e]) ↔
    P (after step s₀ evs) e ∨ Since step s₀ P Q evs ∧ ¬ Q (after step s₀ evs) e := by
  constructor
  · rintro ⟨pre, e', post, hsplit, hP, hQ⟩
    rcases concat_eq_split hsplit with ⟨rfl, rfl, -⟩ | ⟨post', rfl, rfl⟩
    · exact .inl hP
    · refine .inr ⟨⟨pre, e', post', rfl, hP, fun pre' e'' post'' h => ?_⟩, hQ post' e [] rfl⟩
      exact hQ pre' e'' (post'' ++ [e]) (by simp [h])
  · rintro (hP | ⟨⟨pre, e', post, rfl, hP, hQ⟩, hlast⟩)
    · exact ⟨evs, e, [], rfl, hP, by simp⟩
    · refine ⟨pre, e', post ++ [e], by simp, hP, fun pre' e'' post'' h => ?_⟩
      rcases concat_eq_split h with ⟨rfl, rfl, -⟩ | ⟨post', -, hpost⟩
      · exact hlast
      · exact hQ pre' e'' post' hpost

/-- Where every `P₁` is a `Q₂`, a `P` since the last `Q₂` is at or after each `P₁`; so if no `Q₁`
follows some `P₁`, none follows that `P`. -/
theorem Since.and {P₁ Q₁ Q₂ : σ → ε → Prop} (hPQ : ∀ s e, P₁ s e → Q₂ s e)
    (h₁ : Since step s₀ P₁ Q₁ evs) (h : Since step s₀ P Q₂ evs) :
    Since step s₀ P (fun s e => Q₁ s e ∨ Q₂ s e) evs := by
  induction evs using List.reverseRecOn with
  | nil => exact absurd h not_since_nil
  | append_singleton evs e ih =>
    rcases since_concat.mp h with hP | ⟨hevs, hQ₂⟩
    · exact since_concat.mpr (.inl hP)
    · rcases since_concat.mp h₁ with hP₁ | ⟨hevs₁, hQ₁⟩
      · exact absurd (hPQ _ e hP₁) hQ₂
      · exact since_concat.mpr (.inr ⟨ih hevs₁ hevs, not_or.mpr ⟨hQ₁, hQ₂⟩⟩)

theorem count_concat [∀ s e, Decidable (Q s e)] : ∀ (s : σ) (evs : List ε) (e : ε),
    count step Q s (evs ++ [e]) =
      count step Q s evs + if Q (after step s evs) e then 1 else 0
  | s, [], e => by
    simp only [List.nil_append, count, Nat.add_zero, Nat.zero_add]
    rfl
  | s, e' :: evs, e => by
    have := count_concat (step s e') evs e
    simp only [List.cons_append, count, this, Nat.add_assoc]
    rfl

theorem always_nil : Always step s₀ I [] ↔ I s₀ := by
  constructor
  · exact fun h => h [] [] rfl
  · intro h pre post hsplit
    obtain ⟨rfl, -⟩ := List.append_eq_nil_iff.mp hsplit.symm
    exact h

theorem always_concat :
    Always step s₀ I (evs ++ [e]) ↔ Always step s₀ I evs ∧ I (after step s₀ (evs ++ [e])) := by
  constructor
  · intro h
    exact ⟨fun pre post hsplit => h pre (post ++ [e]) (by simp [hsplit]), h _ [] (by simp)⟩
  · rintro ⟨h, hlast⟩ pre post hsplit
    rcases List.eq_nil_or_concat post with rfl | ⟨post, x, rfl⟩
    · rw [List.append_nil] at hsplit
      rwa [← hsplit]
    · rw [List.concat_eq_append, ← List.append_assoc] at hsplit
      exact h pre post (List.append_inj' hsplit rfl).1

theorem Once.last (h : P (after step s₀ evs) e) : Once step s₀ P (evs ++ [e]) :=
  ⟨evs, e, [], rfl, h⟩

theorem Once.append (h : Once step s₀ P evs) (evs' : List ε) : Once step s₀ P (evs ++ evs') := by
  obtain ⟨pre, e, post, rfl, hP⟩ := h
  exact ⟨pre, e, post ++ evs', by simp, hP⟩

theorem Sometime.now (h : I (after step s₀ evs)) : Sometime step s₀ I evs :=
  ⟨evs, [], by simp, h⟩

theorem Sometime.append (h : Sometime step s₀ I evs) (evs' : List ε) :
    Sometime step s₀ I (evs ++ evs') := by
  obtain ⟨pre, post, rfl, hI⟩ := h
  exact ⟨pre, post ++ evs', by simp, hI⟩

theorem throughout_cons : Throughout step s₀ R (e :: evs) ↔
    R s₀ e ∧ Throughout step (step s₀ e) R evs := by
  constructor
  · intro h
    refine ⟨h [] e evs rfl, fun pre e' post hsplit => ?_⟩
    exact h (e :: pre) e' post (by rw [hsplit]; rfl)
  · rintro ⟨he, h⟩ pre e' post hsplit
    rcases pre with _ | ⟨x, pre⟩
    · obtain ⟨rfl, -⟩ := List.cons.inj hsplit
      exact he
    · obtain ⟨rfl, hevs⟩ := List.cons.inj hsplit
      exact h pre e' post hevs

instance decidableThroughout [∀ s e, Decidable (R s e)] : ∀ (s₀ : σ) (evs : List ε),
    Decidable (Throughout step s₀ R evs)
  | _, [] => isTrue throughout_nil
  | s₀, e :: evs =>
    have := decidableThroughout (step s₀ e) evs
    decidable_of_iff (R s₀ e ∧ Throughout step (step s₀ e) R evs) throughout_cons.symm

theorem Throughout.imp {R' : σ → ε → Prop} (h : Throughout step s₀ R evs)
    (himp : ∀ s e, R s e → R' s e) : Throughout step s₀ R' evs :=
  fun pre e post hsplit => himp _ e (h pre e post hsplit)

theorem Throughout.of_append {evs' : List ε} (h : Throughout step s₀ R (evs ++ evs')) :
    Throughout step s₀ R evs :=
  fun pre e post hsplit => h pre e (post ++ evs') (by simp [hsplit])

/-- What no event takes down is at the end at least what it was before. -/
theorem Throughout.le {β : Type*} [Preorder β] {f : σ → β} {pre post : List ε}
    (h : Throughout step s₀ (fun s e => f s ≤ f (step s e)) (pre ++ post)) :
    f (after step s₀ pre) ≤ f (after step s₀ (pre ++ post)) := by
  induction post using List.reverseRecOn with
  | nil => simp
  | append_singleton post e ih =>
    rw [← List.append_assoc] at h ⊢
    obtain ⟨h, hlast⟩ := throughout_concat.mp h
    rw [after_concat]
    exact (ih h).trans hlast

/-- What every event keeps holds on from where it holds. -/
theorem after_keeps {pre post : List ε}
    (h : Throughout step s₀ (fun s e => I s → I (step s e)) (pre ++ post))
    (hI : I (after step s₀ pre)) : I (after step s₀ (pre ++ post)) := by
  induction post using List.reverseRecOn with
  | nil => simpa using hI
  | append_singleton post e ih =>
    rw [← List.append_assoc] at h ⊢
    obtain ⟨h, hlast⟩ := throughout_concat.mp h
    rw [after_concat]
    exact hlast (ih h)

end History
