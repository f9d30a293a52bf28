import Mathlib.Data.List.Forall2
import Mathlib.Data.List.ReduceOption

/-!
# Records with optional tagged items

An encoder that writes each item of a record under its own tag, and leaves some of them
out, writes `xs.reduceOption` for a list of slots `xs`, one per tag. If the tags are
distinct, and what follows the record starts with none of them, the slots can be told
from the items : `reduceOption_append_inj`. A list of items under one tag ends at the first item
under another : `block_append_inj`. Items that are all written in the same number of bytes need no
tags : `flatMap_inj_of_length`.
-/

namespace Slots

variable {α τ : Type*} (tag : α → τ)

/-- Slot by slot, the item is absent or carries the slot's tag. -/
def Filled (ts : List τ) (xs : List (Option α)) : Prop :=
  List.Forall₂ (fun t o => ∀ x ∈ o, tag x = t) ts xs

/-- What follows starts with none of the tags. -/
def Outside (ts : List τ) (rest : List α) : Prop :=
  ∀ x ∈ rest.head?, tag x ∉ ts

variable {tag}

theorem Outside.tail {t : τ} {ts : List τ} {rest : List α} (h : Outside tag (t :: ts) rest) :
    Outside tag ts rest :=
  fun x hx hmem => h x hx (by simp [hmem])

/-- The first item of a record and what follows it never carries a tag outside both. -/
theorem head_ne {t : τ} : ∀ {ts : List τ} {xs : List (Option α)} {rest : List α},
    Filled tag ts xs → t ∉ ts → (∀ x ∈ rest.head?, tag x ≠ t) →
      ∀ x ∈ (xs.reduceOption ++ rest).head?, tag x ≠ t
  | _, _, _, .nil, _, hrest, x, hx => hrest x (by simpa using hx)
  | _, none :: xs, _, .cons _ hxs, ht, hrest, x, hx =>
    head_ne hxs (fun h => ht (by simp [h])) hrest x (by simpa using hx)
  | t' :: _, some y :: xs, _, .cons hy _, ht, _, x, hx => by
    obtain rfl : y = x := by simpa using hx
    rw [hy y rfl]
    rintro rfl
    exact ht (by simp)

/-- A record with distinct tags is determined by its items, whatever follows it. -/
theorem reduceOption_append_inj : ∀ {ts : List τ} {xs ys : List (Option α)} {r r' : List α},
    ts.Nodup → Filled tag ts xs → Filled tag ts ys → Outside tag ts r → Outside tag ts r' →
      xs.reduceOption ++ r = ys.reduceOption ++ r' → xs = ys ∧ r = r'
  | _, _, _, _, _, _, .nil, .nil, _, _, h => by simpa using h
  | t :: ts, x :: xs, y :: ys, r, r', hnd, .cons hx hxs, .cons hy hys, hr, hr', h => by
    obtain ⟨ht, hnd⟩ := List.nodup_cons.mp hnd
    have hhead : ∀ {zs : List (Option α)} {s : List α}, Filled tag ts zs →
        Outside tag (t :: ts) s → ∀ z ∈ (zs.reduceOption ++ s).head?, tag z ≠ t :=
      fun hzs hs => head_ne hzs ht fun z hz heq => hs z hz (by simp [heq])
    cases x with
    | none =>
      cases y with
      | none =>
        obtain ⟨rfl, rfl⟩ :=
          reduceOption_append_inj hnd hxs hys hr.tail hr'.tail (by simpa using h)
        exact ⟨rfl, rfl⟩
      | some b =>
        refine absurd (hy b rfl) (hhead hxs hr b ?_)
        rw [List.reduceOption_cons_of_none] at h
        simp [h]
    | some a =>
      cases y with
      | none =>
        refine absurd (hx a rfl) (hhead hys hr' a ?_)
        rw [List.reduceOption_cons_of_none ys] at h
        simp [← h]
      | some b =>
        simp only [List.reduceOption_cons_of_some, List.cons_append, List.cons.injEq] at h
        obtain ⟨rfl, h⟩ := h
        obtain ⟨rfl, rfl⟩ := reduceOption_append_inj hnd hxs hys hr.tail hr'.tail h
        exact ⟨rfl, rfl⟩

/-- A block of items of one tag, ended by an item of another, can be told from what follows. -/
theorem block_append_inj {t : τ} : ∀ {b b' : List α} {x x' : α} {r r' : List α},
    (∀ y ∈ b, tag y = t) → (∀ y ∈ b', tag y = t) → tag x ≠ t → tag x' ≠ t →
      b ++ x :: r = b' ++ x' :: r' → b = b' ∧ x = x' ∧ r = r'
  | [], [], _, _, _, _, _, _, _, _, h => by simpa using h
  | [], y :: b', x, _, _, _, _, hb', hx, _, h => by
    obtain rfl : x = y := by simpa using (List.cons.inj h).1
    exact absurd (hb' x (by simp)) hx
  | y :: b, [], _, x', _, _, hb, _, _, hx', h => by
    obtain rfl : y = x' := by simpa using (List.cons.inj h).1
    exact absurd (hb y (by simp)) hx'
  | y :: b, y' :: b', _, _, _, _, hb, hb', hx, hx', h => by
    obtain ⟨hy, htail⟩ := List.cons.inj h
    obtain ⟨rfl, hrest⟩ := block_append_inj (fun z hz => hb z (by simp [hz]))
      (fun z hz => hb' z (by simp [hz])) hx hx' htail
    exact ⟨by rw [hy], hrest⟩

/-- A list written item by item, each in the same number of cells, can be read back. -/
theorem flatMap_inj_of_length {β : Type*} {f : α → List β} {k : ℕ} (hk : 0 < k)
    (hlen : ∀ x, (f x).length = k) (hf : Function.Injective f) :
    ∀ {xs ys : List α}, xs.flatMap f = ys.flatMap f → xs = ys
  | [], [], _ => rfl
  | [], y :: ys, h => by
    have := congrArg List.length h
    simp [hlen] at this
    omega
  | x :: xs, [], h => by
    have := congrArg List.length h
    simp [hlen] at this
    omega
  | x :: xs, y :: ys, h => by
    obtain ⟨hxy, hrest⟩ := List.append_inj (by simpa using h) (by rw [hlen, hlen])
    rw [hf hxy, flatMap_inj_of_length hk hlen hf hrest]

end Slots
