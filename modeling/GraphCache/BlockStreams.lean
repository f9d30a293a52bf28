import Mathlib.Data.List.Basic
import Mathlib.Data.Nat.Basic

/-!
# Streams read in blocks

A list is cut into blocks of `n`, and a function takes a state through them, one block after
another. `chain` goes through the whole blocks of a list and `rest` is what is left over.

A reader that gets the list in chunks holds back what does not make up a block. `Absorbed` says
that such a reader has gone through the list so far : a chunk that fits in the block it holds
(`Absorbed.short`), or that completes it (`Absorbed.full`), keeps this, wherever the chunks end.
-/

namespace BlockStreams

variable {α σ τ : Type*} {f : σ → List α → σ} {n : ℕ} {s₀ : σ}

/-- Block `i` of a list. -/
def block (n i : ℕ) (l : List α) : List α :=
  (l.drop (n * i)).take n

/-- The state after the whole blocks of `l`, in order. -/
def chain (f : σ → List α → σ) (n : ℕ) (s₀ : σ) (l : List α) : σ :=
  (List.range (l.length / n)).foldl (fun s i => f s (block n i l)) s₀

/-- What follows the whole blocks. -/
def rest (n : ℕ) (l : List α) : List α :=
  l.drop (n * (l.length / n))

theorem length_rest (n : ℕ) (l : List α) : (rest n l).length = l.length % n := by
  rw [rest, List.length_drop, Nat.mod_def]

/-- Block `i` ends before the list does. -/
theorem block_le {i len : ℕ} (h : i < len / n) : n * i + n ≤ len := by
  rw [← Nat.mul_succ]
  exact le_trans (Nat.mul_le_mul_left n h) (Nat.mul_div_le len n)

theorem length_block {i : ℕ} {l : List α} (h : i < l.length / n) : (block n i l).length = n := by
  have hlen := block_le h
  rw [block, List.length_take, List.length_drop]
  omega

/-- A block stays where it is when the list goes on. -/
theorem block_append {i : ℕ} {l : List α} (h : i < l.length / n) (m : List α) :
    block n i (l ++ m) = block n i l := by
  have hlen := block_le h
  rw [block, List.drop_append_of_le_length (by omega), List.take_append_of_le_length, block]
  rw [List.length_drop]
  omega

/-- The blocks of `l` are taken first. -/
theorem foldl_block_append (f : σ → List α → σ) (s₀ : σ) (l m : List α) :
    (List.range (l.length / n)).foldl (fun s i => f s (block n i (l ++ m))) s₀ =
      chain f n s₀ l := by
  refine List.foldl_ext _ _ _ fun s i hi => ?_
  rw [block_append (List.mem_range.mp hi)]

/-- `g` takes one chain to another if it does so block by block. -/
theorem map_chain {f' : τ → List α → τ} (g : σ → τ)
    (h : ∀ s b, b.length = n → g (f s b) = f' (g s) b) (l : List α) :
    g (chain f n s₀ l) = chain f' n (g s₀) l := by
  have hrun : ∀ is : List ℕ, (∀ i ∈ is, i < l.length / n) → ∀ s,
      g (is.foldl (fun s i => f s (block n i l)) s) =
        is.foldl (fun s i => f' s (block n i l)) (g s) := by
    intro is
    induction is with
    | nil => exact fun _ _ => rfl
    | cons i is ih =>
      intro his s
      rw [List.foldl_cons, List.foldl_cons, ih fun j hj => his j (List.mem_cons_of_mem i hj),
        h s _ (length_block (his i List.mem_cons_self))]
  exact hrun _ (fun i hi => List.mem_range.mp hi) s₀

/-! ## Reading in chunks -/

/-- The whole blocks of `l` have gone into the state and `buf` holds the rest. -/
structure Absorbed (f : σ → List α → σ) (n : ℕ) (s₀ : σ) (l : List α) (s : σ) (buf : List α) :
    Prop where
  state : s = chain f n s₀ l
  buffer : buf = rest n l

namespace Absorbed

variable {l m buf : List α} {s : σ}

theorem nil : Absorbed f n s₀ [] s₀ [] where
  state := by simp [chain]
  buffer := by simp [rest]

theorem length_buffer (h : Absorbed f n s₀ l s buf) : buf.length = l.length % n := by
  rw [h.buffer, length_rest]

theorem length_lt (h : Absorbed f n s₀ l s buf) (hn : 0 < n) : buf.length < n := by
  rw [h.length_buffer]
  exact Nat.mod_lt _ hn

/-- What comes does not complete the block. -/
theorem short (h : Absorbed f n s₀ l s buf) (hm : buf.length + m.length < n) :
    Absorbed f n s₀ (l ++ m) s (buf ++ m) := by
  have hmod := h.length_buffer
  have hdiv : (l ++ m).length / n = l.length / n := by
    have hsplit := Nat.div_add_mod l.length n
    rw [List.length_append]
    refine Nat.div_eq_of_lt_le ?_ ?_
    · rw [Nat.mul_comm]
      omega
    · rw [Nat.mul_comm, Nat.mul_succ]
      omega
  refine ⟨?_, ?_⟩
  · rw [chain, hdiv, foldl_block_append, h.state]
  · rw [rest, hdiv, List.drop_append_of_le_length (Nat.mul_div_le _ _), h.buffer, rest]

/-- What comes completes the block. -/
theorem full (h : Absorbed f n s₀ l s buf) (hn : 0 < n) (hm : buf.length + m.length = n) :
    Absorbed f n s₀ (l ++ m) (f s (buf ++ m)) [] := by
  have hmod := h.length_buffer
  have hsplit := Nat.div_add_mod l.length n
  have hlen : (l ++ m).length = n * (l.length / n + 1) := by
    rw [List.length_append, Nat.mul_succ]
    omega
  have hdiv : (l ++ m).length / n = l.length / n + 1 := by
    rw [hlen, Nat.mul_div_cancel_left _ hn]
  have hlast : block n (l.length / n) (l ++ m) = buf ++ m := by
    rw [block, List.drop_append_of_le_length (Nat.mul_div_le _ _), h.buffer, ← rest,
      List.take_of_length_le]
    rw [List.length_append, length_rest]
    omega
  refine ⟨?_, ?_⟩
  · rw [chain, hdiv, List.range_succ, List.foldl_append, foldl_block_append, List.foldl_cons,
      List.foldl_nil, hlast, h.state]
  · rw [rest, hdiv, ← hlen, List.drop_length]

end Absorbed

end BlockStreams
