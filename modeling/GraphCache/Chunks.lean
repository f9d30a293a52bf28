import Mathlib.Data.List.Basic

/-!
# Streams that come in chunks

A receiver appends every chunk to a buffer and then takes items off the front until the buffer does
not hold a whole one, or until it stops for good.

The head of the buffer decides what is taken : more input does not change a decision
(`Receiver.look_append`). So what is received from a stream does not depend on how it is cut into
chunks (`Receiver.foldl_more`), and a stream of encoded items gives these items
(`Receiver.drain_flatMap`).
-/

namespace Chunks

/-- What a look at the buffer finds : too little yet; elements to take off, and the item that they
hold, if any; or a reason to stop. -/
inductive Look (β : Type*)
  | wait
  | take (n : ℕ) (item : Option β)
  | stop

/-- What a receiver is left with. -/
inductive Rest (α : Type*)
  | waiting (buf : List α)
  | stopped
  deriving DecidableEq, Repr

structure Receiver (α β : Type*) where
  look : List α → Look β
  take_pos : ∀ {buf n item}, look buf = .take n item → 0 < n ∧ n ≤ buf.length
  look_append : ∀ {buf}, look buf ≠ .wait → ∀ s, look (buf ++ s) = look buf

variable {α β : Type*}

namespace Receiver

variable {r : Receiver α β} {buf : List α}

/-- Take items off the front as long as there are any. -/
def drain (r : Receiver α β) (buf : List α) : List β × Rest α :=
  match h : r.look buf with
  | .wait => ([], .waiting buf)
  | .stop => ([], .stopped)
  | .take n item =>
    have hpos := r.take_pos h
    have hshorter : (buf.drop n).length < buf.length := by
      rw [List.length_drop]
      omega
    (item.toList ++ (drain r (buf.drop n)).1, (drain r (buf.drop n)).2)
termination_by buf.length
decreasing_by all_goals exact hshorter

theorem drain_wait (h : r.look buf = .wait) : r.drain buf = ([], .waiting buf) := by
  rw [drain]
  split <;> simp_all

theorem drain_stop (h : r.look buf = .stop) : r.drain buf = ([], .stopped) := by
  rw [drain]
  split <;> simp_all

theorem drain_take {n : ℕ} {item : Option β} (h : r.look buf = .take n item) :
    r.drain buf = (item.toList ++ (r.drain (buf.drop n)).1, (r.drain (buf.drop n)).2) := by
  rw [drain]
  split <;> simp_all

/-- One more chunk, after what has been received before. -/
def more (r : Receiver α β) : List β × Rest α → List α → List β × Rest α
  | (items, .waiting buf), chunk =>
    (items ++ (r.drain (buf ++ chunk)).1, (r.drain (buf ++ chunk)).2)
  | (items, .stopped), _ => (items, .stopped)

theorem more_append (items items' : List β) (rest : Rest α) (chunk : List α) :
    r.more (items ++ items', rest) chunk =
      (items ++ (r.more (items', rest) chunk).1, (r.more (items', rest) chunk).2) := by
  cases rest <;> simp [more]

/-- Draining a buffer and then what is appended to it is draining both at once. -/
theorem drain_append (r : Receiver α β) (buf s : List α) :
    r.drain (buf ++ s) = r.more (r.drain buf) s := by
  induction hn : buf.length using Nat.strongRecOn generalizing buf with
  | ind n ih =>
    subst hn
    cases hlook : r.look buf with
    | wait => simp [drain_wait hlook, more]
    | stop =>
      have happend : r.look (buf ++ s) = .stop := by rw [r.look_append (by simp [hlook]), hlook]
      rw [drain_stop hlook, drain_stop happend, more]
    | take k item =>
      obtain ⟨hpos, hle⟩ := r.take_pos hlook
      have happend : r.look (buf ++ s) = .take k item := by
        rw [r.look_append (by simp [hlook]), hlook]
      have hshorter : (buf.drop k).length < buf.length := by
        rw [List.length_drop]
        omega
      rw [drain_take hlook, drain_take happend, List.drop_append_of_le_length hle,
        ih _ hshorter (buf.drop k) rfl, more_append]

/-- What is received from chunks is what is received from all of them at once. -/
theorem foldl_more (r : Receiver α β) (chunks : List (List α)) (buf : List α) :
    chunks.foldl r.more (r.drain buf) = r.drain (buf ++ chunks.flatten) := by
  induction chunks generalizing buf with
  | nil => simp
  | cons chunk chunks ih =>
    rw [List.foldl_cons, ← drain_append, ih, List.flatten_cons, List.append_assoc]

/-- A stream of encoded items gives the items. -/
theorem drain_flatMap (hnil : r.look [] = .wait) {enc : β → List α} : ∀ {items : List β},
    (∀ x ∈ items, ∀ s, r.look (enc x ++ s) = .take (enc x).length (some x)) →
      r.drain (items.flatMap enc) = (items, .waiting [])
  | [], _ => drain_wait hnil
  | x :: items, h => by
    have htail := drain_flatMap hnil fun y hy => h y (List.mem_cons_of_mem x hy)
    rw [List.flatMap_cons, drain_take (h x List.mem_cons_self _), List.drop_left, htail]
    rfl

end Receiver

end Chunks
