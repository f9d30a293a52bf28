import Mathlib.Data.List.Basic
import Mathlib.Tactic.Ring

/-!
# Records of little-endian numbers

`leBytes w n` writes the low `w` bytes of `n`, least significant first, as a loop
`for (i = 0; i < w; ++i) push(n >> 8 * i)` does. `leNat` reads a byte string back, as the loop
`v |= b << 8 * i` does.

A record is a list of numbers with their widths, written one after the other (`record`). A number
of a record is read back at the offset where it was written, whatever follows the record
(`leAt_record`); and every byte string that is long enough is the record of what is read from it
(`record_slices`).
-/

namespace LittleEndian

/-- The low `w` bytes of `n`, least significant first. -/
def leBytes : ℕ → ℕ → List UInt8
  | 0, _ => []
  | w + 1, n => UInt8.ofNat n :: leBytes w (n / 256)

/-- The number a byte string spells, least significant byte first. -/
def leNat : List UInt8 → ℕ
  | [] => 0
  | b :: bs => b.toNat + 256 * leNat bs

@[simp] theorem length_leBytes : ∀ w n, (leBytes w n).length = w
  | 0, _ => rfl
  | w + 1, n => by simp [leBytes, length_leBytes w]

/-- Reading back what was written gives the number modulo the width. -/
theorem leNat_leBytes : ∀ w n, leNat (leBytes w n) = n % 256 ^ w
  | 0, n => by simp [leBytes, leNat, Nat.mod_one]
  | w + 1, n => by
    rw [leBytes, leNat, leNat_leBytes w, Nat.pow_succ', Nat.mod_mul, UInt8.toNat_ofNat']

theorem leNat_lt : ∀ bs : List UInt8, leNat bs < 256 ^ bs.length
  | [] => by simp [leNat]
  | b :: bs => by
    have hb := b.toNat_lt
    have ih := leNat_lt bs
    rw [leNat, List.length_cons, Nat.pow_succ]
    omega

/-- Writing what was read gives the bytes back. -/
theorem leBytes_leNat : ∀ bs : List UInt8, leBytes bs.length (leNat bs) = bs
  | [] => rfl
  | b :: bs => by
    have hb := b.toNat_lt
    have hlow : UInt8.ofNat (b.toNat + 256 * leNat bs) = b := by
      rw [← UInt8.toNat_inj, UInt8.toNat_ofNat']
      omega
    have hhigh : (b.toNat + 256 * leNat bs) / 256 = leNat bs := by omega
    rw [List.length_cons, leNat, leBytes, hlow, hhigh, leBytes_leNat bs]

/-! ## Records -/

/-- Numbers, each with its width. -/
abbrev Layout := List (ℕ × ℕ)

def record (fs : Layout) : List UInt8 :=
  fs.flatMap fun f => leBytes f.1 f.2

/-- The bytes of a record. -/
def width (fs : Layout) : ℕ := (fs.map Prod.fst).sum

/-- The number of `w` bytes at `off`, if they are there. -/
def leAt (w : ℕ) (bs : List UInt8) (off : ℕ) : Option ℕ :=
  if off + w > bs.length then none else some (leNat ((bs.drop off).take w))

@[simp] theorem length_record (fs : Layout) : (record fs).length = width fs := by
  simp [record, width, List.length_flatMap]

theorem record_append (fs gs : Layout) : record (fs ++ gs) = record fs ++ record gs :=
  List.flatMap_append

theorem leAt_append {w n : ℕ} {pre post : List UInt8} :
    leAt w (pre ++ (leBytes w n ++ post)) pre.length = some (n % 256 ^ w) := by
  rw [leAt, if_neg (by simp), List.drop_left, List.take_left' (length_leBytes w n), leNat_leBytes]

theorem leAt_eq_some {w n off : ℕ} {bs : List UInt8} (h : leAt w bs off = some n) :
    n = leNat ((bs.drop off).take w) ∧ n < 256 ^ w := by
  unfold leAt at h
  split_ifs at h with hlen
  obtain rfl := Option.some.inj h
  have hwidth : ((bs.drop off).take w).length = w := by
    rw [List.length_take, List.length_drop]
    omega
  refine ⟨rfl, ?_⟩
  conv_rhs => rw [← hwidth]
  exact leNat_lt _

/-- The `i`-th number of a record is read at its offset. -/
theorem leAt_record {fs : Layout} {w n i off : ℕ} (rest : List UInt8) (h : fs[i]? = some (w, n))
    (hoff : width (fs.take i) = off) : leAt w (record fs ++ rest) off = some (n % 256 ^ w) := by
  have hsplit : fs = fs.take i ++ (w, n) :: fs.drop (i + 1) := by
    obtain ⟨hi, hget⟩ := List.getElem?_eq_some_iff.mp h
    rw [← hget, List.getElem_cons_drop, List.take_append_drop]
  have hrecord : record fs ++ rest =
      record (fs.take i) ++ (leBytes w n ++ (record (fs.drop (i + 1)) ++ rest)) := by
    conv_lhs => rw [hsplit, record_append]
    simp [record]
  rw [hrecord, ← hoff, ← length_record (fs.take i)]
  exact leAt_append

/-- The numbers of the given widths, read one after the other from `off` on. -/
def slices : List ℕ → ℕ → List UInt8 → Layout
  | [], _, _ => []
  | w :: ws, off, bs => (w, leNat ((bs.drop off).take w)) :: slices ws (off + w) bs

/-- What was read, written again. -/
theorem record_slices : ∀ (ws : List ℕ) (off : ℕ) (bs : List UInt8), off + ws.sum ≤ bs.length →
    record (slices ws off bs) = (bs.drop off).take ws.sum
  | [], _, _, _ => by simp [slices, record]
  | w :: ws, off, bs, h => by
    rw [List.sum_cons] at h
    have hlen : ((bs.drop off).take w).length = w := by
      rw [List.length_take, List.length_drop]
      omega
    have hhead : leBytes w (leNat ((bs.drop off).take w)) = (bs.drop off).take w := by
      conv_rhs => rw [← leBytes_leNat ((bs.drop off).take w), hlen]
    have htail := record_slices ws (off + w) bs (by omega)
    rw [List.sum_cons, List.take_add, List.drop_drop, ← htail]
    simp only [slices, record, List.flatMap_cons, hhead]

end LittleEndian
