import Mathlib.Data.List.Basic
import Mathlib.Tactic.Ring

/-!
# Fixed-width big-endian numbers

`beBytes w n` writes the low `w` bytes of `n`, most significant first, as a loop
`for (i = w - 1; i >= 0; --i) push(n >> 8 * i)` does; a number that does not fit loses
its high bytes. `beNat` reads a byte string back, as the loop `v = v << 8 | b` does.
`beNat_beBytes` : reading back gives `n` modulo `256 ^ w`.
-/

namespace BigEndian

/-- The low `w` bytes of `n`, most significant first. -/
def beBytes : ℕ → ℕ → List UInt8
  | 0, _ => []
  | w + 1, n => UInt8.ofNat (n / 256 ^ w) :: beBytes w n

/-- The number a byte string spells, most significant byte first. -/
def beNat (bs : List UInt8) : ℕ :=
  bs.foldl (fun v b => v * 256 + b.toNat) 0

@[simp] theorem length_beBytes : ∀ w n, (beBytes w n).length = w
  | 0, _ => rfl
  | w + 1, n => by simp [beBytes, length_beBytes w n]

theorem foldl_beNat (v : ℕ) :
    ∀ bs : List UInt8, bs.foldl (fun v b => v * 256 + b.toNat) v =
      v * 256 ^ bs.length + beNat bs
  | [] => by simp [beNat]
  | b :: bs => by
    simp only [beNat, List.foldl_cons, List.length_cons, pow_succ]
    rw [foldl_beNat _ bs, foldl_beNat (0 * 256 + b.toNat) bs]
    ring

theorem beNat_cons (b : UInt8) (bs : List UInt8) :
    beNat (b :: bs) = b.toNat * 256 ^ bs.length + beNat bs := by
  simp [beNat, List.foldl_cons, foldl_beNat b.toNat bs]

/-- Reading back what was written gives the number modulo the width. -/
theorem beNat_beBytes : ∀ w n, beNat (beBytes w n) = n % 256 ^ w
  | 0, n => by simp [beBytes, beNat, Nat.mod_one]
  | w + 1, n => by
    rw [beBytes, beNat_cons, length_beBytes, beNat_beBytes w n, Nat.mod_pow_succ]
    simp [UInt8.toNat_ofNat']
    ring

theorem beNat_beBytes_of_lt {w n : ℕ} (h : n < 256 ^ w) : beNat (beBytes w n) = n := by
  rw [beNat_beBytes, Nat.mod_eq_of_lt h]

theorem beNat_lt : ∀ bs : List UInt8, beNat bs < 256 ^ bs.length
  | [] => by simp [beNat]
  | b :: bs => by
    have hhead : (b.toNat + 1) * 256 ^ bs.length ≤ 256 * 256 ^ bs.length :=
      Nat.mul_le_mul_right _ b.toNat_lt
    rw [Nat.succ_mul] at hhead
    have hrest := beNat_lt bs
    rw [beNat_cons, List.length_cons, Nat.pow_succ']
    omega

/-- Strings of one length are told apart by their numbers. -/
theorem beNat_inj : ∀ {bs bs' : List UInt8}, bs.length = bs'.length → beNat bs = beNat bs' →
    bs = bs'
  | [], [], _, _ => rfl
  | b :: bs, b' :: bs', hlen, h => by
    have hlen : bs.length = bs'.length := by simpa using hlen
    have hdiv : ∀ {m x : ℕ}, x < 256 ^ bs'.length →
        (m * 256 ^ bs'.length + x) / 256 ^ bs'.length = m := by
      intro m x hx
      rw [Nat.mul_comm, Nat.mul_add_div (Nat.pow_pos (by decide)), Nat.div_eq_of_lt hx,
        Nat.add_zero]
    rw [beNat_cons, beNat_cons, hlen] at h
    have hhead : b.toNat = b'.toNat := by
      have := congrArg (· / 256 ^ bs'.length) h
      rwa [hdiv (hlen ▸ beNat_lt bs), hdiv (beNat_lt bs')] at this
    rw [hhead] at h
    rw [UInt8.toNat_inj.mp hhead, beNat_inj hlen (Nat.add_left_cancel h)]

/-- Writing what was read gives the bytes back. -/
theorem beBytes_beNat (bs : List UInt8) : beBytes bs.length (beNat bs) = bs :=
  beNat_inj (length_beBytes _ _) (beNat_beBytes_of_lt (beNat_lt bs))

end BigEndian
