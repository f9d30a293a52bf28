import GraphCache.BigEndian
import GraphCache.BlockStreams
import Mathlib.Data.Nat.NthRoot.Defs
import Mathlib.Data.Nat.Prime.Defs

/-!
# The Secure Hash Standard : SHA-256

FIPS 180-4 for messages that are byte strings. The message is padded to a multiple of 64 bytes
and parsed into blocks of 64; each block is expanded to the 64 words of the message schedule, and
64 rounds over it give the next hash value (`compress`). The digest is the last hash value.

The constants are given by what they are, the fractional parts of the roots of the first primes,
and the schedule by its recurrence.
-/

open BigEndian BlockStreams

namespace Fips180

abbrev Word := BitVec 32

/-! ## Functions and constants -/

def Ch (x y z : Word) : Word :=
  (x &&& y) ^^^ (~~~x &&& z)

def Maj (x y z : Word) : Word :=
  (x &&& y) ^^^ (x &&& z) ^^^ (y &&& z)

/-- `Σ₀`. -/
def bigSigma0 (x : Word) : Word :=
  x.rotateRight 2 ^^^ x.rotateRight 13 ^^^ x.rotateRight 22

/-- `Σ₁`. -/
def bigSigma1 (x : Word) : Word :=
  x.rotateRight 6 ^^^ x.rotateRight 11 ^^^ x.rotateRight 25

/-- `σ₀`. -/
def smallSigma0 (x : Word) : Word :=
  x.rotateRight 7 ^^^ x.rotateRight 18 ^^^ x >>> 3

/-- `σ₁`. -/
def smallSigma1 (x : Word) : Word :=
  x.rotateRight 17 ^^^ x.rotateRight 19 ^^^ x >>> 10

/-- The first 64 primes. -/
def primes : List ℕ :=
  (List.range 312).filter Nat.Prime

/-- The first 32 bits of the fractional part of the `k`-th root of `p`. `Nat.nthRoot` rounds
down. -/
def fraction (k p : ℕ) : Word :=
  BitVec.ofNat 32 (Nat.nthRoot k (p * 2 ^ (32 * k)))

/-- `K`, from the cube roots. -/
def K (t : ℕ) : Word :=
  fraction 3 (primes.getD t 0)

/-- A hash value, or the working variables `a .. h`. -/
@[ext]
structure Hash where
  a : Word
  b : Word
  c : Word
  d : Word
  e : Word
  f : Word
  g : Word
  h : Word

/-- `H⁽⁰⁾`, from the square roots. -/
def initial : Hash :=
  ⟨fraction 2 2, fraction 2 3, fraction 2 5, fraction 2 7, fraction 2 11, fraction 2 13,
    fraction 2 17, fraction 2 19⟩

/-! ## Preprocessing -/

/-- `k`, the number of zeros, but counted in bytes : the least one with
`len + 1 + k ≡ 56 (mod 64)`. -/
def zeros (len : ℕ) : ℕ :=
  (119 - len % 64) % 64

/-- The message, a one bit, the zeros, and the length in bits. -/
def pad (m : List UInt8) : List UInt8 :=
  m ++ 0x80 :: List.replicate (zeros m.length) 0 ++ beBytes 8 (8 * m.length)

/-- Word `t` of a block. -/
def M (block : List UInt8) (t : ℕ) : Word :=
  BitVec.ofNat 32 (beNat ((block.drop (4 * t)).take 4))

/-! ## Hash computation -/

/-- The message schedule. -/
def W (block : List UInt8) (t : ℕ) : Word :=
  if t < 16 then M block t
  else smallSigma1 (W block (t - 2)) + W block (t - 7) + smallSigma0 (W block (t - 15)) +
    W block (t - 16)

/-- A round, for `K_t` and `W_t`. -/
def round (v : Hash) (k w : Word) : Hash :=
  let t₁ := v.h + bigSigma1 v.e + Ch v.e v.f v.g + k + w
  let t₂ := bigSigma0 v.a + Maj v.a v.b v.c
  { a := t₁ + t₂, b := v.a, c := v.b, d := v.c, e := v.d + t₁, f := v.e, g := v.f, h := v.g }

/-- `H⁽ⁱ⁾` from `H⁽ⁱ⁻¹⁾` and block `i`. -/
def compress (H : Hash) (block : List UInt8) : Hash :=
  let v := (List.range 64).foldl (fun v t => round v (K t) (W block t)) H
  ⟨v.a + H.a, v.b + H.b, v.c + H.c, v.d + H.d, v.e + H.e, v.f + H.f, v.g + H.g, v.h + H.h⟩

/-- The words of a hash value, each with its most significant byte first. -/
def Hash.bytes (H : Hash) : List UInt8 :=
  [H.a, H.b, H.c, H.d, H.e, H.f, H.g, H.h].flatMap fun w => beBytes 4 w.toNat

/-- SHA-256. -/
def sha256 (m : List UInt8) : List UInt8 :=
  (chain compress 64 initial (pad m)).bytes

/-! ## The standard's requirements -/

/-- Trial division by the numbers below a bound on the square root. -/
theorem prime_iff_of_lt {n p : ℕ} (h : p < n ^ 2) :
    p.Prime ↔ 2 ≤ p ∧ ∀ d ∈ List.range n, 2 ≤ d → d ∣ p → d = p := by
  constructor
  · intro hp
    refine ⟨hp.two_le, fun d _ htwo hd => ?_⟩
    exact (hp.eq_one_or_self_of_dvd d hd).resolve_left (by omega)
  · rintro ⟨htwo, hdivisors⟩
    have hfactor : (p.minFac).Prime := Nat.minFac_prime (by omega)
    by_contra hp
    have hsq : p.minFac ^ 2 ≤ p := Nat.minFac_sq_le_self (by omega) hp
    have hlt : p.minFac < n := lt_of_pow_lt_pow_left₀ 2 (Nat.zero_le n) (hsq.trans_lt h)
    have heq := hdivisors p.minFac (List.mem_range.mpr hlt) hfactor.two_le p.minFac_dvd
    exact hp (heq ▸ hfactor)

/-- The primes by trial division, which is quick to evaluate. -/
def byTrial : List ℕ :=
  (List.range 312).filter fun p => 2 ≤ p ∧ ∀ d ∈ List.range 18, 2 ≤ d → d ∣ p → d = p

theorem primes_eq : primes = byTrial := by
  refine List.filter_congr fun p hp => ?_
  have hlt : p < 18 ^ 2 := (List.mem_range.mp hp).trans (by decide)
  rw [decide_eq_decide]
  exact prime_iff_of_lt hlt

theorem length_byTrial : byTrial.length = 64 := by
  decide +kernel

theorem length_primes : primes.length = 64 := by
  rw [primes_eq, length_byTrial]

theorem map_getD_range {α β : Type*} (f : α → β) (x : α) (l : List α) :
    (List.range l.length).map (fun t => f (l.getD t x)) = l.map f := by
  refine List.ext_getElem (by rw [List.length_map, List.length_map, List.length_range])
    fun t _ ht => ?_
  have hlt : t < l.length := by rwa [List.length_map] at ht
  rw [List.getElem_map, List.getElem_map, List.getElem_range, List.getD_eq_getElem?_getD,
    List.getElem?_eq_getElem hlt, Option.getD_some]

/-- One constant for each prime. -/
theorem map_K : (List.range 64).map K = primes.map (fraction 3) := by
  rw [← map_getD_range (fraction 3) 0 primes, length_primes]
  rfl

/-- The length ends at byte 64 of its block. -/
theorem zeros_spec (len : ℕ) : (len + 1 + zeros len) % 64 = 56 := by
  rw [zeros]
  omega

theorem zeros_lt (len : ℕ) : zeros len < 64 :=
  Nat.mod_lt _ (by decide)

/-- Fewer zeros do not do. -/
theorem zeros_least {len k : ℕ} (h : (len + 1 + k) % 64 = 56) : zeros len ≤ k := by
  rw [zeros]
  omega

@[simp] theorem length_pad (m : List UInt8) :
    (pad m).length = m.length + 1 + zeros m.length + 8 := by
  simp only [pad, List.length_append, List.length_cons, List.length_replicate, length_beBytes]
  omega

theorem W_of_lt (block : List UInt8) {t : ℕ} (h : t < 16) : W block t = M block t := by
  rw [W, if_pos h]

theorem W_add (block : List UInt8) (t : ℕ) :
    W block (t + 16) = smallSigma1 (W block (t + 14)) + W block (t + 9) +
      smallSigma0 (W block (t + 1)) + W block t := by
  rw [W, if_neg (by omega)]
  rfl

end Fips180
