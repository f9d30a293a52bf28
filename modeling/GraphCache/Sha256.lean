import GraphCache.Canonical

/-!
# SHA-256

The incremental hasher of `sha256.hpp` : eight chaining words, a buffer of fewer than 64
bytes, and the total length. `update` fills the buffer and compresses it whenever it is
full; `final` pads with `0x80`, zeros up to 56 bytes, and the bit length.
-/

open BigEndian

namespace GraphCache

/-- The eight chaining words `state_`, or the working variables `a .. h`. -/
structure Sha256State where
  a : UInt32
  b : UInt32
  c : UInt32
  d : UInt32
  e : UInt32
  f : UInt32
  g : UInt32
  h : UInt32
  deriving DecidableEq, Repr

/-- A hasher. `buffer` holds the first `cur_len_` bytes of `buffer_`. -/
structure Sha256 where
  state : Sha256State
  buffer : Bytes
  totalLen : UInt64
  deriving DecidableEq, Repr

/-- A digest, 32 bytes. -/
abbrev Digest := Bytes

namespace Sha256

/-- `reset`. -/
def reset : Sha256 where
  state := ⟨0x6a09e667, 0xbb67ae85, 0x3c6ef372, 0xa54ff53a,
    0x510e527f, 0x9b05688c, 0x1f83d9ab, 0x5be0cd19⟩
  buffer := []
  totalLen := 0

def k : List UInt32 := [
  0x428a2f98, 0x71374491, 0xb5c0fbcf, 0xe9b5dba5, 0x3956c25b, 0x59f111f1, 0x923f82a4, 0xab1c5ed5,
  0xd807aa98, 0x12835b01, 0x243185be, 0x550c7dc3, 0x72be5d74, 0x80deb1fe, 0x9bdc06a7, 0xc19bf174,
  0xe49b69c1, 0xefbe4786, 0x0fc19dc6, 0x240ca1cc, 0x2de92c6f, 0x4a7484aa, 0x5cb0a9dc, 0x76f988da,
  0x983e5152, 0xa831c66d, 0xb00327c8, 0xbf597fc7, 0xc6e00bf3, 0xd5a79147, 0x06ca6351, 0x14292967,
  0x27b70a85, 0x2e1b2138, 0x4d2c6dfc, 0x53380d13, 0x650a7354, 0x766a0abb, 0x81c2c92e, 0x92722c85,
  0xa2bfe8a1, 0xa81a664b, 0xc24b8b70, 0xc76c51a3, 0xd192e819, 0xd6990624, 0xf40e3585, 0x106aa070,
  0x19a4c116, 0x1e376c08, 0x2748774c, 0x34b0bcb5, 0x391c0cb3, 0x4ed8aa4a, 0x5b9cca4f, 0x682e6ff3,
  0x748f82ee, 0x78a5636f, 0x84c87814, 0x8cc70208, 0x90befffa, 0xa4506ceb, 0xbef9a3f7, 0xc67178f2]

def rotr (x n : UInt32) : UInt32 :=
  (x >>> n) ||| (x <<< (32 - n))

/-- The first sixteen words of the schedule, from a block. -/
def words : Bytes → List UInt32
  | a :: b :: c :: d :: rest =>
    ((a.toUInt32 <<< 24) ||| (b.toUInt32 <<< 16) ||| (c.toUInt32 <<< 8) ||| d.toUInt32) ::
      words rest
  | _ => []

/-- `w[i]` for `16 ≤ i`. The words so far are listed newest first, so `w[i - n]` is at
index `n - 1`. -/
def nextWord (w : List UInt32) : UInt32 :=
  let w₁₅ := w.getD 14 0
  let w₂ := w.getD 1 0
  let s0 := rotr w₁₅ 7 ^^^ rotr w₁₅ 18 ^^^ (w₁₅ >>> 3)
  let s1 := rotr w₂ 17 ^^^ rotr w₂ 19 ^^^ (w₂ >>> 10)
  w.getD 15 0 + s0 + w.getD 6 0 + s1

/-- `n` further words of the schedule, newest first. -/
def schedule : ℕ → List UInt32 → List UInt32
  | 0, w => w
  | n + 1, w => schedule n (nextWord w :: w)

/-- One of the 64 rounds, for `k[i]` and `w[i]`. -/
def round (s : Sha256State) (kw : UInt32 × UInt32) : Sha256State :=
  let S1 := rotr s.e 6 ^^^ rotr s.e 11 ^^^ rotr s.e 25
  let ch := (s.e &&& s.f) ^^^ (~~~s.e &&& s.g)
  let temp1 := s.h + S1 + ch + kw.1 + kw.2
  let S0 := rotr s.a 2 ^^^ rotr s.a 13 ^^^ rotr s.a 22
  let maj := (s.a &&& s.b) ^^^ (s.a &&& s.c) ^^^ (s.b &&& s.c)
  let temp2 := S0 + maj
  ⟨temp1 + temp2, s.a, s.b, s.c, s.d + temp1, s.e, s.f, s.g⟩

def processBlock (s : Sha256State) (block : Bytes) : Sha256State :=
  let w := (schedule 48 (words block).reverse).reverse
  let t := (k.zip w).foldl round s
  ⟨s.a + t.a, s.b + t.b, s.c + t.c, s.d + t.d, s.e + t.e, s.f + t.f, s.g + t.g, s.h + t.h⟩

/-- The loop of `update` : fill the buffer, compress it when full. `take` and `drop` stop at the
end of the data, as the bound `take > len` does. -/
def updateLoop : ℕ → Sha256 → Bytes → Sha256
  | 0, s, _ => s
  | _ + 1, s, [] => s
  | n + 1, s, bytes =>
    let take := 64 - s.buffer.length
    let buffer := s.buffer ++ bytes.take take
    if buffer.length = 64 then
      updateLoop n ⟨processBlock s.state buffer, [], s.totalLen⟩ (bytes.drop take)
    else updateLoop n ⟨s.state, buffer, s.totalLen⟩ (bytes.drop take)

/-- `update`. Every turn of the loop takes a byte, so the fuel suffices. -/
def update (s : Sha256) (bytes : Bytes) : Sha256 :=
  updateLoop bytes.length { s with totalLen := s.totalLen + UInt64.ofNat bytes.length } bytes

/-- `while (cur_len_ != 56) update(&zero, 1);` -/
def padLoop : ℕ → Sha256 → Sha256
  | 0, s => s
  | n + 1, s => if s.buffer.length = 56 then s else padLoop n (s.update [0])

/-- The digest. `bit_len` is taken before the padding is fed through `update`. -/
def final (s : Sha256) : Digest :=
  let bitLen := s.totalLen * 8
  let t := (padLoop 64 (s.update [0x80])).update (beBytes 8 bitLen.toNat)
  [t.state.a, t.state.b, t.state.c, t.state.d, t.state.e, t.state.f, t.state.g, t.state.h].flatMap
    fun w => beBytes 4 w.toNat

def compute (bytes : Bytes) : Digest :=
  (reset.update bytes).final

/-- The digit `"0123456789abcdef"[n]`. -/
def digit (n : ℕ) : UInt8 :=
  (str "0123456789abcdef").getD n 0

def hex (d : Digest) : Str :=
  d.flatMap fun b => [digit (b.toNat / 16), digit (b.toNat % 16)]

@[simp] theorem length_final (s : Sha256) : s.final.length = 32 := by
  simp [final]

example : (compute (str "abc")).take 4 = [0xba, 0x78, 0x16, 0xbf] := by decide +kernel

end Sha256

end GraphCache
