import GraphCache.Fips180
import GraphCache.Sha256

/-!
# The hasher computes the standard's digest

Two things are between the hasher and FIPS 180-4. `processBlock` has its constants in a table and
its schedule in an array; block by block it is the standard's `compress` (`processBlock_hash`).
And the message comes in chunks, with the padding as the last of them : `Fed m s` says that `s` has
been given `m`, which every `update` keeps, so only the bytes count and not the chunks.

The padding loop feeds zeros until the buffer holds 56 bytes. The `0x80` may leave more than that,
and then the zeros go round a block; after at most 63 of them the loop is over (`fed_padLoop`).
-/

open BigEndian BlockStreams

namespace GraphCache

/-- The chaining words as a hash value of the standard. -/
def Sha256State.hash (s : Sha256State) : Fips180.Hash where
  a := s.a.toBitVec
  b := s.b.toBitVec
  c := s.c.toBitVec
  d := s.d.toBitVec
  e := s.e.toBitVec
  f := s.f.toBitVec
  g := s.g.toBitVec
  h := s.h.toBitVec

namespace Sha256

variable {m block : Bytes} {s : Sha256} {w : List UInt32}

/-! ## Words -/

theorem toBitVec_rotr (x : UInt32) {n : UInt32} (h₀ : 0 < n.toNat) (h : n.toNat < 32) :
    (rotr x n).toBitVec = x.toBitVec.rotateRight n.toNat := by
  have hright : n.toNat % 32 = n.toNat := Nat.mod_eq_of_lt h
  have hleft : (4294967296 - n.toNat) % 32 = 32 - n.toNat := by omega
  simp [rotr, BitVec.rotateRight_def, hright, hleft]

theorem shift_or (x : ℕ) (b : UInt8) : x <<< 8 ||| b.toNat = x * 256 + b.toNat := by
  rw [← Nat.shiftLeft_add_eq_or_of_lt b.toNat_lt, Nat.shiftLeft_eq]

/-- Four bytes shifted into place are the number they spell. -/
theorem toBitVec_word (a b c d : UInt8) :
    ((a.toUInt32 <<< 24) ||| (b.toUInt32 <<< 16) ||| (c.toUInt32 <<< 8) ||| d.toUInt32).toBitVec =
      BitVec.ofNat 32 (beNat [a, b, c, d]) := by
  have hspelled : beNat [a, b, c, d] =
      a.toNat <<< 24 ||| b.toNat <<< 16 ||| c.toNat <<< 8 ||| d.toNat := by
    calc
      beNat [a, b, c, d] = ((a.toNat * 256 + b.toNat) * 256 + c.toNat) * 256 + d.toNat := by
        simp [beNat]
      _ = ((a.toNat <<< 8 ||| b.toNat) <<< 8 ||| c.toNat) <<< 8 ||| d.toNat := by
        rw [shift_or, shift_or, shift_or]
      _ = a.toNat <<< 24 ||| b.toNat <<< 16 ||| c.toNat <<< 8 ||| d.toNat := by
        rw [Nat.shiftLeft_or_distrib, Nat.shiftLeft_or_distrib, Nat.shiftLeft_or_distrib,
          ← Nat.shiftLeft_add, ← Nat.shiftLeft_add, ← Nat.shiftLeft_add]
  rw [hspelled]
  apply BitVec.eq_of_toNat_eq
  simp

/-- The words of a block are the standard's. -/
theorem map_words : ∀ {n : ℕ} {block : Bytes}, block.length = 4 * n →
    (words block).map UInt32.toBitVec = (List.range n).map (Fips180.M block)
  | 0, [], _ => rfl
  | n + 1, a :: b :: c :: d :: rest, h => by
    have hrest : rest.length = 4 * n := by
      simp only [List.length_cons] at h
      omega
    have hnext : ∀ t, Fips180.M (a :: b :: c :: d :: rest) (t + 1) = Fips180.M rest t := fun _ =>
      rfl
    rw [words, List.map_cons, map_words hrest, toBitVec_word, List.range_succ_eq_map,
      List.map_cons, List.map_map]
    refine congrArg₂ List.cons rfl (List.map_congr_left fun t _ => ?_)
    exact (hnext t).symm

/-! ## The schedule -/

/-- The words so far, newest first, are the first ones of the standard's schedule. -/
def Scheduled (block : Bytes) (w : List UInt32) : Prop :=
  w.map UInt32.toBitVec = ((List.range w.length).map (Fips180.W block)).reverse

/-- Word `t` of the schedule is the one with `i` words after it. -/
theorem Scheduled.word (h : Scheduled block w) {t i : ℕ} (hlen : w.length = t + i + 1) :
    (w.getD i 0).toBitVec = Fips180.W block t := by
  have hi : i < w.length := by omega
  have hback : w.length - 1 - i = t := by omega
  have hget := congrArg (fun l => l[i]?) h
  simp only [List.getElem?_map, List.getElem?_eq_getElem hi] at hget
  rw [List.getElem?_reverse (by simpa using hi)] at hget
  simp only [List.length_map, List.length_range, List.getElem?_map, hback] at hget
  rw [List.getElem?_range (by omega)] at hget
  rw [List.getD_eq_getElem?_getD, List.getElem?_eq_getElem hi]
  exact Option.some.inj hget

theorem Scheduled.next (h : Scheduled block w) (hlen : 16 ≤ w.length) :
    Scheduled block (nextWord w :: w) := by
  have hword : (nextWord w).toBitVec = Fips180.W block w.length := by
    obtain ⟨t, ht⟩ := Nat.exists_eq_add_of_le' hlen
    rw [ht, Fips180.W_add, ← h.word (i := 15) ht, ← h.word (t := t + 1) (i := 14) (by omega),
      ← h.word (t := t + 9) (i := 6) (by omega), ← h.word (t := t + 14) (i := 1) (by omega)]
    simp (disch := decide) only [nextWord, UInt32.toBitVec_add, UInt32.toBitVec_xor,
      toBitVec_rotr, UInt32.toBitVec_shiftRight, Fips180.smallSigma0, Fips180.smallSigma1]
    ac_rfl
  rw [Scheduled, List.map_cons, List.length_cons, List.range_succ, List.map_append,
    List.reverse_append, hword, h]
  rfl

theorem Scheduled.schedule : ∀ (n : ℕ) {w : List UInt32}, Scheduled block w → 16 ≤ w.length →
    Scheduled block (schedule n w) ∧ (schedule n w).length = w.length + n
  | 0, _, h, _ => ⟨h, rfl⟩
  | n + 1, w, h, hlen => by
    obtain ⟨hnext, hmore⟩ := Scheduled.schedule n (h.next hlen) (Nat.le_succ_of_le hlen)
    refine ⟨hnext, hmore.trans ?_⟩
    rw [List.length_cons]
    omega

/-! ## One block -/

theorem round_hash (s : Sha256State) (k w : UInt32) :
    (round s (k, w)).hash = Fips180.round s.hash k.toBitVec w.toBitVec := by
  simp (disch := decide) only [round, Sha256State.hash, Fips180.round, Fips180.bigSigma0,
    Fips180.bigSigma1, Fips180.Ch, Fips180.Maj, UInt32.toBitVec_add, UInt32.toBitVec_xor,
    UInt32.toBitVec_and, UInt32.toBitVec_not, toBitVec_rotr]
  rfl

theorem map_k_byTrial : k.map UInt32.toBitVec = Fips180.byTrial.map (Fips180.fraction 3) := by
  decide +kernel

/-- The table holds the standard's constants. -/
theorem map_k : k.map UInt32.toBitVec = (List.range 64).map Fips180.K := by
  rw [Fips180.map_K, Fips180.primes_eq, map_k_byTrial]

theorem reset_hash : reset.state.hash = Fips180.initial := by
  refine Fips180.Hash.ext ?_ ?_ ?_ ?_ ?_ ?_ ?_ ?_ <;> decide +kernel

/-- All rounds, for constants and words in two lists. -/
theorem foldl_round_hash : ∀ (kw : List (UInt32 × UInt32)) (s : Sha256State),
    (kw.foldl round s).hash =
      (kw.map (Prod.map UInt32.toBitVec UInt32.toBitVec)).foldl
        (fun v x => Fips180.round v x.1 x.2) s.hash
  | [], _ => rfl
  | (k, w) :: kw, s => by
    rw [List.foldl_cons, foldl_round_hash kw, round_hash]
    rfl

/-- `processBlock` is the standard's step from one hash value to the next. -/
theorem processBlock_hash (s : Sha256State) (h : block.length = 64) :
    (processBlock s block).hash = Fips180.compress s.hash block := by
  have hwords := map_words (n := 16) h
  have hcount : (words block).length = 16 := by
    rw [← List.length_map UInt32.toBitVec, hwords, List.length_map, List.length_range]
  have hfirst : Scheduled block (words block).reverse := by
    rw [Scheduled, List.map_reverse, hwords, List.length_reverse, hcount]
    refine congrArg List.reverse (List.map_congr_left fun t ht => ?_)
    exact (Fips180.W_of_lt block (List.mem_range.mp ht)).symm
  obtain ⟨hall, hlen⟩ := hfirst.schedule 48 (by rw [List.length_reverse, hcount])
  rw [List.length_reverse, hcount] at hlen
  have hw : ((schedule 48 (words block).reverse).reverse).map UInt32.toBitVec =
      (List.range 64).map (Fips180.W block) := by
    rw [List.map_reverse, hall, List.reverse_reverse, hlen]
  have hrounds := foldl_round_hash (k.zip (schedule 48 (words block).reverse).reverse) s
  rw [← List.zip_map, map_k, hw, List.zip_map', List.foldl_map] at hrounds
  rw [Fips180.compress, ← hrounds]
  simp only [processBlock, Sha256State.hash, UInt32.toBitVec_add, BitVec.add_comm]

/-! ## Updates -/

/-- The hasher has been given `m`. -/
structure Fed (m : Bytes) (s : Sha256) : Prop where
  absorbed : Absorbed processBlock 64 reset.state m s.state s.buffer
  totalLen : s.totalLen = UInt64.ofNat m.length

theorem fed_reset : Fed [] reset where
  absorbed := .nil
  totalLen := rfl

/-- The loop of `update` goes through all it is given, and leaves the total alone. -/
theorem updateLoop_absorbed : ∀ {n : ℕ} {s : Sha256} {m bytes : Bytes}, bytes.length ≤ n →
    Absorbed processBlock 64 reset.state m s.state s.buffer →
    Absorbed processBlock 64 reset.state (m ++ bytes) (updateLoop n s bytes).state
        (updateLoop n s bytes).buffer ∧
      (updateLoop n s bytes).totalLen = s.totalLen
  | 0, _, m, bytes, hn, h => by
    obtain rfl := List.length_eq_zero_iff.mp (Nat.le_zero.mp hn)
    rw [List.append_nil]
    exact ⟨h, rfl⟩
  | _ + 1, _, m, [], _, h => by
    rw [List.append_nil]
    exact ⟨h, rfl⟩
  | n + 1, s, m, b :: bs, hn, h => by
    have hroom := h.length_lt (by decide)
    have htook : ((b :: bs).take (64 - s.buffer.length)).length =
        min (64 - s.buffer.length) (b :: bs).length := List.length_take
    have hfewer : ((b :: bs).drop (64 - s.buffer.length)).length ≤ n := by
      rw [List.length_drop]
      omega
    rw [← List.take_append_drop (64 - s.buffer.length) (b :: bs), ← List.append_assoc,
      List.take_append_drop, updateLoop]
    split
    · rename_i hfull
      rw [List.length_append] at hfull
      exact updateLoop_absorbed hfewer (h.full (by decide) hfull)
    · rename_i hshort
      rw [List.length_append] at hshort
      exact updateLoop_absorbed hfewer (h.short (by omega))
    · exact List.cons_ne_nil b bs

theorem fed_update (h : Fed m s) (bytes : Bytes) : Fed (m ++ bytes) (s.update bytes) := by
  obtain ⟨habsorbed, htotal⟩ := updateLoop_absorbed
    (s := { s with totalLen := s.totalLen + UInt64.ofNat bytes.length }) (le_refl bytes.length)
    h.absorbed
  refine ⟨habsorbed, htotal.trans ?_⟩
  rw [List.length_append, UInt64.ofNat_add, h.totalLen]

/-- Any number of updates. -/
theorem fed_updates : ∀ (chunks : List Bytes) {m : Bytes} {s : Sha256}, Fed m s →
    Fed (m ++ chunks.flatten) (chunks.foldl update s)
  | [], m, _, h => by simpa using h
  | bytes :: chunks, m, s, h => by
    have hrest := fed_updates chunks (fed_update h bytes)
    rwa [List.append_assoc] at hrest

/-! ## The end of the message -/

/-- The loop ends by its own test after the `z` zeros that are missing to 56 bytes, and any larger
fuel gives the same. -/
theorem fed_padLoop : ∀ (z : ℕ) {n : ℕ} {m : Bytes} {s : Sha256}, Fed m s → z < 64 → z ≤ n →
    (m.length + z) % 64 = 56 →
    Fed (m ++ List.replicate z 0) (padLoop n s) ∧ (padLoop n s).buffer.length = 56
  | 0, n, m, s, h, _, _, hmod => by
    have hbuffer : s.buffer.length = 56 := h.absorbed.length_buffer.trans hmod
    have hstop : padLoop n s = s := by
      cases n with
      | zero => rfl
      | succ n => rw [padLoop, if_pos hbuffer]
    rw [hstop, List.replicate_zero, List.append_nil]
    exact ⟨h, hbuffer⟩
  | z + 1, n + 1, m, s, h, hz, hn, hmod => by
    have hbuffer : s.buffer.length ≠ 56 := by
      rw [h.absorbed.length_buffer]
      omega
    have hnext := fed_padLoop z (n := n) (fed_update h [0]) (by omega) (by omega)
      (by rw [List.length_append, List.length_singleton]; omega)
    rw [padLoop, if_neg hbuffer, List.replicate_succ, List.append_cons]
    exact hnext

/-- The padding up to the length, whatever the fuel beyond its zeros. -/
theorem fed_pad (h : Fed m s) {n : ℕ} (hn : Fips180.zeros m.length ≤ n) :
    Fed (m ++ [0x80] ++ List.replicate (Fips180.zeros m.length) 0)
        (padLoop n (s.update [0x80])) ∧
      (padLoop n (s.update [0x80])).buffer.length = 56 := by
  refine fed_padLoop _ (fed_update h [0x80]) (Fips180.zeros_lt m.length) hn ?_
  rw [List.length_append]
  exact Fips180.zeros_spec m.length

/-- The bit length fits in its 64 bits. -/
theorem bitLen_toNat {len : ℕ} (h : len < 2 ^ 61) : (UInt64.ofNat len * 8).toNat = 8 * len := by
  have hlen : len % 2 ^ 64 = len := Nat.mod_eq_of_lt (by omega)
  rw [UInt64.toNat_mul, UInt64.toNat_ofNat', hlen, Nat.mul_comm]
  exact Nat.mod_eq_of_lt (by simp; omega)

theorem final_of_fed (h : Fed m s) (hm : m.length < 2 ^ 61) : s.final = Fips180.sha256 m := by
  have hpadded := (fed_pad h (Fips180.zeros_lt m.length).le).1
  have hlast := fed_update hpadded (beBytes 8 (s.totalLen * 8).toNat)
  rw [h.totalLen, bitLen_toNat hm, List.append_assoc m, List.singleton_append] at hlast
  have hstate := congrArg Sha256State.hash hlast.absorbed.state
  rw [map_chain Sha256State.hash fun s _ => processBlock_hash s, reset_hash] at hstate
  rw [Fips180.sha256, Fips180.pad, ← hstate, ← bitLen_toNat hm, ← h.totalLen]
  rfl

/-- Whatever the chunks, the digest is the standard's for what they make up. After the `0x80` the
padding loop ends within 63 turns. -/
theorem final_updates (chunks : List Bytes) (h : chunks.flatten.length < 2 ^ 61) :
    (chunks.foldl update reset).final = Fips180.sha256 chunks.flatten ∧
      (∀ others : List Bytes, others.flatten = chunks.flatten →
        (others.foldl update reset).final = (chunks.foldl update reset).final) ∧
      ∃ turns < 64, ∀ n ≥ turns,
        (padLoop n ((chunks.foldl update reset).update [0x80])).buffer.length = 56 := by
  have hfed : ∀ others : List Bytes, Fed others.flatten (others.foldl update reset) := fun others =>
    fed_updates others fed_reset
  have hdigest := final_of_fed (hfed chunks) h
  refine ⟨hdigest, fun others hothers => ?_, Fips180.zeros chunks.flatten.length,
    Fips180.zeros_lt _, fun n hn => (fed_pad (hfed chunks) hn).2⟩
  rw [hdigest, final_of_fed (hfed others) (hothers ▸ h), hothers]

/-- The digest of `"abc"`, fed as `"a"` and `"bc"`. -/
theorem final_updates_abc :
    ([str "a", str "bc"].foldl update reset).final = Fips180.sha256 (str "abc") ∧
      ([str "ab", [], str "c"].foldl update reset).final =
        ([str "a", str "bc"].foldl update reset).final ∧
      Fips180.sha256 (str "abc") =
        [0xba, 0x78, 0x16, 0xbf, 0x8f, 0x01, 0xcf, 0xea, 0x41, 0x41, 0x40, 0xde, 0x5d, 0xae, 0x22,
          0x23, 0xb0, 0x03, 0x61, 0xa3, 0x96, 0x17, 0x7a, 0x9c, 0xb4, 0x10, 0xff, 0x61, 0xf2, 0x00,
          0x15, 0xad] :=
  have habc := final_updates [str "a", str "bc"] (by decide)
  ⟨habc.1, habc.2.1 [str "ab", [], str "c"] (by decide), by
    rw [show str "abc" = [str "a", str "bc"].flatten by decide, ← habc.1]
    decide +kernel⟩

end Sha256

end GraphCache
