import GraphCache.BigEndian
import GraphCache.Slots

/-!
# The canonical field stream

`CanonicalWriter` appends fields, each a big-endian 16-bit tag, a 32-bit length and the
payload. `begin` casts the length to 32 bits, so a payload of 4 GiB or more is written
under a truncated length. Here a writer is the list of the fields put so far and
`take` is its buffer.

`CanonicalReader` walks such a buffer : `rest` is the part of `data_` from `off_` on, so
`at_end` is `rest = []`. `next` yields one field, or stops at the end, or sets the
malformed flag. `next_bytes` : a field whose payload is shorter than 4 GiB is read back
as it was written, so a written stream parses uniquely (`take_injective`).
-/

open BigEndian

namespace GraphCache

/-- A buffer of bytes; also a `std::string`, which is one. -/
abbrev Bytes := List UInt8

/-- A `std::string`. -/
abbrev Str := List UInt8

/-- The bytes of an ASCII literal. -/
def str (s : String) : Str :=
  s.toList.map fun c => UInt8.ofNat c.toNat

/-- One field of a canonical stream. -/
structure Field where
  tag : UInt16
  payload : Bytes
  deriving DecidableEq, Repr

/-- The bytes of a field. The length is cast to 32 bits. -/
def Field.bytes (f : Field) : Bytes :=
  beBytes 2 f.tag.toNat ++ beBytes 4 f.payload.length ++ f.payload

/-- The fields put so far, in order. -/
abbrev CanonicalWriter := List Field

/-- The buffer of a writer. -/
def CanonicalWriter.take (w : CanonicalWriter) : Bytes :=
  w.flatMap Field.bytes

/-! ## Typed payloads -/

def encU8 (v : UInt8) : Bytes := [v]

def encU32 (v : UInt32) : Bytes := beBytes 4 v.toNat

def encU64 (v : UInt64) : Bytes := beBytes 8 v.toNat

def encI64 (v : Int64) : Bytes := encU64 v.toUInt64

def encBool (v : Bool) : Bytes := [if v then 1 else 0]

/-- A 32-bit count, then the elements. -/
def encU64List (values : List UInt64) : Bytes :=
  beBytes 4 values.length ++ values.flatMap encU64

def putU32 (tag : UInt16) (v : UInt32) : Field := ⟨tag, encU32 v⟩

def putU64 (tag : UInt16) (v : UInt64) : Field := ⟨tag, encU64 v⟩

def putI64 (tag : UInt16) (v : Int64) : Field := ⟨tag, encI64 v⟩

def putBool (tag : UInt16) (v : Bool) : Field := ⟨tag, encBool v⟩

def putBytes (tag : UInt16) (data : Bytes) : Field := ⟨tag, data⟩

def putStr (tag : UInt16) (s : Str) : Field := ⟨tag, s⟩

def putU64List (tag : UInt16) (values : List UInt64) : Field := ⟨tag, encU64List values⟩

def decodeU32 (p : Bytes) : Option UInt32 :=
  if p.length = 4 then some (UInt32.ofNat (beNat p)) else none

def decodeU64 (p : Bytes) : Option UInt64 :=
  if p.length = 8 then some (UInt64.ofNat (beNat p)) else none

def decodeI64 (p : Bytes) : Option Int64 :=
  (decodeU64 p).map UInt64.toInt64

def decodeStr (p : Bytes) : Option Str :=
  some p

/-- `if (p.empty()) return false; v = p[0] != 0;` -/
def decodeFlag : Bytes → Option Bool
  | [] => none
  | b :: _ => some (b != 0)

@[simp] theorem length_encU32 (v : UInt32) : (encU32 v).length = 4 := length_beBytes _ _

@[simp] theorem length_encU64 (v : UInt64) : (encU64 v).length = 8 := length_beBytes _ _

@[simp] theorem length_encI64 (v : Int64) : (encI64 v).length = 8 := length_beBytes _ _

@[simp] theorem length_encBool (v : Bool) : (encBool v).length = 1 := rfl

@[simp] theorem decodeU32_encU32 (v : UInt32) : decodeU32 (encU32 v) = some v := by
  simp [decodeU32, encU32,
    beNat_beBytes_of_lt (w := 4) (n := v.toNat) (by simpa using v.toNat_lt)]

@[simp] theorem decodeU64_encU64 (v : UInt64) : decodeU64 (encU64 v) = some v := by
  simp [decodeU64, encU64,
    beNat_beBytes_of_lt (w := 8) (n := v.toNat) (by simpa using v.toNat_lt)]

@[simp] theorem decodeI64_encI64 (v : Int64) : decodeI64 (encI64 v) = some v := by
  simp [decodeI64, encI64]

@[simp] theorem decodeFlag_encBool (v : Bool) : decodeFlag (encBool v) = some v := by
  cases v <;> rfl

@[simp] theorem decodeStr_eq (p : Bytes) : decodeStr p = some p := rfl

@[simp] theorem encU32_inj {v v' : UInt32} : encU32 v = encU32 v' ↔ v = v' :=
  ⟨fun h => by simpa using congrArg decodeU32 h, congrArg encU32⟩

@[simp] theorem encU64_inj {v v' : UInt64} : encU64 v = encU64 v' ↔ v = v' :=
  ⟨fun h => by simpa using congrArg decodeU64 h, congrArg encU64⟩

@[simp] theorem encI64_inj {v v' : Int64} : encI64 v = encI64 v' ↔ v = v' :=
  ⟨fun h => by simpa using congrArg decodeI64 h, congrArg encI64⟩

@[simp] theorem encBool_inj {v v' : Bool} : encBool v = encBool v' ↔ v = v' :=
  ⟨fun h => by simpa using congrArg decodeFlag h, congrArg encBool⟩

theorem encU64List_injective : Function.Injective encU64List := by
  intro vs vs' h
  obtain ⟨-, h⟩ := List.append_inj h (by simp)
  exact Slots.flatMap_inj_of_length (by norm_num) length_encU64 (fun _ _ => encU64_inj.mp) h

/-! ## Reading -/

/-- A reader : the bytes from `off_` on, and the malformed flag. -/
structure CanonicalReader where
  rest : Bytes
  malformed : Bool := false
  deriving DecidableEq, Repr

/-- One field. At the end of the stream nothing is read; a short header, or a length
past the end, sets the malformed flag. -/
def CanonicalReader.next (r : CanonicalReader) : Option Field × CanonicalReader :=
  match r.rest with
  | [] => (none, r)
  | t₁ :: t₀ :: l₃ :: l₂ :: l₁ :: l₀ :: body =>
    let len := beNat [l₃, l₂, l₁, l₀]
    if body.length < len then (none, ⟨body, true⟩)
    else (some ⟨UInt16.ofNat (beNat [t₁, t₀]), body.take len⟩, ⟨body.drop len, r.malformed⟩)
  | rest => (none, ⟨rest, true⟩)

/-- A field shorter than 4 GiB is read back as it was written. -/
theorem CanonicalReader.next_bytes (f : Field) (hf : f.payload.length < 2 ^ 32) (rest : Bytes)
    (b : Bool) : (CanonicalReader.mk (f.bytes ++ rest) b).next = (some f, ⟨rest, b⟩) := by
  have htag : beNat (beBytes 2 f.tag.toNat) = f.tag.toNat :=
    beNat_beBytes_of_lt (by simpa using f.tag.toNat_lt)
  have hlen : beNat (beBytes 4 f.payload.length) = f.payload.length :=
    beNat_beBytes_of_lt (by simpa using hf)
  have hsplit : f.bytes ++ rest = UInt8.ofNat (f.tag.toNat / 256 ^ 1) ::
      UInt8.ofNat (f.tag.toNat / 256 ^ 0) :: UInt8.ofNat (f.payload.length / 256 ^ 3) ::
      UInt8.ofNat (f.payload.length / 256 ^ 2) :: UInt8.ofNat (f.payload.length / 256 ^ 1) ::
      UInt8.ofNat (f.payload.length / 256 ^ 0) :: (f.payload ++ rest) := by
    simp [Field.bytes, beBytes]
  simp only [beBytes] at htag hlen
  simp only [next, hsplit, htag, hlen]
  rw [if_neg (by simp)]
  simp

/-- A stream of fields shorter than 4 GiB parses in one way only. -/
theorem CanonicalWriter.take_injective :
    ∀ {w w' : CanonicalWriter}, (∀ f ∈ w, f.payload.length < 2 ^ 32) →
      (∀ f ∈ w', f.payload.length < 2 ^ 32) → take w = take w' → w = w'
  | [], [], _, _, _ => rfl
  | [], f :: w', _, _, h => by simp [take, Field.bytes, beBytes] at h
  | f :: w, [], _, _, h => by simp [take, Field.bytes, beBytes] at h
  | f :: w, f' :: w', hw, hw', h => by
    simp only [take, List.flatMap_cons] at h
    have hn := CanonicalReader.next_bytes f (hw f (by simp)) (w.flatMap Field.bytes) false
    rw [h, CanonicalReader.next_bytes f' (hw' f' (by simp)), Prod.mk.injEq,
      Option.some.injEq, CanonicalReader.mk.injEq] at hn
    obtain ⟨rfl, hrest, -⟩ := hn
    rw [take_injective (w := w) (fun x hx => hw x (by simp [hx]))
      (fun x hx => hw' x (by simp [hx])) hrest.symm]

/-- `r.next(tag, p)` with the expected tag, then a payload decoder; the errors of the two
failures. -/
def nextField {ε α : Type} (tag : UInt16) (decode : Bytes → Option α) (missing malformed : ε) :
    StateT Bytes (Except ε) α := fun bytes =>
  match (CanonicalReader.mk bytes false).next with
  | (some f, r) =>
    if f.tag = tag then
      match decode f.payload with
      | some a => .ok (a, r.rest)
      | none => .error malformed
    else .error missing
  | (none, _) => .error missing

/-- That many fields of one tag. -/
def nextFields {ε α : Type} (tag : UInt16) (decode : Bytes → Option α) (missing malformed : ε) :
    ℕ → StateT Bytes (Except ε) (List α)
  | 0 => pure []
  | n + 1 => do
    let a ← nextField tag decode missing malformed
    let as ← nextFields tag decode missing malformed n
    pure (a :: as)

section
variable {ε α β : Type} {tag : UInt16} {decode : Bytes → Option α} {missing malformed : ε}

/-- A written field is read. -/
theorem nextField_take {p : Bytes} {w : CanonicalWriter} {a : α} (hp : p.length < 2 ^ 32)
    (hd : decode p = some a) :
    nextField tag decode missing malformed (CanonicalWriter.take (⟨tag, p⟩ :: w)) =
      .ok (a, w.take) := by
  simp only [nextField, CanonicalWriter.take, List.flatMap_cons,
    CanonicalReader.next_bytes ⟨tag, p⟩ hp, if_true, hd]

/-- A written field that carries the expected tag and decodes is consumed. -/
theorem nextField_bind {p : Bytes} {w : CanonicalWriter} {a : α}
    (k : α → StateT Bytes (Except ε) β) (hp : p.length < 2 ^ 32) (hd : decode p = some a) :
    (nextField tag decode missing malformed >>= k) (CanonicalWriter.take (⟨tag, p⟩ :: w)) =
      k a (CanonicalWriter.take w) := by
  simp only [bind, StateT.bind, nextField_take hp hd, Except.bind]

theorem nextFields_bind {γ : Type} {e : β → Bytes} {l : List β} {w : CanonicalWriter} {g : β → α}
    (k : List α → StateT Bytes (Except ε) γ) (hl : ∀ b ∈ l, (e b).length < 2 ^ 32)
    (hdec : ∀ b ∈ l, decode (e b) = some (g b)) :
    (nextFields tag decode missing malformed l.length >>= k)
        (CanonicalWriter.take ((l.map fun b => ⟨tag, e b⟩) ++ w)) =
      k (l.map g) (CanonicalWriter.take w) := by
  induction l generalizing k with
  | nil => rfl
  | cons b l ih =>
    simp only [List.length_cons, nextFields, List.map_cons, List.cons_append, bind_assoc]
    rw [nextField_bind _ (hl b (by simp)) (hdec b (by simp)),
      ih _ (fun x hx => hl x (by simp [hx])) (fun x hx => hdec x (by simp [hx]))]
    simp

end

/-- `while (r.next(tag, p)) { ... return false; ... } return !r.malformed();`, with one
`next` per unit of fuel. -/
def CanonicalReader.loop {σ : Type} (step : σ → Field → Option σ) :
    ℕ → CanonicalReader → σ → Option σ
  | 0, _, _ => none
  | n + 1, r, s =>
    match r.next with
    | (none, r') => if r'.malformed then none else some s
    | (some f, r') => (step s f).bind (loop step n r')

/-- The loop over a whole buffer. Every `next` consumes six bytes, so the fuel suffices. -/
def CanonicalReader.forEach {σ : Type} (step : σ → Field → Option σ) (bytes : Bytes) (s : σ) :
    Option σ :=
  loop step (bytes.length + 1) ⟨bytes, false⟩ s

theorem CanonicalReader.loop_take {σ : Type} (step : σ → Field → Option σ) :
    ∀ (w : CanonicalWriter), (∀ f ∈ w, f.payload.length < 2 ^ 32) → ∀ n, w.length < n →
      ∀ s, loop step n ⟨w.take, false⟩ s = w.foldlM step s
  | [], _, n + 1, _, s => rfl
  | f :: w, hw, n + 1, hn, s => by
    have hrest := loop_take step w (fun x hx => hw x (by simp [hx])) n (by simpa using hn)
    simp only [loop, CanonicalWriter.take, List.flatMap_cons,
      next_bytes f (hw f (by simp)), List.foldlM_cons]
    exact Option.bind_congr fun s' _ => hrest s'

theorem CanonicalWriter.length_le_take : ∀ w : CanonicalWriter, w.length ≤ w.take.length
  | [] => Nat.zero_le _
  | f :: w => by
    have := length_le_take w
    simp only [take, List.flatMap_cons, List.length_cons, List.length_append, Field.bytes,
      length_beBytes] at this ⊢
    omega

/-- The loop over a written stream folds the fields that were put. -/
theorem CanonicalReader.forEach_take {σ : Type} (step : σ → Field → Option σ)
    {w : CanonicalWriter} (hw : ∀ f ∈ w, f.payload.length < 2 ^ 32) (s : σ) :
    forEach step w.take s = w.foldlM step s :=
  loop_take step w hw _ (Nat.lt_succ_of_le w.length_le_take) s

end GraphCache
