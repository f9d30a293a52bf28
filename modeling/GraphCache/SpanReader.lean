import GraphCache.Rewriting
import GraphCache.Spans
import GraphCache.Types

/-!
# The reader with its accesses

`CanonicalReader` as it is in the program : the data, an offset and the malformed flag. `next` and
the decoders of payloads make each access to a byte or a part of a span by itself, and have no
outcome where one is out of range, or where a difference of sizes wraps around.

`SpanReader.next_spec` : with the offset within the data, `next` has an outcome, leaves the offset
within the data, malformed or not, and reads what `CanonicalReader.next` reads from the rest. So do
the decoders of payloads. A walk over fields has no outcome exactly where it comes to a field whose
decoder has none (`tracks_nextField`, `tracks_nextFields`, `forEach_eq_none_iff`). A loop over `next`
ends, since each field moves the offset.
-/

open BigEndian Spans

namespace GraphCache

/-- `data_`, `off_` and `malformed_`. -/
structure SpanReader where
  data : Bytes
  off : ℕ := 0
  malformed : Bool := false

namespace SpanReader

/-- `off_ <= data_.size()`. -/
def Within (r : SpanReader) : Prop := r.off ≤ r.data.length

/-- What is left to read. -/
def rest (r : SpanReader) : Bytes := r.data.drop r.off

/-- The reader without what it has read. -/
def view (r : SpanReader) : CanonicalReader := ⟨r.rest, r.malformed⟩

def atEnd (r : SpanReader) : Bool := r.off == r.data.length

/-- `next`. -/
def next (r : SpanReader) : Option (Option Field × SpanReader) :=
  if r.off = r.data.length then some (none, r)
  else do
    let left ← minus r.data.length r.off
    if left < 6 then return (none, { r with malformed := true })
    else
      let tag ← indexes r.data r.off 2
      let len ← indexes r.data (r.off + 2) 4
      let r := { r with off := r.off + 6 }
      let left ← minus r.data.length r.off
      if beNat len > left then return (none, { r with malformed := true })
      else
        let payload ← subspan r.data r.off (beNat len)
        return (some ⟨UInt16.ofNat (beNat tag), payload⟩, { r with off := r.off + beNat len })

theorem within_of (data : Bytes) : (SpanReader.mk data 0 false).Within := Nat.zero_le _

variable {r r' : SpanReader}

theorem length_rest (h : r.Within) : r.rest.length + r.off = r.data.length := by
  rw [rest, List.length_drop]
  exact Nat.sub_add_cancel h

theorem atEnd_iff (h : r.Within) : r.atEnd = true ↔ r.rest = [] := by
  rw [atEnd, beq_iff_eq, rest, List.drop_eq_nil_iff]
  exact ⟨fun heq => heq.ge, fun hle => Nat.le_antisymm h hle⟩

/-- `CanonicalReader.next` by the length of what is left. -/
theorem canonicalNext_eq (r : CanonicalReader) : r.next =
    if r.rest = [] then (none, r)
    else if r.rest.length < 6 then (none, ⟨r.rest, true⟩)
    else if beNat ((r.rest.drop 2).take 4) > (r.rest.drop 6).length then
      (none, ⟨r.rest.drop 6, true⟩)
    else (some ⟨UInt16.ofNat (beNat (r.rest.take 2)),
        (r.rest.drop 6).take (beNat ((r.rest.drop 2).take 4))⟩,
      ⟨(r.rest.drop 6).drop (beNat ((r.rest.drop 2).take 4)), r.malformed⟩) := by
  obtain ⟨rest, malformed⟩ := r
  match rest with
  | [] | [_] | [_, _] | [_, _, _] | [_, _, _, _] | [_, _, _, _, _] =>
    simp [CanonicalReader.next]
  | t₁ :: t₀ :: l₃ :: l₂ :: l₁ :: l₀ :: body =>
    have hlong : ¬(t₁ :: t₀ :: l₃ :: l₂ :: l₁ :: l₀ :: body).length < 6 := by simp
    rw [if_neg (List.cons_ne_nil _ _), if_neg hlong]
    rfl

/-- What is read, and what is left, is as without the offset. -/
theorem next_spec (h : r.Within) : ∃ r', r.next = some (r.view.next.1, r') ∧ r'.Within ∧
    r'.data = r.data ∧ r'.view = r.view.next.2 := by
  have hlen := length_rest h
  have hwithin : r.off ≤ r.data.length := h
  have hnil : r.off = r.data.length ↔ r.view.rest = [] := beq_iff_eq.symm.trans (atEnd_iff h)
  have hleft : r.data.length - r.off = r.view.rest.length := by
    rw [← hlen, Nat.add_sub_cancel]
    rfl
  have hdrop : ∀ n, r.data.drop (r.off + n) = r.view.rest.drop n := fun n => by
    rw [← List.drop_drop]
    rfl
  rw [canonicalNext_eq, next, minus_eq hwithin, hleft]
  simp only [Option.bind_eq_bind, Option.bind_some, Option.pure_def, hnil]
  by_cases hend : r.view.rest = []
  · rw [if_pos hend, if_pos hend]
    exact ⟨r, rfl, h, rfl, rfl⟩
  rw [if_neg hend, if_neg hend]
  by_cases hshort : r.view.rest.length < 6
  · rw [if_pos hshort, if_pos hshort]
    exact ⟨_, rfl, h, rfl, rfl⟩
  have hbody : r.data.length - (r.off + 6) = (r.view.rest.drop 6).length := by
    rw [← hdrop, List.length_drop]
  have htag : indexes r.data r.off 2 = some (r.view.rest.take 2) := indexes_eq (by omega)
  have hcount : indexes r.data (r.off + 2) 4 = some ((r.view.rest.drop 2).take 4) := by
    rw [indexes_eq (by omega), hdrop]
  rw [if_neg hshort, if_neg hshort, htag, hcount, Option.bind_some, Option.bind_some,
    minus_eq (by omega), hbody, Option.bind_some]
  by_cases hover : beNat ((r.view.rest.drop 2).take 4) > (r.view.rest.drop 6).length
  · rw [if_pos hover, if_pos hover]
    refine ⟨_, rfl, show r.off + 6 ≤ r.data.length by omega, rfl, ?_⟩
    exact congrArg (CanonicalReader.mk · true) (hdrop 6)
  · rw [if_neg hover, if_neg hover, subspan_eq (by omega), hdrop, Option.bind_some]
    refine ⟨_, rfl, show r.off + 6 + _ ≤ r.data.length by omega, rfl, ?_⟩
    refine congrArg (CanonicalReader.mk · r.malformed) ?_
    rw [List.drop_drop]
    exact (congrArg (r.data.drop ·) (Nat.add_assoc _ _ _)).trans (hdrop _)

/-- A field moves the offset. -/
theorem next_lt {f : Field} (h : r.next = some (some f, r')) :
    r'.data.length - r'.off < r.data.length - r.off := by
  unfold next at h
  split_ifs at h with hend
  · simp at h
  obtain ⟨left, hleft, h⟩ := Option.bind_eq_some_iff.mp h
  rw [minus_eq_some] at hleft
  split_ifs at h with hshort
  · simp at h
  obtain ⟨tag, -, h⟩ := Option.bind_eq_some_iff.mp h
  obtain ⟨len, -, h⟩ := Option.bind_eq_some_iff.mp h
  obtain ⟨left', hleft', h⟩ := Option.bind_eq_some_iff.mp h
  split_ifs at h with hover
  · simp at h
  obtain ⟨payload, -, h⟩ := Option.bind_eq_some_iff.mp h
  obtain ⟨-, rfl⟩ := Prod.mk.inj (Option.some.inj h)
  dsimp only
  omega

/-- A field of the reader without its offset. -/
theorem next_some {f : Field} (h : r.Within) (hnext : r.next = some (some f, r')) :
    r'.Within ∧ r.rest = f.bytes ++ r'.rest ∧ f.payload.length < 2 ^ 32 := by
  obtain ⟨r'', hr, hwithin, -, hview⟩ := next_spec h
  obtain ⟨hf, rfl⟩ := Prod.mk.inj (Option.some.inj (hr.symm.trans hnext))
  have hread : r.view.next = (some f, r''.view) := Prod.ext hf hview.symm
  exact ⟨hwithin, CanonicalReader.bytes_of_next hread⟩

/-- A written field is read. -/
theorem next_bytes {f : Field} {tail : Bytes} (h : r.Within) (hf : f.payload.length < 2 ^ 32)
    (hrest : r.rest = f.bytes ++ tail) :
    ∃ r', r.next = some (some f, r') ∧ r'.Within ∧ r'.rest = tail := by
  obtain ⟨r', hnext, hr', -, hview⟩ := next_spec h
  have hread : r.view.next = (some f, ⟨tail, r.malformed⟩) := by
    rw [view, hrest]
    exact CanonicalReader.next_bytes f hf tail _
  rw [hread] at hnext hview
  exact ⟨r', hnext, hr', congrArg CanonicalReader.rest hview⟩

/-- A field makes the data shorter. -/
theorem length_of_field {f : Field} {n : ℕ} (hrest : r.rest = f.bytes ++ r'.rest)
    (hn : r.rest.length < n + 1) : r'.rest.length < n := by
  rw [hrest] at hn
  simp only [Field.bytes, List.length_append, length_beBytes] at hn
  omega

/-- `k` calls of `next`. -/
def nexts : ℕ → SpanReader → Option SpanReader
  | 0, r => some r
  | k + 1, r => r.next.bind fun x => nexts k x.2

/-- However often `next` is called, the offset stays within the data. -/
theorem nexts_within : ∀ (k : ℕ) {r : SpanReader}, r.Within →
    ∃ r', r.nexts k = some r' ∧ r'.Within ∧ r'.data = r.data
  | 0, r, h => ⟨r, rfl, h, rfl⟩
  | k + 1, r, h => by
    obtain ⟨r₁, hnext, h₁, hdata₁, -⟩ := next_spec h
    obtain ⟨r₂, hrest, h₂, hdata₂⟩ := nexts_within k h₁
    refine ⟨r₂, ?_, h₂, hdata₂.trans hdata₁⟩
    rw [nexts, hnext, Option.bind_some, hrest]

/-! ## Payloads -/

section

variable (p : Bytes)

/-- A payload of `w` bytes, read one by one. -/
def decodeWord (w : ℕ) : Option (Option ℕ) :=
  if p.length ≠ w then some none else (indexes p 0 w).map fun bs => some (beNat bs)

def decodeU32 : Option (Option UInt32) := (decodeWord p 4).map (Option.map UInt32.ofNat)

def decodeU64 : Option (Option UInt64) := (decodeWord p 8).map (Option.map UInt64.ofNat)

def decodeI64 : Option (Option Int64) := (decodeU64 p).map (Option.map UInt64.toInt64)

def decodeF64 : Option (Option Double) := (decodeU64 p).map (Option.map Double.mk)

def decodeStr : Option (Option Str) := some (some p)

/-- `if (p.empty()) return false; v = p[0];` -/
def decodeByte : Option (Option UInt8) :=
  if p = [] then some none else (index p 0).map some

/-- `if (p.empty()) return false; v = p[0] != 0;` -/
def decodeFlag : Option (Option Bool) := (decodeByte p).map (Option.map (· != 0))

/-- `if (!p.empty()) v = p[0] != 0;` -/
def decodeFlagOr (v : Bool) : Option (Option Bool) :=
  if p = [] then some (some v) else (index p 0).map fun b => some (b != 0)

theorem decodeWord_eq (w : ℕ) :
    decodeWord p w = some (if p.length = w then some (beNat p) else none) := by
  unfold decodeWord
  by_cases h : p.length = w
  · rw [if_neg (not_not.mpr h), if_pos h, indexes_eq (by omega), List.drop_zero, Option.map_some,
      List.take_of_length_le h.le]
  · rw [if_pos h, if_neg h]

@[simp] theorem decodeU32_eq : decodeU32 p = some (GraphCache.decodeU32 p) := by
  rw [decodeU32, decodeWord_eq, Option.map_some, GraphCache.decodeU32]
  split_ifs <;> rfl

@[simp] theorem decodeU64_eq : decodeU64 p = some (GraphCache.decodeU64 p) := by
  rw [decodeU64, decodeWord_eq, Option.map_some, GraphCache.decodeU64]
  split_ifs <;> rfl

@[simp] theorem decodeI64_eq : decodeI64 p = some (GraphCache.decodeI64 p) := by
  rw [decodeI64, decodeU64_eq]
  rfl

@[simp] theorem decodeF64_eq : decodeF64 p = some (GraphCache.decodeF64 p) := by
  rw [decodeF64, decodeU64_eq]
  rfl

@[simp] theorem decodeStr_eq : decodeStr p = some (GraphCache.decodeStr p) := rfl

@[simp] theorem decodeByte_eq : decodeByte p = some p.head? := by
  cases p <;> rfl

@[simp] theorem decodeFlag_eq : decodeFlag p = some (GraphCache.decodeFlag p) := by
  cases p <;> rfl

@[simp] theorem decodeFlagOr_eq (v : Bool) :
    decodeFlagOr p v = some (some ((GraphCache.decodeFlag p).getD v)) := by
  cases p <;> rfl

end

/-- `if (!decode(p, v)) return false; s.field = v;` -/
def assign {α σ : Type} (o : Option (Option α)) (f : α → σ) : Option (Option σ) :=
  o.map (Option.map f)

@[simp] theorem assign_some {α σ : Type} (o : Option α) (f : α → σ) :
    assign (some o) f = some (o.map f) := rfl

/-! ## Walks over fields -/

section

variable {ε α : Type} {tag : UInt16} {decode : Bytes → Option α}
  {check : Bytes → Option (Option α)} {missing malformed : ε}

/-- `next` with the expected tag, then a decoder of the payload, which may have no outcome. -/
def nextField (tag : UInt16) (check : Bytes → Option (Option α)) (missing malformed : ε) :
    StateT SpanReader (ExceptT ε Option) α := fun r =>
  ExceptT.mk <| r.next.bind fun x =>
    match x with
    | (some f, r') =>
      if f.tag = tag then
        (check f.payload).map fun o =>
          match o with
          | some a => .ok (a, r')
          | none => .error malformed
      else some (.error missing)
    | (none, _) => some (.error missing)

/-- That many fields of one tag. -/
def nextFields (tag : UInt16) (check : Bytes → Option (Option α)) (missing malformed : ε) :
    ℕ → StateT SpanReader (ExceptT ε Option) (List α)
  | 0 => pure []
  | n + 1 => do
    let a ← nextField tag check missing malformed
    let as ← nextFields tag check missing malformed n
    pure (a :: as)

/-- The malformed flag is not read. -/
theorem canonicalNext_flag (rest : Bytes) (b b' : Bool) :
    (CanonicalReader.mk rest b).next.1 = (CanonicalReader.mk rest b').next.1 ∧
      (CanonicalReader.mk rest b).next.2.rest = (CanonicalReader.mk rest b').next.2.rest := by
  rw [canonicalNext_eq, canonicalNext_eq]
  dsimp only
  split_ifs <;> exact ⟨rfl, rfl⟩

/-- A buffer that begins with a field of this tag and such a payload. -/
def Begins (tag : UInt16) (Q : Bytes → Prop) (bytes : Bytes) : Prop :=
  ∃ p tail, bytes = (Field.mk tag p).bytes ++ tail ∧ p.length < 2 ^ 32 ∧ Q p

/-- That many fields of one tag, with such payloads. -/
structure Records (tag : UInt16) (Q : Bytes → Prop) (n : ℕ) (ys : CanonicalWriter) : Prop where
  length : ys.length = n
  each : ∀ y ∈ ys, y.tag = tag ∧ y.payload.length < 2 ^ 32 ∧ Q y.payload

/-- Such a buffer is told by the field that is read from it. -/
theorem begins_iff {Q : Bytes → Prop} (bytes : Bytes) : Begins tag Q bytes ↔
    ∃ f, (CanonicalReader.mk bytes false).next.1 = some f ∧ f.tag = tag ∧ Q f.payload := by
  constructor
  · rintro ⟨p, tail, rfl, hp, hQ⟩
    exact ⟨⟨tag, p⟩, by rw [CanonicalReader.next_bytes ⟨tag, p⟩ hp], rfl, hQ⟩
  · rintro ⟨⟨t, p⟩, hnext, htag, hQ⟩
    obtain rfl : t = tag := htag
    obtain ⟨hbytes, hp⟩ := CanonicalReader.bytes_of_next (Prod.ext hnext rfl)
    exact ⟨p, _, hbytes, hp, hQ⟩

/-- The fields for which the decoder of payloads has no outcome. -/
theorem tracks_nextField (h : ∀ p, (check p).join = decode p) :
    Tracks Within rest (Begins tag (check · = none)) (nextField tag check missing malformed)
      (GraphCache.nextField tag decode missing malformed) := by
  intro r hr
  obtain ⟨r', hnext, hr', -, hview⟩ := next_spec hr
  obtain ⟨hflag, hrest⟩ := canonicalNext_flag r.rest r.malformed false
  have hleft : (CanonicalReader.mk r.rest false).next.2.rest = r'.rest :=
    hrest.symm.trans (congrArg CanonicalReader.rest hview).symm
  rw [show r.view.next.1 = _ from hflag] at hnext
  rw [begins_iff]
  rcases hread : (CanonicalReader.mk r.rest false).next with ⟨_ | f, r''⟩
  · rw [hread] at hnext
    simp [nextField, StateT.run, ExceptT.run, ExceptT.mk, hnext, GraphCache.nextField, hread]
  rw [hread] at hnext hleft
  dsimp only at hnext hleft
  by_cases htag : f.tag = tag
  · cases hcheck : check f.payload with
    | none =>
      simp [nextField, StateT.run, ExceptT.run, ExceptT.mk, hnext, htag, hcheck]
    | some o =>
      obtain rfl : o = decode f.payload := by rw [← h, hcheck, Option.join_some]
      cases hdec : decode f.payload with
      | none =>
        simp [nextField, StateT.run, ExceptT.run, ExceptT.mk, hnext, GraphCache.nextField, hread,
          htag, hcheck, hdec]
      | some a =>
        simp [nextField, StateT.run, ExceptT.run, ExceptT.mk, hnext, GraphCache.nextField, hread,
          htag, hcheck, hdec, hleft, hr']
  · simp [nextField, StateT.run, ExceptT.run, ExceptT.mk, hnext, GraphCache.nextField, hread, htag]

/-- A list of fields that stops at one for which the decoder has no outcome. -/
def StopsAt (tag : UInt16) (check : Bytes → Option (Option α)) (decode : Bytes → Option α) (n : ℕ)
    (bytes : Bytes) : Prop :=
  ∃ m < n, ∃ ys tail, Records tag (fun p => (decode p).isSome) m ys ∧
    Begins tag (check · = none) tail ∧ bytes = ys.take ++ tail

theorem stopsAt_succ {n : ℕ} (bytes : Bytes) : StopsAt tag check decode (n + 1) bytes ↔
    Begins tag (check · = none) bytes ∨ ∃ a rest,
      GraphCache.nextField tag decode missing malformed bytes = .ok (a, rest) ∧
        StopsAt tag check decode n rest := by
  constructor
  · rintro ⟨_ | m, hm, ys, tail, ⟨hlen, hys⟩, htail, rfl⟩
    · obtain rfl := List.length_eq_zero_iff.mp hlen
      exact .inl htail
    · obtain ⟨⟨t, p⟩, ys, rfl⟩ := List.exists_cons_of_length_eq_add_one hlen
      obtain ⟨⟨rfl, hp, hdec⟩, hrest⟩ := List.forall_mem_cons.mp hys
      obtain ⟨a, ha⟩ := Option.isSome_iff_exists.mp hdec
      refine .inr ⟨a, CanonicalWriter.take ys ++ tail, ?_, m, Nat.lt_of_succ_lt_succ hm, ys, tail,
        ⟨Nat.succ.inj hlen, hrest⟩, htail, rfl⟩
      simpa [CanonicalWriter.take] using nextField_append hp ha
  · rintro (hbegins | ⟨a, rest, hread, m, hm, ys, tail, ⟨hlen, hys⟩, htail, rfl⟩)
    · exact ⟨0, Nat.succ_pos n, [], bytes, ⟨rfl, List.forall_mem_nil _⟩, hbegins, rfl⟩
    · obtain ⟨p, rfl, hp, hdec⟩ := nextField_ok hread
      refine ⟨m + 1, Nat.succ_lt_succ hm, ⟨tag, p⟩ :: ys, tail, ⟨congrArg _ hlen, ?_⟩, htail, ?_⟩
      · exact List.forall_mem_cons.mpr ⟨⟨rfl, hp, Option.isSome_iff_exists.mpr ⟨a, hdec⟩⟩, hys⟩
      · simp [CanonicalWriter.take]

theorem tracks_nextFields (h : ∀ p, (check p).join = decode p) : ∀ n,
    Tracks Within rest (StopsAt tag check decode n) (nextFields tag check missing malformed n)
      (GraphCache.nextFields tag decode missing malformed n)
  | 0 => Tracks.congr Total.pure fun _ => iff_of_false id fun ⟨_, hm, _⟩ => Nat.not_lt_zero _ hm
  | n + 1 => by
    refine (Tracks.bind (tracks_nextField h)
      fun _ => (tracks_nextFields h n).bind_total fun _ => .pure).congr fun bytes => ?_
    rw [stopsAt_succ]

theorem total_nextField (h : ∀ p, check p = some (decode p)) :
    Total Within rest (nextField tag check missing malformed)
      (GraphCache.nextField tag decode missing malformed) := by
  refine (tracks_nextField fun p => by rw [h, Option.join_some]).congr fun _ => ?_
  simp [Begins, h]

theorem total_nextFields (h : ∀ p, check p = some (decode p)) (n : ℕ) :
    Total Within rest (nextFields tag check missing malformed n)
      (GraphCache.nextFields tag decode missing malformed n) := by
  refine (tracks_nextFields (fun p => by rw [h, Option.join_some]) n).congr fun _ => ?_
  simp [StopsAt, Begins, h]

end

/-! ## Loops -/

section

variable {σ : Type} {step : σ → Field → Option (Option σ)} {step' : σ → Field → Option σ}

/-- `while (r.next(tag, p)) { ... return false; ... } return !r.malformed();`. Each turn moves the
offset, so the loop ends. -/
def loop (step : σ → Field → Option (Option σ)) (r : SpanReader) (s : σ) : Option (Option σ) :=
  match _ : r.next with
  | none => none
  | some (none, r') => some (if r'.malformed then none else some s)
  | some (some f, r') =>
    match step s f with
    | none => none
    | some none => some none
    | some (some s') => loop step r' s'
termination_by r.data.length - r.off
decreasing_by exact next_lt ‹_›

theorem loop_none {r r' : SpanReader} {s : σ} (h : r.next = some (none, r')) :
    loop step r s = some (if r'.malformed then none else some s) := by
  rw [loop]
  split
  · simp_all
  · rename_i r'' hnext
    obtain rfl : r'' = r' := by simpa using hnext.symm.trans h
    rfl
  · simp_all

theorem loop_some {r r' : SpanReader} {s : σ} {f : Field} (h : r.next = some (some f, r')) :
    loop step r s = match step s f with
      | none => none
      | some none => some none
      | some (some s') => loop step r' s' := by
  rw [loop]
  split
  · simp_all
  · simp_all
  · rename_i f' r'' hnext
    obtain ⟨rfl, rfl⟩ : f' = f ∧ r'' = r' := by simpa using hnext.symm.trans h
    rfl

/-- The loop over a whole buffer. -/
def forEach (step : σ → Field → Option (Option σ)) (bytes : Bytes) (s : σ) : Option (Option σ) :=
  loop step { data := bytes } s

/-- A loop that has an outcome has that of the loop over the rest, which refuses where there is
none. -/
theorem loop_join (h : ∀ s f, (step s f).join = step' s f) :
    ∀ (n : ℕ) (r : SpanReader) (s : σ), r.Within → r.rest.length < n →
      (loop step r s).join = CanonicalReader.loop step' n r.view s
  | 0, _, _, _, hn => absurd hn (Nat.not_lt_zero _)
  | n + 1, r, s, hr, hn => by
    obtain ⟨r', hnext, hr', -, hview⟩ := next_spec hr
    rcases hread : r.view.next with ⟨_ | f, v⟩
    · rw [hread] at hnext hview
      obtain rfl : r'.view = v := hview
      rw [loop_none hnext, CanonicalReader.loop, hread]
      rfl
    · rw [hread] at hnext hview
      obtain rfl : r'.view = v := hview
      obtain ⟨-, hbytes, -⟩ := next_some hr hnext
      have hlen := length_of_field hbytes hn
      rw [loop_some hnext, CanonicalReader.loop, hread]
      dsimp only
      rw [← h]
      cases hstep : step s f with
      | none => rfl
      | some o =>
        cases o with
        | none => rfl
        | some s' => exact loop_join h n r' s' hr' hlen

/-- Fields over which the loop comes to one for which its step has no outcome. -/
def LoopStops (step : σ → Field → Option (Option σ)) (step' : σ → Field → Option σ) (s : σ)
    (bytes : Bytes) : Prop :=
  ∃ (ys : CanonicalWriter) (y : Field) (tail : Bytes) (s' : σ),
    (∀ z ∈ ys, z.payload.length < 2 ^ 32) ∧ y.payload.length < 2 ^ 32 ∧
      ys.foldlM step' s = some s' ∧ step s' y = none ∧ bytes = ys.take ++ (y.bytes ++ tail)

theorem loop_eq_none (h : ∀ s f, (step s f).join = step' s f) {y : Field} {tail : Bytes} {s' : σ}
    (hy : y.payload.length < 2 ^ 32) (hstop : step s' y = none) :
    ∀ {ys : CanonicalWriter} {r : SpanReader} {s : σ}, r.Within →
      (∀ z ∈ ys, z.payload.length < 2 ^ 32) → ys.foldlM step' s = some s' →
        r.rest = ys.take ++ (y.bytes ++ tail) → loop step r s = none
  | [], r, s, hr, _, hfold, hrest => by
    obtain rfl : s = s' := by simpa using hfold
    obtain ⟨r', hnext, -, -⟩ := next_bytes hr hy hrest
    rw [loop_some hnext, hstop]
  | z :: ys, r, s, hr, hys, hfold, hrest => by
    obtain ⟨hz, hys⟩ := List.forall_mem_cons.mp hys
    obtain ⟨t, ht, hfold⟩ := Option.bind_eq_some_iff.mp hfold
    obtain ⟨r', hnext, hr', hrest'⟩ : ∃ r', r.next = some (some z, r') ∧ r'.Within ∧
        r'.rest = CanonicalWriter.take ys ++ (y.bytes ++ tail) :=
      next_bytes hr hz (by simpa [CanonicalWriter.take] using hrest)
    have hstep : step s z = some (some t) := Option.join_eq_some_iff.mp ((h s z).trans ht)
    rw [loop_some hnext, hstep]
    exact loop_eq_none h hy hstop hr' hys hfold hrest'

theorem stops_of_loop (h : ∀ s f, (step s f).join = step' s f) :
    ∀ (n : ℕ) (r : SpanReader) (s : σ), r.Within → r.rest.length < n → loop step r s = none →
      LoopStops step step' s r.rest
  | 0, _, _, _, hn, _ => absurd hn (Nat.not_lt_zero _)
  | n + 1, r, s, hr, hn, hrun => by
    obtain ⟨r', hnext, hr', -, -⟩ := next_spec hr
    rcases hread : r.view.next.1 with _ | f
    · rw [hread] at hnext
      rw [loop_none hnext] at hrun
      cases hrun
    · rw [hread] at hnext
      obtain ⟨-, hbytes, hshort⟩ := next_some hr hnext
      have hlen := length_of_field hbytes hn
      rw [loop_some hnext] at hrun
      cases hstep : step s f with
      | none => exact ⟨[], f, r'.rest, s, List.forall_mem_nil _, hshort, rfl, hstep, hbytes⟩
      | some o =>
        rw [hstep] at hrun
        cases o with
        | none => cases hrun
        | some s' =>
          obtain ⟨ys, y, tail, t, hys, hy, hfold, hstop, hrest⟩ :=
            stops_of_loop h n r' s' hr' hlen hrun
          refine ⟨f :: ys, y, tail, t, List.forall_mem_cons.mpr ⟨hshort, hys⟩, hy, ?_, hstop, ?_⟩
          · rw [List.foldlM_cons, ← h, hstep]
            exact hfold
          · rw [hbytes, hrest]
            simp [CanonicalWriter.take]

/-- Where the loop over a buffer has no outcome. -/
theorem forEach_eq_none_iff (h : ∀ s f, (step s f).join = step' s f) (bytes : Bytes) (s : σ) :
    forEach step bytes s = none ↔ LoopStops step step' s bytes := by
  constructor
  · exact stops_of_loop h (bytes.length + 1) _ s (within_of bytes) (Nat.lt_succ_self _)
  · rintro ⟨ys, y, tail, s', hys, hy, hfold, hstop, hbytes⟩
    exact loop_eq_none h hy hstop (within_of bytes) hys hfold hbytes

theorem forEach_join (h : ∀ s f, (step s f).join = step' s f) (bytes : Bytes) (s : σ) :
    (forEach step bytes s).join = CanonicalReader.forEach step' bytes s :=
  loop_join h (bytes.length + 1) _ s (within_of bytes) (Nat.lt_succ_self _)

/-- A loop whose steps have an outcome has one. -/
theorem forEach_eq (h : ∀ s f, step s f = some (step' s f)) (bytes : Bytes) (s : σ) :
    forEach step bytes s = some (CanonicalReader.forEach step' bytes s) := by
  have hjoin : ∀ s f, (step s f).join = step' s f := fun s f => by rw [h, Option.join_some]
  have hstuck : forEach step bytes s ≠ none := by
    rw [Ne, forEach_eq_none_iff hjoin]
    rintro ⟨ys, y, tail, s', -, -, -, hstop, -⟩
    rw [h] at hstop
    cases hstop
  obtain ⟨o, ho⟩ := Option.ne_none_iff_exists'.mp hstuck
  rw [← forEach_join hjoin, ho, Option.join_some]

end

end SpanReader

end GraphCache
