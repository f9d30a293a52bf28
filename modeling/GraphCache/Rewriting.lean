import GraphCache.Types

/-!
# Writing back what was read

A reader of a canonical stream returns a value, and a writer turns the value into fields again.
`Walks` : field by field, what would be written is related to what was read. The rules follow the
construction of a reader; `done` holds the fields written so far, and `ok` is what is to hold of the
value returned.

With `Reencoded` for the relation, a field that is written has the tag of the field that was read, is
no longer but for a bounded slack, and is the same exactly if the latter is canonical. If then all
the bytes are the same, so are the fields : a length that does not fit 32 bits would be off by
4 GiB. So the bytes that were read are written again exactly if nothing is left of them and all
their fields are canonical (`Walks.reencoded`).
-/

open BigEndian

namespace GraphCache

/-! ## Payloads -/

section

variable {p : Bytes}

/-- A number is written back as it was read. -/
theorem encU32_of_decode {v : UInt32} (h : decodeU32 p = some v) : encU32 v = p := by
  unfold decodeU32 at h
  split_ifs at h with hlen
  obtain rfl := Option.some.inj h
  have hlt : beNat p < 2 ^ 32 := (beNat_lt p).trans_eq (by rw [hlen]; norm_num)
  rw [encU32, UInt32.toNat_ofNat', Nat.mod_eq_of_lt hlt, ← hlen, beBytes_beNat]

theorem encU64_of_decode {v : UInt64} (h : decodeU64 p = some v) : encU64 v = p := by
  unfold decodeU64 at h
  split_ifs at h with hlen
  obtain rfl := Option.some.inj h
  have hlt : beNat p < 2 ^ 64 := (beNat_lt p).trans_eq (by rw [hlen]; norm_num)
  rw [encU64, UInt64.toNat_ofNat', Nat.mod_eq_of_lt hlt, ← hlen, beBytes_beNat]

theorem encI64_of_decode {v : Int64} (h : decodeI64 p = some v) : encI64 v = p := by
  obtain ⟨u, hu, rfl⟩ := Option.map_eq_some_iff.mp h
  rw [encI64, UInt64.toUInt64_toInt64, encU64_of_decode hu]

theorem encF64_of_decode {v : Double} (h : decodeF64 p = some v) : encF64 v = p := by
  obtain ⟨bits, hbits, rfl⟩ := Option.map_eq_some_iff.mp h
  exact encU64_of_decode hbits

/-- A flag of one byte, zero or one. -/
def CanonicalFlag (p : Bytes) : Prop := p = [0] ∨ p = [1]

/-- A flag may be any byte but zero, and more bytes may follow. -/
theorem encBool_of_decode {v : Bool} (h : decodeFlag p = some v) :
    encBool v = p ↔ CanonicalFlag p := by
  unfold CanonicalFlag
  match p, h with
  | b :: rest, h =>
    obtain rfl : (b != 0) = v := by simpa [decodeFlag] using h
    by_cases hb : b = 0
    · subst hb
      simp [encBool, @eq_comm _ [] rest]
    · simp [encBool, hb, @eq_comm _ 1 b, @eq_comm _ [] rest]

end

/-! ## Walks -/

/-- What `r` reads is written again field by field, after `done`, as `R` relates the fields. -/
def Walks {ε α : Type} (R : Field → Field → Prop) (ok : α → Prop) (done : CanonicalWriter)
    (write : α → CanonicalWriter) (r : StateT Bytes (Except ε) α) : Prop :=
  ∀ bytes a rest, r bytes = .ok (a, rest) → ok a ∧ ∃ w w',
    bytes = CanonicalWriter.take w ++ rest ∧ write a = done ++ w' ∧ List.Forall₂ R w w'

/-- How much longer a nested record may get by being written again : all its default fields. -/
def slack : ℕ := 100

/-- A field that was read, and the field that is written for it. -/
structure WrittenAgain (fits : Field → Prop) (x x' : Field) : Prop where
  tag : x'.tag = x.tag
  short : x.payload.length < 2 ^ 32
  close : x'.payload.length ≤ x.payload.length + slack
  fits : fits x

/-- What `r` reads is written again field by field, after `done`. -/
def Rewrites {ε α : Type} (fits : Field → Prop) (ok : α → Prop) (done : CanonicalWriter)
    (write : α → CanonicalWriter) (r : StateT Bytes (Except ε) α) : Prop :=
  ∀ bytes a rest, r bytes = .ok (a, rest) → ok a ∧ ∃ w w',
    bytes = CanonicalWriter.take w ++ rest ∧ write a = done ++ w' ∧
      List.Forall₂ (WrittenAgain fits) w w'

/-- A field that was read is its bytes. -/
theorem CanonicalReader.bytes_of_next {r r' : CanonicalReader} {f : Field}
    (h : r.next = (some f, r')) : r.rest = f.bytes ++ r'.rest ∧ f.payload.length < 2 ^ 32 := by
  unfold next at h
  split at h
  · cases h
  · rename_i t₁ t₀ l₃ l₂ l₁ l₀ body heq
    dsimp only at h
    split_ifs at h with hlen
    · cases h
    · simp only [Prod.mk.injEq, Option.some.injEq] at h
      obtain ⟨rfl, rfl⟩ := h
      have htag := beBytes_beNat [t₁, t₀]
      have hcount := beBytes_beNat [l₃, l₂, l₁, l₀]
      have htake : (body.take (beNat [l₃, l₂, l₁, l₀])).length = beNat [l₃, l₂, l₁, l₀] :=
        List.length_take_of_le (Nat.not_lt.mp hlen)
      have hword : (UInt16.ofNat (beNat [t₁, t₀])).toNat = beNat [t₁, t₀] := by
        have hlt := beNat_lt [t₁, t₀]
        rw [UInt16.toNat_ofNat', Nat.mod_eq_of_lt (hlt.trans_eq (by norm_num))]
      refine ⟨?_, by rw [htake]; exact (beNat_lt [l₃, l₂, l₁, l₀]).trans_eq (by norm_num)⟩
      rw [heq, Field.bytes, hword, htake]
      simp only [List.length_cons, List.length_nil] at htag hcount
      simp only [htag, hcount, List.cons_append, List.nil_append, List.take_append_drop]
  · cases h

/-- Nothing is read from a reader that is not malformed then : its data is at its end. -/
theorem CanonicalReader.rest_of_next {r r' : CanonicalReader} (h : r.next = (none, r'))
    (hgood : r'.malformed = false) : r.rest = [] := by
  unfold next at h
  split at h
  · assumption
  · dsimp only at h
    split_ifs at h
    · obtain rfl := (Prod.mk.inj h).2
      cases hgood
    · cases h
  · obtain rfl := (Prod.mk.inj h).2
    cases hgood

/-- A loop that returns a state has gone over fields, to the end of the buffer. -/
theorem CanonicalReader.forEach_eq_some {σ : Type} {step : σ → Field → Option σ} {bytes : Bytes}
    {s t : σ} (h : forEach step bytes s = some t) : ∃ w : CanonicalWriter,
      (∀ x ∈ w, x.payload.length < 2 ^ 32) ∧ bytes = w.take ∧ w.foldlM step s = some t := by
  have hloop : ∀ (n : ℕ) (r : CanonicalReader) (s : σ), loop step n r s = some t →
      ∃ w : CanonicalWriter, (∀ x ∈ w, x.payload.length < 2 ^ 32) ∧ r.rest = w.take ∧
        w.foldlM step s = some t := by
    intro n
    induction n with
    | zero => exact nofun
    | succ n ih =>
      intro r s hrun
      rw [loop] at hrun
      split at hrun
      · rename_i r' hnext
        split_ifs at hrun with hbad
        exact ⟨[], List.forall_mem_nil _, rest_of_next hnext (Bool.eq_false_of_not_eq_true hbad),
          hrun⟩
      · rename_i f r' hnext
        obtain ⟨s', hs', hrun⟩ := Option.bind_eq_some_iff.mp hrun
        obtain ⟨hbytes, hshort⟩ := bytes_of_next hnext
        obtain ⟨w, hw, hrest, hfold⟩ := ih r' s' hrun
        refine ⟨f :: w, List.forall_mem_cons.mpr ⟨hshort, hw⟩, ?_, ?_⟩
        · rw [hbytes, hrest]
          rfl
        · rw [List.foldlM_cons, hs']
          exact hfold
  exact hloop _ _ _ h

section

variable {ε α β : Type} {R : Field → Field → Prop} {ok : β → Prop} {done : CanonicalWriter}
  {write : β → CanonicalWriter} {tag : UInt16} {decode : Bytes → Option α} {missing malformed : ε}

theorem nextField_ok {bytes rest : Bytes} {a : α}
    (h : nextField tag decode missing malformed bytes = .ok (a, rest)) :
    ∃ p, bytes = (Field.mk tag p).bytes ++ rest ∧ p.length < 2 ^ 32 ∧ decode p = some a := by
  unfold nextField at h
  split at h
  · rename_i f r hnext
    split_ifs at h with htag
    split at h
    · rename_i a' ha
      simp only [Except.ok.injEq, Prod.mk.injEq] at h
      obtain ⟨rfl, rfl⟩ := h
      obtain ⟨hbytes, hshort⟩ := CanonicalReader.bytes_of_next hnext
      obtain ⟨t, p⟩ := f
      obtain rfl : t = tag := htag
      exact ⟨p, hbytes, hshort, ha⟩
    · cases h
  · cases h

/-- And what is read from a field that is written. -/
theorem nextField_append {p rest : Bytes} {a : α} (hp : p.length < 2 ^ 32)
    (hdec : decode p = some a) :
    nextField tag decode missing malformed ((Field.mk tag p).bytes ++ rest) = .ok (a, rest) := by
  simp only [nextField, CanonicalReader.next_bytes ⟨tag, p⟩ hp, if_true, hdec]

theorem bind_ok {γ : Type} {r : StateT Bytes (Except ε) α} {k : α → StateT Bytes (Except ε) γ}
    {bytes rest : Bytes} {c : γ} (h : (r >>= k) bytes = .ok (c, rest)) :
    ∃ a mid, r bytes = .ok (a, mid) ∧ k a mid = .ok (c, rest) := by
  simp only [bind, StateT.bind, Except.bind] at h
  split at h
  · cases h
  · rename_i am hr
    exact ⟨am.1, am.2, hr, h⟩

theorem Walks.mono {R' : Field → Field → Prop} {r : StateT Bytes (Except ε) β}
    (h : Walks R ok done write r) (hR : ∀ x x', R x x' → R' x x') : Walks R' ok done write r := by
  intro bytes b rest hrun
  obtain ⟨hb, w, w', hbytes, hwrite, hall⟩ := h bytes b rest hrun
  exact ⟨hb, w, w', hbytes, hwrite, hall.imp hR⟩

theorem Walks.pure {b : β} (h : write b = done) (hb : ok b) :
    Walks R ok done write (pure b : StateT Bytes (Except ε) β) := by
  intro bytes b' rest hrun
  obtain ⟨rfl, rfl⟩ := Prod.mk.inj (Except.ok.inj hrun)
  exact ⟨hb, [], [], rfl, by rw [h, List.append_nil], .nil⟩

/-- A field, then the rest of the reader. -/
theorem Walks.field {k : α → StateT Bytes (Except ε) β} (enc : α → Bytes)
    (henc : ∀ p a, p.length < 2 ^ 32 → decode p = some a → R ⟨tag, p⟩ ⟨tag, enc a⟩)
    (hk : ∀ p a, decode p = some a → Walks R ok (done ++ [⟨tag, enc a⟩]) write (k a)) :
    Walks R ok done write (nextField tag decode missing malformed >>= k) := by
  intro bytes b rest hrun
  obtain ⟨a, mid, hread, hrest⟩ := bind_ok hrun
  obtain ⟨p, rfl, hshort, hdec⟩ := nextField_ok hread
  obtain ⟨hb, w, w', rfl, hwrite, hall⟩ := hk p a hdec mid b rest hrest
  refine ⟨hb, ⟨tag, p⟩ :: w, ⟨tag, enc a⟩ :: w', ?_, ?_, .cons (henc p a hshort hdec) hall⟩
  · simp [CanonicalWriter.take]
  · rw [hwrite, List.append_assoc, List.singleton_append]

/-- A field that is written as it was read. -/
theorem Walks.plain {k : α → StateT Bytes (Except ε) β} (enc : α → Bytes)
    (hR : ∀ p : Bytes, p.length < 2 ^ 32 → R ⟨tag, p⟩ ⟨tag, p⟩)
    (hexact : ∀ p a, decode p = some a → enc a = p)
    (hk : ∀ a, Walks R ok (done ++ [⟨tag, enc a⟩]) write (k a)) :
    Walks R ok done write (nextField tag decode missing malformed >>= k) := by
  refine .field enc (fun p a hp h => ?_) fun _ a _ => hk a
  rw [hexact p a h]
  exact hR p hp

theorem Walks.str {k : Str → StateT Bytes (Except ε) β}
    (hR : ∀ p : Bytes, p.length < 2 ^ 32 → R ⟨tag, p⟩ ⟨tag, p⟩)
    (hk : ∀ a, Walks R ok (done ++ [putStr tag a]) write (k a)) :
    Walks R ok done write (nextField tag decodeStr missing malformed >>= k) :=
  .plain id hR (fun p a h => by simpa [eq_comm] using h) hk

theorem Walks.u32 {k : UInt32 → StateT Bytes (Except ε) β}
    (hR : ∀ p : Bytes, p.length < 2 ^ 32 → R ⟨tag, p⟩ ⟨tag, p⟩)
    (hk : ∀ a, Walks R ok (done ++ [putU32 tag a]) write (k a)) :
    Walks R ok done write (nextField tag decodeU32 missing malformed >>= k) :=
  .plain encU32 hR (fun _ _ => encU32_of_decode) hk

theorem Walks.u64 {k : UInt64 → StateT Bytes (Except ε) β}
    (hR : ∀ p : Bytes, p.length < 2 ^ 32 → R ⟨tag, p⟩ ⟨tag, p⟩)
    (hk : ∀ a, Walks R ok (done ++ [putU64 tag a]) write (k a)) :
    Walks R ok done write (nextField tag decodeU64 missing malformed >>= k) :=
  .plain encU64 hR (fun _ _ => encU64_of_decode) hk

/-- A list of fields, then the rest. -/
theorem Walks.fields (enc : α → Bytes)
    (henc : ∀ p a, p.length < 2 ^ 32 → decode p = some a → R ⟨tag, p⟩ ⟨tag, enc a⟩) :
    ∀ {n : ℕ} {done : CanonicalWriter} {k : List α → StateT Bytes (Except ε) β},
      (∀ l, l.length = n → Walks R ok (done ++ l.map fun a => ⟨tag, enc a⟩) write (k l)) →
        Walks R ok done write (nextFields tag decode missing malformed n >>= k)
  | 0, done, k, hk => by
    have h := hk [] rfl
    rw [List.map_nil, List.append_nil] at h
    simpa [nextFields] using h
  | n + 1, done, k, hk => by
    simp only [nextFields, bind_assoc]
    refine Walks.field enc henc fun _ a _ => Walks.fields enc henc fun l hl => ?_
    have h := hk (a :: l) (by rw [List.length_cons, hl])
    simpa using h

end

/-! ## Spellings -/

/-- `r` reads any fields that are related to `w` by `R`, and leaves what follows them. -/
def ReadsAs {ε α : Type} (R : Field → Field → Prop) (w : CanonicalWriter)
    (r : StateT Bytes (Except ε) α) : Prop :=
  ∀ (u : CanonicalWriter) (rest : Bytes), (∀ y ∈ u, y.payload.length < 2 ^ 32) →
    List.Forall₂ R w u → ∃ a, r (u.take ++ rest) = .ok (a, rest)

section

variable {ε α β : Type} {R : Field → Field → Prop} {w : CanonicalWriter} {tag : UInt16}
  {decode : Bytes → Option α} {missing malformed : ε}

theorem ReadsAs.pure {b : β} : ReadsAs R [] (pure b : StateT Bytes (Except ε) β) := by
  rintro _ rest - ⟨⟩
  exact ⟨b, rfl⟩

theorem ReadsAs.field {p : Bytes} {k : α → StateT Bytes (Except ε) β}
    (h : ∀ y, R ⟨tag, p⟩ y → y.tag = tag ∧ ∃ a, decode y.payload = some a ∧ ReadsAs R w (k a)) :
    ReadsAs R (⟨tag, p⟩ :: w) (nextField tag decode missing malformed >>= k) := by
  rintro _ rest hshort (_ | @⟨_, y, _, u, hy, hu⟩)
  obtain ⟨htag, a, hdec, hk⟩ := h y hy
  obtain ⟨b, hb⟩ := hk u rest (fun z hz => hshort z (List.mem_cons_of_mem _ hz)) hu
  refine ⟨b, ?_⟩
  simp only [bind, StateT.bind, nextField, CanonicalWriter.take, List.flatMap_cons,
    List.append_assoc, CanonicalReader.next_bytes y (hshort y List.mem_cons_self), htag, if_true,
    hdec, Except.bind]
  exact hb

theorem ReadsAs.fields {γ : Type} (e : γ → Bytes) :
    ∀ {l : List γ} {k : List α → StateT Bytes (Except ε) β},
      (∀ c ∈ l, ∀ y, R ⟨tag, e c⟩ y → y.tag = tag ∧ ∃ a, decode y.payload = some a) →
        (∀ as, ReadsAs R w (k as)) →
          ReadsAs R ((l.map fun c => ⟨tag, e c⟩) ++ w)
            (nextFields tag decode missing malformed l.length >>= k)
  | [], k, _, hk => by simpa [nextFields] using hk []
  | c :: l, k, h, hk => by
    simp only [List.length_cons, nextFields, bind_assoc, List.map_cons, List.cons_append]
    refine ReadsAs.field fun y hy => ?_
    obtain ⟨htag, a, ha⟩ := h c List.mem_cons_self y hy
    refine ⟨htag, a, ha, ReadsAs.fields e (fun d hd => h d (List.mem_cons_of_mem _ hd)) ?_⟩
    intro as
    simpa using hk (a :: as)

end

/-! ## The same bytes -/

/-- Fields rewritten to the same bytes are the same fields. -/
theorem eq_of_take {c : ℕ} (hc : c < 2 ^ 32) {w w' : CanonicalWriter} {rest : Bytes}
    (hall : List.Forall₂ (fun x x' : Field => x'.tag = x.tag ∧ x.payload.length < 2 ^ 32 ∧
      x'.payload.length ≤ x.payload.length + c) w w') (h : w.take ++ rest = w'.take) :
    w = w' ∧ rest = [] := by
  induction hall with
  | nil => exact ⟨rfl, by simpa [CanonicalWriter.take] using h⟩
  | @cons x x' w w' hx hw ih =>
    obtain ⟨t, p⟩ := x
    obtain ⟨t', p'⟩ := x'
    obtain ⟨rfl, hshort, hclose⟩ := hx
    simp only [CanonicalWriter.take, List.flatMap_cons, Field.bytes, List.append_assoc] at h
    obtain ⟨-, h₁⟩ := List.append_inj h rfl
    obtain ⟨hlen, h₂⟩ := List.append_inj h₁ (by simp)
    have hmod := congrArg beNat hlen
    rw [beNat_beBytes, beNat_beBytes] at hmod
    have heq : p.length = p'.length := by
      dsimp only at hshort hclose
      omega
    obtain ⟨rfl, h₃⟩ := List.append_inj h₂ heq
    obtain ⟨rfl, hrest⟩ := ih h₃
    exact ⟨rfl, hrest⟩

/-- If what a reader accepts is what is written for it, the fields fit and are short. -/
theorem Rewrites.eq_of_take {ε α : Type} {fits : Field → Prop} {ok : α → Prop}
    {write : α → CanonicalWriter} {r : StateT Bytes (Except ε) α} (h : Rewrites fits ok [] write r) {bytes rest : Bytes} {a : α}
    (hr : r bytes = .ok (a, rest)) (hsame : (write a).take = bytes) :
    ok a ∧ ∀ f ∈ write a, f.payload.length < 2 ^ 32 ∧ fits f := by
  obtain ⟨ha, w, w', rfl, hwrite, hall⟩ := h bytes a rest hr
  rw [List.nil_append] at hwrite
  rw [hwrite] at hsame ⊢
  obtain ⟨rfl, -⟩ := GraphCache.eq_of_take (by decide : slack < 2 ^ 32)
    (hall.imp fun _ _ hx => ⟨hx.tag, hx.short, hx.close⟩) hsame.symm
  refine ⟨ha, fun f hf => ?_⟩
  obtain ⟨i, hi, rfl⟩ := List.mem_iff_getElem.mp hf
  have hx := List.Forall₂.get hall hi hi
  exact ⟨hx.short, hx.fits⟩

/-- A field that was read and the one that is written for it, which is the same if the former is
canonical. -/
structure Reencoded (c : ℕ) (fits canon : Field → Prop) (x x' : Field) : Prop where
  tag : x'.tag = x.tag
  short : x.payload.length < 2 ^ 32
  close : x'.payload.length ≤ x.payload.length + c
  fits : fits x
  same : x' = x ↔ canon x

section

variable {ε α : Type} {c : ℕ} {fits canon : Field → Prop} {ok : α → Prop}
  {write : α → CanonicalWriter} {r : StateT Bytes (Except ε) α}

theorem Walks.rewrites (h : Walks (Reencoded slack fits canon) ok [] write r) :
    Rewrites fits ok [] write r := by
  intro bytes a rest hrun
  obtain ⟨ha, w, w', hbytes, hwrite, hall⟩ := h bytes a rest hrun
  exact ⟨ha, w, w', hbytes, hwrite,
    hall.imp fun _ _ hx => ⟨hx.tag, hx.short, hx.close, hx.fits⟩⟩

/-- The fields of what was read, and when they are written again as they are. -/
theorem Walks.reencoded (h : Walks (Reencoded c fits canon) ok [] write r) (hc : c < 2 ^ 32)
    {bytes rest : Bytes} {a : α} (hr : r bytes = .ok (a, rest)) :
    ok a ∧ ∃ w : CanonicalWriter, bytes = w.take ++ rest ∧
      (∀ x ∈ w, x.payload.length < 2 ^ 32 ∧ fits x) ∧ (write a).map (·.tag) = w.map (·.tag) ∧
        ((write a).take = bytes ↔ rest = [] ∧ ∀ x ∈ w, canon x) := by
  obtain ⟨ha, w, w', rfl, hwrite, hall⟩ := h bytes a rest hr
  rw [List.nil_append] at hwrite
  rw [hwrite]
  have hsame : w = w' ↔ ∀ x ∈ w, canon x := by
    clear hwrite hr
    induction hall with
    | nil => simp
    | @cons x x' _ _ hx _ ih =>
      rw [List.cons.injEq, List.forall_mem_cons, ← ih, ← hx.same, @eq_comm _ x x']
  refine ⟨ha, w, rfl, ?_, ?_, ?_⟩
  · intro x hx
    obtain ⟨i, hi, rfl⟩ := List.mem_iff_getElem.mp hx
    have hpair := List.Forall₂.get hall hi (hall.length_eq ▸ hi)
    exact ⟨hpair.short, hpair.fits⟩
  · have htags : List.Forall₂ (fun x x' : Field => x'.tag = x.tag) w w' :=
      hall.imp fun _ _ hx => hx.tag
    clear hwrite hr hsame hall
    induction htags with
    | nil => rfl
    | cons hx _ ih => simp [hx, ih]
  · rw [← hsame]
    constructor
    · intro htake
      obtain ⟨hw, hrest⟩ := GraphCache.eq_of_take hc
        (hall.imp fun _ _ hx => ⟨hx.tag, hx.short, hx.close⟩) htake.symm
      exact ⟨hrest, hw⟩
    · rintro ⟨rfl, rfl⟩
      rw [List.append_nil]

end

/-- Bytes that are read to their end are written again exactly if they are canonical fields. -/
theorem Walks.written_again_iff {ε α : Type} {c : ℕ} {fits canon : Field → Prop} {ok : α → Prop}
    {write : α → CanonicalWriter} {r : StateT Bytes (Except ε) α}
    (h : Walks (Reencoded c fits canon) ok [] write r) (hc : c < 2 ^ 32) {bytes : Bytes} {a : α}
    (hr : r bytes = .ok (a, [])) : (write a).take = bytes ↔ ∃ w : CanonicalWriter,
      (∀ x ∈ w, x.payload.length < 2 ^ 32) ∧ w.take = bytes ∧ ∀ x ∈ w, canon x := by
  obtain ⟨-, w, hbytes, hw, -, hsame⟩ := h.reencoded hc hr
  rw [List.append_nil] at hbytes
  rw [hsame]
  constructor
  · rintro ⟨-, hcanon⟩
    exact ⟨w, fun x hx => (hw x hx).1, hbytes.symm, hcanon⟩
  · rintro ⟨u, hu, htake, hcanon⟩
    obtain rfl := CanonicalWriter.take_injective hu (fun x hx => (hw x hx).1)
      (htake.trans hbytes)
    exact ⟨rfl, hcanon⟩

end GraphCache
