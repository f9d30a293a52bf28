import GraphCache.KeyCodec

/-!
# Two decoders of a key

`facts_from_canonical` returns what `decode_facts` read; `from_canonical` encodes it again and
compares. The walk over the fields expects them in one order, but it stops after the last one, takes
any byte but zero for a flag that is set, and reads shapes and dependencies as nested streams in any
order.

`KeyFields` : the fields that the walk accepts, told by the encoding of facts of which they are a
spelling. The two decoders agree on a byte string exactly if it is not such fields with one that
`encode_facts` does not write, or with bytes after the last (`decoders_agree_iff`).
-/

namespace GraphCache

/-- `facts_from_canonical`. -/
def factsFromCanonical (canonical : Bytes) : Result CompatibilityFacts :=
  match decodeFacts canonical with
  | none => fail .persistenceCorrupt "cannot decode canonical compatibility facts"
  | some facts => .ok facts

/-- Fields that spell the encoding of some facts within the limits on counts. -/
def KeyFields (w : CanonicalWriter) : Prop :=
  Short w ∧ ∃ f : CompatibilityFacts, f.CountLimits ∧ List.Forall₂ SpelledAs (encodeFacts f) w

/-! ## Spellings are read -/

section

variable {α β : Type} {tag : UInt16} {decode : Bytes → Option α} {w : CanonicalWriter}

theorem readsAs_plain {p : Bytes} {a : α} {k : α → StateT Bytes (Except Unit) β}
    (htag : tag ∉ nestedKeyTags) (hdec : decode p = some a) (hk : ReadsAs SpelledAs w (k a)) :
    ReadsAs SpelledAs (⟨tag, p⟩ :: w) (keyField tag decode >>= k) := by
  refine .field fun y hy => ⟨hy.tag, a, ?_, hk⟩
  rw [hy.plain htag, hdec]

theorem readsAs_flag {v : Bool} {k : Bool → StateT Bytes (Except Unit) β}
    (htag : tag = 70 ∨ tag = 75 ∨ tag = 80) (hk : ReadsAs SpelledAs w (k v)) :
    ReadsAs SpelledAs (putBool tag v :: w) (keyField tag decodeFlag >>= k) := by
  refine .field fun y hy => ⟨hy.tag, v, ?_, hk⟩
  obtain ⟨v', hv', hdec⟩ := hy.flag htag
  rw [hdec, encBool_inj.mp hv']

/-- A count, then that many fields of which each spelling is decoded. -/
theorem readsAs_list {γ : Type} {count : UInt16} {limit : ℕ} {l : List γ} (e : γ → Bytes)
    {k : List α → StateT Bytes (Except Unit) β} (hcount : count ∉ nestedKeyTags)
    (hlimit : limit < 2 ^ 32) (hl : l.length ≤ limit)
    (hdec : ∀ c ∈ l, ∀ y, SpelledAs ⟨tag, e c⟩ y → ∃ a, decode y.payload = some a)
    (hk : ∀ as, ReadsAs SpelledAs w (k as)) :
    ReadsAs SpelledAs
      (putU32 count (UInt32.ofNat l.length) :: ((l.map fun c => ⟨tag, e c⟩) ++ w))
      (keyField count (decodeCount limit) >>= fun n => keyFields tag decode n >>= k) := by
  refine readsAs_plain hcount (decodeCount_ofNat hlimit hl) ?_
  exact .fields e (fun c hc y hy => ⟨hy.tag, hdec c hc y hy⟩) hk

theorem readsAs_u32s {γ : Type} {count : UInt16} {limit : ℕ} {l : List γ} (e : γ → UInt32)
    {k : List UInt32 → StateT Bytes (Except Unit) β} (hcount : count ∉ nestedKeyTags)
    (htag : tag ∉ nestedKeyTags) (hlimit : limit < 2 ^ 32) (hl : l.length ≤ limit)
    (hk : ∀ as, ReadsAs SpelledAs w (k as)) :
    ReadsAs SpelledAs
      (putU32 count (UInt32.ofNat l.length) :: ((l.map fun c => putU32 tag (e c)) ++ w))
      (keyField count (decodeCount limit) >>= fun n => keyFields tag decodeU32 n >>= k) := by
  refine readsAs_list (fun c => encU32 (e c)) hcount hlimit hl (fun c _ y hy => ?_) hk
  exact ⟨e c, by rw [hy.plain htag, decodeU32_encU32]⟩

theorem readsAs_shapes {count : UInt16} {limit : ℕ} {l : List ShapeDescriptor}
    {k : List ShapeDescriptor → StateT Bytes (Except Unit) β} (hcount : count ∉ nestedKeyTags)
    (htag : tag = 61 ∨ tag = 63) (hlimit : limit < 2 ^ 32) (hl : l.length ≤ limit)
    (hk : ∀ as, ReadsAs SpelledAs w (k as)) :
    ReadsAs SpelledAs
      (putU32 count (UInt32.ofNat l.length) :: ((l.map fun s => putBytes tag (encodeShape s)) ++ w))
      (keyField count (decodeCount limit) >>= fun n => keyFields tag decodeShape n >>= k) := by
  refine readsAs_list encodeShape hcount hlimit hl (fun c _ y hy => ?_) hk
  exact Option.isSome_iff_exists.mp (hy.shape htag)

theorem readsAs_deps {count : UInt16} {limit : ℕ} {l : List KernelIdentityRef}
    {k : List KernelIdentityRef → StateT Bytes (Except Unit) β} (hcount : count ∉ nestedKeyTags)
    (hlimit : limit < 2 ^ 32) (hl : l.length ≤ limit) (hk : ∀ as, ReadsAs SpelledAs w (k as)) :
    ReadsAs SpelledAs
      (putU32 count (UInt32.ofNat l.length) :: ((l.map fun d => putBytes 91 (encodeDep d).take) ++ w))
      (keyField count (decodeCount limit) >>= fun n => keyFields 91 decodeDep n >>= k) := by
  refine readsAs_list (fun d => (encodeDep d).take) hcount hlimit hl (fun c _ y hy => ?_) hk
  exact Option.isSome_iff_exists.mp (hy.dependency rfl)

theorem readsAs_scalar {s : ScalarSpecialization}
    {k : ScalarSpecialization → StateT Bytes (Except Unit) β}
    (hk : ∀ s, ReadsAs SpelledAs w (k s)) :
    ReadsAs SpelledAs (putBool 70 s.specialized :: ((if s.specialized then
      [putI64 71 s.intValue, ⟨72, encF64 s.floatValue⟩] else []) ++ w)) (scalarReader >>= k) := by
  obtain ⟨specialized, intValue, floatValue⟩ := s
  simp only [scalarReader, bind_assoc]
  refine readsAs_flag (.inl rfl) ?_
  cases specialized with
  | false => exact hk _
  | true =>
    simp only [if_true, bind_assoc, pure_bind]
    refine readsAs_plain (by decide) (decodeI64_encI64 _) ?_
    exact readsAs_plain (by decide) (decodeF64_encF64 _) (hk _)

theorem readsAs_quantization {q : QuantizationConfig}
    {k : QuantizationConfig → StateT Bytes (Except Unit) β}
    (hk : ∀ q, ReadsAs SpelledAs w (k q)) :
    ReadsAs SpelledAs (putU32 73 q.mode.raw :: ((if q.mode ≠ .none then
      [putU32 74 q.groupSize, putBool 75 q.symmetric, putStr 76 q.customScheme] else []) ++ w))
      (quantizationReader >>= k) := by
  simp only [quantizationReader, bind_assoc]
  refine readsAs_plain (by decide) (decodeU32_encU32 _) ?_
  by_cases hmode : q.mode = .none
  · simp only [hmode, ne_eq, not_true_eq_false, if_false, List.nil_append]
    exact hk _
  · simp only [ne_eq, hmode, not_false_eq_true, if_true, bind_assoc, pure_bind]
    refine readsAs_plain (by decide) (decodeU32_encU32 _) ?_
    refine readsAs_flag (.inr (.inl rfl)) ?_
    exact readsAs_plain (by decide) (decodeStr_eq _) (hk _)

end

/-- Any spelling of facts within the limits on counts is read to its end. -/
theorem readsAs_facts {f : CompatibilityFacts} (h : f.CountLimits) :
    ReadsAs SpelledAs (encodeFacts f) factsReader := by
  unfold factsReader
  simp only [encodeFacts, List.append_assoc, List.cons_append, List.nil_append]
  refine readsAs_plain (by decide) (decodeStr_eq _) ?_
  refine readsAs_plain (by decide) (decodeU32_encU32 _) ?_
  refine readsAs_plain (by decide) (decodeStr_eq _) ?_
  refine readsAs_plain (by decide) (decodeU32_encU32 _) ?_
  refine readsAs_plain (by decide) (decodeStr_eq _) ?_
  refine readsAs_plain (by decide) (decodeStr_eq _) ?_
  refine readsAs_plain (by decide) (decodeU32_encU32 _) ?_
  refine readsAs_plain (by decide) (decodeStr_eq _) ?_
  refine readsAs_plain (by decide) (decodeU32_encU32 _) ?_
  refine readsAs_plain (by decide) (decodeStr_eq _) ?_
  refine readsAs_plain (by decide) (decodeU32_encU32 _) ?_
  refine readsAs_plain (by decide) (decodeU32_encU32 _) ?_
  refine readsAs_plain (by decide) (decodeU32_encU32 _) ?_
  refine readsAs_plain (by decide) (decodeU32_encU32 _) ?_
  refine readsAs_plain (by decide) (decodeU32_encU32 _) ?_
  refine readsAs_plain (by decide) (decodeStr_eq _) ?_
  refine readsAs_plain (by decide) (decodeU32_encU32 _) ?_
  refine readsAs_plain (by decide) (decodeU32_encU32 _) ?_
  refine readsAs_plain (by decide) (decodeU32_encU32 _) ?_
  refine readsAs_plain (by decide) (decodeStr_eq _) ?_
  refine readsAs_plain (by decide) (decodeU32_encU32 _) ?_
  refine readsAs_plain (by decide) (decodeU32_encU32 _) ?_
  refine readsAs_plain (by decide) (decodeStr_eq _) ?_
  refine readsAs_shapes (by decide) (.inl rfl) (by decide) h.inputShapes fun _ => ?_
  refine readsAs_shapes (by decide) (.inr rfl) (by decide) h.outputShapes fun _ => ?_
  refine readsAs_u32s _ (by decide) (by decide) (by decide) h.datatypes fun _ => ?_
  refine readsAs_u32s _ (by decide) (by decide) (by decide) h.layouts fun _ => ?_
  refine readsAs_scalar fun _ => ?_
  refine readsAs_quantization fun _ => ?_
  refine readsAs_plain (by decide) (decodeU32_encU32 _) ?_
  refine readsAs_plain (by decide) (decodeU32_encU32 _) ?_
  refine readsAs_plain (by decide) (decodeStr_eq _) ?_
  refine readsAs_flag (.inr (.inr rfl)) ?_
  refine readsAs_plain (by decide) (decodeU64_encU64 _) ?_
  refine readsAs_plain (by decide) (decodeStr_eq _) ?_
  refine readsAs_deps (by decide) (by decide) h.dependencies fun _ => ?_
  refine readsAs_plain (by decide) (decodeStr_eq _) ?_
  refine readsAs_plain (by decide) (decodeStr_eq _) ?_
  exact .pure

/-! ## Agreement -/

theorem decodeFacts_eq_some {b : Bytes} {f : CompatibilityFacts} :
    decodeFacts b = some f ↔ ∃ rest, factsReader b = .ok (f, rest) := by
  unfold decodeFacts
  split
  · rename_i g rest hrun
    simp [hrun]
  · rename_i e hrun
    simp [hrun]

theorem factsFromCanonical_ok_iff {b : Bytes} {f : CompatibilityFacts} :
    factsFromCanonical b = .ok f ↔ decodeFacts b = some f := by
  unfold factsFromCanonical
  cases decodeFacts b <;> simp [fail]

/-- What is accepted by the walk is the fields of a key, and what follows. -/
theorem keyFields_of_decode {b : Bytes} {f : CompatibilityFacts} (hf : decodeFacts b = some f) :
    ∃ w rest, KeyFields w ∧ b = w.take ++ rest ∧
      (factsToCanonical f = b ↔ rest = [] ∧ ∀ x ∈ w, CanonicalKeyField x) := by
  obtain ⟨rest, hrun⟩ := decodeFacts_eq_some.mp hf
  obtain ⟨hcounts, w, w', hb, hwrite, hall⟩ := walks_facts b f rest hrun
  obtain ⟨-, u, hu, hshort, -, hsame⟩ :=
    (walks_facts.mono fun _ _ hx => hx.toReencoded).reencoded (by decide) hrun
  have hw : Short w := by
    intro x hx
    obtain ⟨i, hi, rfl⟩ := List.mem_iff_getElem.mp hx
    exact (List.Forall₂.get hall hi (hall.length_eq ▸ hi)).short
  obtain rfl : w = u :=
    CanonicalWriter.take_injective hw (fun x hx => (hshort x hx).1)
      (List.append_cancel_right (hb.symm.trans hu))
  rw [List.nil_append] at hwrite
  refine ⟨w, rest, ⟨hw, f, hcounts, ?_⟩, hb, hsame⟩
  rw [hwrite]
  exact (hall.imp fun _ _ hx => hx.spelled).flip

/-- Every byte string is the fields of a key in one way at most. -/
theorem KeyFields.unique {w w' : CanonicalWriter} {rest rest' : Bytes} (hw : KeyFields w)
    (hw' : KeyFields w') (h : w.take ++ rest = w'.take ++ rest') : w = w' ∧ rest = rest' := by
  obtain ⟨hshort, f, hf, hall⟩ := hw
  obtain ⟨hshort', f', hf', hall'⟩ := hw'
  obtain ⟨a, ha⟩ := readsAs_facts hf w rest hshort hall
  obtain ⟨a', ha'⟩ := readsAs_facts hf' w' rest' hshort' hall'
  obtain rfl : rest = rest' := by
    rw [h, ha'] at ha
    exact (congrArg Prod.snd (Except.ok.inj ha)).symm
  exact ⟨CanonicalWriter.take_injective hshort hshort' (List.append_cancel_right h), rfl⟩

/-- The decoders agree on a byte string exactly if it is not the fields of a key with one that
`encode_facts` does not write, or with bytes after the last. -/
theorem decoders_agree_iff (b : Bytes) :
    (∀ f, factsFromCanonical b = .ok f ↔
        ∃ k, GraphCompatibilityKey.fromCanonical b = .ok k ∧ k.facts = f) ↔
      ∀ w rest, KeyFields w → b = w.take ++ rest → rest = [] ∧ ∀ x ∈ w, CanonicalKeyField x := by
  have hkey : ∀ f, (∃ k, GraphCompatibilityKey.fromCanonical b = .ok k ∧ k.facts = f) ↔
      decodeFacts b = some f ∧ factsToCanonical f = b := by
    intro f
    constructor
    · rintro ⟨k, hk, rfl⟩
      obtain ⟨f, hf, hb, rfl⟩ := GraphCompatibilityKey.fromCanonical_ok_iff.mp hk
      exact ⟨hf, hb⟩
    · rintro ⟨hf, hb⟩
      exact ⟨_, GraphCompatibilityKey.fromCanonical_ok_iff.mpr ⟨f, hf, hb, rfl⟩, rfl⟩
  simp only [hkey, factsFromCanonical_ok_iff, iff_self_and]
  constructor
  · rintro hagree w rest hw rfl
    obtain ⟨hshort, g, hg, hall⟩ := id hw
    obtain ⟨f, hrun⟩ := readsAs_facts hg w rest hshort hall
    have hf := decodeFacts_eq_some.mpr ⟨rest, hrun⟩
    obtain ⟨u, rest', hu, hb, hsame⟩ := keyFields_of_decode hf
    obtain ⟨rfl, rfl⟩ := hw.unique hu hb
    exact hsame.mp (hagree f hf)
  · intro hcanon f hf
    obtain ⟨w, rest, hw, hb, hsame⟩ := keyFields_of_decode hf
    exact hsame.mpr (hcanon w rest hw hb)

/-- A byte after the last field is not seen by the walk. -/
theorem decoders_disagree_trailing : ¬∀ (b : Bytes) (f : CompatibilityFacts),
    factsFromCanonical b = .ok f ↔
      ∃ k, GraphCompatibilityKey.fromCanonical b = .ok k ∧ k.facts = f := by
  intro hagree
  have hread : factsFromCanonical (factsToCanonical {} ++ [0]) = .ok {} := by decide +kernel
  obtain ⟨k, hk, -⟩ := (hagree _ _).mp hread
  have hrefused : GraphCompatibilityKey.fromCanonical (factsToCanonical {} ++ [0]) =
      fail .persistenceCorrupt "canonical compatibility metadata does not round-trip" := by
    decide +kernel
  rw [hrefused] at hk
  cases hk

end GraphCache
