import Mathlib.Data.List.Basic
import Mathlib.Data.List.TakeWhile

/-!
# JSON texts

Values without null, whose numbers are natural, as bytes : a printer, and a reader for what it
prints. The reader takes quotes and backslashes escaped, any other byte as it is, and refuses control
characters, as JSON does; it allows no white space.

What is printed is read back exactly when its texts have no control characters (`read_print_iff`).
-/

namespace JsonText

inductive Json
  | text (s : List UInt8)
  | number (n : ℕ)
  | bool (b : Bool)
  | list (items : List Json)
  | object (fields : List (List UInt8 × Json))

/-! ## Printing -/

/-- A quote or a backslash is escaped by a backslash. -/
def escape (c : UInt8) : List UInt8 :=
  if c = 34 ∨ c = 92 then [92, c] else [c]

/-- A text between quotes. -/
def quote (s : List UInt8) : List UInt8 :=
  34 :: (s.flatMap escape ++ [34])

def digits (n : ℕ) : List UInt8 :=
  (Nat.toDigits 10 n).map fun c => UInt8.ofNat c.toNat

def truth (b : Bool) : List UInt8 :=
  if b then [116, 114, 117, 101] else [102, 97, 108, 115, 101]

mutual

def Json.print : Json → List UInt8
  | .text s => quote s
  | .number n => digits n
  | .bool b => truth b
  | .list items => 91 :: printItems items
  | .object fields => 123 :: printFields fields

/-- The items and the bracket after them. -/
def printItems : List Json → List UInt8
  | [] => [93]
  | v :: items => v.print ++ moreItems items

def moreItems : List Json → List UInt8
  | [] => [93]
  | v :: items => 44 :: (v.print ++ moreItems items)

/-- The fields and the brace after them. -/
def printFields : List (List UInt8 × Json) → List UInt8
  | [] => [125]
  | (k, v) :: fields => quote k ++ 58 :: (v.print ++ moreFields fields)

def moreFields : List (List UInt8 × Json) → List UInt8
  | [] => [125]
  | (k, v) :: fields => 44 :: (quote k ++ 58 :: (v.print ++ moreFields fields))

end

/-! ## Reading -/

/-- After the first quote, or after a backslash. -/
def readText (escaped : Bool) : List UInt8 → Option (List UInt8 × List UInt8)
  | [] => none
  | c :: s =>
    if escaped then
      if c = 34 ∨ c = 92 then (readText false s).map fun (t, r) => (c :: t, r) else none
    else if c = 34 then some ([], s)
    else if c = 92 then readText true s
    else if c < 32 then none
    else (readText false s).map fun (t, r) => (c :: t, r)

def isDigit (c : UInt8) : Bool :=
  48 ≤ c ∧ c ≤ 57

/-- All digits that there are, without a leading zero. -/
def readNumber (s : List UInt8) : Option (ℕ × List UInt8) :=
  let ds := s.takeWhile isDigit
  if ds = [] ∨ 1 < ds.length ∧ ds.head? = some 48 then none
  else some (ds.foldl (fun n d => 10 * n + (d.toNat - 48)) 0, s.dropWhile isDigit)

section

variable {α : Type*} (elem : List UInt8 → Option (α × List UInt8)) (close : UInt8)

/-- After an element. -/
def readMore : ℕ → List UInt8 → Option (List α × List UInt8)
  | 0, _ | _, [] => none
  | n + 1, c :: s =>
    if c = close then some ([], s)
    else if c = 44 then
      match elem s with
      | none => none
      | some (x, r) => (readMore n r).map fun (xs, r) => (x :: xs, r)
    else none

/-- After the opening bracket. -/
def readAll (s : List UInt8) : Option (List α × List UInt8) :=
  if s.head? = some close then some ([], s.tail)
  else
    match elem s with
    | none => none
    | some (x, r) => (readMore elem close r.length r).map fun (xs, r) => (x :: xs, r)

/-- A key, a colon and an element. -/
def readField (s : List UInt8) : Option ((List UInt8 × α) × List UInt8) :=
  if s.head? = some 34 then
    match readText false s.tail with
    | some (k, 58 :: r) => (elem r).map fun (x, r) => ((k, x), r)
    | _ => none
  else none

end

/-- A value at the head, with nesting bounded by the fuel. -/
def readValue : ℕ → List UInt8 → Option (Json × List UInt8)
  | 0, _ | _, [] => none
  | fuel + 1, c :: s =>
    if c = 34 then (readText false s).map fun (t, r) => (.text t, r)
    else if c = 91 then (readAll (readValue fuel) 93 s).map fun (l, r) => (.list l, r)
    else if c = 123 then
      (readAll (readField (readValue fuel)) 125 s).map fun (l, r) => (.object l, r)
    else if isDigit c then (readNumber (c :: s)).map fun (n, r) => (.number n, r)
    else if (c :: s).take 4 = truth true then some (.bool true, (c :: s).drop 4)
    else if (c :: s).take 5 = truth false then some (.bool false, (c :: s).drop 5)
    else none

/-- The value that a text is, to its end. -/
def read (s : List UInt8) : Option Json :=
  match readValue s.length s with
  | some (v, []) => some v
  | _ => none

/-! ## Plain texts -/

/-- No control characters. -/
def PlainText (s : List UInt8) : Prop :=
  ∀ c ∈ s, 32 ≤ c

mutual

/-- No control characters in the texts and keys of a value. -/
def Json.Plain : Json → Prop
  | .text s => PlainText s
  | .number _ | .bool _ => True
  | .list items => PlainItems items
  | .object fields => PlainFields fields

def PlainItems : List Json → Prop
  | [] => True
  | v :: items => v.Plain ∧ PlainItems items

def PlainFields : List (List UInt8 × Json) → Prop
  | [] => True
  | (k, v) :: fields => (PlainText k ∧ v.Plain) ∧ PlainFields fields

end

/-- Texts that are printed as they are. -/
def Bare (s : List UInt8) : Prop :=
  ∀ c ∈ s, 32 ≤ c ∧ c ≠ 34 ∧ c ≠ 92

instance (s : List UInt8) : Decidable (PlainText s) :=
  List.decidableBAll _ s

instance (s : List UInt8) : Decidable (Bare s) :=
  List.decidableBAll _ s

theorem Bare.plain {s : List UInt8} (h : Bare s) : PlainText s :=
  fun c hc => (h c hc).1

theorem Bare.quote {s : List UInt8} (h : Bare s) : quote s = 34 :: (s ++ [34]) := by
  have hescape : s.flatMap escape = s := by
    induction s with
    | nil => rfl
    | cons c s ih =>
      obtain ⟨-, hquote, hslash⟩ := h c List.mem_cons_self
      rw [List.flatMap_cons, ih fun d hd => h d (List.mem_cons_of_mem c hd), escape,
        if_neg (not_or.mpr ⟨hquote, hslash⟩), List.singleton_append]
  rw [JsonText.quote, hescape]

/-! ## Texts and numbers -/

theorem readText_escape {c : UInt8} (hc : 32 ≤ c) (s : List UInt8) :
    readText false (escape c ++ s) = (readText false s).map fun (t, r) => (c :: t, r) := by
  unfold escape
  split_ifs with hspecial
  · show readText false (92 :: c :: s) = _
    rw [readText, if_neg (by decide), if_neg (by decide), if_pos rfl, readText, if_pos rfl,
      if_pos hspecial]
  · obtain ⟨hquote, hslash⟩ := not_or.mp hspecial
    rw [List.singleton_append, readText, if_neg (by decide), if_neg hquote, if_neg hslash,
      if_neg (UInt8.not_lt.mpr hc)]

theorem readText_quote : ∀ {s : List UInt8}, PlainText s → ∀ rest,
    readText false (s.flatMap escape ++ 34 :: rest) = some (s, rest)
  | [], _, rest => rfl
  | c :: s, h, rest => by
    rw [List.flatMap_cons, List.append_assoc, readText_escape (h c List.mem_cons_self),
      readText_quote (fun d hd => h d (List.mem_cons_of_mem c hd)) rest]
    rfl

theorem plain_of_readText : ∀ {s t r : List UInt8} {escaped : Bool},
    readText escaped s = some (t, r) → PlainText t
  | [], _, _, _, h => by cases h
  | c :: s, t, r, escaped, h => by
    have hcons : 32 ≤ c → (readText false s).map (fun (t, r) => (c :: t, r)) = some (t, r) →
        PlainText t := by
      intro hc h
      obtain ⟨⟨t', r'⟩, htail, heq⟩ := Option.map_eq_some_iff.mp h
      obtain ⟨rfl, rfl⟩ := Prod.mk.inj heq
      intro d hd
      rcases List.mem_cons.mp hd with rfl | hd
      · exact hc
      · exact plain_of_readText htail d hd
    rw [readText] at h
    split_ifs at h with hescaped hspecial hquote hslash hcontrol
    · refine hcons ?_ h
      rcases hspecial with rfl | rfl <;> decide
    · obtain ⟨rfl, rfl⟩ := Prod.mk.inj (Option.some.inj h)
      exact fun d hd => absurd hd List.not_mem_nil
    · exact plain_of_readText h
    · exact hcons (UInt8.not_lt.mp hcontrol) h

theorem digits_of_lt {n : ℕ} (h : n < 10) : digits n = [UInt8.ofNat (48 + n)] := by
  have hdigit : ∀ n < 10, UInt8.ofNat (Nat.digitChar n).toNat = UInt8.ofNat (48 + n) := by decide
  rw [digits, Nat.toDigits_of_lt_base h, List.map_singleton, hdigit n h]

theorem digits_of_le {n : ℕ} (h : 10 ≤ n) :
    digits n = digits (n / 10) ++ [UInt8.ofNat (48 + n % 10)] := by
  have hlast := digits_of_lt (Nat.mod_lt n (show 0 < 10 by decide))
  rw [digits, Nat.toDigits_of_lt_base (Nat.mod_lt n (by decide))] at hlast
  rw [digits, Nat.toDigits_of_base_le (by decide) h, List.map_append, ← digits, hlast]

/-- What may follow a number. -/
def Ends (rest : List UInt8) : Prop :=
  ∀ c ∈ rest.head?, isDigit c = false

/-- The digits of a number spell it, and only zero begins with a zero. -/
theorem digits_spec (n : ℕ) : (∀ c ∈ digits n, isDigit c = true) ∧ digits n ≠ [] ∧
    (digits n).foldl (fun n d => 10 * n + (d.toNat - 48)) 0 = n ∧
      (0 < n → (digits n).head? ≠ some 48) := by
  have hdigit : ∀ m < 10, isDigit (UInt8.ofNat (48 + m)) = true ∧
      (UInt8.ofNat (48 + m)).toNat - 48 = m ∧ (0 < m → UInt8.ofNat (48 + m) ≠ 48) := by decide
  induction n using Nat.strongRecOn with
  | ind n ih =>
    by_cases hn : n < 10
    · obtain ⟨hd, hvalue, hzero⟩ := hdigit n hn
      rw [digits_of_lt hn]
      refine ⟨fun c hc => ?_, List.cons_ne_nil _ _, ?_, fun hpos h => ?_⟩
      · rwa [List.mem_singleton.mp hc]
      · simpa using hvalue
      · exact hzero hpos (Option.some.inj h)
    · have hn : 10 ≤ n := Nat.le_of_not_lt hn
      obtain ⟨hall, hne, hvalue, hhead⟩ := ih (n / 10) (by omega)
      obtain ⟨hd, hlast, -⟩ := hdigit (n % 10) (Nat.mod_lt n (by decide))
      rw [digits_of_le hn]
      refine ⟨fun c hc => ?_, by simp, ?_, fun _ => ?_⟩
      · rcases List.mem_append.mp hc with hc | hc
        · exact hall c hc
        · rwa [List.mem_singleton.mp hc]
      · rw [List.foldl_append, hvalue, List.foldl_cons, List.foldl_nil, hlast]
        omega
      · rw [List.head?_append_of_ne_nil _ hne]
        exact hhead (by omega)

theorem readNumber_digits (n : ℕ) {rest : List UInt8} (hrest : Ends rest) :
    readNumber (digits n ++ rest) = some (n, rest) := by
  obtain ⟨hall, hne, hvalue, hhead⟩ := digits_spec n
  have hnone : rest.takeWhile isDigit = [] ∧ rest.dropWhile isDigit = rest := by
    cases rest with
    | nil => exact ⟨rfl, rfl⟩
    | cons c rest =>
      have hc : isDigit c = false := hrest c rfl
      exact ⟨by simp [hc], by simp [hc]⟩
  have htake : (digits n ++ rest).takeWhile isDigit = digits n := by
    rw [List.takeWhile_append_of_pos hall, hnone.1, List.append_nil]
  have hdrop : (digits n ++ rest).dropWhile isDigit = rest := by
    rw [List.dropWhile_append_of_pos hall, hnone.2]
  have hzero : ¬(digits n = [] ∨ 1 < (digits n).length ∧ (digits n).head? = some 48) := by
    rintro (hnil | ⟨hlong, hzero⟩)
    · exact hne hnil
    · refine hhead (Nat.pos_of_ne_zero ?_) hzero
      rintro rfl
      simp [digits_of_lt] at hlong
  simp only [readNumber, htake, hdrop, if_neg hzero, hvalue]

/-! ## Values -/

theorem ends_cons {c : UInt8} (h : isDigit c = false) (rest : List UInt8) : Ends (c :: rest) := by
  intro d hd
  rwa [← Option.some.inj hd]

theorem ends_moreItems (items : List Json) (rest : List UInt8) : Ends (moreItems items ++ rest) := by
  cases items with
  | nil => exact ends_cons (by decide) _
  | cons v items => exact ends_cons (by decide) _

theorem ends_moreFields (fields : List (List UInt8 × Json)) (rest : List UInt8) :
    Ends (moreFields fields ++ rest) := by
  rcases fields with _ | ⟨⟨k, v⟩, fields⟩
  · exact ends_cons (by decide) _
  · exact ends_cons (by decide) _

theorem length_lt_moreItems (items : List Json) : items.length < (moreItems items).length := by
  induction items with
  | nil => exact Nat.zero_lt_one
  | cons v items ih =>
    rw [moreItems, List.length_cons, List.length_cons, List.length_append]
    omega

theorem length_lt_moreFields (fields : List (List UInt8 × Json)) :
    fields.length < (moreFields fields).length := by
  induction fields with
  | nil => exact Nat.zero_lt_one
  | cons f fields ih =>
    rw [moreFields, List.length_cons, List.length_cons]
    simp only [List.length_append, List.length_cons]
    omega

/-- No value begins as a list ends. -/
theorem head_print (v : Json) : ∃ c s, v.print = c :: s ∧ c ≠ 93 := by
  cases v with
  | text s => exact ⟨34, _, rfl, by decide⟩
  | number n =>
    obtain ⟨hall, hne, -⟩ := digits_spec n
    obtain ⟨c, ds, hdigits⟩ := List.exists_cons_of_ne_nil hne
    refine ⟨c, ds, hdigits, ?_⟩
    rintro rfl
    have hdigit := hall 93 (by rw [hdigits]; exact List.mem_cons_self)
    exact absurd hdigit (by decide)
  | bool b => cases b <;> exact ⟨_, _, rfl, by decide⟩
  | list items => exact ⟨91, _, rfl, by decide⟩
  | object fields => exact ⟨123, _, rfl, by decide⟩

theorem readField_print {α : Type*} {elem : List UInt8 → Option (α × List UInt8)} {k s r : List UInt8}
    {x : α} (hk : PlainText k) (h : elem s = some (x, r)) :
    readField elem (quote k ++ 58 :: s) = some ((k, x), r) := by
  have htail : (quote k ++ 58 :: s).tail = k.flatMap escape ++ 34 :: 58 :: s := by
    simp [quote]
  have hhead : (quote k ++ 58 :: s).head? = some 34 := rfl
  rw [readField, if_pos hhead, htail, readText_quote hk]
  simp [h]

mutual

theorem readValue_print : ∀ (v : Json) {fuel : ℕ} {rest : List UInt8}, v.Plain →
    v.print.length ≤ fuel → Ends rest → readValue fuel (v.print ++ rest) = some (v, rest)
  | .text s, 0, _, _, hfuel, _ => by simp [Json.print, quote] at hfuel
  | .text s, fuel + 1, rest, hplain, _, _ => by
    have hprint : (Json.text s).print ++ rest = 34 :: (s.flatMap escape ++ 34 :: rest) := by
      simp [Json.print, quote]
    rw [hprint, readValue, if_pos rfl, readText_quote hplain]
    rfl
  | .number n, fuel, rest, _, hfuel, hrest => by
    obtain ⟨hall, hne, -⟩ := digits_spec n
    obtain ⟨c, ds, hdigits⟩ := List.exists_cons_of_ne_nil hne
    have hc : isDigit c = true := hall c (by rw [hdigits]; exact List.mem_cons_self)
    have hprint : (Json.number n).print ++ rest = c :: (ds ++ rest) := by
      rw [Json.print, hdigits, List.cons_append]
    have hread : readNumber (c :: (ds ++ rest)) = some (n, rest) := by
      rw [← List.cons_append, ← hdigits]
      exact readNumber_digits n hrest
    obtain ⟨fuel, rfl⟩ : ∃ k, fuel = k + 1 := by
      refine Nat.exists_eq_succ_of_ne_zero ?_
      rintro rfl
      simp [Json.print, hdigits] at hfuel
    have hne34 : c ≠ 34 := by rintro rfl; exact absurd hc (by decide)
    have hne91 : c ≠ 91 := by rintro rfl; exact absurd hc (by decide)
    have hne123 : c ≠ 123 := by rintro rfl; exact absurd hc (by decide)
    rw [hprint, readValue, if_neg hne34, if_neg hne91, if_neg hne123, if_pos hc, hread]
    rfl
  | .bool b, 0, _, _, hfuel, _ => by cases b <;> simp [Json.print, truth] at hfuel
  | .bool true, fuel + 1, rest, _, _, _ => rfl
  | .bool false, fuel + 1, rest, _, _, _ => rfl
  | .list items, 0, _, _, hfuel, _ => by simp [Json.print] at hfuel
  | .list [], fuel + 1, rest, _, _, _ => rfl
  | .list (v :: items), fuel + 1, rest, hplain, hfuel, _ => by
    obtain ⟨c, s, hhead, hc⟩ := head_print v
    have hlen : v.print.length + (moreItems items).length ≤ fuel := by
      simpa [Json.print, printItems] using hfuel
    have hfirst : readValue fuel (v.print ++ (moreItems items ++ rest)) =
        some (v, moreItems items ++ rest) :=
      readValue_print v hplain.1 (by omega) (ends_moreItems items rest)
    have hmore : readMore (readValue fuel) 93 (moreItems items ++ rest).length
        (moreItems items ++ rest) = some (items, rest) := by
      have hlt := length_lt_moreItems items
      exact readMore_items items hplain.2 (by omega) (by rw [List.length_append]; omega)
    have hprint : (Json.list (v :: items)).print ++ rest =
        91 :: (v.print ++ (moreItems items ++ rest)) := by
      rw [Json.print, printItems, List.cons_append, List.append_assoc]
    have hopen : (v.print ++ (moreItems items ++ rest)).head? ≠ some 93 := by
      rw [hhead]
      exact fun h => hc (Option.some.inj h)
    rw [hprint, readValue, if_neg (by decide), if_pos rfl, readAll, if_neg hopen, hfirst]
    simp only [hmore]
    rfl
  | .object fields, 0, _, _, hfuel, _ => by simp [Json.print] at hfuel
  | .object [], fuel + 1, rest, _, _, _ => rfl
  | .object ((k, v) :: fields), fuel + 1, rest, hplain, hfuel, _ => by
    have hlen : v.print.length + (moreFields fields).length ≤ fuel := by
      simp only [Json.print, printFields, List.length_cons, List.length_append] at hfuel
      omega
    have hfirst : readField (readValue fuel) (quote k ++ 58 :: (v.print ++ (moreFields fields ++ rest))) =
        some ((k, v), moreFields fields ++ rest) :=
      readField_print hplain.1.1
        (readValue_print v hplain.1.2 (by omega) (ends_moreFields fields rest))
    have hmore : readMore (readField (readValue fuel)) 125 (moreFields fields ++ rest).length
        (moreFields fields ++ rest) = some (fields, rest) := by
      have hlt := length_lt_moreFields fields
      exact readMore_fields fields hplain.2 (by omega) (by rw [List.length_append]; omega)
    have hprint : (Json.object ((k, v) :: fields)).print ++ rest =
        123 :: (quote k ++ 58 :: (v.print ++ (moreFields fields ++ rest))) := by
      simp [Json.print, printFields]
    have hopen : (quote k ++ 58 :: (v.print ++ (moreFields fields ++ rest))).head? ≠ some 125 := by
      rw [quote]
      exact fun h => absurd (Option.some.inj h) (by decide)
    rw [hprint, readValue, if_neg (by decide), if_neg (by decide), if_pos rfl, readAll,
      if_neg hopen, hfirst]
    simp only [hmore]
    rfl

theorem readMore_items : ∀ (items : List Json) {fuel n : ℕ} {rest : List UInt8}, PlainItems items →
    (moreItems items).length ≤ fuel → items.length < n →
      readMore (readValue fuel) 93 n (moreItems items ++ rest) = some (items, rest)
  | _, _, 0, _, _, _, hn => absurd hn (Nat.not_lt_zero _)
  | [], fuel, n + 1, rest, _, _, _ => rfl
  | v :: items, fuel, n + 1, rest, hplain, hfuel, hn => by
    have hlen : v.print.length + (moreItems items).length ≤ fuel := by
      rw [moreItems, List.length_cons, List.length_append] at hfuel
      omega
    have hfirst : readValue fuel (v.print ++ (moreItems items ++ rest)) =
        some (v, moreItems items ++ rest) :=
      readValue_print v hplain.1 (by omega) (ends_moreItems items rest)
    have hmore : readMore (readValue fuel) 93 n (moreItems items ++ rest) = some (items, rest) :=
      readMore_items items hplain.2 (by omega) (Nat.lt_of_succ_lt_succ hn)
    rw [moreItems, List.cons_append, List.append_assoc, readMore, if_neg (by decide), if_pos rfl,
      hfirst]
    simp only [hmore]
    rfl

theorem readMore_fields : ∀ (fields : List (List UInt8 × Json)) {fuel n : ℕ} {rest : List UInt8},
    PlainFields fields → (moreFields fields).length ≤ fuel → fields.length < n →
      readMore (readField (readValue fuel)) 125 n (moreFields fields ++ rest) = some (fields, rest)
  | _, _, 0, _, _, _, hn => absurd hn (Nat.not_lt_zero _)
  | [], fuel, n + 1, rest, _, _, _ => rfl
  | (k, v) :: fields, fuel, n + 1, rest, hplain, hfuel, hn => by
    have hlen : v.print.length + (moreFields fields).length ≤ fuel := by
      simp only [moreFields, List.length_cons, List.length_append] at hfuel
      omega
    have hfirst : readField (readValue fuel) (quote k ++ 58 :: (v.print ++ (moreFields fields ++ rest))) =
        some ((k, v), moreFields fields ++ rest) :=
      readField_print hplain.1.1
        (readValue_print v hplain.1.2 (by omega) (ends_moreFields fields rest))
    have hmore : readMore (readField (readValue fuel)) 125 n (moreFields fields ++ rest) =
        some (fields, rest) :=
      readMore_fields fields hplain.2 (by omega) (Nat.lt_of_succ_lt_succ hn)
    have hprint : moreFields ((k, v) :: fields) ++ rest =
        44 :: (quote k ++ 58 :: (v.print ++ (moreFields fields ++ rest))) := by
      simp [moreFields]
    rw [hprint, readMore, if_neg (by decide), if_pos rfl, hfirst]
    simp only [hmore]
    rfl

end

/-! ## What is read -/

section

variable {α : Type*} {elem : List UInt8 → Option (α × List UInt8)} {close : UInt8} {P : α → Prop}

theorem forall_readMore (h : ∀ s x r, elem s = some (x, r) → P x) :
    ∀ {n : ℕ} {s : List UInt8} {xs : List α} {r : List UInt8},
      readMore elem close n s = some (xs, r) → ∀ x ∈ xs, P x
  | 0, _, _, _, hread => by cases hread
  | n + 1, [], _, _, hread => by cases hread
  | n + 1, c :: s, xs, r, hread => by
    rw [readMore] at hread
    split_ifs at hread
    · obtain ⟨rfl, -⟩ := Prod.mk.inj (Option.some.inj hread)
      exact fun x hx => absurd hx List.not_mem_nil
    · split at hread
      · cases hread
      · rename_i y t hfirst
        obtain ⟨⟨ys, t'⟩, hmore, heq⟩ := Option.map_eq_some_iff.mp hread
        obtain ⟨rfl, rfl⟩ := Prod.mk.inj heq
        intro x hx
        rcases List.mem_cons.mp hx with rfl | hx
        · exact h _ _ _ hfirst
        · exact forall_readMore h hmore x hx

theorem forall_readAll (h : ∀ s x r, elem s = some (x, r) → P x) {s : List UInt8} {xs : List α}
    {r : List UInt8} (hread : readAll elem close s = some (xs, r)) : ∀ x ∈ xs, P x := by
  unfold readAll at hread
  split_ifs at hread
  · obtain ⟨rfl, -⟩ := Prod.mk.inj (Option.some.inj hread)
    exact fun x hx => absurd hx List.not_mem_nil
  · split at hread
    · cases hread
    · rename_i y t hfirst
      obtain ⟨⟨ys, t'⟩, hmore, heq⟩ := Option.map_eq_some_iff.mp hread
      obtain ⟨rfl, rfl⟩ := Prod.mk.inj heq
      intro x hx
      rcases List.mem_cons.mp hx with rfl | hx
      · exact h _ _ _ hfirst
      · exact forall_readMore h hmore x hx

theorem plain_of_readField (h : ∀ s x r, elem s = some (x, r) → P x) {s k r : List UInt8} {x : α}
    (hread : readField elem s = some ((k, x), r)) : PlainText k ∧ P x := by
  unfold readField at hread
  split_ifs at hread
  split at hread
  · rename_i k' t hkey
    obtain ⟨⟨y, t'⟩, hvalue, heq⟩ := Option.map_eq_some_iff.mp hread
    obtain ⟨hpair, rfl⟩ := Prod.mk.inj heq
    obtain ⟨rfl, rfl⟩ := Prod.mk.inj hpair
    exact ⟨plain_of_readText hkey, h _ _ _ hvalue⟩
  · cases hread

end

theorem plainItems_iff {items : List Json} : PlainItems items ↔ ∀ v ∈ items, v.Plain := by
  induction items with
  | nil => simp [PlainItems]
  | cons v items ih => rw [PlainItems, ih, List.forall_mem_cons]

theorem plainFields_iff {fields : List (List UInt8 × Json)} :
    PlainFields fields ↔ ∀ f ∈ fields, PlainText f.1 ∧ f.2.Plain := by
  induction fields with
  | nil => simp [PlainFields]
  | cons f fields ih => rw [PlainFields, ih, List.forall_mem_cons]

theorem plain_of_readValue : ∀ {fuel : ℕ} {s : List UInt8} {v : Json} {r : List UInt8},
    readValue fuel s = some (v, r) → v.Plain
  | 0, _, _, _, h => by cases h
  | fuel + 1, [], _, _, h => by cases h
  | fuel + 1, c :: s, v, r, h => by
    have hvalue : ∀ s x r, readValue fuel s = some (x, r) → x.Plain := fun _ _ _ =>
      plain_of_readValue
    rw [readValue] at h
    split_ifs at h
    · obtain ⟨⟨t, r'⟩, htext, heq⟩ := Option.map_eq_some_iff.mp h
      obtain ⟨rfl, rfl⟩ := Prod.mk.inj heq
      exact plain_of_readText htext
    · obtain ⟨⟨items, r'⟩, hitems, heq⟩ := Option.map_eq_some_iff.mp h
      obtain ⟨rfl, rfl⟩ := Prod.mk.inj heq
      exact plainItems_iff.mpr (forall_readAll hvalue hitems)
    · obtain ⟨⟨fields, r'⟩, hfields, heq⟩ := Option.map_eq_some_iff.mp h
      obtain ⟨rfl, rfl⟩ := Prod.mk.inj heq
      refine plainFields_iff.mpr (forall_readAll (fun s f r hf => ?_) hfields)
      exact plain_of_readField hvalue hf
    · obtain ⟨⟨n, r'⟩, -, heq⟩ := Option.map_eq_some_iff.mp h
      obtain ⟨rfl, rfl⟩ := Prod.mk.inj heq
      exact trivial
    · obtain ⟨rfl, rfl⟩ := Prod.mk.inj (Option.some.inj h)
      exact trivial
    · obtain ⟨rfl, rfl⟩ := Prod.mk.inj (Option.some.inj h)
      exact trivial

theorem plain_of_read {s : List UInt8} {v : Json} (h : read s = some v) : v.Plain := by
  unfold read at h
  split at h
  · rename_i hread
    obtain rfl := Option.some.inj h
    exact plain_of_readValue hread
  · cases h

/-- A value is read back exactly when its texts and keys have no control characters. -/
theorem read_print_iff {v : Json} : read v.print = some v ↔ v.Plain := by
  refine ⟨plain_of_read, fun h => ?_⟩
  have hread : readValue v.print.length (v.print ++ []) = some (v, []) :=
    readValue_print v h le_rfl nofun
  rw [List.append_nil] at hread
  rw [read, hread]

end JsonText
