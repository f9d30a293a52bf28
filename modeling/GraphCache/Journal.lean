import Mathlib.Data.List.Induction
import Mathlib.Data.List.Nodup

/-!
# Journals

A journal is a list of records to which records are only appended. Whatever an index over it holds
can be read off the list : the positions of the records of a kind (`positions`), the last of them
(`latest`), and which positions are the latest of their key (`heads`). Each is given by what an
append does to it (`positions_concat`, `latest_concat`, `heads_concat`), and does not see an edit
that leaves the kind of a record alone (`positions_congr`, `heads_congr`).

`pick` is the choice of a scan that takes the first it finds and then whatever it prefers.
-/

namespace Journal

variable {ρ κ α : Type*}

/-! ## Positions -/

/-- The positions of the records with `p`, in order. -/
def positions (p : ρ → Bool) (l : List ρ) : List ℕ :=
  (l.zipIdx.filter fun e => p e.1).map Prod.snd

@[simp] theorem positions_nil (p : ρ → Bool) : positions p [] = [] := rfl

theorem positions_concat (p : ρ → Bool) (l : List ρ) (r : ρ) :
    positions p (l ++ [r]) = if p r then positions p l ++ [l.length] else positions p l := by
  rw [positions, List.zipIdx_append, List.filter_append, List.map_append]
  split_ifs with h <;> simp [positions, h]

theorem mem_positions {p : ρ → Bool} {l : List ρ} {i : ℕ} :
    i ∈ positions p l ↔ ∃ r, l[i]? = some r ∧ p r = true := by
  simp only [positions, List.mem_map, List.mem_filter, List.mem_zipIdx_iff_getElem?, Prod.exists]
  constructor
  · rintro ⟨r, _, ⟨hr, hp⟩, rfl⟩
    exact ⟨r, hr, hp⟩
  · rintro ⟨r, hr, hp⟩
    exact ⟨r, i, ⟨hr, hp⟩, rfl⟩

theorem positions_map {σ : Type*} (f : ρ → σ) (p : σ → Bool) (l : List ρ) :
    positions p (l.map f) = positions (fun r => p (f r)) l := by
  simp [positions, List.zipIdx_map, List.filter_map, Function.comp_def]

/-- Edits that leave the kinds of the records alone move no position. -/
theorem positions_congr (p : κ → Bool) {key : ρ → κ} {l l' : List ρ} (h : l'.map key = l.map key) :
    positions (fun r => p (key r)) l' = positions (fun r => p (key r)) l := by
  rw [← positions_map, h, positions_map]

/-! ## The latest -/

/-- The last position of a record with `p`. -/
def latest (p : ρ → Bool) (l : List ρ) : Option ℕ := (positions p l).getLast?

theorem latest_concat (p : ρ → Bool) (l : List ρ) (r : ρ) :
    latest p (l ++ [r]) = if p r then some l.length else latest p l := by
  rw [latest, positions_concat]
  split_ifs
  · rw [List.getLast?_append]
    rfl
  · rfl

theorem latest_spec {p : ρ → Bool} {l : List ρ} {i : ℕ} (h : latest p l = some i) :
    ∃ r, l[i]? = some r ∧ p r = true :=
  mem_positions.mp (List.mem_of_getLast? h)

theorem latest_congr (p : κ → Bool) {key : ρ → κ} {l l' : List ρ} (h : l'.map key = l.map key) :
    latest (fun r => p (key r)) l' = latest (fun r => p (key r)) l := by
  rw [latest, positions_congr p h, latest]

/-- The last record with `p`. -/
def last (p : ρ → Bool) (l : List ρ) : Option ρ := (l.filter p).getLast?

theorem last_concat (p : ρ → Bool) (l : List ρ) (r : ρ) :
    last p (l ++ [r]) = if p r then some r else last p l := by
  rw [last, List.filter_append]
  split_ifs with h <;> simp [last, h]

theorem last_map (p : κ → Bool) (key : ρ → κ) (l : List ρ) :
    last p (l.map key) = (last (fun r => p (key r)) l).map key := by
  rw [last, last, List.filter_map, List.getLast?_map]
  rfl

/-! ## Heads -/

variable [DecidableEq κ]

/-- The positions that are the latest of their key, the last one first. -/
def heads (key : ρ → κ) (l : List ρ) : List ℕ :=
  ((l.zipIdx.filter fun e => latest (fun r => key r = key e.1) l = some e.2).map Prod.snd).reverse

@[simp] theorem heads_nil (key : ρ → κ) : heads key [] = [] := rfl

theorem mem_heads {key : ρ → κ} {l : List ρ} {i : ℕ} :
    i ∈ heads key l ↔ ∃ r, l[i]? = some r ∧ latest (fun r' => key r' = key r) l = some i := by
  simp only [heads, List.mem_reverse, List.mem_map, List.mem_filter, List.mem_zipIdx_iff_getElem?,
    Prod.exists, decide_eq_true_eq]
  constructor
  · rintro ⟨r, _, ⟨hr, hlast⟩, rfl⟩
    exact ⟨r, hr, hlast⟩
  · rintro ⟨r, hr, hlast⟩
    exact ⟨r, i, ⟨hr, hlast⟩, rfl⟩

theorem nodup_heads (key : ρ → κ) (l : List ρ) : (heads key l).Nodup := by
  rw [heads, List.nodup_reverse]
  refine (List.Sublist.map _ List.filter_sublist).nodup ?_
  rw [List.zipIdx_map_snd]
  exact List.nodup_range' ..

/-- A record that is appended displaces the latest of its key. -/
theorem heads_concat (key : ρ → κ) (l : List ρ) (r : ρ) :
    heads key (l ++ [r]) =
      l.length :: (heads key l).filter fun i => l[i]?.map key ≠ some (key r) := by
  have hold : (l.zipIdx.filter fun e => latest (fun r' => key r' = key e.1) (l ++ [r]) = some e.2) =
      (l.zipIdx.filter fun e => latest (fun r' => key r' = key e.1) l = some e.2).filter
        fun e => l[e.2]?.map key ≠ some (key r) := by
    rw [List.filter_filter]
    refine List.filter_congr fun e he => ?_
    have hat : l[e.2]? = some e.1 := List.mem_zipIdx_iff_getElem?.mp he
    have hlt : e.2 < l.length := (List.getElem?_eq_some_iff.mp hat).1
    rw [latest_concat, hat]
    by_cases hkey : key r = key e.1
    · have hne : l.length ≠ e.2 := Nat.ne_of_gt hlt
      simp [hkey, hne]
    · simp [hkey, Ne.symm hkey]
  rw [heads, List.zipIdx_append, List.filter_append, hold, List.map_append, List.reverse_append]
  have hnew : ([r].zipIdx (0 + l.length)).filter
      (fun e => latest (fun r' => key r' = key e.1) (l ++ [r]) = some e.2) = [(r, l.length)] := by
    simp [latest_concat]
  rw [hnew, heads, List.filter_reverse, List.filter_map]
  rfl

/-- Edits that leave the keys alone move no head. -/
theorem heads_congr {key : ρ → κ} {l l' : List ρ} (h : l'.map key = l.map key) :
    heads key l' = heads key l := by
  have hkeys : ∀ l : List ρ, heads key l = heads id (l.map key) := by
    intro l
    simp only [heads, List.zipIdx_map, List.filter_map, List.map_map, latest, positions_map, id]
    rfl
  rw [hkeys, h, hkeys]

/-- Of a key only its latest is a head. -/
theorem filter_heads (key : ρ → κ) (l : List ρ) (k : κ) :
    (heads key l).filter (fun i => l[i]?.map key = some k) =
      (latest (fun r => key r = k) l).toList := by
  induction l using List.reverseRecOn with
  | nil => rfl
  | append_singleton l r ih =>
    have hrest : ((heads key l).filter fun i => l[i]?.map key ≠ some (key r)).filter
        (fun i => (l ++ [r])[i]?.map key = some k) =
        ((heads key l).filter fun i => l[i]?.map key = some k).filter
          fun i => l[i]?.map key ≠ some (key r) := by
      rw [List.filter_filter, List.filter_filter]
      refine List.filter_congr fun i hi => ?_
      obtain ⟨r', hr', -⟩ := mem_heads.mp hi
      rw [List.getElem?_append_left (List.getElem?_eq_some_iff.mp hr').1, Bool.and_comm]
    rw [heads_concat, List.filter_cons, hrest, latest_concat, List.getElem?_concat_length]
    by_cases hk : key r = k
    · subst hk
      simp [List.filter_filter]
    · rw [ih, if_neg (by simp [hk]), if_neg (by simpa using hk), List.filter_eq_self]
      intro i hi
      obtain ⟨r', hr', hkey⟩ := latest_spec (Option.mem_toList.mp hi)
      rw [decide_eq_true_eq] at hkey
      simp [hr', hkey, Ne.symm hk]

/-! ## A choice -/

/-- The last that is preferred, or the first where none is. -/
def pick (good : α → Bool) (l : List α) : Option α := (l.filter good).getLast?.or l.head?

theorem pick_concat (good : α → Bool) (l : List α) (x : α) :
    pick good (l ++ [x]) = if pick good l = none ∨ good x = true then some x else pick good l := by
  rw [pick, List.filter_append, List.getLast?_append]
  rcases hgood : good x with _ | _
  · cases l with
    | nil => simp [pick, hgood]
    | cons y l => simp [pick, hgood]
  · simp [hgood]

theorem pick_map {β : Type*} (good : β → Bool) (f : α → β) (l : List α) :
    pick good (l.map f) = (pick (fun x => good (f x)) l).map f := by
  rw [pick, pick, List.filter_map, List.getLast?_map, List.head?_map, Option.map_or]
  rfl

theorem mem_of_pick {good : α → Bool} {l : List α} {x : α} (h : pick good l = some x) : x ∈ l := by
  rcases Option.or_eq_some_iff.mp h with h | ⟨-, h⟩
  · exact (List.mem_filter.mp (List.mem_of_getLast? h)).1
  · exact List.mem_of_head? h

end Journal
