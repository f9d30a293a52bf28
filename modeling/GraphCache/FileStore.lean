import GraphCache.Envelopes
import GraphCache.History
import GraphCache.Protocol
import GraphCache.Records

/-!
# The files of the store

`PersistenceStore` keeps a payload as an envelope in a file that is named after its id. `put` writes
a temporary file and renames it; a call ends in one of the ways of `PutEnd`, or the process crashes
in it. A rename is atomic and replaces, and what a crash leaves in a temporary file is arbitrary.

The directory holds a `Store` at every moment of every run (`Represents`, `represents_after`), the
map that the cache is modeled over. So a read finds the payload of the last put whose rename took
effect, and none after a removal (`fileStore_refines`).
-/

open BigEndian History

namespace GraphCache

namespace PersistenceStore

/-! ## The source -/

/-- `id_to_hex`. -/
def idToHex (id : GraphArtifactId) : Str :=
  Sha256.hex (encU64 id.hi) ++ Sha256.hex (encU64 id.lo)

/-- `val`. -/
def digitValue (c : UInt8) : ℕ := (hexValue c).getD 16

/-- `parse16`, from the value so far. -/
def parse16 : UInt64 → Str → UInt64
  | v, [] => v
  | v, c :: s => if digitValue c > 15 then 0 else parse16 ((v <<< 4) ||| UInt64.ofNat (digitValue c)) s

/-- `hex_to_id`. -/
def hexToId (s : Str) : Option GraphArtifactId :=
  if s.length ≠ 32 then none
  else if ∃ c ∈ s, digitValue c > 15 then none
  else some ⟨parse16 0 (s.take 16), parse16 0 (s.drop 16)⟩

def fileFor (id : GraphArtifactId) : Str := str "gc-" ++ idToHex id ++ str ".gcf"

def tempFor (id : GraphArtifactId) : Str := str "gc-" ++ idToHex id ++ str ".tmp"

/-- The files of the directory and what they hold. -/
abbrev Directory := AList fun _ : Str => Bytes

/-- `fs::rename` that takes effect. -/
def rename (files : Directory) (source target : Str) : Directory :=
  match files.lookup source with
  | some data => (files.erase source).insert target data
  | none => files

/-- The fields of `PersistenceStore::Impl`. The directory is known by the paths of its files. -/
structure Impl where
  path : Str → Str
  version : UInt32 := formatVersion

/-- How a call of `put` ends : it returns, or the process crashes, before the rename takes effect or
after. The temporary file then holds anything, or is not there. -/
inductive PutEnd
  | returned
  | openFailed
  | writeFailed (temp : Bytes)
  | renameFailed (message : Str)
  | crashed (temp : Option Bytes)
  | crashedRenamed
  deriving DecidableEq, Repr

/-- The rename took effect. -/
def PutEnd.renamed : PutEnd → Bool
  | .returned | .crashedRenamed => true
  | .openFailed | .writeFailed _ | .renameFailed _ | .crashed _ => false

/-- `PersistenceStore::put`. There is no result where the process crashed. -/
def Impl.put (impl : Impl) (files : Directory) (id : GraphArtifactId) (payload : Bytes) :
    PutEnd → Option (Result Unit) × Directory
  | .openFailed => (some (.error ⟨.persistenceIoError,
      str "cannot open temp:" ++ impl.path (tempFor id)⟩), files)
  | .writeFailed temp => (some (.error ⟨.persistenceIoError,
      str "cannot write temp:" ++ impl.path (tempFor id)⟩), files.insert (tempFor id) temp)
  | .renameFailed message =>
    let files := files.insert (tempFor id) (buildEnvelope impl.version payload)
    (some (.error ⟨.persistenceIoError, str "rename failed: " ++ message⟩),
      files.erase (tempFor id))
  | .crashed none => (none, files.erase (tempFor id))
  | .crashed (some temp) => (none, files.insert (tempFor id) temp)
  | .crashedRenamed =>
    let files := files.insert (tempFor id) (buildEnvelope impl.version payload)
    (none, rename files (tempFor id) (fileFor id))
  | .returned =>
    let files := files.insert (tempFor id) (buildEnvelope impl.version payload)
    (some (.ok ()), rename files (tempFor id) (fileFor id))

/-- `PersistenceStore::get`. A file that exists can be read. There is no result where a byte outside
of the file is read. -/
def Impl.get (impl : Impl) (files : Directory) (id : GraphArtifactId) : Option (Result Bytes) :=
  match files.lookup (fileFor id) with
  | none => some (fail .persistenceNotFound "no file")
  | some data =>
    (parseEnvelope impl.version data).map fun
      | .ok payload => .ok payload
      | .error err => fail err "persisted envelope rejected"

/-- `PersistenceStore::remove`, of files that can be removed. -/
def remove (files : Directory) (id : GraphArtifactId) : Directory :=
  (files.erase (fileFor id)).erase (tempFor id)

/-- The id for which `list` takes a file. -/
def listedId (name : Str) : Option GraphArtifactId :=
  if name.take 3 ≠ str "gc-" then none
  else if name.length ≠ 3 + 32 + 4 then none
  else if name.drop (3 + 32) ≠ str ".gcf" then none
  else hexToId ((name.drop 3).take 32)

/-- `PersistenceStore::list`, in the order of `directory_iterator`. -/
def list (o : IterationOrder Str) (files : Directory) : List GraphArtifactId :=
  (o.arrange files.keys).filterMap listedId

/-- A call, with what becomes of it. -/
inductive Call
  | put (id : GraphArtifactId) (payload : Bytes) (ending : PutEnd)
  | get (id : GraphArtifactId)
  | remove (id : GraphArtifactId)
  | list
  deriving DecidableEq, Repr

/-- The directory after a call. -/
def Impl.step (impl : Impl) (files : Directory) : Call → Directory
  | .put id payload ending => (impl.put files id payload ending).2
  | .remove id => remove files id
  | .get _ | .list => files

/-! ## Names -/

theorem hexValue_le {c : UInt8} {n : ℕ} (h : hexValue c = some n) : n ≤ 15 := by
  unfold hexValue at h
  simp only [UInt8.le_iff_toNat_le, UInt8.reduceToNat] at h
  split_ifs at h with hdigit hlower hupper
  all_goals
    obtain rfl := Option.some.inj h
    omega

theorem digitValue_of_isSome {c : UInt8} (h : (hexValue c).isSome) :
    digitValue c = (hexValue c).getD 0 ∧ digitValue c ≤ 15 := by
  obtain ⟨n, hn⟩ := Option.isSome_iff_exists.mp h
  rw [digitValue, hn]
  exact ⟨rfl, hexValue_le hn⟩

/-- A digit is appended to a number. -/
theorem shift_or (n : ℕ) {d : ℕ} (h : d ≤ 15) :
    (UInt64.ofNat n <<< 4) ||| UInt64.ofNat d = UInt64.ofNat (n * 16 + d) := by
  have hsum : n % 2 ^ 60 * 2 ^ 4 + d = (n % 2 ^ 60) <<< 4 ||| d := by
    rw [← Nat.shiftLeft_eq, Nat.shiftLeft_add_eq_or_of_lt (show d < 2 ^ 4 by omega)]
  rw [← UInt64.toNat_inj]
  simp only [UInt64.toNat_or, UInt64.toNat_shiftLeft, UInt64.toNat_ofNat', UInt64.reduceToNat]
  rw [Nat.mod_eq_of_lt (show d < 2 ^ 64 by omega), show 4 % 64 = 4 by rfl,
    show (n % 2 ^ 64) <<< 4 % 2 ^ 64 = (n % 2 ^ 60) <<< 4 by
      simp only [Nat.shiftLeft_eq]
      omega, ← hsum]
  omega

/-- Digits are read as the number that they spell. -/
theorem parse16_eq : ∀ {s : Str} (n : ℕ), (∀ c ∈ s, (hexValue c).isSome) →
    parse16 (UInt64.ofNat n) s =
      UInt64.ofNat (s.foldl (fun v d => v * 16 + (hexValue d).getD 0) n)
  | [], n, _ => rfl
  | c :: s, n, h => by
    obtain ⟨hvalue, hle⟩ := digitValue_of_isSome (h c List.mem_cons_self)
    rw [parse16, if_neg (by omega), shift_or n hle,
      parse16_eq _ fun d hd => h d (List.mem_cons_of_mem c hd), List.foldl_cons, hvalue]

theorem parse16_hex (v : UInt64) : parse16 0 (Sha256.hex (encU64 v)) = v := by
  have hparse := parse16_eq (s := Sha256.hex (encU64 v)) 0 fun c => isSome_hexValue_of_mem_hex
  rw [show UInt64.ofNat 0 = 0 by rfl] at hparse
  rw [hparse]
  have hnat : (Sha256.hex (encU64 v)).foldl (fun v d => v * 16 + (hexValue d).getD 0) 0 =
      beNat (encU64 v) := hexNat_hex (encU64 v)
  rw [hnat, encU64, beNat_beBytes_of_lt (by simpa using v.toNat_lt), UInt64.ofNat_toNat]

@[simp] theorem length_idToHex (id : GraphArtifactId) : (idToHex id).length = 32 := by
  simp [idToHex, length_hex]

theorem hexToId_idToHex (id : GraphArtifactId) : hexToId (idToHex id) = some id := by
  have hdigits : ¬∃ c ∈ idToHex id, digitValue c > 15 := by
    rintro ⟨c, hc, hlarge⟩
    have hsome : (hexValue c).isSome := by
      rcases List.mem_append.mp hc with hc | hc
      · exact isSome_hexValue_of_mem_hex hc
      · exact isSome_hexValue_of_mem_hex hc
    have hle := (digitValue_of_isSome hsome).2
    omega
  have hhi : (Sha256.hex (encU64 id.hi)).length = 16 := by simp [length_hex]
  rw [hexToId, if_neg (not_not.mpr (length_idToHex id)), if_neg hdigits, idToHex,
    List.take_left' hhi, List.drop_left' hhi, parse16_hex, parse16_hex]

/-- `list` takes the file of an id for this id. -/
theorem listedId_fileFor (id : GraphArtifactId) : listedId (fileFor id) = some id := by
  have hname : fileFor id = str "gc-" ++ (idToHex id ++ str ".gcf") := List.append_assoc _ _ _
  have hhead : (str "gc-" ++ idToHex id).length = 3 + 32 := by
    rw [List.length_append, length_idToHex]
    rfl
  have hlen : (fileFor id).length = 3 + 32 + 4 := by
    rw [fileFor, List.length_append, hhead]
    rfl
  rw [listedId, hlen, hname, List.take_left' (by rfl), if_neg (not_not.mpr rfl),
    if_neg (not_not.mpr rfl), ← hname, fileFor, List.drop_left' hhead, if_neg (not_not.mpr rfl),
    ← fileFor, hname, List.drop_left' (by rfl), List.take_left' (length_idToHex id),
    hexToId_idToHex]

/-- `list` skips temporary files. -/
theorem listedId_tempFor (id : GraphArtifactId) : listedId (tempFor id) = none := by
  have hhead : (str "gc-" ++ idToHex id).length = 3 + 32 := by
    rw [List.length_append, length_idToHex]
    rfl
  have hend : (tempFor id).drop (3 + 32) ≠ str ".gcf" := by
    rw [tempFor, List.drop_left' hhead]
    decide
  rw [listedId, if_pos hend]
  split_ifs <;> rfl

theorem fileFor_injective : Function.Injective fileFor := fun id id' h => by
  have hlisted := congrArg listedId h
  rwa [listedId_fileFor, listedId_fileFor, Option.some.injEq] at hlisted

theorem fileFor_ne_tempFor (id id' : GraphArtifactId) : fileFor id ≠ tempFor id' := fun h => by
  have hlisted := congrArg listedId h
  rw [listedId_fileFor, listedId_tempFor] at hlisted
  cases hlisted

/-! ## The directory as a map -/

/-- The files of the ids hold the envelopes of the payloads in the map, and all other files are
temporary ones. -/
structure Represents (impl : Impl) (files : Directory) (store : Store) : Prop where
  content : ∀ id, files.lookup (fileFor id) = (store.lookup id).map (buildEnvelope impl.version)
  names : ∀ name ∈ files, ∃ id, name = fileFor id ∨ name = tempFor id

/-- What a call does to the map. -/
def effect (store : Store) : Call → Store
  | .put id payload ending => if ending.renamed then store.insert id payload else store
  | .remove id => store.erase id
  | .get _ | .list => store

section

variable {impl : Impl} {files : Directory} {store : Store} {id : GraphArtifactId}

theorem represents_empty (impl : Impl) : Represents impl ∅ ∅ where
  content := fun _ => rfl
  names := fun _ h => absurd h (AList.notMem_empty _)

theorem Represents.insert_temp (h : Represents impl files store) (id : GraphArtifactId)
    (temp : Bytes) : Represents impl (files.insert (tempFor id) temp) store where
  content := fun id' => by
    rw [AList.lookup_insert_ne (fileFor_ne_tempFor id' id), h.content]
  names := fun name hmem => by
    rcases (AList.mem_insert _).mp hmem with rfl | hmem
    · exact ⟨id, .inr rfl⟩
    · exact h.names name hmem

theorem Represents.erase_temp (h : Represents impl files store) (id : GraphArtifactId) :
    Represents impl (files.erase (tempFor id)) store where
  content := fun id' => by
    rw [AList.lookup_erase_ne (fileFor_ne_tempFor id' id), h.content]
  names := fun name hmem => h.names name (AList.mem_erase.mp hmem).2

/-- A payload that is written under its id. -/
theorem Represents.insert_file (h : Represents impl files store) (id : GraphArtifactId)
    (payload : Bytes) : Represents impl
      (files.insert (fileFor id) (buildEnvelope impl.version payload)) (store.insert id payload) where
  content := fun id' => by
    by_cases hid : id' = id
    · subst hid
      rw [AList.lookup_insert, AList.lookup_insert, Option.map_some]
    · rw [AList.lookup_insert_ne (fileFor_injective.ne hid), AList.lookup_insert_ne hid, h.content]
  names := fun name hmem => by
    rcases (AList.mem_insert _).mp hmem with rfl | hmem
    · exact ⟨id, .inl rfl⟩
    · exact h.names name hmem

theorem Represents.erase_file (h : Represents impl files store) (id : GraphArtifactId) :
    Represents impl (files.erase (fileFor id)) (store.erase id) where
  content := fun id' => by
    by_cases hid : id' = id
    · subst hid
      rw [AList.lookup_erase, AList.lookup_erase, Option.map_none]
    · rw [AList.lookup_erase_ne (fileFor_injective.ne hid), AList.lookup_erase_ne hid, h.content]
  names := fun name hmem => h.names name (AList.mem_erase.mp hmem).2

/-- The rename of the temporary file that was written. -/
theorem rename_temp (data : Bytes) : rename (files.insert (tempFor id) data) (tempFor id)
    (fileFor id) = ((files.insert (tempFor id) data).erase (tempFor id)).insert (fileFor id) data := by
  rw [rename, AList.lookup_insert]

/-- A call does to the directory what it does to the map, however it ends. -/
theorem Represents.step (h : Represents impl files store) (c : Call) :
    Represents impl (impl.step files c) (effect store c) := by
  have hrenamed : ∀ id payload, Represents impl (rename (files.insert (tempFor id)
      (buildEnvelope impl.version payload)) (tempFor id) (fileFor id)) (store.insert id payload) := by
    intro id payload
    rw [rename_temp]
    exact ((h.insert_temp id _).erase_temp id).insert_file id payload
  cases c with
  | put id payload ending =>
    cases ending with
    | returned => exact hrenamed id payload
    | openFailed => exact h
    | writeFailed temp => exact h.insert_temp id temp
    | renameFailed message => exact (h.insert_temp id _).erase_temp id
    | crashed temp =>
      cases temp with
      | none => exact h.erase_temp id
      | some temp => exact h.insert_temp id temp
    | crashedRenamed => exact hrenamed id payload
  | get id => exact h
  | remove id => exact (h.erase_file id).erase_temp id
  | list => exact h

/-- At every moment of a run the directory holds the map. -/
theorem represents_after (impl : Impl) (calls : List Call) :
    Represents impl (after impl.step ∅ calls) (after effect ∅ calls) := by
  induction calls using List.reverseRecOn with
  | nil => exact represents_empty impl
  | append_singleton calls c ih =>
    rw [after_concat, after_concat]
    exact ih.step c

/-! ## What is read -/

theorem Represents.get_none (h : Represents impl files store) (hid : store.lookup id = none) :
    impl.get files id = some (fail .persistenceNotFound "no file") := by
  rw [Impl.get, h.content, hid]
  rfl

theorem Represents.get_some (h : Represents impl files store) {payload : Bytes}
    (hid : store.lookup id = some payload) (hlen : payload.length < 2 ^ 32 - 16) :
    impl.get files id = some (.ok payload) := by
  rw [Impl.get, h.content, hid, Option.map_some]
  dsimp only
  rw [parseEnvelope_buildEnvelope impl.version (by omega), Option.map_some]

/-- The cache reads the map as the files are read, whatever the length of a payload. -/
theorem Represents.get_ok_iff (h : Represents impl files store) {payload : Bytes} :
    impl.get files id = some (.ok payload) ↔ store.get id = some payload := by
  cases hid : store.lookup id with
  | none =>
    rw [h.get_none hid, Store.get, hid]
    simp
  | some payload' =>
    by_cases hlen : payload'.length < 2 ^ 32 - 16
    · have hfits : envelopeFits payload' = true := envelopeFits_iff.mpr (by omega)
      rw [h.get_some hid hlen, Store.get, hid, Option.filter_some, if_pos hfits]
      simp
    · have hfits : ¬envelopeFits payload' = true := by
        rw [envelopeFits_iff]
        omega
      have hw : ¬Wrapped impl.version (buildEnvelope impl.version payload') := fun hw => by
        have hlength := hw.length
        rw [length_buildEnvelope] at hlength
        omega
      rw [Store.get, hid, Option.filter_some, if_neg hfits, Impl.get, h.content, hid,
        Option.map_some]
      dsimp only
      rcases parseEnvelope_of_not_wrapped hw with ⟨err, herr⟩ | ⟨p, -, hbuild, hp⟩
      · rw [herr]
        simp
      · have hlength := congrArg List.length hbuild
        rw [length_buildEnvelope, length_buildEnvelope] at hlength
        omega

theorem Represents.list_nodup (h : Represents impl files store) (o : IterationOrder Str) :
    (list o files).Nodup := by
  have hkeys : (o.arrange files.keys).Nodup := (o.perm files.keys).nodup_iff.mpr files.nodupKeys
  refine List.pairwise_filterMap.mpr (hkeys.imp_of_mem ?_)
  intro name name' hmem hmem' hne id hid id' hid' heq
  subst heq
  have hfile : ∀ name ∈ o.arrange files.keys, listedId name = some id → name = fileFor id := by
    intro name hmem hid
    obtain ⟨id', rfl | rfl⟩ := h.names name ((o.perm files.keys).mem_iff.mp hmem)
    · rw [listedId_fileFor, Option.some.injEq] at hid
      rw [hid]
    · rw [listedId_tempFor] at hid
      cases hid
  exact hne ((hfile name hmem hid).trans (hfile name' hmem' hid').symm)

theorem Represents.mem_list_iff (h : Represents impl files store) (o : IterationOrder Str) :
    id ∈ list o files ↔ (store.lookup id).isSome := by
  have hfile : fileFor id ∈ files ↔ (store.lookup id).isSome := by
    rw [← AList.lookup_isSome, h.content, Option.isSome_map]
  rw [← hfile, list, List.mem_filterMap]
  constructor
  · rintro ⟨name, hmem, hid⟩
    have hmem : name ∈ files := (o.perm files.keys).mem_iff.mp hmem
    obtain ⟨id', rfl | rfl⟩ := h.names name hmem
    · rw [listedId_fileFor, Option.some.injEq] at hid
      rwa [← hid]
    · rw [listedId_tempFor] at hid
      cases hid
  · exact fun hmem => ⟨fileFor id, (o.perm files.keys).mem_iff.mpr hmem, listedId_fileFor id⟩

end

/-! ## Runs -/

/-- The call writes under the id, and its rename takes effect. -/
def Call.Writes (c : Call) (id : GraphArtifactId) (payload : Bytes) : Prop :=
  ∃ ending, c = .put id payload ending ∧ ending.renamed = true

/-- The payload of the last put whose rename took effect, which no removal follows. -/
def LastPut (impl : Impl) (calls : List Call) (id : GraphArtifactId) (payload : Bytes) : Prop :=
  Since impl.step ∅ (fun _ c => c.Writes id payload)
    (fun _ c => c = .remove id ∨ ∃ payload', c.Writes id payload') calls

/-- The id that a call is about. -/
def Call.target : Call → Option GraphArtifactId
  | .put id _ _ | .get id | .remove id => some id
  | .list => none

theorem lookup_effect (store : Store) (c : Call) (id : GraphArtifactId) (payload : Bytes) :
    (effect store c).lookup id = some payload ↔ c.Writes id payload ∨
      store.lookup id = some payload ∧ ¬(c = .remove id ∨ ∃ payload', c.Writes id payload') := by
  cases c with
  | put id' payload' ending =>
    by_cases hrenamed : ending.renamed = true
    · rw [effect, if_pos hrenamed]
      by_cases hid : id = id'
      · subst hid
        simp [Call.Writes, hrenamed]
      · rw [AList.lookup_insert_ne hid]
        simp [Call.Writes, Ne.symm hid]
    · rw [effect, if_neg hrenamed]
      simp only [Bool.not_eq_true] at hrenamed
      simp [Call.Writes, hrenamed]
  | get id' => simp [effect, Call.Writes]
  | remove id' =>
    rw [effect]
    by_cases hid : id = id'
    · subst hid
      simp [Call.Writes]
    · rw [AList.lookup_erase_ne hid]
      simp [Call.Writes, Ne.symm hid]
  | list => simp [effect, Call.Writes]

theorem lookup_after (impl : Impl) {calls : List Call} {id : GraphArtifactId} {payload : Bytes} :
    (after effect ∅ calls).lookup id = some payload ↔ LastPut impl calls id payload := by
  induction calls using List.reverseRecOn with
  | nil => simp [LastPut]
  | append_singleton calls c ih =>
    rw [after_concat, lookup_effect, ih, LastPut, LastPut, since_concat]

/-- A call changes what is under the id that it is about. -/
theorem lookup_effect_of_ne {store : Store} {c : Call} {id : GraphArtifactId}
    (h : c.target ≠ some id) : (effect store c).lookup id = store.lookup id := by
  have hwrites : ∀ payload, ¬c.Writes id payload := by
    rintro payload ⟨ending, rfl, -⟩
    exact h rfl
  have hremove : c ≠ .remove id := by
    rintro rfl
    exact h rfl
  ext payload
  rw [lookup_effect]
  simp [hwrites, hremove]

theorem lookup_effect_congr {store store' : Store} (c : Call) {id : GraphArtifactId}
    (h : store.lookup id = store'.lookup id) :
    (effect store c).lookup id = (effect store' c).lookup id := by
  ext payload
  rw [lookup_effect, lookup_effect, h]

/-- Calls about other ids do not change what is under an id. -/
theorem lookup_after_filter (calls : List Call) (id : GraphArtifactId) :
    (after effect ∅ (calls.filter fun c => c.target = some id)).lookup id =
      (after effect ∅ calls).lookup id := by
  induction calls using List.reverseRecOn with
  | nil => rfl
  | append_singleton calls c ih =>
    rw [List.filter_append, after_concat]
    by_cases htarget : c.target = some id
    · rw [List.filter_cons_of_pos (by simpa using htarget), List.filter_nil, after_concat]
      exact lookup_effect_congr c ih
    · rw [List.filter_cons_of_neg (by simpa using htarget), List.filter_nil, List.append_nil, ih,
        lookup_effect_of_ne htarget]

/-- The store is a map. After any run from an empty directory, a read finds the payload of the last
put whose rename took effect, where no removal follows, and no file otherwise; the ids with such a
payload are listed, each once; and calls about other ids make no difference. -/
theorem fileStore_refines (impl : Impl) {calls : List Call}
    (h : ∀ id payload ending, .put id payload ending ∈ calls → payload.length < 2 ^ 32 - 16) :
    (∀ id payload, LastPut impl calls id payload →
      impl.get (after impl.step ∅ calls) id = some (.ok payload)) ∧
    (∀ id, (∀ payload, ¬LastPut impl calls id payload) →
      impl.get (after impl.step ∅ calls) id = some (fail .persistenceNotFound "no file")) ∧
    (∀ o, (list o (after impl.step ∅ calls)).Nodup ∧ ∀ id,
      id ∈ list o (after impl.step ∅ calls) ↔ ∃ payload, LastPut impl calls id payload) ∧
    ∀ id,
      impl.get (after impl.step ∅ (calls.filter fun c => c.target = some id)) id =
        impl.get (after impl.step ∅ calls) id ∧
      ∀ o, id ∈ list o (after impl.step ∅ (calls.filter fun c => c.target = some id)) ↔
        id ∈ list o (after impl.step ∅ calls) := by
  have hmap := represents_after impl calls
  refine ⟨fun id payload hlast => ?_, fun id hno => ?_, fun o => ⟨hmap.list_nodup o, fun id => ?_⟩,
    fun id => ?_⟩
  · have hlook := (lookup_after impl).mpr hlast
    obtain ⟨before, c, rest, hsplit, ⟨ending, rfl, -⟩, -⟩ := hlast
    exact hmap.get_some hlook (h id payload ending (by simp [hsplit]))
  · refine hmap.get_none (Option.eq_none_iff_forall_ne_some.mpr fun payload hlook => ?_)
    exact hno payload ((lookup_after impl).mp hlook)
  · rw [hmap.mem_list_iff o, Option.isSome_iff_exists]
    exact exists_congr fun payload => lookup_after impl
  · have hmap' := represents_after impl (calls.filter fun c => c.target = some id)
    have hsame := lookup_after_filter calls id
    refine ⟨?_, fun o => ?_⟩
    · rw [Impl.get, Impl.get, hmap.content, hmap'.content, hsame]
    · rw [hmap.mem_list_iff o, hmap'.mem_list_iff o, hsame]

/-- A put, a put of the same id that crashes before its rename, and a put of another id. -/
theorem fileStore_refines_crashed :
    Impl.get ⟨id, formatVersion⟩ (after (Impl.step ⟨id, formatVersion⟩) ∅
      [.put ⟨0, 1⟩ [1] .returned, .put ⟨0, 1⟩ [2] (.crashed (some [])), .put ⟨0, 2⟩ [3] .returned])
        ⟨0, 1⟩ = some (.ok [1]) := by
  refine (fileStore_refines _ fun id payload ending hmem => ?_).1 _ _
    ⟨[], _, _, rfl, ⟨.returned, rfl, rfl⟩, fun before c rest hsplit => ?_⟩
  · have hshort : ∀ c ∈ [Call.put ⟨0, 1⟩ [1] .returned, .put ⟨0, 1⟩ [2] (.crashed (some [])),
        .put ⟨0, 2⟩ [3] .returned], ∀ id payload ending, c = .put id payload ending →
          payload.length = 1 := by
      simp
    have hlen := hshort _ hmem id payload ending rfl
    omega
  · have hmem : c ∈ [Call.put ⟨0, 1⟩ [2] (.crashed (some [])), .put ⟨0, 2⟩ [3] .returned] := by
      rw [hsplit]
      simp
    rcases List.mem_pair.mp hmem with rfl | rfl
    · simp [Call.Writes, PutEnd.renamed]
    · simp [Call.Writes]

end PersistenceStore

end GraphCache
