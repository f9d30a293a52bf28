import GraphCache.Evolution

/-!
# Records

What the store holds of the entries. An operation changes a record only by writing an entry under
its artifact id (`step_record`) : a capture writes the entry it publishes, `persist_all` those that
`by_artifact` names. A record reads back as the entry's metadata with the descriptor as stored
(`decodeEntryPayload_encode`), and a fresh cache that recovers holds one entry for each record that
decodes (`recovered_entry`).
-/

namespace GraphCache

variable {Exec : Type} {cfg : Config Exec}

/-- The payload under an id. -/
def State.record (s : State Exec) (id : GraphArtifactId) : Option Bytes :=
  s.store.bind fun store => store.lookup id

/-! ## One payload -/

theorem envelopeFits_iff {payload : Bytes} :
    envelopeFits payload = true ↔ payload.length + 16 < 2 ^ 32 := by
  simp only [envelopeFits, decide_eq_true_eq, UInt32.toNat_add, UInt32.toNat_ofNat,
    UInt32.toNat_ofNat']
  omega

theorem loadEntry_lookup {store : Store} {id : GraphArtifactId} {e : CacheEntry Exec}
    (h : loadEntry store id = some e) : ∃ payload, store.lookup id = some payload ∧
      payload.length + 16 < 2 ^ 32 ∧ decodeEntryPayload payload = some e := by
  obtain ⟨payload, hget, hdec⟩ := Option.bind_eq_some_iff.mp h
  obtain ⟨hlook, hfits⟩ := Option.filter_eq_some_iff.mp hget
  exact ⟨payload, hlook, envelopeFits_iff.mp hfits, hdec⟩

theorem mem_keys_of_loadEntry {store : Store} {id : GraphArtifactId} {e : CacheEntry Exec}
    (h : loadEntry store id = some e) : id ∈ store.keys := by
  obtain ⟨payload, hlook, -⟩ := loadEntry_lookup h
  exact AList.mem_keys.mp (AList.lookup_isSome.mp (by simp [hlook]))

/-- The payload of the entry fits the 32-bit lengths of the envelope. -/
def CacheEntry.Writable (e : CacheEntry Exec) : Prop :=
  (encodeEntryPayload e).length + 16 < 2 ^ 32

instance (e : CacheEntry Exec) : Decidable e.Writable :=
  inferInstanceAs (Decidable ((encodeEntryPayload e).length + 16 < 2 ^ 32))

theorem CacheEntry.Writable.fields {e : CacheEntry Exec} (h : e.Writable) :
    (serializeDescriptor e.descriptor).length < 2 ^ 32 ∧
      (serializeMetadata e.metadata).length < 2 ^ 32 := by
  have hlt : (encodeEntryPayload e).length < 2 ^ 32 := Nat.lt_of_le_of_lt (by omega) h
  constructor
  · refine (length_le_take (f := putBytes 1 (serializeDescriptor e.descriptor)) ?_).trans_lt hlt
    simp
  · refine (length_le_take (f := putBytes 2 (serializeMetadata e.metadata)) ?_).trans_lt hlt
    simp

/-- A payload reads back with its metadata, unless its descriptor is rejected. -/
theorem decodeEntryPayload_encode {e : CacheEntry Exec} (h : e.Writable) :
    (decodeEntryPayload (encodeEntryPayload e) : Option (CacheEntry Exec)) =
      (deserializeDescriptor (serializeDescriptor e.descriptor)).toOption.map
        fun g => recoveredEntry g e.metadata := by
  have hmd : deserializeMetadata (serializeMetadata e.metadata) = .ok e.metadata :=
    deserializeMetadata_serialize fun f hf => (length_le_take hf).trans_lt h.fields.2
  have hfields : ∀ f ∈ [putBytes 1 (serializeDescriptor e.descriptor),
      putBytes 2 (serializeMetadata e.metadata)], f.payload.length < 2 ^ 32 := by
    simpa [putBytes] using h.fields
  rw [decodeEntryPayload, encodeEntryPayload, CanonicalReader.forEach_take _ hfields]
  cases hg : deserializeDescriptor (serializeDescriptor e.descriptor) with
  | error err => simp [decodePayloadField, putBytes, Except.toOption, hg]
  | ok g => simp [decodePayloadField, putBytes, Except.toOption, hg, hmd]

theorem decode_written {e e' : CacheEntry Exec} (hw : e.Writable)
    (h : decodeEntryPayload (encodeEntryPayload e) = some e') :
    e'.artifactId = e.artifactId ∧ e'.generation = e.generation ∧ e'.invalidated = e.invalidated := by
  rw [decodeEntryPayload_encode hw, Option.map_eq_some_iff] at h
  obtain ⟨g, -, rfl⟩ := h
  exact ⟨rfl, rfl, rfl⟩

/-! ## Writes -/

/-- What an operation writes. -/
def Puts (cfg : Config Exec) (s : State Exec) : Op Exec → CacheEntry Exec → Prop
  | .lookup req env, e => env.putOk = true ∧ Captures cfg s req env e
  | .persistAll _ putOk, e => ∃ a ∈ s.artifacts, e = s.heap a ∧ putOk e.artifactId = true
  | _, _ => False

theorem record_of_keeps {s s' : State Exec} (h : s.Keeps s') (id : GraphArtifactId) :
    s'.record id = s.record id := by
  rw [State.record, State.record, h.store]

/-- A write under one id. -/
theorem record_written {s s' : State Exec} {e : CacheEntry Exec} {putOk : Bool}
    (h : s'.store = s.written e putOk) (id : GraphArtifactId) :
    s'.record id = s.record id ∨ putOk = true ∧ e.artifactId = id ∧
      s'.record id = some (encodeEntryPayload e) := by
  rw [State.written] at h
  cases hst : s.store with
  | none => exact .inl (by simp [State.record, h, hst])
  | some store =>
    by_cases hid : id = e.artifactId
    · cases putOk with
      | false => exact .inl (by simp [State.record, h, hst])
      | true =>
        subst hid
        exact .inr ⟨rfl, rfl, by simp [State.record, h, hst]⟩
    · refine .inl ?_
      cases putOk with
      | false => simp [State.record, h, hst]
      | true => simp [State.record, h, hst, AList.lookup_insert_ne hid]

/-- The writes of `persist_all`. -/
theorem record_persistLoop (putOk : GraphArtifactId → Bool) (id : GraphArtifactId) :
    ∀ (l : List ℕ) (s : State Exec), (persistLoop putOk l s).1.record id = s.record id ∨
      ∃ a ∈ l, putOk (s.heap a).artifactId = true ∧ (s.heap a).artifactId = id ∧
        (persistLoop putOk l s).1.record id = some (encodeEntryPayload (s.heap a))
  | [], _ => .inl rfl
  | a :: l, s => by
    have hp := persistEntry_eq s a (putOk (s.heap a).artifactId)
    have hw := record_written (congrArg State.store hp) id
    unfold persistLoop
    split
    · rename_i s' h
      rw [h] at hp hw
      dsimp only at hp hw
      have hheap : s'.heap = s.heap := by rw [hp]
      rcases record_persistLoop putOk id l s' with ih | ⟨b, hb, hput, hid, ih⟩
      · rw [ih]
        rcases hw with hw | ⟨hput, hid, hw⟩
        · exact .inl hw
        · exact .inr ⟨a, by simp, hput, hid, hw⟩
      · rw [hheap] at hput hid ih
        exact .inr ⟨b, by simp [hb], hput, hid, ih⟩
    · rename_i s' e h
      rw [h] at hw
      rcases hw with hw | ⟨hput, hid, hw⟩
      · exact .inl hw
      · exact .inr ⟨a, by simp, hput, hid, hw⟩

theorem foldl_recoverEntry_keeps (store : Store) :
    ∀ (ids : List GraphArtifactId) (s : State Exec), s.Keeps (ids.foldl (recoverEntry store) s)
  | [], _ => ⟨rfl, rfl, rfl⟩
  | id :: ids, s => by
    have hentry : s.Keeps (recoverEntry store s id) := by
      unfold recoverEntry
      split <;> exact ⟨rfl, rfl, rfl⟩
    exact hentry.trans (foldl_recoverEntry_keeps store ids _)

theorem recover_store (s : State Exec) (listing : IterationOrder GraphArtifactId) :
    (recover s listing).1.store = s.store := by
  unfold recover
  split
  · rfl
  · exact (foldl_recoverEntry_keeps _ _ s).store

theorem invalidate_store (s : State Exec) (req : InvalidationRequest) :
    (invalidate cfg s req).1.store = s.store := by
  have hfold : ∀ (l : List ℕ) (acc : State Exec × InvalidationResult),
      (l.foldl (invalidateEntry cfg req.strong) acc).1.store = acc.1.store := by
    intro l
    induction l with
    | nil => exact fun _ => rfl
    | cons a l ih =>
      intro acc
      rw [List.foldl_cons, ih]
      by_cases h : (acc.1.heap a).invalidated = true
      · simp [invalidateEntry, h]
      · simp [invalidateEntry, h, State.set]
  exact hfold _ _

variable (cfg) in
/-- An operation changes a record only by writing an entry under its id. -/
theorem step_record (s : State Exec) (op : Op Exec) (id : GraphArtifactId) :
    (step cfg s op).record id = s.record id ∨ ∃ e, Puts cfg s op e ∧ e.artifactId = id ∧
      (step cfg s op).record id = some (encodeEntryPayload e) := by
  cases op with
  | lookup req env =>
    obtain ⟨s₁, hbase, hkeeps, -⟩ := lookup_spec cfg s req env
    rw [step, record_of_keeps hkeeps]
    cases hbase with
    | found hn hr hk => exact .inl (record_of_keeps hk id)
    | captured e hc hr hg hcg hs =>
      rcases record_written hs id with h | ⟨hput, hid, h⟩
      · exact .inl h
      · exact .inr ⟨e, ⟨hput, hc⟩, hid, h⟩
  | persistAll order putOk =>
    rw [step]
    unfold persistAll
    split
    · exact .inl rfl
    · rcases record_persistLoop putOk id (order.arrange s.artifacts) s with h | ⟨a, ha, hput, hid, h⟩
      · exact .inl h
      · exact .inr ⟨s.heap a, ⟨a, (order.perm _).subset ha, rfl, hput⟩, hid, h⟩
  | release l =>
    refine .inl ?_
    simp only [step, release]
    split_ifs <;> rfl
  | replay l expected b rd mem =>
    refine .inl ?_
    simp only [step, replay]
    split_ifs
    · rfl
    · rfl
    · split
      · rfl
      · split <;> rfl
  | invalidate req => exact .inl (by rw [State.record, step, invalidate_store]; rfl)
  | pin id =>
    refine .inl ?_
    simp only [step, pin]
    split <;> rfl
  | unpin id =>
    refine .inl ?_
    simp only [step, unpin]
    split
    · rfl
    · split_ifs <;> rfl
  | evict id =>
    refine .inl ?_
    simp only [step, evict]
    split
    · rfl
    · split_ifs <;> rfl
  | unload id =>
    refine .inl ?_
    simp only [step, unload]
    split
    · rfl
    · split_ifs <;> rfl
  | recover listing => exact .inl (by rw [State.record, step, recover_store]; rfl)

/-- The operation writes under `id`, whatever entry. -/
def Writes (cfg : Config Exec) (s : State Exec) : Op Exec → GraphArtifactId → Prop
  | .lookup req env, id =>
    s.store.isSome = true ∧ env.putOk = true ∧ ∃ e, Captures cfg s req env e ∧ e.artifactId = id
  | .persistAll _ putOk, id =>
    s.store.isSome = true ∧ (∀ i, putOk i = true) ∧ ∃ a, s.artifact id = some a
  | _, _ => False

theorem Captures.unique {s : State Exec} {req : GraphLookupRequest} {env : LookupEnv}
    {e e' : CacheEntry Exec} (h : Captures cfg s req env e) (h' : Captures cfg s req env e') :
    e = e' :=
  Except.ok.inj (h.2.2.2.symm.trans h'.2.2.2)

/-- A lookup that captures registers and writes its entry, and edits the registry from there. -/
theorem lookup_of_captures {s : State Exec} {req : GraphLookupRequest} {env : LookupEnv}
    {e : CacheEntry Exec} (h : Captures cfg s req env e) :
    (lookup cfg s req env).1.store = s.written e env.putOk ∧
      Edits cfg Unmarked (s.toRegistry.register e) (lookup cfg s req env).1.toRegistry := by
  obtain ⟨s₁, hbase, hkeeps, hedits, -⟩ := lookup_spec cfg s req env
  cases hbase with
  | found hn hr hk => exact absurd h (hn e)
  | captured e' hc hr hg hcg hst =>
    obtain rfl := h.unique hc
    exact ⟨hkeeps.store.trans hst, hr ▸ hedits⟩

theorem persistLoop_ok {putOk : GraphArtifactId → Bool} (hput : ∀ i, putOk i = true) :
    ∀ (l : List ℕ) (s : State Exec), (persistLoop putOk l s).2 = .ok ()
  | [], _ => rfl
  | c :: l, s => by
    rw [persistLoop, hput]
    cases hs : s.store with
    | none => simpa [persistEntry, hs] using persistLoop_ok hput l s
    | some store => simpa [persistEntry, hs] using persistLoop_ok hput l _

/-- A `persist_all` that succeeds writes every entry it goes through. -/
theorem persistLoop_all {putOk : GraphArtifactId → Bool} :
    ∀ (l : List ℕ) (s : State Exec), s.store.isSome = true → (persistLoop putOk l s).2 = .ok () →
      ∀ a ∈ l, ∃ b ∈ l, (s.heap b).artifactId = (s.heap a).artifactId ∧
        (persistLoop putOk l s).1.record (s.heap a).artifactId =
          some (encodeEntryPayload (s.heap b))
  | c :: l, s, hs, hok, a, ha => by
    obtain ⟨store, hstore⟩ := Option.isSome_iff_exists.mp hs
    by_cases hput : putOk (s.heap c).artifactId = true
    · have hp : persistEntry s c (putOk (s.heap c).artifactId) =
          ({ s with store := some (store.insert (s.heap c).artifactId
            (encodeEntryPayload (s.heap c))) }, .ok ()) := by
        simp [persistEntry, hstore, hput]
      simp only [persistLoop, hp] at hok ⊢
      by_cases hlater : ∃ b ∈ l, (s.heap b).artifactId = (s.heap a).artifactId
      · obtain ⟨b, hb, hid⟩ := hlater
        obtain ⟨d, hd, hdid, hrec⟩ := persistLoop_all l { s with store := some (store.insert
          (s.heap c).artifactId (encodeEntryPayload (s.heap c))) } rfl hok b hb
        dsimp only at hdid hrec
        exact ⟨d, by simp [hd], hdid.trans hid, hid ▸ hrec⟩
      · -- no later entry has the id, so this one is the last written under it
        have hac : a = c := by
          rcases List.mem_cons.mp ha with h | h
          · exact h
          · exact absurd ⟨a, h, rfl⟩ hlater
        subst hac
        refine ⟨a, by simp, rfl, ?_⟩
        rcases record_persistLoop putOk (s.heap a).artifactId l { s with store := some (store.insert
          (s.heap a).artifactId (encodeEntryPayload (s.heap a))) } with h | ⟨b, hb, -, hid, -⟩
        · rw [h]
          simp [State.record]
        · exact absurd ⟨b, hb, hid⟩ hlater
    · have hp : persistEntry s c (putOk (s.heap c).artifactId) =
          (s, fail .persistenceIoError "cannot write entry") := by
        simp [persistEntry, hstore, hput]
      simp [persistLoop, hp, fail] at hok

/-- The record under an id after a `persist_all` that succeeds : of the entry that `by_artifact`
names, or the old one. -/
def State.persistedRecord (s : State Exec) (id : GraphArtifactId) : Option Bytes :=
  match s.artifact id with
  | some a => some (encodeEntryPayload (s.heap a))
  | none => s.record id

theorem record_persistAll {s : State Exec} (hi : s.toRegistry.Indexed) {order : IterationOrder ℕ}
    {putOk : GraphArtifactId → Bool} (h : (persistAll s order putOk).2 = .ok ())
    (id : GraphArtifactId) : (persistAll s order putOk).1.record id = s.persistedRecord id := by
  unfold persistAll at h ⊢
  split at h
  · exact absurd h (fail_ne_ok _ _ _)
  · rename_i store hstore
    have hmem : ∀ b, b ∈ order.arrange s.artifacts ↔ b ∈ s.artifacts := fun b =>
      (order.perm s.artifacts).mem_iff
    rw [State.persistedRecord]
    cases ha : s.artifact id with
    | some a =>
      obtain rfl := (hi.artifact id a ha).2
      obtain ⟨b, hb, hid, hrec⟩ := persistLoop_all (order.arrange s.artifacts) s (by simp [hstore]) h
        a ((hmem a).mpr (mem_artifacts.mpr ⟨_, ha⟩))
      obtain ⟨id', hb⟩ := mem_artifacts.mp ((hmem b).mp hb)
      obtain rfl := (hi.artifact id' b hb).2
      obtain rfl : b = a := Option.some.inj (hb.symm.trans (hid ▸ ha))
      exact hrec
    | none =>
      rcases record_persistLoop putOk id (order.arrange s.artifacts) s with hrec | ⟨b, hb, -, hid, -⟩
      · exact hrec
      · obtain ⟨id', hb⟩ := mem_artifacts.mp ((hmem b).mp hb)
        obtain rfl := (hi.artifact id' b hb).2
        rw [hid, ha] at hb
        exact nomatch hb

theorem record_of_writes {s : State Exec} (hi : s.toRegistry.Indexed) {op : Op Exec}
    {id : GraphArtifactId} (h : Writes cfg s op id) : ∃ e, Puts cfg s op e ∧ e.artifactId = id ∧
      (step cfg s op).record id = some (encodeEntryPayload e) := by
  cases op with
  | lookup req env =>
    obtain ⟨hs, hput, e, he, rfl⟩ := h
    refine ⟨e, ⟨hput, he⟩, rfl, ?_⟩
    obtain ⟨store, hstore⟩ := Option.isSome_iff_exists.mp hs
    rw [step, State.record, (lookup_of_captures he).1]
    simp [State.written, hput, hstore]
  | persistAll order putOk =>
    obtain ⟨hs, hput, a, ha⟩ := h
    obtain ⟨store, hstore⟩ := Option.isSome_iff_exists.mp hs
    have hok : (persistAll s order putOk).2 = .ok () := by
      simpa [persistAll, hstore] using persistLoop_ok hput (order.arrange s.artifacts) s
    refine ⟨s.heap a, ⟨a, mem_artifacts.mpr ⟨_, ha⟩, rfl, hput _⟩, (hi.artifact id a ha).2, ?_⟩
    rw [step, record_persistAll hi hok, State.persistedRecord, ha]
  | _ => exact h.elim

/-! ## Recovery -/

/-- A recovery registers the records that decode, in the order of the listing. -/
theorem recover_registry {s : State Exec} {store : Store} (hs : s.store = some store)
    (listing : IterationOrder GraphArtifactId) :
    (recover s listing).1.toRegistry =
      ((listing.arrange store.keys).filterMap (loadEntry store)).foldl Registry.register
        s.toRegistry := by
  have hfold : ∀ (ids : List GraphArtifactId) (s : State Exec),
      (ids.foldl (recoverEntry store) s).toRegistry =
        (ids.filterMap (loadEntry store)).foldl Registry.register s.toRegistry := by
    intro ids
    induction ids with
    | nil => exact fun _ => rfl
    | cons id ids ih =>
      intro s
      rw [List.foldl_cons, ih]
      cases hload : (loadEntry store id : Option (CacheEntry Exec)) with
      | none => simp [recoverEntry, hload, State.touchMetric]
      | some e => simp [recoverEntry, hload, State.register]
  unfold recover
  rw [hs]
  exact hfold _ s

/-- A registry built by registrations only. -/
def Registry.ofEntries (es : List (CacheEntry Exec)) : Registry Exec :=
  es.foldl Registry.register {}

theorem ofEntries_append (es : List (CacheEntry Exec)) (e : CacheEntry Exec) :
    Registry.ofEntries (es ++ [e]) = (Registry.ofEntries es).register e := by
  simp [Registry.ofEntries]

@[simp] theorem ofEntries_next (es : List (CacheEntry Exec)) :
    (Registry.ofEntries es).next = es.length := by
  induction es using List.reverseRecOn with
  | nil => rfl
  | append_singleton es e ih => simp [ofEntries_append, ih]

/-- Addresses follow the order of registration. -/
theorem ofEntries_heap {es : List (CacheEntry Exec)} {a : ℕ} (h : a < es.length) :
    (Registry.ofEntries es).heap a = es[a] := by
  induction es using List.reverseRecOn with
  | nil => simp at h
  | append_singleton es e ih =>
    rw [ofEntries_append]
    rcases Nat.lt_or_ge a es.length with ha | ha
    · rw [register_heap_of_lt _ _ (by simpa using ha), ih ha, List.getElem_append_left ha]
    · obtain rfl : a = es.length := by simp at h; omega
      have hself := register_heap_self (Registry.ofEntries es) e
      rw [ofEntries_next] at hself
      simpa using hself

theorem mem_ofEntries_byWorkload {es : List (CacheEntry Exec)} {a : ℕ} (h : a < es.length) :
    a ∈ (Registry.ofEntries es).byWorkload (workloadKey es[a].workload) := by
  induction es using List.reverseRecOn with
  | nil => simp at h
  | append_singleton es e ih =>
    rw [ofEntries_append]
    rcases Nat.lt_or_ge a es.length with ha | ha
    · rw [List.getElem_append_left ha]
      by_cases hk : workloadKey es[a].workload = workloadKey e.workload
      · simp only [Registry.register, hk, Function.update_self]
        exact List.mem_append_left _ (hk ▸ ih ha)
      · simpa [Registry.register, hk] using ih ha
    · obtain rfl : a = es.length := by simp at h; omega
      simp [Registry.register]

/-- Valid entries of one key that agree on the generation leave it current. -/
theorem ofEntries_keyCurrentGen {es : List (CacheEntry Exec)} {key : Str} {gen : GraphGeneration}
    (hall : ∀ e ∈ es, e.invalidated = false → e.keyHex = key → e.generation = gen)
    (hex : ∃ e ∈ es, e.invalidated = false ∧ e.keyHex = key) :
    (Registry.ofEntries es).keyCurrentGen key = some gen := by
  induction es using List.reverseRecOn with
  | nil => simp at hex
  | append_singleton es e ih =>
    rw [ofEntries_append]
    by_cases he : e.invalidated = false ∧ e.keyHex = key
    · obtain ⟨hinv, rfl⟩ := he
      simp [Registry.register, hinv, hall e (by simp) hinv rfl]
    · have hold : (Registry.ofEntries es).keyCurrentGen key = some gen := by
        refine ih (fun x hx => hall x (by simp [hx])) ?_
        obtain ⟨x, hx, hlive⟩ := hex
        rcases List.mem_append.mp hx with hx | hx
        · exact ⟨x, hx, hlive⟩
        · exact absurd (List.mem_singleton.mp hx ▸ hlive) he
      by_cases hinv : e.invalidated = true
      · simpa [Registry.register, hinv] using hold
      · have hkey : key ≠ e.keyHex := fun h => he ⟨(Bool.not_eq_true _).mp hinv, h.symm⟩
        simpa [Registry.register, hinv, Function.update_of_ne hkey] using hold

/-- An entry of a cache that has recovered a directory comes from a record there. -/
theorem recovered_entry {store : Store} {listing : IterationOrder GraphArtifactId} {a : ℕ}
    (ha : a < (recover (State.fresh (some store) : State Exec) listing).1.next) :
    ∃ id, loadEntry store id =
      some ((recover (State.fresh (some store) : State Exec) listing).1.heap a) := by
  have hreg := recover_registry (s := (State.fresh (some store) : State Exec)) rfl listing
  rw [hreg] at ha ⊢
  change a < (Registry.ofEntries _).next at ha
  rw [ofEntries_next] at ha
  obtain ⟨id, -, hload⟩ := List.mem_filterMap.mp (List.getElem_mem ha)
  exact ⟨id, hload.trans (congrArg some (ofEntries_heap ha).symm)⟩

end GraphCache
