import GraphCache.Finalization
import GraphCache.Records
import GraphCache.Strictness

/-!
# What is persisted and read back

Neither `finalize` nor `serialize_descriptor` bounds the lists of a descriptor, and
`deserialize_descriptor` does. With all lengths below 4 GiB the bytes written for a descriptor are
accepted exactly within these limits (`deserialize_iff`).

So for the directory. A record is of the directory that a run started with, or it is the payload of
an entry that the run wrote (`record_run`), and `recover` rejects it exactly if the descriptor of
that entry is over the limits (`read_back_iff`).
-/

namespace GraphCache

/-! ## One descriptor -/

theorem tags_storeList {α : Type} {count tag : UInt16} {store : α → CanonicalWriter} (l : List α) :
    (storeList count tag store l).map (·.tag) = count :: List.replicate l.length tag := by
  rw [storeList, List.map_cons, List.map_map, ← List.map_const']
  rfl

/-- The tags of a stream that stand before those of the lists. -/
def headTags : List UInt16 :=
  [1, 2, 3, 10, 11, 12, 13, 20, 21, 22, 23, 30, 31, 32, 33, 34, 35, 40, 41, 42, 43, 50, 51, 52, 53,
    54]

theorem tags_descriptorFields (g : GraphDescriptor) : (descriptorFields g).map (·.tag) =
    headTags ++ (60 :: List.replicate g.nodes.length 61 ++ (62 :: List.replicate g.edges.length 63 ++
      64 :: List.replicate g.dependencies.length 65)) := by
  have hnodes := @tags_storeList _ 60 61 storeNode g.nodes
  have hedges := @tags_storeList _ 62 63 storeEdge g.edges
  have hdeps := @tags_storeList _ 64 65 encodeDep g.dependencies
  rw [← hnodes, ← hedges, ← hdeps, ← List.map_append, ← List.map_append]
  rfl

/-- The tags tell the lengths of the lists. -/
theorem lists_of_tags {g g' : GraphDescriptor}
    (h : (descriptorFields g').map (·.tag) = (descriptorFields g).map (·.tag)) :
    g'.nodes.length = g.nodes.length ∧ g'.edges.length = g.edges.length ∧
      g'.dependencies.length = g.dependencies.length := by
  have hcount : ∀ tag, ((descriptorFields g').map (·.tag)).count tag =
      ((descriptorFields g).map (·.tag)).count tag := fun tag => congrArg _ h
  simp only [tags_descriptorFields, List.count_append, List.count_cons, List.count_replicate,
    headTags] at hcount
  exact ⟨by simpa using hcount 61, by simpa using hcount 63, by simpa using hcount 65⟩

/-- What is read back was within the limits. -/
theorem codecLimits_of_deserialize {g g' : GraphDescriptor}
    (hsize : ∀ f ∈ descriptorFields g, f.payload.length < 2 ^ 32)
    (h : deserializeDescriptor (serializeDescriptor g) = .ok g') : CodecLimits g := by
  obtain ⟨hlimits, w, hbytes, hw, htags, -⟩ :=
    stored_descriptor.reencoded (by decide) (deserializeDescriptor_ok_iff.mp h)
  rw [List.append_nil] at hbytes
  obtain rfl : descriptorFields g = w :=
    CanonicalWriter.take_injective hsize (fun x hx => (hw x hx).1) hbytes
  obtain ⟨hnodes, hedges, hdeps⟩ := lists_of_tags htags
  refine ⟨hnodes ▸ hlimits.nodes, hedges ▸ hlimits.edges, hdeps ▸ hlimits.dependencies, ?_, hsize⟩
  intro n hn
  have hmem : putBytes 61 (storeNode n).take ∈ descriptorFields g := by
    have hlist := @mem_storeList _ 60 61 storeNode _ _ hn
    simp only [descriptorFields, List.mem_append]
    tauto
  obtain ⟨hshort, hfits⟩ := hw _ hmem
  exact (decodeNode_isSome_iff fun f hf => (length_le_take hf).trans_lt hshort).mp hfits

theorem deserialize_iff {g : GraphDescriptor}
    (hsize : ∀ f ∈ descriptorFields g, f.payload.length < 2 ^ 32) :
    (∃ g', deserializeDescriptor (serializeDescriptor g) = .ok g') ↔ CodecLimits g :=
  ⟨fun ⟨_, h⟩ => codecLimits_of_deserialize hsize h, fun h => ⟨_, deserialize_serialize h⟩⟩

/-- A descriptor with that many dependencies. -/
def crowded (k : ℕ) : GraphDescriptor := { dependencies := List.replicate k {} }

theorem crowded_size (k : ℕ) :
    ∀ f ∈ descriptorFields (crowded k).finalized, f.payload.length < 2 ^ 32 := by
  have hlists : (crowded k).finalized.nodes = [] ∧ (crowded k).finalized.edges = [] ∧
      (crowded k).finalized.dependencies = List.replicate k {} := ⟨rfl, rfl, rfl⟩
  have hdep : (encodeDep {}).take.length < 2 ^ 32 := by decide
  simp only [descriptorFields, storeList, hlists, List.forall_mem_append, List.map_nil,
    List.map_replicate, List.forall_mem_cons]
  have hgroups : ∀ f ∈ storeBackend {} ++ (storeRuntime {} ++ (storeDevice {} ++ (storeSync {} ++
      storeProvenance {}))), f.payload.length < 2 ^ 32 := by decide
  simp only [List.forall_mem_append] at hgroups
  obtain ⟨hbackend, hruntime, hdevice, hsync, hprovenance⟩ := hgroups
  refine ⟨⟨by simp [putU64], by simp [putU64], by simp [putU64], by simp⟩, hbackend, hruntime,
    hdevice, hsync, hprovenance, ?_⟩
  refine ⟨by simp [putU32], by simp [putU32], by simp [putU32], fun f hf => ?_⟩
  rw [List.eq_of_mem_replicate hf]
  exact hdep

/-- `finalize` and the encoder accept what the decoder refuses. -/
theorem crowded_refused : ¬∀ d g : GraphDescriptor,
    d.finalize (.insertion _) = .ok g → (∀ f ∈ descriptorFields g, f.payload.length < 2 ^ 32) →
      ∃ g', deserializeDescriptor (serializeDescriptor g) = .ok g' := by
  intro hread
  have hok : (crowded 8193).finalize (.insertion _) = .ok (crowded 8193).finalized :=
    finalize_of_valid (by decide)
  obtain ⟨g', hg'⟩ := hread (crowded 8193) _ hok (crowded_size 8193)
  have hdeps := (codecLimits_of_deserialize (crowded_size 8193) hg').dependencies
  have hlength : (crowded 8193).finalized.dependencies.length = 8193 := List.length_replicate
  omega

/-! ## The directory -/

section

variable {Exec : Type} {cfg : Config Exec}

variable (cfg) in
/-- An operation of the run wrote the entry. -/
def WrittenBy (s : State Exec) (history : List (Op Exec)) (e : CacheEntry Exec) : Prop :=
  ∃ pre op post, history = pre ++ op :: post ∧ Puts cfg (run cfg s pre) op e

variable (cfg) in
/-- A record is the one that was there, or the payload of an entry that the run wrote. -/
theorem record_run (s : State Exec) (history : List (Op Exec)) (id : GraphArtifactId) :
    (run cfg s history).record id = s.record id ∨ ∃ e, WrittenBy cfg s history e ∧
      e.artifactId = id ∧ (run cfg s history).record id = some (encodeEntryPayload e) := by
  induction history using List.reverseRecOn with
  | nil => exact .inl rfl
  | append_singleton history op ih =>
    rw [run_concat]
    rcases step_record cfg (run cfg s history) op id with hstep | ⟨e, hput, hid, hstep⟩
    · rw [hstep]
      refine ih.imp_right ?_
      rintro ⟨e, ⟨pre, op', post, rfl, hput⟩, hid, hrec⟩
      exact ⟨e, ⟨pre, op', post ++ [op], by simp, hput⟩, hid, hrec⟩
    · exact .inr ⟨e, ⟨history, op, [], rfl, hput⟩, hid, hstep⟩

/-- A record is loaded exactly if the descriptor of its entry is within the limits. -/
theorem loadEntry_iff {store : Store} {id : GraphArtifactId} {e : CacheEntry Exec}
    (hrec : store.lookup id = some (encodeEntryPayload e)) (hw : e.Writable) :
    (loadEntry store id : Option (CacheEntry Exec)).isSome ↔ CodecLimits e.descriptor := by
  have hsize : ∀ f ∈ descriptorFields e.descriptor, f.payload.length < 2 ^ 32 :=
    fun f hf => (length_le_take hf).trans_lt hw.fields.1
  rw [← deserialize_iff hsize, loadEntry, Store.get, hrec, Option.filter_some,
    if_pos (envelopeFits_iff.mpr hw), Option.bind_some, decodeEntryPayload_encode hw,
    Option.isSome_map]
  cases deserializeDescriptor (serializeDescriptor e.descriptor) <;> simp [Except.toOption]

end

/-- What is written for a descriptor is accepted exactly within the limits of the decoder, and what
a run leaves in the directory is loaded exactly if the descriptor it was written for is. -/
theorem read_back_iff {Exec : Type} (cfg : Config Exec) (store : Option Store)
    (history : List (Op Exec)) :
    (∀ g : GraphDescriptor, (∀ f ∈ descriptorFields g, f.payload.length < 2 ^ 32) →
      ((∃ g', deserializeDescriptor (serializeDescriptor g) = .ok g') ↔ CodecLimits g)) ∧
    ∀ store', (run cfg (.fresh store) history).store = some store' → ∀ id payload,
      store'.lookup id = some payload → (State.fresh store : State Exec).record id = some payload ∨
        ∃ e, WrittenBy cfg (.fresh store) history e ∧ e.artifactId = id ∧
          payload = encodeEntryPayload e ∧ (e.Writable →
            ((loadEntry store' id : Option (CacheEntry Exec)).isSome ↔
              CodecLimits e.descriptor)) := by
  refine ⟨fun g hsize => deserialize_iff hsize, fun store' hstore id payload hlook => ?_⟩
  have hrec : (run cfg (.fresh store) history).record id = some payload := by
    rw [State.record, hstore]
    exact hlook
  rcases record_run cfg (.fresh store) history id with hold | ⟨e, he, hid, hnew⟩
  · exact .inl (hold.symm.trans hrec)
  · obtain rfl := Option.some.inj (hrec.symm.trans hnew)
    exact .inr ⟨e, he, hid, rfl, fun hw => loadEntry_iff hlook hw⟩

end GraphCache
