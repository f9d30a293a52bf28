import GraphCache.KeyCodec

/-!
# How strict the descriptor decoders are

`deserialize_descriptor` and `deserialize_metadata` expect their fields in one order and nothing
after the last. The records of nodes, edges and dependencies inside are loops over a switch, which
accept any order, repetition and absence of fields; a flag of the outer records may be any bytes.

So bytes that are accepted are written again as they were exactly if each nested record is one that
its encoder writes, and each flag is one byte, zero or one (`serialize_of_accepted`). A record of a
node is decoded from what its encoder writes exactly within the limits on its lists
(`decodeNode_isSome_iff`).
-/

namespace GraphCache

/-! ## Nested records -/

theorem storeNode_normalize (n : GraphNodeDescriptor) : storeNode n.normalize = storeNode n := by
  rw [storeNode, nodePayloads_normalize, ← storeNode]

/-- A slot that is present is written under the tag of its position. -/
theorem mem_tagged_of_slot {p : Bytes} {t : UInt16} : ∀ {tags : List UInt16} {ps : List (Option Bytes)}
    {i : ℕ}, tags[i]? = some t → ps[i]? = some (some p) → Field.mk t p ∈ tagged tags ps
  | t' :: tags, q :: ps, 0, ht, hp => by
    obtain rfl : t' = t := by simpa using ht
    obtain rfl : q = some p := by simpa using hp
    simp [tagged]
  | t' :: tags, q :: ps, i + 1, ht, hp => by
    have hmem : Field.mk t p ∈ tagged tags ps :=
      @mem_tagged_of_slot _ _ tags ps i (by simpa using ht) (by simpa using hp)
    cases q with
    | none => simpa [tagged] using hmem
    | some q => exact List.mem_cons_of_mem _ hmem

/-- A fold over fields of which one is refused in every state. -/
theorem foldlM_eq_none {σ : Type} {step : σ → Field → Option σ} {f : Field}
    (hf : ∀ s, step s f = none) : ∀ {w : List Field}, f ∈ w → ∀ s, w.foldlM step s = none
  | x :: w, hmem, s => by
    rw [List.foldlM_cons]
    rcases List.mem_cons.mp hmem with rfl | hw
    · rw [hf]
      rfl
    · cases hx : step s x with
      | none => rfl
      | some s' => exact foldlM_eq_none hf hw s'

section

variable {n : GraphNodeDescriptor}

/-- A node with a list that is too long is refused. -/
theorem decodeNode_long (hw : ∀ f ∈ storeNode n, f.payload.length < 2 ^ 32) {t : UInt16}
    {vs : List UInt64} (hmem : putU64List t vs ∈ storeNode n) (ht : t = 21 ∨ t = 40 ∨ t = 41)
    (hlong : 4096 < vs.length) : decodeNode (storeNode n).take = none := by
  have hlist : decodeU64List (encU64List vs) = none := by
    have hshort := hw _ hmem
    rw [putU64List, length_encU64List] at hshort
    exact decodeU64List_long hlong (by omega)
  rw [decodeNode, CanonicalReader.forEach_take _ hw]
  refine foldlM_eq_none (fun s => ?_) hmem _
  rcases ht with rfl | rfl | rfl <;> simp [decodeNodeField, putU64List, hlist]

/-- The slots of the lists. -/
theorem nodePayloads_lists (n : GraphNodeDescriptor) :
    (nodePayloads n)[20]? = some (if n.datatype ≠ .none ∧ n.shape.dims ≠ [] then
      some (encU64List (n.shape.dims.map Int64.toUInt64)) else none) ∧
    (nodePayloads n)[39]? = some (if n.reactiveInputIndices ≠ [] then
      some (encU64List (n.reactiveInputIndices.map UInt32.toUInt64)) else none) ∧
    (nodePayloads n)[40]? = some (if n.reactiveOutputIndices ≠ [] then
      some (encU64List (n.reactiveOutputIndices.map UInt32.toUInt64)) else none) := by
  simp only [nodePayloads, nodeBody, slotsIf, List.map_cons, List.map_nil, List.cons_append,
    List.nil_append]
  exact ⟨rfl, rfl, rfl⟩

theorem decodeNode_isSome_iff (hw : ∀ f ∈ storeNode n, f.payload.length < 2 ^ 32) :
    (decodeNode (storeNode n).take).isSome ↔ NodeLimits n := by
  constructor
  · intro hsome
    -- A list over the limit is written, and then the record is refused.
    have hshort : ∀ {t : UInt16} {vs : List UInt64}, putU64List t vs ∈ storeNode n →
        t = 21 ∨ t = 40 ∨ t = 41 → vs.length ≤ 4096 := by
      intro t vs hmem ht
      by_contra hlong
      rw [decodeNode_long hw hmem ht (Nat.lt_of_not_le hlong)] at hsome
      exact absurd hsome (by decide)
    have hpresent : ∀ {t : UInt16} {vs : List UInt64} (i : ℕ), storedNodeTags[i]? = some t →
        t = 21 ∨ t = 40 ∨ t = 41 → (nodePayloads n)[i]? = some (some (encU64List vs)) →
          vs.length ≤ 4096 :=
      fun i hi ht hp => hshort (mem_tagged_of_slot hi hp) ht
    refine ⟨fun hdt => ?_, ?_, ?_⟩
    · by_cases hnil : n.shape.dims = []
      · simp [hnil]
      · have hp := (nodePayloads_lists n).1
        rw [if_pos ⟨hdt, hnil⟩] at hp
        simpa using hpresent 20 rfl (.inl rfl) hp
    · by_cases hnil : n.reactiveInputIndices = []
      · simp [hnil]
      · have hp := (nodePayloads_lists n).2.1
        rw [if_pos hnil] at hp
        simpa using hpresent 39 rfl (.inr (.inl rfl)) hp
    · by_cases hnil : n.reactiveOutputIndices = []
      · simp [hnil]
      · have hp := (nodePayloads_lists n).2.2
        rw [if_pos hnil] at hp
        simpa using hpresent 40 rfl (.inr (.inr rfl)) hp
  · intro hn
    rw [decodeNode_storeNode hw hn]
    rfl

end

/-- The bytes of a node that is decoded are those written for it, if they are those of any. -/
theorem storeNode_of_decode {p : Bytes} {n : GraphNodeDescriptor} (hp : p.length < 2 ^ 32)
    (h : decodeNode p = some n) : (storeNode n).take = p ↔ ∃ n : GraphNodeDescriptor,
      p = (storeNode n).take := by
  constructor
  · exact fun heq => ⟨n, heq.symm⟩
  · rintro ⟨n', rfl⟩
    have hw : ∀ f ∈ storeNode n', f.payload.length < 2 ^ 32 :=
      fun f hf => (length_le_take hf).trans_lt hp
    have hn : NodeLimits n' := (decodeNode_isSome_iff hw).mp (h ▸ rfl)
    rw [decodeNode_storeNode hw hn] at h
    rw [← Option.some.inj h, storeNode_normalize]

/-- So for an edge. -/
theorem storeEdge_of_decode {p : Bytes} {e : GraphEdgeDescriptor} (hp : p.length < 2 ^ 32)
    (h : decodeEdge p = some e) : (storeEdge e).take = p ↔ ∃ e : GraphEdgeDescriptor,
      p = (storeEdge e).take := by
  constructor
  · exact fun heq => ⟨e, heq.symm⟩
  · rintro ⟨e', rfl⟩
    rw [decodeEdge_storeEdge fun f hf => (length_le_take hf).trans_lt hp] at h
    rw [Option.some.inj h]

/-- A missing byte is read as false. -/
theorem encBool_of_decodeFlagOrFalse {p : Bytes} {v : Bool} (h : decodeFlagOrFalse p = some v) :
    encBool v = p ↔ CanonicalFlag p := by
  cases p with
  | nil => simp [encBool, CanonicalFlag]
  | cons b rest =>
    refine encBool_of_decode ?_
    simpa [decodeFlagOrFalse, decodeFlag] using h

/-! ## Descriptors -/

/-- How much longer a record may get by being written again : all the fields of a node. -/
def recordSlack : ℕ := 430

/-- The fields of nodes hold nodes that are decoded. -/
def HoldsNode (x : Field) : Prop :=
  match x.tag.toNat with
  | 61 => (decodeNode x.payload).isSome
  | _ => True

/-- A field as `serialize_descriptor` writes it : a nested record is what its encoder writes, and the
flag `GK_EXTSYNC` is one byte, zero or one. -/
def CanonicalStoredField (x : Field) : Prop :=
  match x.tag.toNat with
  | 42 => CanonicalFlag x.payload
  | 61 => ∃ n, x.payload = (storeNode n).take
  | 63 => ∃ e, x.payload = (storeEdge e).take
  | 65 => ∃ d, x.payload = (encodeDep d).take
  | _ => True

/-- The walk of a reader of a descriptor. -/
abbrev StoredWalks {β : Type} (ok : β → Prop) (done : CanonicalWriter) (write : β → CanonicalWriter)
    (r : Decoder β) : Prop :=
  Walks (Reencoded recordSlack HoldsNode CanonicalStoredField) ok done write r

section

variable {α β : Type} {ok : β → Prop} {done : CanonicalWriter} {write : β → CanonicalWriter}
  {tag : UInt16}

/-- A field of a tag on which nothing is asked. -/
theorem stored_plain (hfits : ∀ p, HoldsNode ⟨tag, p⟩) (hcanon : ∀ p, CanonicalStoredField ⟨tag, p⟩)
    (p : Bytes) (hp : p.length < 2 ^ 32) :
    Reencoded recordSlack HoldsNode CanonicalStoredField ⟨tag, p⟩ ⟨tag, p⟩ :=
  ⟨rfl, hp, Nat.le_add_right _ _, hfits p, iff_of_true rfl (hcanon p)⟩

/-- A count, then that many records, no more than the limit. -/
theorem stored_list {count : UInt16} {limit : ℕ} {decode : Bytes → Option α}
    {store : α → CanonicalWriter} {m₁ m₂ m₃ m₄ : String} {k : List α → Decoder β}
    (hfits : ∀ p, HoldsNode ⟨count, p⟩) (hcanon : ∀ p, CanonicalStoredField ⟨count, p⟩)
    (henc : ∀ p a, p.length < 2 ^ 32 → decode p = some a →
      Reencoded recordSlack HoldsNode CanonicalStoredField ⟨tag, p⟩ ⟨tag, (store a).take⟩)
    (hk : ∀ l : List α, l.length ≤ limit →
      StoredWalks ok (done ++ storeList count tag store l) write (k l)) :
    StoredWalks ok done write
      (field count (decodeCount limit) m₁ m₂ >>= fun n => fields tag decode m₃ m₄ n >>= k) := by
  refine .field (fun n => encU32 (UInt32.ofNat n)) (fun p n hp h => ?_) fun p n hn => ?_
  · rw [(decodeCount_eq_some h).2]
    exact stored_plain hfits hcanon p hp
  · refine .fields (fun a => (store a).take) henc ?_
    rintro l rfl
    have h := hk l (decodeCount_eq_some hn).1
    rwa [storeList, ← List.singleton_append, ← List.append_assoc] at h

theorem reencoded_node {p : Bytes} {n : GraphNodeDescriptor} (hp : p.length < 2 ^ 32)
    (h : decodeNode p = some n) :
    Reencoded recordSlack HoldsNode CanonicalStoredField ⟨61, p⟩ ⟨61, (storeNode n).take⟩ := by
  have hroom := size_decodeNode h
  have hlen := length_storeNode n
  have hsome : (decodeNode p).isSome := h ▸ rfl
  refine ⟨rfl, hp, by simp only [recordSlack]; omega, hsome, ?_⟩
  rw [Field.mk.injEq, storeNode_of_decode hp h]
  exact and_iff_right rfl

theorem reencoded_edge {p : Bytes} {e : GraphEdgeDescriptor} (hp : p.length < 2 ^ 32)
    (h : decodeEdge p = some e) :
    Reencoded recordSlack HoldsNode CanonicalStoredField ⟨63, p⟩ ⟨63, (storeEdge e).take⟩ := by
  have hroom := size_decodeEdge h
  have hlen := length_storeEdge e
  refine ⟨rfl, hp, by simp only [recordSlack]; omega, trivial, ?_⟩
  rw [Field.mk.injEq, storeEdge_of_decode hp h]
  exact and_iff_right rfl

theorem reencoded_dep {p : Bytes} {d : KernelIdentityRef} (hp : p.length < 2 ^ 32)
    (h : decodeDep p = some d) :
    Reencoded recordSlack HoldsNode CanonicalStoredField ⟨65, p⟩ ⟨65, (encodeDep d).take⟩ := by
  have hroom := size_decodeDep h
  have hlen := length_encodeDep d
  refine ⟨rfl, hp, by simp only [recordSlack]; omega, trivial, ?_⟩
  rw [Field.mk.injEq, encodeDep_of_decode hp h]
  exact and_iff_right rfl

theorem stored_flag {m₁ m₂ : String} {k : Bool → Decoder β}
    (hk : ∀ v, StoredWalks ok (done ++ [putBool 42 v]) write (k v)) :
    StoredWalks ok done write (field 42 decodeFlagOrFalse m₁ m₂ >>= k) := by
  refine .field encBool (fun p v hp h => ?_) fun _ v _ => hk v
  refine ⟨rfl, hp, by simp [recordSlack], trivial, ?_⟩
  rw [Field.mk.injEq, encBool_of_decodeFlagOrFalse h]
  exact and_iff_right rfl

/-! Group by group. -/

theorem stored_backend {k : BackendIdentity → Decoder β}
    (hk : ∀ b, StoredWalks ok (done ++ storeBackend b) write (k b)) :
    StoredWalks ok done write (loadBackend >>= k) := by
  simp only [loadBackend, bind_assoc]
  refine .u32 (stored_plain (fun _ => trivial) fun _ => trivial) fun kind => ?_
  refine .str (stored_plain (fun _ => trivial) fun _ => trivial) fun name => ?_
  refine .u32 (stored_plain (fun _ => trivial) fun _ => trivial) fun version => ?_
  refine .str (stored_plain (fun _ => trivial) fun _ => trivial) fun implementation => ?_
  simpa [storeBackend] using hk ⟨⟨kind⟩, name, version, implementation⟩

theorem stored_runtime {k : RuntimeDescriptor → Decoder β}
    (hk : ∀ r, StoredWalks ok (done ++ storeRuntime r) write (k r)) :
    StoredWalks ok done write (loadRuntime >>= k) := by
  simp only [loadRuntime, bind_assoc]
  refine .u32 (stored_plain (fun _ => trivial) fun _ => trivial) fun version => ?_
  refine .u32 (stored_plain (fun _ => trivial) fun _ => trivial) fun graphAbi => ?_
  refine .u32 (stored_plain (fun _ => trivial) fun _ => trivial) fun kernelAbi => ?_
  refine .u32 (stored_plain (fun _ => trivial) fun _ => trivial) fun driver => ?_
  simpa [storeRuntime] using hk ⟨version, graphAbi, kernelAbi, driver, []⟩

theorem stored_device {k : DeviceDescriptor → Decoder β}
    (hk : ∀ d, StoredWalks ok (done ++ storeDevice d) write (k d)) :
    StoredWalks ok done write (loadDevice >>= k) := by
  simp only [loadDevice, bind_assoc]
  refine .u32 (stored_plain (fun _ => trivial) fun _ => trivial) fun vendor => ?_
  refine .str (stored_plain (fun _ => trivial) fun _ => trivial) fun architecture => ?_
  refine .u32 (stored_plain (fun _ => trivial) fun _ => trivial) fun major => ?_
  refine .u32 (stored_plain (fun _ => trivial) fun _ => trivial) fun minor => ?_
  refine .u32 (stored_plain (fun _ => trivial) fun _ => trivial) fun index => ?_
  refine .str (stored_plain (fun _ => trivial) fun _ => trivial) fun name => ?_
  simpa [storeDevice] using hk ⟨⟨vendor⟩, architecture, major, minor, index, name⟩

theorem stored_sync {k : SynchronizationDescriptor → Decoder β}
    (hk : ∀ s, StoredWalks ok (done ++ storeSync s) write (k s)) :
    StoredWalks ok done write (loadSync >>= k) := by
  simp only [loadSync, bind_assoc]
  refine .u32 (stored_plain (fun _ => trivial) fun _ => trivial) fun mode => ?_
  refine .u32 (stored_plain (fun _ => trivial) fun _ => trivial) fun stream => ?_
  refine stored_flag fun external => ?_
  refine .u32 (stored_plain (fun _ => trivial) fun _ => trivial) fun events => ?_
  simpa [storeSync] using hk ⟨⟨mode⟩, ⟨stream⟩, external, events⟩

theorem stored_provenance {k : ProvenanceDescriptor → Decoder β}
    (hk : ∀ p, StoredWalks ok (done ++ storeProvenance p) write (k p)) :
    StoredWalks ok done write (loadProvenance >>= k) := by
  simp only [loadProvenance, bind_assoc]
  refine .u64 (stored_plain (fun _ => trivial) fun _ => trivial) fun timestamp => ?_
  refine .str (stored_plain (fun _ => trivial) fun _ => trivial) fun source => ?_
  refine .u64 (stored_plain (fun _ => trivial) fun _ => trivial) fun duration => ?_
  refine .str (stored_plain (fun _ => trivial) fun _ => trivial) fun toolchain => ?_
  refine .str (stored_plain (fun _ => trivial) fun _ => trivial) fun name => ?_
  simpa [storeProvenance] using hk ⟨timestamp, source, duration, toolchain, name⟩

end

/-- The limits of the decoder on the lists of a descriptor. -/
structure GraphDescriptor.ListLimits (g : GraphDescriptor) : Prop where
  nodes : g.nodes.length ≤ 8192
  edges : g.edges.length ≤ 16384
  dependencies : g.dependencies.length ≤ 8192

/-- The decoder reads, field by field, what `serialize_descriptor` writes for what it returns. -/
theorem stored_descriptor :
    StoredWalks GraphDescriptor.ListLimits [] descriptorFields loadDescriptor := by
  unfold loadDescriptor
  refine .u64 (stored_plain (fun _ => trivial) fun _ => trivial) fun hi => ?_
  refine .u64 (stored_plain (fun _ => trivial) fun _ => trivial) fun lo => ?_
  refine .u64 (stored_plain (fun _ => trivial) fun _ => trivial) fun generation => ?_
  refine stored_backend fun backend => ?_
  refine stored_runtime fun runtime => ?_
  refine stored_device fun device => ?_
  refine stored_sync fun sync => ?_
  refine stored_provenance fun provenance => ?_
  refine stored_list (fun _ => trivial) (fun _ => trivial) (fun _ _ => reencoded_node) fun nodes hnodes => ?_
  refine stored_list (fun _ => trivial) (fun _ => trivial) (fun _ _ => reencoded_edge) fun edges hedges => ?_
  refine stored_list (fun _ => trivial) (fun _ => trivial) (fun _ _ => reencoded_dep) fun dependencies hdeps => ?_
  refine .pure ?_ ⟨hnodes, hedges, hdeps⟩
  simp [descriptorFields]

/-! ## Metadata -/

/-- A field as `serialize_metadata` writes it : the flag `MK_INVALIDATED` is one byte, zero or one. -/
def CanonicalMetadataField (x : Field) : Prop :=
  match x.tag.toNat with
  | 24 => CanonicalFlag x.payload
  | _ => True

/-- A field of a tag on which nothing is asked. -/
theorem metadata_plain {tag : UInt16} (hcanon : ∀ p, CanonicalMetadataField ⟨tag, p⟩) (p : Bytes)
    (hp : p.length < 2 ^ 32) :
    Reencoded 1 (fun _ => True) CanonicalMetadataField ⟨tag, p⟩ ⟨tag, p⟩ :=
  ⟨rfl, hp, Nat.le_add_right _ _, trivial, iff_of_true rfl (hcanon p)⟩

/-- The decoder reads, field by field, what `serialize_metadata` writes for what it returns. -/
theorem walks_metadata : Walks (Reencoded 1 (fun _ => True) CanonicalMetadataField) (fun _ => True)
    [] metadataFields loadMetadata := by
  unfold loadMetadata
  refine .u64 (metadata_plain fun _ => trivial) fun hi => ?_
  refine .u64 (metadata_plain fun _ => trivial) fun lo => ?_
  refine .u64 (metadata_plain fun _ => trivial) fun generation => ?_
  refine .u64 (metadata_plain fun _ => trivial) fun cacheGeneration => ?_
  refine .str (metadata_plain fun _ => trivial) fun name => ?_
  refine .u32 (metadata_plain fun _ => trivial) fun version => ?_
  refine .str (metadata_plain fun _ => trivial) fun ns => ?_
  refine .u32 (metadata_plain fun _ => trivial) fun mode => ?_
  refine .str (metadata_plain fun _ => trivial) fun revision => ?_
  refine .str (metadata_plain fun _ => trivial) fun policy => ?_
  refine .u64 (metadata_plain fun _ => trivial) fun size => ?_
  refine .u64 (metadata_plain fun _ => trivial) fun capture => ?_
  refine .u64 (metadata_plain fun _ => trivial) fun instantiate => ?_
  refine .u64 (metadata_plain fun _ => trivial) fun dependency => ?_
  refine .field encBool (fun p v hp h => ?_) fun _ invalidated _ => ?_
  · refine ⟨rfl, hp, Nat.le_add_left _ _, trivial, ?_⟩
    rw [Field.mk.injEq, encBool_of_decodeFlagOrFalse h]
    exact and_iff_right rfl
  · refine .pure ?_ trivial
    simp only [List.nil_append, List.cons_append]
    rfl

/-! ## Strictness -/

theorem deserializeDescriptor_ok_iff {b : Bytes} {g : GraphDescriptor} :
    deserializeDescriptor b = .ok g ↔ loadDescriptor b = .ok (g, []) := by
  unfold deserializeDescriptor
  cases hload : loadDescriptor b with
  | error e => simp [bind, Except.bind]
  | ok gr =>
    obtain ⟨g', rest⟩ := gr
    by_cases hrest : rest = [] <;> simp [bind, Except.bind, hrest, fail]

theorem deserializeMetadata_ok_iff {b : Bytes} {m : PersistedMetadata} :
    deserializeMetadata b = .ok m ↔ loadMetadata b = .ok (m, []) := by
  unfold deserializeMetadata
  cases hload : loadMetadata b with
  | error e => simp [bind, Except.bind]
  | ok mr =>
    obtain ⟨m', rest⟩ := mr
    by_cases hrest : rest = [] <;> simp [bind, Except.bind, hrest, fail]

/-- Bytes that are accepted are written again exactly if their fields are canonical : each record is
one that its encoder writes, and each flag is one byte, zero or one. -/
theorem serialize_of_accepted (b : Bytes) :
    (∀ g, deserializeDescriptor b = .ok g → (serializeDescriptor g = b ↔
      ∃ w : CanonicalWriter, Short w ∧ w.take = b ∧ ∀ x ∈ w, CanonicalStoredField x)) ∧
    ∀ m, deserializeMetadata b = .ok m → (serializeMetadata m = b ↔
      ∃ w : CanonicalWriter, Short w ∧ w.take = b ∧ ∀ x ∈ w, CanonicalMetadataField x) := by
  constructor
  · intro g hg
    exact stored_descriptor.written_again_iff (by decide) (deserializeDescriptor_ok_iff.mp hg)
  · intro m hm
    have hagain :=
      walks_metadata.written_again_iff (by decide) (deserializeMetadata_ok_iff.mp hm)
    exact hagain

/-- A descriptor of one node, whose record is left empty. -/
def emptyRecord : Bytes :=
  CanonicalWriter.take
    ((descriptorFields { nodes := [{}] }).map fun x => if x.tag = 61 then ⟨61, []⟩ else x)

/-- All fields of a node may be missing. -/
theorem emptyRecord_accepted : ¬∀ b : Bytes,
    (∀ g, deserializeDescriptor b = .ok g → serializeDescriptor g = b) ∧
      ∀ m, deserializeMetadata b = .ok m → serializeMetadata m = b := by
  intro hstrict
  have hread : deserializeDescriptor emptyRecord = .ok { nodes := [{}] } := by decide +kernel
  have hwritten : serializeDescriptor { nodes := [{}] } ≠ emptyRecord := by decide +kernel
  exact hwritten ((hstrict _).1 _ hread)

end GraphCache
