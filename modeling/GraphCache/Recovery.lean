import GraphCache.ExactHit
import GraphCache.Records

/-!
# Hits across persist and recover

A captured entry compares by the facts of the request that captured it; the same entry recovered
compares by facts derived from its stored descriptor. The directory holds one record for each
artifact id, that of the entry which `by_artifact` names, and what it held before under other ids.
A recovery rebuilds buckets and current generations in the order of the listing.

`hit_preserved` : where these differences do not matter to a request (`PersistSafe`), a hit is
found again after `persist_all`, a restart and `recover`. `hit_lost` : a request whose backend is
not the one in its descriptor.
-/

namespace GraphCache

section

variable {Exec : Type}

/-- An entry as it is recovered from its own record. -/
def CacheEntry.recovered (e : CacheEntry Exec) : CacheEntry Exec :=
  recoveredEntry e.descriptor.stored e.metadata

theorem decode_encode {e : CacheEntry Exec} (hw : e.Writable) (hl : CodecLimits e.descriptor) :
    decodeEntryPayload (encodeEntryPayload e) = some e.recovered := by
  rw [decodeEntryPayload_encode hw, deserialize_serialize hl]
  rfl

/-- A directory that holds the record of one entry is recovered as that entry. -/
theorem recover_single {s : State Exec} {e : CacheEntry Exec}
    (hs : s.store = some (AList.insert e.artifactId (encodeEntryPayload e) ∅)) (hw : e.Writable)
    (hl : CodecLimits e.descriptor) (listing : IterationOrder GraphArtifactId) :
    (recover s listing).1.toRegistry = s.toRegistry.register e.recovered := by
  have hload : loadEntry (AList.insert e.artifactId (encodeEntryPayload e) ∅) e.artifactId =
      some e.recovered := by
    rw [loadEntry, Store.get, AList.lookup_insert, Option.filter_some,
      if_pos (envelopeFits_iff.mpr hw)]
    exact decode_encode hw hl
  have hlisted := (listing.perm [e.artifactId]).eq_singleton
  rw [recover_registry hs, AList.keys_insert, AList.keys_empty, List.erase_nil, hlisted,
    List.filterMap_cons_some hload]
  rfl

/-- What a recovery after a successful `persist_all` reads under an id. -/
def Persisted (s : State Exec) (id : GraphArtifactId) : Option (CacheEntry Exec) :=
  ((s.persistedRecord id).filter envelopeFits).bind decodeEntryPayload

theorem persisted_named {s : State Exec} {a : ℕ}
    (hn : s.artifact (s.heap a).artifactId = some a) (hw : (s.heap a).Writable)
    (hl : CodecLimits (s.heap a).descriptor) :
    Persisted s (s.heap a).artifactId = some (s.heap a).recovered := by
  rw [Persisted, State.persistedRecord, hn, Option.filter_some, if_pos (envelopeFits_iff.mpr hw)]
  exact decode_encode hw hl

/-- A recovered entry that the request can hit, up to its generation being current. -/
structure Fits (req : GraphLookupRequest) (e : CacheEntry Exec) : Prop where
  valid : e.invalidated = false
  bucket : workloadKey e.workload = workloadKey req.workload
  fresh : isDependencyFresh e.facts.dependencies (makeFacts req) = true
  compatible : (decideCompatibility (makeFacts req) e.facts req.policy).compatible = true

/-- The decision on the entry is exact. -/
def ExactFor (req : GraphLookupRequest) (e : CacheEntry Exec) : Prop :=
  (decideCompatibility (makeFacts req) e.facts req.policy).klass = .exactCompatible

/-- The candidate at `a` keeps its place across `persist_all` and `recover` : it is the entry
written under its id, within the limits of the codec; its facts are those of its stored
descriptor, as far as they are compared; valid records of its key are of its generation; and any
other record that fits the request loses to it. -/
structure PersistSafe (s : State Exec) (req : GraphLookupRequest) (a : ℕ) : Prop where
  named : s.artifact (s.heap a).artifactId = some a
  limits : CodecLimits (s.heap a).descriptor
  writable : (s.heap a).Writable
  facts : (s.heap a).recovered.facts.compared = (s.heap a).facts.compared
  current : ∀ id x, Persisted s id = some x → x.invalidated = false →
    x.keyHex = (s.heap a).recovered.keyHex → x.generation = (s.heap a).generation
  alone : ∀ id x, Persisted s id = some x → Fits req x → id ≠ (s.heap a).artifactId →
    ExactFor req (s.heap a) ∧ ¬ExactFor req x

theorem isDependencyFresh_compared (f req : CompatibilityFacts) :
    isDependencyFresh f.compared.dependencies req = isDependencyFresh f.dependencies req := by
  simp [isDependencyFresh, CompatibilityFacts.compared, KernelIdentityRef.normalize,
    Function.comp_def]

theorem isDependencyFresh_congr {f f' : CompatibilityFacts} (h : f.compared = f'.compared)
    (req : CompatibilityFacts) :
    isDependencyFresh f.dependencies req = isDependencyFresh f'.dependencies req := by
  rw [← isDependencyFresh_compared f, h, isDependencyFresh_compared]

theorem decideCompatibility_congr {f f' : CompatibilityFacts} (h : f.compared = f'.compared)
    (req : CompatibilityFacts) (policy : GraphCompatibilityPolicy) :
    decideCompatibility req f policy = decideCompatibility req f' policy := by
  rw [← decideCompatibility_compared req f, h, decideCompatibility_compared]

/-! ## The recovered cache -/

/-- The entries of a cache that recovers after a successful `persist_all`. -/
theorem recover_persistAll {s : State Exec} (hi : s.toRegistry.Indexed) {order : IterationOrder ℕ}
    {putOk : GraphArtifactId → Bool} (h : (persistAll s order putOk).2 = .ok ())
    (listing : IterationOrder GraphArtifactId) : ∃ es : List (CacheEntry Exec),
      (recover (.fresh (persistAll s order putOk).1.store) listing).1.toRegistry = .ofEntries es ∧
        ∀ x, x ∈ es ↔ ∃ id, Persisted s id = some x := by
  have hrec := record_persistAll hi h
  cases hst : (persistAll s order putOk).1.store with
  | none =>
    refine ⟨[], rfl, fun x => ?_⟩
    simp [Persisted, ← hrec, State.record, hst]
  | some store =>
    refine ⟨(listing.arrange store.keys).filterMap (loadEntry store),
      recover_registry rfl listing, fun x => ?_⟩
    have hload : ∀ id, (loadEntry store id : Option (CacheEntry Exec)) = Persisted s id := by
      intro id
      rw [loadEntry, Store.get, Persisted, ← hrec id, State.record, hst]
      rfl
    rw [List.mem_filterMap]
    constructor
    · rintro ⟨id, -, hx⟩
      exact ⟨id, (hload id).symm.trans hx⟩
    · rintro ⟨id, hx⟩
      rw [← hload] at hx
      exact ⟨id, (listing.perm _).mem_iff.mpr (mem_keys_of_loadEntry hx), hx⟩

/-- After a restart the best candidate of the request is again a candidate, and no other record
is better. -/
theorem PersistSafe.best {s : State Exec} (hi : s.toRegistry.Indexed) {req : GraphLookupRequest}
    {a : ℕ} (hs : PersistSafe s req a)
    (hbest : s.toRegistry.Best (makeFacts req) req.policy
      (s.byWorkload (workloadKey req.workload)) a)
    {es : List (CacheEntry Exec)} (hes : ∀ x, x ∈ es ↔ ∃ id, Persisted s id = some x)
    (hri : (Registry.ofEntries es).Indexed) :
    ∃ j dec, (scan (.ofEntries es) (makeFacts req) req.policy).chosen = some (j, dec) ∧
      (Registry.ofEntries es).heap j = (s.heap a).recovered := by
  set x := (s.heap a).recovered with hx
  have hfacts : x.facts.compared = (s.heap a).facts.compared := hs.facts
  have hvalid : x.invalidated = false := hbest.candidate.selectable.1
  have hpersisted : Persisted s (s.heap a).artifactId = some x := by
    exact persisted_named hs.named hs.writable hs.limits
  have hbucket : workloadKey x.workload = workloadKey req.workload := (hi.bucket _ _ hbest.mem).2
  -- its place in the recovered registry
  obtain ⟨i, hilt, hix⟩ := List.getElem_of_mem ((hes x).mpr ⟨_, hpersisted⟩)
  have hheap : (Registry.ofEntries es).heap i = x := (ofEntries_heap hilt).trans hix
  have hmem : i ∈ (Registry.ofEntries es).byWorkload (workloadKey (makeFacts req).workload) := by
    have := mem_ofEntries_byWorkload hilt
    rwa [hix, hbucket, ← makeFacts_workload req] at this
  have hcurrent : (Registry.ofEntries es).keyCurrentGen x.keyHex = some x.generation := by
    refine ofEntries_keyCurrentGen ?_ ⟨x, (hes x).mpr ⟨_, hpersisted⟩, hvalid, rfl⟩
    intro y hy hyvalid hykey
    obtain ⟨id, hid⟩ := (hes y).mp hy
    exact hs.current id y hid hyvalid hykey
  have hcand : (Registry.ofEntries es).Candidate (makeFacts req) req.policy i := by
    refine ⟨⟨?_, ?_, ?_⟩, ?_, ?_⟩
    · rw [hheap, hvalid]
    · rw [hheap, hcurrent]
    · have : x.lifecycle = .valid := by
        change (if x.invalidated then GraphLifecycle.invalidated else .valid) = .valid
        simp [hvalid]
      rw [hheap, this]
      rfl
    · rw [hheap, isDependencyFresh_congr hfacts]
      exact hbest.candidate.fresh
    · rw [Registry.decision, hheap, decideCompatibility_congr hfacts]
      exact hbest.candidate.compatible
  have hscan := scan_foldl (Registry.ofEntries es) (makeFacts req) req.policy
    ((Registry.ofEntries es).byWorkload (workloadKey (makeFacts req).workload))
  rcases hchosen : (scan (Registry.ofEntries es) (makeFacts req) req.policy).chosen with _ | ⟨j, dec⟩
  · exact absurd hcand (hscan.2 hchosen i hmem)
  · obtain ⟨hjbest, -⟩ := scan_chosen hchosen
    refine ⟨j, dec, rfl, ?_⟩
    -- what is chosen fits the request, so it is the record of `a` or loses to it
    obtain ⟨hjlt, hjkey⟩ := hri.bucket _ _ hjbest.mem
    rw [ofEntries_next] at hjlt
    have hjheap := ofEntries_heap hjlt
    obtain ⟨id, hid⟩ := (hes _).mp (List.getElem_mem hjlt)
    rw [hjheap]
    by_cases hida : id = (s.heap a).artifactId
    · rw [hida, hpersisted] at hid
      exact (Option.some.inj hid).symm
    · have hfits : Fits req es[j] := by
        rw [← hjheap]
        exact ⟨hjbest.candidate.selectable.1, by rw [hjkey, makeFacts_workload], hjbest.candidate.fresh,
          hjbest.candidate.compatible⟩
      obtain ⟨hexact, hinexact⟩ := hs.alone id _ hid hfits hida
      refine absurd ?_ hinexact
      have hjexact := hjbest.exact ⟨i, hmem, hcand, by
        rw [Registry.decision, hheap, decideCompatibility_congr hfacts]
        exact hexact⟩
      rwa [Registry.decision, hjheap] at hjexact

/-- What a request hits without capture, it hits after `persist_all`, a restart and `recover` : the
same artifact at the same generation. -/
def HitPreserved (cfg : Config Exec) (s : State Exec) (req : GraphLookupRequest) : Prop :=
  ∀ env l order putOk listing env', req.allowCapture = false →
    (lookup cfg s req env).2.lease = some l → (persistAll s order putOk).2 = .ok () →
    ∃ l', (lookup cfg (recover (.fresh (persistAll s order putOk).1.store) listing).1 req
        env').2.lease = some l' ∧ l'.artifactId = l.artifactId ∧ l'.generation = l.generation

/-- A lookup without capture leases what the scan of the state chooses. -/
theorem lookup_found {cfg : Config Exec} {s : State Exec} {req : GraphLookupRequest}
    {env : LookupEnv} {l : Lease Exec} (hreq : req.allowCapture = false)
    (h : (lookup cfg s req env).2.lease = some l) :
    ∃ r, SearchHit cfg s.toRegistry (makeFacts req) req.policy (lookup cfg s req env).2 l r := by
  obtain ⟨s₁, hbase, -, -, hlease⟩ := lookup_spec cfg s req env
  obtain ⟨r, hhit⟩ := hlease l h
  cases hbase with
  | found hn hr hk => exact ⟨r, hr ▸ hhit⟩
  | captured e hc => simp [hc.1] at hreq

end

/-- A stored descriptor can be captured as the original can. -/
theorem cpuCapture_stored {o : IterationOrder GraphNodeId} {d : GraphDescriptor} {x : CpuGraph}
    (h : cpuCapture o d = .ok x) : ∃ x', cpuCapture o d.stored = .ok x' := by
  obtain ⟨hwf, -⟩ := cpuCapture_ok_iff.mp h
  have hids : d.stored.nodes.map (·.nodeId) = d.nodes.map (·.nodeId) := by
    simp only [GraphDescriptor.stored, List.map_map]
    rfl
  exact ⟨_, cpuCapture_ok_iff.mpr ⟨hwf.perm (.of_eq hids.symm) (.refl _), rfl⟩⟩

theorem materializeExec_cpu {o : IterationOrder GraphNodeId} (ops : FloatOps) {s : State CpuGraph}
    {a : ℕ} {x : CpuGraph} (h : cpuCapture o (s.heap a).descriptor = .ok x) :
    (materializeExec (.cpu o ops) s a).2 = .ok () := by
  have hv := validateTopology_ok_iff (o := o).mpr (cpuCapture_ok_iff.mp h).1
  unfold materializeExec
  split_ifs
  · rfl
  · simp [Config.cpu, cpuBackend, h, hv]

/-- Persist and recover preserve the hits of a request whose best candidates keep their place. -/
theorem hit_preserved (o : IterationOrder GraphNodeId) (ops : FloatOps) (store : Option Store)
    (history : List (Op CpuGraph)) (req : GraphLookupRequest)
    (h : ∀ a, (run (.cpu o ops) (.fresh store) history).toRegistry.Best (makeFacts req) req.policy
      ((run (.cpu o ops) (.fresh store) history).byWorkload (workloadKey req.workload)) a →
        PersistSafe (run (.cpu o ops) (.fresh store) history) req a) :
    HitPreserved (.cpu o ops) (run (.cpu o ops) (.fresh store) history) req := by
  intro env l order putOk listing env' hreq hl hpersist
  set s := run (.cpu o ops) (.fresh store) history with hs
  have hi : s.toRegistry.Indexed := indexed_run _ (indexed_fresh store) history
  obtain ⟨r, hhit⟩ := lookup_found hreq hl
  obtain ⟨hbest, -⟩ := scan_chosen hhit.chosen
  rw [makeFacts_workload] at hbest
  have hsafe := h l.entry hbest
  obtain ⟨es, hreg, hes⟩ := recover_persistAll hi hpersist listing
  have hri : (Registry.ofEntries es).Indexed :=
    hreg ▸ indexed_step (.cpu o ops) (indexed_fresh _) (.recover listing)
  obtain ⟨j, dec, hchosen, hj⟩ := hsafe.best hi hbest hes hri
  -- the executable of the old entry shows that its descriptor can be captured
  obtain ⟨x, hx⟩ : ∃ x, cpuCapture o (s.heap l.entry).descriptor = .ok x := by
    have hf := hhit.edits.invariant (faithful_run store history) (fun _ a _ h he => h.set a he)
      (fun _ _ _ h => h.elim)
    obtain ⟨x, hx⟩ := Option.isSome_iff_exists.mp hhit.materialized
    obtain ⟨hsame, hnext⟩ := hhit.edits.same l.entry
    have hcap := (hf l.entry (hnext ▸ (hi.bucket _ _ hbest.mem).1)).exec x (hhit.executable ▸ hx)
    exact ⟨x, hsame.descriptor ▸ hcap⟩
  obtain ⟨x', hx'⟩ := cpuCapture_stored hx
  rw [← hreg] at hchosen hj
  have hmat := materializeExec_cpu ops (x := x') (by rw [hj]; exact hx')
  obtain ⟨l', hl'⟩ := Option.isSome_iff_exists.mp (lookup_hit env' hchosen hmat)
  obtain ⟨r', hhit'⟩ := lookup_found hreq hl'
  have hentry : l'.entry = j := by
    have := hhit'.chosen.symm.trans hchosen
    simp only [Option.some.injEq, Prod.mk.injEq] at this
    exact this.1
  have hsame := (hhit.edits.same l.entry).1
  have hsame' := (hhit'.edits.same l'.entry).1
  rw [hentry, hj] at hsame'
  refine ⟨l', hl', ?_, ?_⟩
  · rw [hhit'.artifactId, hentry, hsame'.artifactId, hhit.artifactId, hsame.artifactId]
    rfl
  · rw [hhit'.generation, hentry, hsame'.generation, hhit.generation, hsame.generation]
    rfl

/-- With one entry and its record only, every record read back is that one. -/
theorem persisted_single {Exec : Type} {s : State Exec} (hi : s.toRegistry.Indexed) {a : ℕ}
    (ha : s.artifacts = [a]) (hkeys : s.store.map AList.keys = some [(s.heap a).artifactId])
    {id : GraphArtifactId} {x : CacheEntry Exec} (h : Persisted s id = some x) :
    id = (s.heap a).artifactId := by
  obtain ⟨payload, hfilter, -⟩ := Option.bind_eq_some_iff.mp h
  have hrec := (Option.filter_eq_some_iff.mp hfilter).1
  rw [State.persistedRecord] at hrec
  split at hrec
  · rename_i b hb
    have hmem := mem_artifacts.mpr ⟨id, hb⟩
    rw [ha, List.mem_singleton] at hmem
    rw [← (hi.artifact id b hb).2, hmem]
  · obtain ⟨store, hstore, hlook⟩ := Option.bind_eq_some_iff.mp hrec
    have hid : id ∈ store.keys := AList.mem_keys.mp (AList.lookup_isSome.mp (by simp [hlook]))
    have hks : store.keys = [(s.heap a).artifactId] := by simpa [hstore] using hkeys
    simpa [hks] using hid

set_option maxRecDepth 100000 in
theorem hit_preserved_single :
    HitPreserved (.cpu (.insertion _) .unit) (run (.cpu (.insertion _) .unit) (.fresh (some ∅))
      [.lookup (blankRequest "a" true) {}]) (blankRequest "a" false) := by
  refine hit_preserved _ _ _ _ _ fun a hbest => ?_
  set s := run (.cpu (.insertion _) .unit) (.fresh (some ∅)) [.lookup (blankRequest "a" true) {}]
    with hs
  have hi : s.toRegistry.Indexed := indexed_run _ (indexed_fresh _) _
  have hrun : s.byWorkload (workloadKey (blankRequest "a" false).workload) = [0] ∧
      s.artifacts = [0] ∧ s.store.map AList.keys = some [(s.heap 0).artifactId] ∧
      s.artifact (s.heap 0).artifactId = some 0 ∧ (s.heap 0).Writable ∧
      (s.heap 0).descriptor.nodes = [] ∧ (s.heap 0).descriptor.edges = [] ∧
      (s.heap 0).descriptor.dependencies = [] ∧
      (∀ f ∈ descriptorFields (s.heap 0).descriptor, f.payload.length < 2 ^ 32) ∧
      (s.heap 0).recovered.facts.compared = (s.heap 0).facts.compared := by
    rw [hs]
    decide +kernel
  clear_value s
  obtain ⟨hbucket, hart, hkeys, hnamed, hw, hnodes, hedges, hdeps, hsize, hfacts⟩ := hrun
  obtain rfl : a = 0 := by simpa [hbucket] using hbest.mem
  have hl : CodecLimits (s.heap 0).descriptor :=
    ⟨by simp [hnodes], by simp [hedges], by simp [hdeps], by simp [hnodes], hsize⟩
  refine ⟨hnamed, hl, hw, hfacts, fun id x hx _ _ => ?_, fun id x hx _ hne => ?_⟩
  · rw [persisted_single hi hart hkeys hx] at hx
    obtain rfl := Option.some.inj ((persisted_named hnamed hw hl).symm.trans hx)
    rfl
  · exact absurd (persisted_single hi hart hkeys hx) hne

/-- A hit that refutes preservation. -/
theorem not_hitPreserved {Exec : Type} {cfg : Config Exec} {s : State Exec}
    {req : GraphLookupRequest} (env : LookupEnv) (order : IterationOrder ℕ)
    (listing : IterationOrder GraphArtifactId) (hreq : req.allowCapture = false)
    (h : s.store.isSome = true ∧ (lookup cfg s req env).2.lease.isSome = true ∧
      (lookup cfg (recover (.fresh (persistAll s order fun _ => true).1.store) listing).1 req
        env).2.lease.isSome = false) : ¬HitPreserved cfg s req := by
  intro hp
  obtain ⟨hs, hhit, hmiss⟩ := h
  obtain ⟨store, hstore⟩ := Option.isSome_iff_exists.mp hs
  obtain ⟨l, hl⟩ := Option.isSome_iff_exists.mp hhit
  have hok : (persistAll s order fun _ => true).2 = .ok () := by
    simpa [persistAll, hstore] using persistLoop_ok (fun _ => rfl) (order.arrange s.artifacts) s
  obtain ⟨l', hl', -⟩ := hp env l order _ listing env hreq hl hok
  simp [hl'] at hmiss

/-- A request under a backend that its descriptor does not name. -/
def foreignRequest (allowCapture : Bool) : GraphLookupRequest :=
  { blankRequest "a" allowCapture with backend := { backendName := str "x" } }

set_option maxRecDepth 100000 in
/-- The captured entry has the backend of the request, the recovered one that of the descriptor. -/
theorem hit_lost :
    ¬HitPreserved (.cpu (.insertion _) .unit) (run (.cpu (.insertion _) .unit) (.fresh (some ∅))
      [.lookup (foreignRequest true) {}]) (foreignRequest false) :=
  not_hitPreserved {} (.insertion _) (.insertion _) rfl (by decide +kernel)

end GraphCache
