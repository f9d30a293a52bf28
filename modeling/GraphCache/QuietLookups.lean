import GraphCache.Interference
import GraphCache.LedgerRefinement

/-!
# Lookups that capture nothing

A lookup that starts no capture only reads. What it may leave behind is an executable, where the
graph it chose had none, and an attempt drawn for it; over a backend whose captures do not look at
the attempt, neither is seen again. `Ledger.blank` is the ledger without executables and attempts;
two ledgers that are the same without them stay so under every call (`Alike.step`).

So what a cache over the CPU backend finds, revokes, writes and recovers is settled by the captures,
invalidations, writes and recoveries of its past (`quiet_invisible`). The lease that a hit takes is
seen where leases are counted, by `evict`, `unload` and `still_leasing`, and not here.
-/

namespace GraphCache

open Journal

/-! ## Ledgers without executables -/

def GraphRecord.blank (r : GraphRecord) : GraphRecord := { r with loaded := false }

/-- The appraisal of a graph without its executable. -/
def Appraisal.blank (v : Appraisal) : Appraisal := { v with record := v.record.blank }

namespace Ledger

variable (L : Ledger) (facts : CompatibilityFacts) (policy : GraphCompatibilityPolicy)

def blank : Ledger := { L with records := L.records.map GraphRecord.blank, captureCounter := 0 }

@[simp] theorem blank_records : L.blank.records = L.records.map GraphRecord.blank := rfl

theorem blank_heads : L.blank.heads = L.heads := by
  refine heads_congr ?_
  rw [blank_records, List.map_map]
  rfl

theorem blank_authority (k : Str) : L.blank.authority k = L.authority k := by
  rw [authority, authority, blank_records, last, List.filter_map, List.getLast?_map, Option.map_map]
  rfl

theorem blank_live (r : GraphRecord) : L.blank.live r.blank = L.live r := by
  rw [live, live, blank_authority]
  rfl

theorem blank_candidates : L.blank.candidates facts =
    (L.candidates facts).map (Prod.map GraphRecord.blank id) := by
  rw [candidates, candidates, blank_records, List.zipIdx_map, List.filter_map]
  refine congrArg (List.map _) (List.filter_congr fun c _ => ?_)
  rw [Function.comp_apply, Prod.map_fst, blank_live]
  rfl

theorem blank_appraisals : L.blank.appraisals facts policy =
    (L.appraisals facts policy).map Appraisal.blank := by
  rw [appraisals, appraisals, blank_candidates, List.filter_map, List.map_map, List.map_map]
  rfl

theorem blank_choose : L.blank.choose facts policy =
    (L.choose facts policy).map Appraisal.blank := by
  rw [choose, choose, blank_appraisals, List.filter_map, pick_map]
  rfl

theorem blank_refusal : L.blank.refusal facts policy = L.refusal facts policy := by
  have hlast : (((L.blank.appraisals facts policy).filter fun v => !v.decision.compatible).getLast?) =
      ((L.appraisals facts policy).filter fun v => !v.decision.compatible).getLast?.map
        Appraisal.blank := by
    rw [blank_appraisals, List.filter_map, List.getLast?_map]
    rfl
  have hfresh : (L.blank.candidates facts).all (fresh facts) =
      (L.candidates facts).all (fresh facts) := by
    rw [blank_candidates, List.all_map]
    rfl
  rw [refusal, refusal, hlast, hfresh]
  rcases hl : ((L.appraisals facts policy).filter fun v => !v.decision.compatible).getLast? with _ | v
  · rw [hl]
    rfl
  · rw [hl]
    rfl

/-! ## Searches -/

variable {Exec : Type} (cfg : Config Exec)

/-- The backend captures the graph, whatever the attempt. -/
def Captures (g : GraphDescriptor) : Prop :=
  ∀ attempt, ∃ exec, cfg.backend.capture g attempt = .ok exec ∧ cfg.backend.validate g exec = .ok ()

/-- Graphs with an executable can be captured. -/
def Sound : Prop :=
  ∀ r ∈ L.records, r.loaded = true → Captures cfg r.descriptor

variable {L cfg}

theorem blank_set {i : ℕ} {r r' : GraphRecord} (hi : L.records[i]? = some r)
    (hr : r'.blank = r.blank) :
    (L.records.set i r').map GraphRecord.blank = L.records.map GraphRecord.blank := by
  have hlt := (List.getElem?_eq_some_iff.mp hi).1
  rw [List.map_set, hr]
  refine List.ext_getElem? fun j => ?_
  by_cases hj : i = j
  · subst hj
    rw [List.getElem?_set_self (by rwa [List.length_map]), List.getElem?_map, hi]
    rfl
  · rw [List.getElem?_set_ne hj]

/-- Loading leaves an executable and an attempt. -/
theorem load_leaves {v : Appraisal} (hv : L.records[v.position]? = some v.record) :
    (L.load cfg v).1.blank = L.blank := by
  unfold load
  split_ifs
  · rfl
  · dsimp only
    rcases hc : cfg.backend.capture v.record.descriptor (L.captureCounter + 1) with err | exec
    · rfl
    · dsimp only
      rcases hval : cfg.backend.validate v.record.descriptor exec with err | u
      · rfl
      · exact Ledger.ext (blank_set hv rfl) rfl rfl rfl rfl

theorem load_sound (hblind : cfg.backend.Blind) (hsound : L.Sound cfg) (v : Appraisal) :
    (L.load cfg v).1.Sound cfg := by
  unfold load
  split_ifs
  · exact hsound
  · dsimp only
    rcases hc : cfg.backend.capture v.record.descriptor (L.captureCounter + 1) with err | exec
    · exact hsound
    · dsimp only
      rcases hval : cfg.backend.validate v.record.descriptor exec with err | u
      · exact hsound
      · intro r hr hloaded
        rcases List.mem_or_eq_of_mem_set hr with hr | rfl
        · exact hsound r hr hloaded
        · exact fun attempt => ⟨exec, (hblind _ _ _).trans hc, hval⟩

/-- An executable is there or can be made. -/
theorem load_blank (hblind : cfg.backend.Blind) (hsound : L.Sound cfg) {v : Appraisal}
    (hv : v.record ∈ L.records) : (L.load cfg v).2 = (L.blank.load cfg v.blank).2 := by
  have hdesc : v.blank.record.descriptor = v.record.descriptor := rfl
  unfold load
  rw [if_neg (show ¬v.blank.record.loaded = true from Bool.false_ne_true)]
  dsimp only
  rw [hdesc, hblind _ (L.blank.captureCounter + 1) (L.captureCounter + 1)]
  rcases hloaded : v.record.loaded with _ | _
  · rw [if_neg Bool.false_ne_true]
    rcases hc : cfg.backend.capture v.record.descriptor (L.captureCounter + 1) with err | exec
    · rfl
    · dsimp only
      rcases hval : cfg.backend.validate v.record.descriptor exec with err | u
      · rfl
      · rfl
  · rw [if_pos rfl]
    obtain ⟨exec, hc, hval⟩ := hsound v.record hv hloaded (L.captureCounter + 1)
    rw [hc]
    dsimp only
    rw [hval]

/-- A search leaves the ledger but for executables and attempts. -/
theorem search_leaves : (L.search cfg facts policy).1.blank = L.blank := by
  unfold search
  rcases hv : L.choose facts policy with _ | v
  · rfl
  · have hleft : (L.load cfg v).1.blank = L.blank := load_leaves (choose_spec hv).1
    dsimp only
    rcases hl : L.load cfg v with ⟨L₁, err | u⟩
    · rw [hl] at hleft
      exact hleft
    · rw [hl] at hleft
      exact hleft

theorem search_sound (hblind : cfg.backend.Blind) (hsound : L.Sound cfg) :
    (L.search cfg facts policy).1.Sound cfg := by
  unfold search
  rcases hv : L.choose facts policy with _ | v
  · exact hsound
  · have hkept := load_sound hblind hsound v
    dsimp only
    rcases hl : L.load cfg v with ⟨L₁, err | u⟩
    · rw [hl] at hkept
      exact hkept
    · rw [hl] at hkept
      exact hkept

/-- A search answers the same without executables. -/
theorem search_blank (hblind : cfg.backend.Blind) (hsound : L.Sound cfg) :
    (L.search cfg facts policy).2 = (L.blank.search cfg facts policy).2 := by
  unfold search
  rw [blank_choose, blank_refusal]
  rcases hv : L.choose facts policy with _ | v
  · rfl
  · have hres := load_blank hblind hsound (List.mem_of_getElem? (choose_spec hv).1)
    dsimp only [Option.map_some]
    rcases hl : L.load cfg v with ⟨L₁, r⟩
    rcases hl' : L.blank.load cfg v.blank with ⟨L₂, r'⟩
    rw [hl, hl'] at hres
    obtain rfl : r = r' := hres
    rcases r with err | u
    · rfl
    · rfl

/-- A lookup that starts no capture only searches. -/
theorem lookup_quiet {req : GraphLookupRequest} {env : LookupEnv}
    (h : (L.lookup cfg req env).2.captureStarted = false) :
    (L.lookup cfg req env).1 = (L.search cfg (makeFacts req) req.policy).1 := by
  unfold lookup at h ⊢
  rcases hs : L.search cfg (makeFacts req) req.policy with ⟨L₁, found⟩
  rw [hs] at h
  dsimp only at h ⊢
  split_ifs at h ⊢
  · rfl
  · rcases hc : Ledger.capture cfg { L₁ with captureCounter := L₁.captureCounter + 1 } req
      (L₁.captureCounter + 1) env with ⟨L₂, err | id⟩
    · rw [hc] at h
      cases h
    · rw [hc] at h
      dsimp only [afterCapture] at h
      split_ifs at h
  · rfl

end Ledger

/-! ## Ledgers that differ in executables and attempts -/

/-- The ledgers are the same but for executables and attempts, and what has an executable can be
captured. -/
structure Alike (cfg : Config Exec) (L L' : Ledger) : Prop where
  same : L.blank = L'.blank
  sound : L.Sound cfg
  sound' : L'.Sound cfg

namespace Alike

variable {Exec : Type} {cfg : Config Exec} {L L' : Ledger}

theorem records (h : Alike cfg L L') :
    L.records.map GraphRecord.blank = L'.records.map GraphRecord.blank :=
  congrArg Ledger.records h.same

theorem graphGenerationCounter (h : Alike cfg L L') :
    L.graphGenerationCounter = L'.graphGenerationCounter := by
  have hsame := congrArg Ledger.graphGenerationCounter h.same
  exact hsame

theorem cacheGeneration (h : Alike cfg L L') : L.cacheGeneration = L'.cacheGeneration := by
  have hsame := congrArg Ledger.cacheGeneration h.same
  exact hsame

theorem store (h : Alike cfg L L') : L.store = L'.store := by
  have hsame := congrArg Ledger.store h.same
  exact hsame

theorem search (h : Alike cfg L L') (hblind : cfg.backend.Blind) (facts : CompatibilityFacts)
    (policy : GraphCompatibilityPolicy) :
    (L.search cfg facts policy).2 = (L'.search cfg facts policy).2 ∧
      Alike cfg (L.search cfg facts policy).1 (L'.search cfg facts policy).1 := by
  have hres := Ledger.search_blank facts policy hblind h.sound
  have hres' := Ledger.search_blank facts policy hblind h.sound'
  have hleft : (L.search cfg facts policy).1.blank = L.blank := Ledger.search_leaves facts policy
  have hleft' : (L'.search cfg facts policy).1.blank = L'.blank := Ledger.search_leaves facts policy
  rw [h.same] at hres hleft
  exact ⟨hres.trans hres'.symm, hleft.trans hleft'.symm,
    Ledger.search_sound facts policy hblind h.sound, Ledger.search_sound facts policy hblind h.sound'⟩

/-- A graph that is captured can be captured. -/
theorem captureEntry_captures (hblind : cfg.backend.Blind) {generation : GraphGeneration}
    {cacheGeneration : CacheGeneration} {req : GraphLookupRequest} {attempt : CaptureAttemptId}
    {costUs : UInt64} {e : CacheEntry Exec}
    (h : captureEntry cfg generation cacheGeneration req attempt costUs = .ok e) :
    Ledger.Captures cfg e.descriptor := by
  unfold captureEntry at h
  split at h
  · exact absurd h (fail_ne_ok _ _ _)
  · rename_i g hg
    rcases hv : validateTopology cfg.nodeOrder g.nodes g.edges with err | u
    · simp [hv, bind, Except.bind] at h
    · rcases hc : cfg.backend.capture g attempt with err | exec
      · simp [hv, hc, bind, Except.bind] at h
      · simp only [hv, hc, bind, Except.bind] at h
        split at h
        · simp at h
        · rename_i hval
          obtain rfl := Except.ok.inj h
          exact fun attempt' => ⟨exec, (hblind _ _ _).trans hc, hval⟩

theorem captureEntry_attempt (hblind : cfg.backend.Blind) (generation : GraphGeneration)
    (cacheGeneration : CacheGeneration) (req : GraphLookupRequest)
    (attempt attempt' : CaptureAttemptId) (costUs : UInt64) :
    captureEntry cfg generation cacheGeneration req attempt costUs =
      captureEntry cfg generation cacheGeneration req attempt' costUs := by
  unfold captureEntry
  split
  · rfl
  · rw [hblind _ attempt attempt']

theorem capture (h : Alike cfg L L') (hblind : cfg.backend.Blind) (req : GraphLookupRequest)
    (attempt attempt' : CaptureAttemptId) (env : LookupEnv) :
    (L.capture cfg req attempt env).2 = (L'.capture cfg req attempt' env).2 ∧
      Alike cfg (L.capture cfg req attempt env).1 (L'.capture cfg req attempt' env).1 := by
  unfold Ledger.capture
  rw [h.graphGenerationCounter, h.cacheGeneration, captureEntry_attempt hblind _ _ req attempt attempt']
  rcases he : captureEntry cfg L'.graphGenerationCounter L'.cacheGeneration req attempt'
    env.captureCostUs with err | e
  · exact ⟨rfl, h⟩
  · have hcaptures := captureEntry_captures hblind he
    have hsound : ∀ {L : Ledger}, L.Sound cfg → ∀ r ∈ L.records ++ [e.born], r.loaded = true →
        Ledger.Captures cfg r.descriptor := by
      intro L hL r hr hloaded
      rcases List.mem_append.mp hr with hr | hr
      · exact hL r hr hloaded
      · rw [List.mem_singleton.mp hr]
        exact hcaptures
    have hrecords : (L.records ++ [e.born]).map GraphRecord.blank =
        (L'.records ++ [e.born]).map GraphRecord.blank := by
      rw [List.map_append, List.map_append, h.records]
    dsimp only
    refine ⟨rfl, ?_⟩
    split_ifs
    · refine ⟨Ledger.ext hrecords rfl rfl rfl ?_, hsound h.sound, hsound h.sound'⟩
      exact congrArg (Option.map _) h.store
    · exact ⟨Ledger.ext hrecords rfl rfl rfl h.store, hsound h.sound, hsound h.sound'⟩

theorem lookup (h : Alike cfg L L') (hblind : cfg.backend.Blind) (req : GraphLookupRequest)
    (env : LookupEnv) :
    (L.lookup cfg req env).2 = (L'.lookup cfg req env).2 ∧
      Alike cfg (L.lookup cfg req env).1 (L'.lookup cfg req env).1 := by
  obtain ⟨hfound, hleft⟩ := h.search hblind (makeFacts req) req.policy
  unfold Ledger.lookup
  generalize L.search cfg (makeFacts req) req.policy = p at hfound hleft
  generalize L'.search cfg (makeFacts req) req.policy = p' at hfound hleft
  obtain ⟨L₁, found⟩ := p
  obtain ⟨L₁', found'⟩ := p'
  obtain rfl : found = found' := hfound
  dsimp only at hleft ⊢
  split_ifs
  · exact ⟨rfl, hleft⟩
  · have hdrawn : Alike cfg { L₁ with captureCounter := L₁.captureCounter + 1 }
        { L₁' with captureCounter := L₁'.captureCounter + 1 } :=
      ⟨Ledger.ext hleft.records rfl hleft.graphGenerationCounter hleft.cacheGeneration hleft.store,
        hleft.sound, hleft.sound'⟩
    obtain ⟨hres, hcaptured⟩ := hdrawn.capture hblind req (L₁.captureCounter + 1)
      (L₁'.captureCounter + 1) env
    generalize Ledger.capture cfg { L₁ with captureCounter := L₁.captureCounter + 1 } req
      (L₁.captureCounter + 1) env = q at hres hcaptured
    generalize Ledger.capture cfg { L₁' with captureCounter := L₁'.captureCounter + 1 } req
      (L₁'.captureCounter + 1) env = q' at hres hcaptured
    obtain ⟨L₂, r⟩ := q
    obtain ⟨L₂', r'⟩ := q'
    obtain rfl : r = r' := hres
    dsimp only at hcaptured
    rcases r with err | id
    · exact ⟨rfl, hcaptured⟩
    · obtain ⟨hagain, hlast⟩ := hcaptured.search hblind (makeFacts req) req.policy
      refine ⟨?_, hlast⟩
      dsimp only
      rw [hagain]
  · exact ⟨rfl, hleft⟩

/-- What the records are asked for does not depend on their executables. -/
theorem record_any (h : Alike cfg L L') {p : GraphRecord → Bool} (hp : ∀ r, p r.blank = p r) (i : ℕ) :
    L.records[i]?.any p = L'.records[i]?.any p := by
  have hat : ∀ l : List GraphRecord, l[i]?.any p = (l.map GraphRecord.blank)[i]?.any p := by
    intro l
    rw [List.getElem?_map, Option.any_map]
    exact congrArg (fun q => l[i]?.any q) (funext fun r => (hp r).symm)
  rw [hat, h.records, ← hat]

theorem heads (h : Alike cfg L L') : L.heads = L'.heads := by
  rw [← L.blank_heads, h.same, L'.blank_heads]

theorem invalidate (h : Alike cfg L L') (req : InvalidationRequest) :
    (L.invalidate req).2 = (L'.invalidate req).2 ∧
      Alike cfg (L.invalidate req).1 (L'.invalidate req).1 := by
  have hcovered : L.covered req = L'.covered req := by
    rw [Ledger.covered, Ledger.covered, h.heads]
    exact List.filter_congr fun i _ => h.record_any (fun _ => rfl) i
  have hvalid : L.valid (L.covered req) = L'.valid (L'.covered req) := by
    rw [hcovered]
    exact List.filter_congr fun i _ => h.record_any (fun _ => rfl) i
  have hrevoke : ∀ {L : Ledger}, L.Sound cfg → (L.revoke (L.covered req)).Sound cfg := by
    intro L hL r hr hloaded
    obtain ⟨i, hi, rfl⟩ := List.mem_mapIdx.mp hr
    split_ifs at hloaded ⊢
    · exact hL L.records[i] (List.getElem_mem hi) hloaded
    · exact hL L.records[i] (List.getElem_mem hi) hloaded
  refine ⟨congrArg List.length hvalid, Ledger.ext ?_ rfl ?_ ?_ h.store, hrevoke h.sound,
    hrevoke h.sound'⟩
  · have hmap : ∀ (L : Ledger) (V : List ℕ) (i : ℕ),
        ((L.records.mapIdx fun i r => if i ∈ V then r.revoked else r).map GraphRecord.blank)[i]? =
          (L.records.map GraphRecord.blank)[i]?.map fun r => if i ∈ V then r.revoked else r := by
      intro L V i
      rw [List.getElem?_map, List.getElem?_mapIdx, List.getElem?_map, Option.map_map, Option.map_map]
      refine congrArg (fun f => L.records[i]?.map f) (funext fun r => ?_)
      dsimp only [Function.comp]
      split_ifs <;> rfl
    refine List.ext_getElem? fun i => (hmap L _ i).trans ?_
    rw [hvalid, h.records]
    exact (hmap L' _ i).symm
  · dsimp only [Ledger.invalidate, Ledger.revoke, Ledger.blank]
    rw [hvalid, h.graphGenerationCounter]
  · dsimp only [Ledger.invalidate, Ledger.blank]
    rw [h.cacheGeneration]

theorem snapshot (h : Alike cfg L L') (order : IterationOrder ℕ) :
    (L.snapshot order).map GraphRecord.blank = (L'.snapshot order).map GraphRecord.blank := by
  have hmap : ∀ L : Ledger, (L.snapshot order).map GraphRecord.blank =
      (order.arrange L.heads).filterMap ((L.records.map GraphRecord.blank)[·]?) := by
    intro L
    rw [Ledger.snapshot, List.map_filterMap]
    refine List.filterMap_congr fun i _ => ?_
    rw [List.getElem?_map]
  rw [hmap, hmap, h.heads, h.records]

theorem persist (h : Alike cfg L L') {r r' : GraphRecord} (hr : r.blank = r'.blank) :
    Alike cfg (L.persist r) (L'.persist r') := by
  have hentry : r.entry = r'.entry := by
    have hblank := congrArg GraphRecord.entry hr
    exact hblank
  have hid : r.artifactId = r'.artifactId := by
    have hblank := congrArg GraphRecord.artifactId hr
    exact hblank
  refine ⟨Ledger.ext h.records rfl h.graphGenerationCounter h.cacheGeneration ?_, h.sound, h.sound'⟩
  dsimp only [Ledger.persist, Ledger.blank]
  rw [hentry, hid, h.store]

theorem persists (p : GraphRecord → Bool) (hp : ∀ r, p r.blank = p r) :
    ∀ (rs rs' : List GraphRecord) {L L' : Ledger}, Alike cfg L L' →
      rs.map GraphRecord.blank = rs'.map GraphRecord.blank →
      Alike cfg ((rs.takeWhile p).foldl Ledger.persist L) ((rs'.takeWhile p).foldl Ledger.persist L')
  | [], rs', L, L', h, hrs => by
    rw [List.map_nil, eq_comm, List.map_eq_nil_iff] at hrs
    subst hrs
    exact h
  | r :: rs, [], L, L', h, hrs => by cases hrs
  | r :: rs, r' :: rs', L, L', h, hrs => by
    obtain ⟨hr, hrest⟩ := List.cons.inj hrs
    have hsame : p r = p r' := by rw [← hp, ← hp r', show r.blank = r'.blank from hr]
    rw [List.takeWhile_cons, List.takeWhile_cons, ← hsame]
    split_ifs
    · exact persists p hp rs rs' (h.persist hr) hrest
    · exact h

theorem persistAll (h : Alike cfg L L') (order : IterationOrder ℕ)
    (putOk : GraphArtifactId → Bool) :
    (L.persistAll order putOk).2 = (L'.persistAll order putOk).2 ∧
      Alike cfg (L.persistAll order putOk).1 (L'.persistAll order putOk).1 := by
  have hall : (L.snapshot order).all (fun r => putOk r.artifactId) =
      (L'.snapshot order).all fun r => putOk r.artifactId := by
    have hmap : ∀ l : List GraphRecord, l.all (fun r => putOk r.artifactId) =
        (l.map GraphRecord.blank).all fun r => putOk r.artifactId := by
      intro l
      rw [List.all_map]
      rfl
    rw [hmap, h.snapshot, ← hmap]
  unfold Ledger.persistAll
  rw [h.store, hall]
  split_ifs
  · exact ⟨rfl, h⟩
  · exact ⟨rfl, persists _ (fun _ => rfl) _ _ h (h.snapshot order)⟩
  · exact ⟨rfl, persists _ (fun _ => rfl) _ _ h (h.snapshot order)⟩

theorem top (h : Alike cfg L L') {f : GraphRecord → UInt64} (hf : ∀ r, f r.blank = f r) :
    L.top f = L'.top f := by
  have hmap : ∀ L : Ledger, L.top f = ((L.snapshot (.insertion ℕ)).map GraphRecord.blank).foldl
      (fun m r => max m (f r)) 0 := by
    intro L
    rw [List.foldl_map]
    simp only [hf]
    rfl
  rw [hmap, h.snapshot, ← hmap]

theorem recover (h : Alike cfg L L') (listing : IterationOrder GraphArtifactId) :
    (L.recover listing).2 = (L'.recover listing).2 ∧
      Alike cfg (L.recover listing).1 (L'.recover listing).1 := by
  have hstore := h.store
  unfold Ledger.recover
  rw [← hstore]
  rcases hs : L.store with _ | store
  · exact ⟨rfl, h⟩
  · have hunloaded : ∀ r ∈ (listing.arrange store.keys).filterMap (Ledger.stored store),
        r.loaded = false := by
      intro r hr
      obtain ⟨id, -, hid⟩ := List.mem_filterMap.mp hr
      obtain ⟨e, he, rfl⟩ := Option.map_eq_some_iff.mp hid
      obtain ⟨g, md, rfl⟩ := loadEntry_some he
      rfl
    have hsound : ∀ {L : Ledger}, L.Sound cfg → ∀ r ∈ L.records ++
        (listing.arrange store.keys).filterMap (Ledger.stored store), r.loaded = true →
          Ledger.Captures cfg r.descriptor := by
      intro L hL r hr hloaded
      rcases List.mem_append.mp hr with hr | hr
      · exact hL r hr hloaded
      · rw [hunloaded r hr] at hloaded
        cases hloaded
    have hadded : Alike cfg
        { L with
          records := L.records ++ (listing.arrange store.keys).filterMap (Ledger.stored store)
          store := some store }
        { L' with
          records := L'.records ++ (listing.arrange store.keys).filterMap (Ledger.stored store)
          store := some store } := by
      refine ⟨Ledger.ext ?_ rfl h.graphGenerationCounter h.cacheGeneration rfl, hsound h.sound,
        hsound h.sound'⟩
      dsimp only [Ledger.blank]
      rw [List.map_append, List.map_append, h.records]
    refine ⟨rfl, Ledger.ext hadded.records rfl ?_ ?_ rfl, hadded.sound, hadded.sound'⟩
    · dsimp only [Ledger.blank]
      rw [hadded.top fun _ => rfl, h.graphGenerationCounter]
    · dsimp only [Ledger.blank]
      rw [hadded.top fun _ => rfl, h.cacheGeneration]

/-- One call keeps the ledgers alike. -/
theorem step (h : Alike cfg L L') (hblind : cfg.backend.Blind) (op : Op Exec) :
    Alike cfg (L.step cfg op) (L'.step cfg op) := by
  cases op with
  | lookup req env => exact (h.lookup hblind req env).2
  | invalidate req => exact (h.invalidate req).2
  | persistAll order putOk => exact (h.persistAll order putOk).2
  | recover listing => exact (h.recover listing).2
  | release | replay | pin | unpin | evict | unload => exact h

/-- A lookup that starts no capture keeps the ledgers alike where only one of them makes it. -/
theorem quiet (h : Alike cfg L L') (hblind : cfg.backend.Blind) {req : GraphLookupRequest}
    {env : LookupEnv} (hquiet : (L.lookup cfg req env).2.captureStarted = false) :
    Alike cfg (L.lookup cfg req env).1 L' := by
  rw [Ledger.lookup_quiet hquiet]
  exact ⟨(Ledger.search_leaves _ _).trans h.same, Ledger.search_sound _ _ hblind h.sound, h.sound'⟩

end Alike

/-! ## Runs -/

section

variable {Exec : Type} {cfg : Config Exec} {s s' : State Exec} {L L' : Ledger}

/-- The call changes nothing that is found, revoked, written or recovered later. -/
def Op.quiet (cfg : Config Exec) (s : State Exec) : Op Exec → Bool
  | .lookup req env => !(GraphCache.lookup cfg s req env).2.captureStarted
  | op => op.holding

/-- The calls of a run that are not quiet where they are made. -/
def essential (cfg : Config Exec) : State Exec → List (Op Exec) → List (Op Exec)
  | _, [] => []
  | s, op :: ops =>
    if op.quiet cfg s then essential cfg (GraphCache.step cfg s op) ops
    else op :: essential cfg (GraphCache.step cfg s op) ops

theorem State.Refines.quiet (h : State.Refines s L) (hlike : Alike cfg L L') (hblind : cfg.backend.Blind)
    {op : Op Exec} (hquiet : op.quiet cfg s = true) : Alike cfg (L.step cfg op) L' := by
  cases op with
  | lookup req env =>
    have hstarted : (L.lookup cfg req env).2.captureStarted = false := by
      rw [← (h.lookup req env).2]
      simpa [Op.quiet, GraphLookupResult.finding] using hquiet
    exact hlike.quiet hblind hstarted
  | invalidate | persistAll | recover => cases hquiet
  | release | replay | pin | unpin | evict | unload => exact hlike

/-- The ledger of a run and that of its essential calls are alike. -/
theorem State.Refines.essential (hblind : cfg.backend.Blind) (ops : List (Op Exec)) :
    ∀ {s : State Exec} {L L' : Ledger}, State.Refines s L → Alike cfg L L' →
      Alike cfg (L.run cfg ops) (L'.run cfg (GraphCache.essential cfg s ops)) := by
  induction ops with
  | nil => exact fun _ hlike => hlike
  | cons op ops ih =>
    intro s L L' h hlike
    rw [GraphCache.essential]
    split_ifs with hquiet
    · exact ih (h.step op) (h.quiet hlike hblind hquiet)
    · exact ih (h.step op) (hlike.step hblind op)

theorem Alike.answer (h : State.Refines s L) (h' : State.Refines s' L') (hlike : Alike cfg L L')
    (hblind : cfg.backend.Blind) : AnswerAlike cfg s s' := by
  have hanswers : AnswersAs cfg s L := h.answers
  have hanswers' : AnswersAs cfg s' L' := h'.answers
  refine ⟨fun req env => ?_, fun req => ⟨?_, ?_⟩, fun order putOk => ?_, fun listing => ?_, ?_⟩
  · rw [hanswers.lookup, hanswers'.lookup, (hlike.lookup hblind req env).1]
  · rw [(hanswers.invalidate req).1, (hanswers'.invalidate req).1, (hlike.invalidate req).1]
  · rw [(hanswers.invalidate req).2, (hanswers'.invalidate req).2,
      (hlike.invalidate req).2.cacheGeneration]
  · rw [hanswers.persistAll, hanswers'.persistAll, (hlike.persistAll order putOk).1]
  · rw [hanswers.recover, hanswers'.recover, (hlike.recover listing).1]
  · rw [hanswers.graphCount, hanswers'.graphCount, hlike.heads]

end

/-- What a cache over the CPU backend finds, revokes, writes and recovers is settled by the captures,
invalidations, writes and recoveries of its past : every hit, and every miss that captured nothing,
may be struck out. -/
theorem quiet_invisible (o : IterationOrder GraphNodeId) (fops : FloatOps) (store : Option Store)
    (ops : List (Op CpuGraph)) :
    AnswerAlike (.cpu o fops) (run (.cpu o fops) (.fresh store) ops)
      (run (.cpu o fops) (.fresh store) (essential (.cpu o fops) (.fresh store) ops)) := by
  have hblind := blind_cpu o fops
  have hsound : (Ledger.opened store).Sound (.cpu o fops) := fun _ hr => absurd hr List.not_mem_nil
  have hopened := refines_opened CpuGraph store
  have hlike := hopened.essential hblind ops ⟨rfl, hsound, hsound⟩
  exact hlike.answer (hopened.run _ ops) (hopened.run _ _) hblind

end GraphCache
