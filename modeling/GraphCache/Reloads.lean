import GraphCache.ExactHit
import GraphCache.Invalidation
import GraphCache.Listings

/-!
# Recovering twice

A second recovery loads every record again : the buckets get a second copy of each, and the names
move on to it. Nothing of it is seen in a lookup, which prefers the last of several exact entries
and takes the first of the others (`best_repeat`). But an invalidation finds its targets by name, so
that the first copies stay behind valid. What follows is the same after one recovery and after two
as long as no invalidation covers a record that the directory holds as valid (`recover_twice`); it
is not otherwise (`recover_twice_differs`).
-/

namespace GraphCache

open Selection

variable {Exec : Type} {cfg : Config Exec}

/-! ## Entries that look alike -/

/-- The entry can be selected, once its generation is current. -/
def CacheEntry.Live (e : CacheEntry Exec) : Prop :=
  e.invalidated = false ∧ e.lifecycle.isReplayEligible = true

/-- Entries that a search or an invalidation does not tell apart. -/
structure CacheEntry.Alike (e e' : CacheEntry Exec) : Prop where
  same : e.Same e'
  live : e.Live ↔ e'.Live

theorem CacheEntry.Alike.refl (e : CacheEntry Exec) : e.Alike e :=
  ⟨.refl e, .rfl⟩

theorem CacheEntry.Alike.trans {e e' e'' : CacheEntry Exec} (h : e.Alike e') (h' : e'.Alike e'') :
    e.Alike e'' :=
  ⟨h.same.trans h'.same, h.live.trans h'.live⟩

theorem CacheEntry.Same.symm {e e' : CacheEntry Exec} (h : e.Same e') : e'.Same e :=
  ⟨h.1.symm, h.2.symm, h.3.symm, h.4.symm, h.5.symm, h.6.symm, h.7.symm, h.8.symm, h.9.symm⟩

theorem CacheEntry.Alike.symm {e e' : CacheEntry Exec} (h : e.Alike e') : e'.Alike e :=
  ⟨h.same.symm, h.live.symm⟩

theorem selectable_iff {r : Registry Exec} {a : ℕ} : r.Selectable a ↔ (r.heap a).Live ∧
    r.keyCurrentGen (r.heap a).keyHex = some (r.heap a).generation :=
  ⟨fun h => ⟨⟨h.1, h.2.2⟩, h.2.1⟩, fun h => ⟨h.1.1, h.2, h.1.2⟩⟩

theorem covers_congr (req : InvalidationRequest) {e e' : CacheEntry Exec} (h : e.Same e') :
    req.covers e' = req.covers e := by
  unfold InvalidationRequest.covers
  rw [h.artifactId, h.graphId, h.workload, h.descriptor, h.dependencyGeneration]

/-- An entry that is not marked keeps its validity. -/
theorem Edits.kept {M : ℕ → Prop} {r r' : Registry Exec} (h : Edits cfg M r r') {a : ℕ} (ha : ¬M a) :
    (r.heap a).Alike (r'.heap a) := by
  obtain ⟨hinv, hlife⟩ := h.unmarked ha
  refine ⟨(h.same a).1, ?_⟩
  rw [CacheEntry.Live, CacheEntry.Live, hinv, hlife]

/-- An invalidation takes the life of its targets, and of nothing else. -/
theorem live_invalidate (cfg : Config Exec) (s : State Exec) (req : InvalidationRequest) (a : ℕ) :
    (s.heap a).Same ((invalidate cfg s req).1.heap a) ∧
      (((invalidate cfg s req).1.heap a).Live ↔
        (s.heap a).Live ∧ a ∉ invalidationTargets s.toRegistry req) := by
  have hedits : Edits cfg (· ∈ invalidationTargets s.toRegistry req) s.toRegistry
      (invalidate cfg s req).1.toRegistry := invalidate_edits s req
  refine ⟨(hedits.same a).1, ?_⟩
  by_cases ha : a ∈ invalidationTargets s.toRegistry req
  · have hinv : ((invalidate cfg s req).1.heap a).invalidated = true :=
      invalidated_of_mem_targets req.strong _ _ ha
    refine ⟨fun h => ?_, fun h => absurd ha h.2⟩
    rw [h.1] at hinv
    cases hinv
  · rw [← (hedits.kept ha).live]
    exact ⟨fun h => ⟨h, ha⟩, fun h => h.1⟩

/-- Targets are named, and covered. -/
theorem mem_targets_iff {r : Registry Exec} (hi : r.Indexed) {req : InvalidationRequest} {a : ℕ} :
    a ∈ invalidationTargets r req ↔ req.covers (r.heap a) = true ∧ r.Named a := by
  refine ⟨fun h => ?_, fun h => mem_invalidationTargets h.1 h.2⟩
  unfold invalidationTargets at h
  split_ifs at h with hscope
  · have hart : r.artifact req.artifactId = some a := by simpa using h
    have hid := (hi.artifact _ _ hart).2
    refine ⟨by simp [InvalidationRequest.covers, hscope, hid], ?_⟩
    rw [Registry.Named, hid, hart]
  · obtain ⟨hmem, hcovers⟩ := List.mem_filter.mp h
    obtain ⟨id, hart⟩ := mem_artifacts.mp hmem
    exact ⟨hcovers, by rw [Registry.Named, (hi.artifact _ _ hart).2, hart]⟩

/-! ## A registry with two copies of the records -/

/-- The second registry has every entry of the first one and a second copy of the entries from `n`
on, which stand for the records `es`. -/
structure Doubled (n : ℕ) (es : List (CacheEntry Exec)) (r r' : Registry Exec) : Prop where
  keyCurrentGen : r'.keyCurrentGen = r.keyCurrentGen
  bucket : ∀ k, ∃ old new, r.byWorkload k = old ++ new ∧
    r'.byWorkload k = old ++ new ++ new.map (· + es.length) ∧ (∀ a ∈ old, a < n) ∧
    ∀ a ∈ new, ∃ i, i < es.length ∧ a = n + i
  artifact : ∀ id, (r'.artifact id = r.artifact id ∧ ∀ a, r.artifact id = some a → a < n) ∨
    ∃ i, i < es.length ∧ r.artifact id = some (n + i) ∧ r'.artifact id = some (n + i + es.length)
  old : ∀ a < n, (r.heap a).Alike (r'.heap a)
  copies : ∀ i, ∀ h : i < es.length, (es.get ⟨i, h⟩).Alike (r.heap (n + i)) ∧
    (es.get ⟨i, h⟩).Alike (r'.heap (n + i)) ∧ (es.get ⟨i, h⟩).Alike (r'.heap (n + i + es.length))

/-- The registry that a second recovery leaves. -/
theorem doubled_register {r : Registry Exec} (hi : r.Indexed) (es : List (CacheEntry Exec)) :
    Doubled r.next es (es.foldl Registry.register r)
      (es.foldl Registry.register (es.foldl Registry.register r)) := by
  set r₁ := es.foldl Registry.register r with hr₁
  have hnext : r₁.next = r.next + es.length := foldl_register_next r es
  have hshift : ∀ p : CacheEntry Exec → Bool,
      es.findIdxs p r₁.next = (es.findIdxs p r.next).map (· + es.length) := by
    intro p
    rw [List.findIdxs_start, hnext, List.findIdxs_start (s := r.next), List.map_map]
    refine List.map_congr_left fun a _ => ?_
    simp only [Function.comp_apply]
    omega
  have hfound : ∀ p : CacheEntry Exec → Bool, ∀ a ∈ es.findIdxs p r.next,
      ∃ i, i < es.length ∧ a = r.next + i := by
    intro p a ha
    have hge := List.ge_of_mem_findIdxs a ha
    have hlt := List.lt_add_of_mem_findIdxs a ha
    exact ⟨a - r.next, by omega, by omega⟩
  refine ⟨?_, ?_, ?_, ?_, ?_⟩
  · funext k
    rw [foldl_register_keyCurrentGen r₁, hr₁, foldl_register_keyCurrentGen r]
    cases (es.filter (CacheEntry.under k)).getLast? <;> rfl
  · intro k
    refine ⟨r.byWorkload k, es.findIdxs (fun e => workloadKey e.workload = k) r.next,
      foldl_register_byWorkload r es k, ?_, fun a ha => (hi.bucket k a ha).1, hfound _⟩
    rw [foldl_register_byWorkload r₁, hshift, hr₁, foldl_register_byWorkload r]
  · intro id
    rw [foldl_register_artifact r₁, hshift, List.getLast?_map, hr₁, foldl_register_artifact r]
    rcases hlast : (es.findIdxs (fun e => e.artifactId = id) r.next).getLast? with _ | a
    · rw [hlast]
      exact .inl ⟨rfl, fun a ha => (hi.artifact id a ha).1⟩
    · rw [hlast]
      obtain ⟨i, hlt, rfl⟩ := hfound _ a (List.mem_of_getLast? hlast)
      exact .inr ⟨i, hlt, rfl, rfl⟩
  · intro a ha
    rw [foldl_register_heap r₁ es (by omega)]
    exact .refl _
  · intro i hlt
    have hfirst : r₁.heap (r.next + i) = es[i] := foldl_register_heap_new r es hlt
    refine ⟨?_, ?_, ?_⟩
    · rw [hfirst]
      exact .refl _
    · rw [foldl_register_heap r₁ es (by omega), hfirst]
      exact .refl _
    · rw [show r.next + i + es.length = r₁.next + i by omega, foldl_register_heap_new r₁ es hlt]
      exact .refl _

/-! ## Steps that spare the records -/

/-- The step adds no entry, and invalidates no record that the directory holds as valid. -/
def Spares (store : Option Store) : Op Exec → Prop
  | .lookup req _ => req.allowCapture = false
  | .invalidate req => ∀ st, store = some st → ∀ id, ∀ e : CacheEntry Exec,
      loadEntry st id = some e → e.invalidated = false → req.covers e = false
  | .recover _ => False
  | _ => True

section

variable {n : ℕ} {es : List (CacheEntry Exec)} {r r' r₁ r₁' : Registry Exec} {s s' : State Exec}

/-- Edits leave the indices alone, so that only the entries are left to compare. -/
theorem Doubled.edits {M M' : ℕ → Prop} (h : Doubled n es r r') (he : Edits cfg M r r₁)
    (he' : Edits cfg M' r' r₁') (hold : ∀ a < n, (r₁.heap a).Alike (r₁'.heap a))
    (hcopies : ∀ i, ∀ hi : i < es.length, (es.get ⟨i, hi⟩).Alike (r₁.heap (n + i)) ∧
      (es.get ⟨i, hi⟩).Alike (r₁'.heap (n + i)) ∧
      (es.get ⟨i, hi⟩).Alike (r₁'.heap (n + i + es.length))) : Doubled n es r₁ r₁' := by
  obtain ⟨hbucket, hgen, hart⟩ := he.index
  obtain ⟨hbucket', hgen', hart'⟩ := he'.index
  refine ⟨?_, ?_, ?_, hold, hcopies⟩
  · rw [hgen, hgen', h.keyCurrentGen]
  · rw [hbucket, hbucket']
    exact h.bucket
  · unfold Registry.artifact
    rw [hart, hart']
    exact h.artifact

/-- Under one name both registries have the same old entry. -/
theorem Doubled.named_iff (h : Doubled n es r r') {a : ℕ} (ha : a < n) : r'.Named a ↔ r.Named a := by
  unfold Registry.Named
  rw [(h.old a ha).same.artifactId]
  rcases h.artifact (r.heap a).artifactId with ⟨heq, -⟩ | ⟨i, -, hr, hr'⟩
  · rw [heq]
  · rw [hr, hr']
    constructor
    · intro heq
      have := Option.some.inj heq
      omega
    · intro heq
      have := Option.some.inj heq
      omega

/-- What an invalidation leaves of a record that it spares. -/
theorem alike_invalidate {e : CacheEntry Exec} {req : InvalidationRequest} {a : ℕ}
    (hi : s.toRegistry.Indexed) (h : e.Alike (s.heap a))
    (hspared : e.invalidated = false → req.covers e = false) :
    e.Alike ((invalidate cfg s req).1.heap a) := by
  obtain ⟨hsame, hlive⟩ := live_invalidate cfg s req a
  refine ⟨h.same.trans hsame, ?_⟩
  rw [hlive, h.live]
  refine ⟨fun hl => ⟨hl, fun htarget => ?_⟩, fun hl => hl.1⟩
  have hcovers := ((mem_targets_iff hi).mp htarget).1
  rw [covers_congr req h.same, hspared (h.live.mpr hl).1] at hcovers
  cases hcovers

theorem Doubled.invalidate (h : Doubled n es s.toRegistry s'.toRegistry)
    (hi : s.toRegistry.Indexed) (hi' : s'.toRegistry.Indexed) {req : InvalidationRequest}
    (hspared : ∀ e ∈ es, e.invalidated = false → req.covers e = false) :
    Doubled n es (invalidate cfg s req).1.toRegistry (invalidate cfg s' req).1.toRegistry := by
  refine h.edits (invalidate_edits s req) (invalidate_edits s' req) ?_ ?_
  · intro a ha
    have halike := h.old a ha
    obtain ⟨hsame, hlive⟩ := live_invalidate cfg s req a
    obtain ⟨hsame', hlive'⟩ := live_invalidate cfg s' req a
    refine ⟨hsame.symm.trans (halike.same.trans hsame'), ?_⟩
    rw [hlive, hlive', mem_targets_iff hi, mem_targets_iff hi', covers_congr req halike.same,
      h.named_iff ha, halike.live]
  · intro i hlt
    obtain ⟨hcopy, hcopy', hcopy''⟩ := h.copies i hlt
    have hspare := hspared _ (List.get_mem es ⟨i, hlt⟩)
    exact ⟨alike_invalidate hi hcopy hspare, alike_invalidate hi' hcopy' hspare,
      alike_invalidate hi' hcopy'' hspare⟩

variable (cfg) in
/-- A step that neither adds nor invalidates entries edits them. -/
theorem edits_of_spares {store : Option Store} {op : Op Exec} (hop : Spares store op)
    (hno : ∀ req, op ≠ .invalidate req) (s : State Exec) :
    Edits cfg Unmarked s.toRegistry (step cfg s op).toRegistry := by
  refine (step_evolves cfg s op).mono ?_ ?_
  · intro a hmark
    cases op with
    | invalidate req => exact absurd rfl (hno req)
    | _ => exact hmark
  · intro r e hreg
    cases op with
    | lookup req env =>
      have hallow := hreg.2.1
      rw [show req.allowCapture = false from hop] at hallow
      cases hallow
    | recover _ => exact hop
    | _ => exact hreg

theorem Doubled.step (h : Doubled n es s.toRegistry s'.toRegistry) (hi : s.toRegistry.Indexed)
    (hi' : s'.toRegistry.Indexed) {store : Option Store} {op : Op Exec} (hop : Spares store op)
    (hes : ∀ e ∈ es, ∃ st id, store = some st ∧ loadEntry st id = some e) :
    Doubled n es (step cfg s op).toRegistry (step cfg s' op).toRegistry := by
  by_cases hinv : ∃ req, op = .invalidate req
  · obtain ⟨req, rfl⟩ := hinv
    refine h.invalidate hi hi' fun e he hvalid => ?_
    obtain ⟨st, id, hst, hload⟩ := hes e he
    exact hop st hst id e hload hvalid
  · push Not at hinv
    have hedits := edits_of_spares cfg hop hinv s
    have hedits' := edits_of_spares cfg hop hinv s'
    refine h.edits hedits hedits' ?_ ?_
    · intro a ha
      have halike := h.old a ha
      have hkept := hedits.kept (a := a) id
      have hkept' := hedits'.kept (a := a) id
      exact ⟨hkept.same.symm.trans (halike.same.trans hkept'.same),
        hkept.live.symm.trans (halike.live.trans hkept'.live)⟩
    · intro i hlt
      obtain ⟨hcopy, hcopy', hcopy''⟩ := h.copies i hlt
      exact ⟨hcopy.trans (hedits.kept id), hcopy'.trans (hedits'.kept id),
        hcopy''.trans (hedits'.kept id)⟩

theorem Doubled.run (h : Doubled n es s.toRegistry s'.toRegistry) (hi : s.toRegistry.Indexed)
    (hi' : s'.toRegistry.Indexed) {store : Option Store}
    (hes : ∀ e ∈ es, ∃ st id, store = some st ∧ loadEntry st id = some e) {later : List (Op Exec)}
    (hl : ∀ op ∈ later, Spares store op) :
    Doubled n es (run cfg s later).toRegistry (run cfg s' later).toRegistry := by
  induction later using List.reverseRecOn with
  | nil => exact h
  | append_singleton ops op ih =>
    rw [run_concat, run_concat]
    exact (ih fun x hx => hl x (by simp [hx])).step (indexed_run s hi ops) (indexed_run s' hi' ops)
      (hl op (by simp)) hes

/-- The same names are in use. -/
theorem Doubled.graphCount (h : Doubled n es s.toRegistry s'.toRegistry) :
    graphCount s' = graphCount s := by
  have hmem : ∀ id, id ∈ s'.byArtifact.keys ↔ id ∈ s.byArtifact.keys := by
    intro id
    rw [← AList.mem_keys, ← AList.mem_keys, ← AList.lookup_isSome, ← AList.lookup_isSome]
    rcases h.artifact id with ⟨heq, -⟩ | ⟨i, -, hr, hr'⟩
    · rw [show s'.byArtifact.lookup id = s.byArtifact.lookup id from heq]
    · rw [show s'.byArtifact.lookup id = _ from hr', show s.byArtifact.lookup id = _ from hr]
      rfl
  exact ((List.perm_ext_iff_of_nodup s'.byArtifact.nodupKeys s.byArtifact.nodupKeys).mpr hmem).length_eq

end

/-! ## Lookups without a capture -/

theorem tellViews_repeat (l c : List (View Exec)) (facts : CompatibilityFacts)
    (policy : GraphCompatibilityPolicy) :
    tellViews (l ++ c ++ c) facts policy = tellViews (l ++ c) facts policy := by
  have hmiss : tellMiss (l ++ c ++ c) facts policy = tellMiss (l ++ c) facts policy := by
    unfold tellMiss
    simp only [List.filter_append, List.getLast?_append, List.any_append, Bool.or_assoc,
      Bool.or_self]
    cases (c.filter (View.refused facts policy)).getLast? <;> rfl
  unfold tellViews
  rw [best_repeat, hmiss]

/-- The report of a lookup that may not capture, from that of its search. -/
def GraphLookupResult.withReason (res : GraphLookupResult Exec) : GraphLookupResult Exec :=
  if res.hit then res else { res with reasonText := missReason res.outcome }

theorem lookup_report {s : State Exec} {req : GraphLookupRequest} (env : LookupEnv)
    (hcap : req.allowCapture = false) :
    (lookup cfg s req env).2.report = (searched cfg s req).report.withReason := by
  have hhit : (searched cfg s req).report.hit = (searched cfg s req).hit := by
    simp [GraphLookupResult.report, GraphLookupResult.hit]
  have hno : ¬req.allowCapture = true := by
    rw [hcap]
    exact Bool.false_ne_true
  have hanswer := lookup_answer cfg s req env
  unfold GraphLookupResult.withReason
  rw [hhit]
  generalize (lookup cfg s req env).2 = res at hanswer
  cases hanswer with
  | found h _ => rw [if_pos h]
  | missed h _ _ =>
    rw [h, if_neg (by decide)]
    rfl
  | failed hmay _ _ _ => exact absurd hmay.1 hno
  | captured _ hc _ _ _ _ => exact absurd hc.1 hno
  | unusable _ hc _ _ _ _ => exact absurd hc.1 hno

/-- What can be told of a state by counting its graphs and by lookups that may not capture. -/
def Indistinguishable (cfg : Config Exec) (s s' : State Exec) : Prop :=
  graphCount s' = graphCount s ∧ ∀ req env env', req.allowCapture = false →
    (lookup cfg s' req env').2.report = (lookup cfg s req env).2.report

/-! ## Entries of the CPU backend -/

section

variable {o : IterationOrder GraphNodeId} {ops : FloatOps} {s s' : State CpuGraph} {n : ℕ}
  {es : List (CacheEntry CpuGraph)}

/-- What holds of every state of a cache over the CPU backend. -/
structure Registry.OnCpu (o : IterationOrder GraphNodeId) (r : Registry CpuGraph) : Prop where
  indexed : r.Indexed
  faithful : r.Faithful o
  offBackend : r.OffBackend

theorem onCpu_fresh (store : Option Store) :
    (State.fresh store : State CpuGraph).toRegistry.OnCpu o :=
  ⟨indexed_fresh store, faithful_fresh store, offBackend_fresh store⟩

variable (ops) in
theorem Registry.OnCpu.run (h : s.toRegistry.OnCpu o) (history : List (Op CpuGraph)) :
    (run (.cpu o ops) s history).toRegistry.OnCpu o :=
  ⟨indexed_run s h.indexed history, h.faithful.run history, h.offBackend.run history⟩

theorem Registry.OnCpu.recover (h : s.toRegistry.OnCpu o) (listing : IterationOrder GraphArtifactId) :
    (recover s listing).1.toRegistry.OnCpu o :=
  h.run .unit [.recover listing]

/-- An entry is ready or not by its descriptor alone. -/
theorem CacheEntry.Faithful.ready_eq {e : CacheEntry CpuGraph} (h : e.Faithful o)
    (attempt : CaptureAttemptId) :
    e.ready (.cpu o ops) attempt = validated (cpuBackend o ops) e.descriptor 0 := by
  unfold CacheEntry.ready
  rcases hx : e.exec with _ | x
  · rfl
  · have hcap := h.exec x hx
    have hvalid : validateTopology o e.descriptor.nodes e.descriptor.edges = .ok () :=
      validateTopology_ok_iff.mpr (cpuCapture_ok_iff.mp hcap).1
    simp only [validated, cpuBackend, hcap, hvalid]

/-- Entries that are alike are seen alike where the generations are the same. -/
theorem view_eq (hgen : s'.keyCurrentGen = s.keyCurrentGen) {a b : ℕ}
    (h : (s.heap a).Alike (s'.heap b)) (hf : (s.heap a).Faithful o) (hf' : (s'.heap b).Faithful o) :
    s'.view (.cpu o ops) b = s.view (.cpu o ops) a := by
  have hkey : (s'.heap b).keyHex = (s.heap a).keyHex := by
    rw [CacheEntry.keyHex, h.same.key]
    rfl
  have hsel : s'.Selectable b ↔ s.Selectable a := by
    rw [selectable_iff, selectable_iff, h.live, hgen, hkey, h.same.generation]
  simp only [State.view, hf.ready_eq, hf'.ready_eq, h.same.artifactId, h.same.generation,
    h.same.facts, h.same.descriptor, hsel]

/-- The views of a bucket after one recovery, and after two. -/
theorem Doubled.views (h : Doubled n es s.toRegistry s'.toRegistry) (hs : s.toRegistry.OnCpu o)
    (hs' : s'.toRegistry.OnCpu o) (ops : FloatOps) (facts : CompatibilityFacts) :
    ∃ l c, (s.bucket facts).map (s.view (.cpu o ops)) = l ++ c ∧
      (s'.bucket facts).map (s'.view (.cpu o ops)) = l ++ c ++ c := by
  obtain ⟨old, new, hbucket, hbucket', hold, hnew⟩ := h.bucket (workloadKey facts.workload)
  have hview : ∀ a ∈ s.bucket facts, ∀ b ∈ s'.bucket facts, (s.heap a).Alike (s'.heap b) →
      s'.view (.cpu o ops) b = s.view (.cpu o ops) a := by
    intro a ha b hb halike
    exact view_eq h.keyCurrentGen halike (hs.faithful a (hs.indexed.bucket _ a ha).1)
      (hs'.faithful b (hs'.indexed.bucket _ b hb).1)
  unfold State.bucket at hview ⊢
  rw [hbucket, hbucket'] at hview ⊢
  refine ⟨old.map (s.view (.cpu o ops)), new.map (s.view (.cpu o ops)), List.map_append, ?_⟩
  rw [List.map_append, List.map_append, List.map_map]
  congr 1
  · congr 1
    · refine List.map_congr_left fun a ha => hview a (by simp [ha]) a (by simp [ha]) ?_
      exact h.old a (hold a ha)
    · refine List.map_congr_left fun a ha => hview a (by simp [ha]) a (by simp [ha]) ?_
      obtain ⟨i, hlt, rfl⟩ := hnew a ha
      obtain ⟨hcopy, hcopy', -⟩ := h.copies i hlt
      exact hcopy.symm.trans hcopy'
  · refine List.map_congr_left fun a ha => ?_
    refine hview a (by simp [ha]) (a + es.length) (by simp [ha]) ?_
    obtain ⟨i, hlt, rfl⟩ := hnew a ha
    obtain ⟨hcopy, -, hcopy''⟩ := h.copies i hlt
    exact hcopy.symm.trans hcopy''

theorem Doubled.indistinguishable (h : Doubled n es s.toRegistry s'.toRegistry)
    (hs : s.toRegistry.OnCpu o) (hs' : s'.toRegistry.OnCpu o) :
    Indistinguishable (.cpu o ops) s s' := by
  refine ⟨h.graphCount, fun req env env' hcap => ?_⟩
  obtain ⟨l, c, hviews, hviews'⟩ := h.views hs hs' ops (makeFacts req)
  rw [lookup_report env hcap, lookup_report env' hcap, searched, searched,
    search_report hs.offBackend, search_report hs'.offBackend, hviews, hviews', tellViews_repeat]

theorem indistinguishable_refl (s : State Exec) : Indistinguishable cfg s s :=
  ⟨rfl, fun _ env env' hcap => by rw [lookup_report env hcap, lookup_report env' hcap]⟩

/-- The two recoveries, from any state of the cache. -/
theorem indistinguishable_recover (hs : s.toRegistry.OnCpu o)
    {listing listing' : IterationOrder GraphArtifactId}
    (hlist : ∀ st, s.store = some st → listing'.arrange st.keys = listing.arrange st.keys)
    {later : List (Op CpuGraph)} (hlater : ∀ op ∈ later, Spares s.store op) :
    Indistinguishable (.cpu o ops) (run (.cpu o ops) (recover s listing).1 later)
      (run (.cpu o ops) (recover (recover s listing).1 listing').1 later) := by
  have hs₁ := hs.recover listing
  have hs₂ := hs₁.recover listing'
  rcases hstore : s.store with _ | st
  · have hnone : ∀ listing, (recover s listing).1 = s := by
      intro listing
      unfold recover
      rw [hstore]
    rw [hnone, hnone]
    exact indistinguishable_refl _
  · have hreg := recover_registry hstore listing
    have hreg' : (recover (recover s listing).1 listing').1.toRegistry =
        (listed CpuGraph st listing).foldl Registry.register (recover s listing).1.toRegistry := by
      rw [recover_registry (by rw [recover_store, hstore]) listing', hlist st hstore]
      rfl
    have hdoubled : Doubled s.next (listed CpuGraph st listing) (recover s listing).1.toRegistry
        (recover (recover s listing).1 listing').1.toRegistry := by
      rw [hreg', hreg]
      exact doubled_register hs.indexed _
    have hrecords : ∀ e ∈ listed CpuGraph st listing, ∃ st' id, s.store = some st' ∧
        loadEntry st' id = some e := by
      intro e he
      obtain ⟨id, hid⟩ := mem_listed.mp he
      exact ⟨st, id, hstore, hid⟩
    exact (hdoubled.run hs₁.indexed hs₂.indexed hrecords hlater).indistinguishable (hs₁.run ops later)
      (hs₂.run ops later)

/-- A second recovery is not noticed, by anything that invalidates no valid record of the directory
and captures nothing. -/
theorem recover_twice (o : IterationOrder GraphNodeId) (ops : FloatOps) (store : Option Store)
    (history : List (Op CpuGraph)) (listing listing' : IterationOrder GraphArtifactId)
    (hlist : ∀ st, (run (.cpu o ops) (.fresh store) history).store = some st →
      listing'.arrange st.keys = listing.arrange st.keys)
    (later : List (Op CpuGraph))
    (hlater : ∀ op ∈ later, Spares (run (.cpu o ops) (.fresh store) history).store op) :
    Indistinguishable (.cpu o ops)
      (run (.cpu o ops) (.fresh store) (history ++ .recover listing :: later))
      (run (.cpu o ops) (.fresh store) (history ++ .recover listing :: .recover listing' :: later)) := by
  have hrun : ∀ ops', run (.cpu o ops) (.fresh store) (history ++ ops') =
      run (.cpu o ops) (run (.cpu o ops) (.fresh store) history) ops' :=
    fun _ => List.foldl_append
  rw [hrun, hrun]
  exact indistinguishable_recover ((onCpu_fresh store).run ops history) hlist hlater

end

/-- A directory with one record. -/
def soloDirectory : Store := directoryOf [.lookup (namedRequest "x") {}]

/-- An invalidation of nothing that was recorded. -/
def otherNamespace : InvalidationRequest := { scope := .byNamespace, namespaceName := str "other" }

set_option maxRecDepth 100000 in
theorem recover_twice_spared : Indistinguishable (.cpu (.insertion _) .unit)
    (run (.cpu (.insertion _) .unit) (.fresh (some soloDirectory))
      [.recover (.insertion _), .invalidate otherNamespace])
    (run (.cpu (.insertion _) .unit) (.fresh (some soloDirectory))
      [.recover (.insertion _), .recover (.insertion _), .invalidate otherNamespace]) := by
  refine recover_twice (.insertion _) .unit (some soloDirectory) [] (.insertion _) (.insertion _)
    (fun _ _ => rfl) [.invalidate otherNamespace] ?_
  have hnone : ∀ e ∈ listed CpuGraph soloDirectory (.insertion _),
      otherNamespace.covers e = false := by decide +kernel
  intro op hop
  obtain rfl := List.mem_singleton.mp hop
  intro st hst id e hload _
  obtain rfl := Option.some.inj hst
  exact hnone e (mem_listed.mpr ⟨id, hload⟩)

theorem not_indistinguishable {s s' : State Exec} (req : GraphLookupRequest)
    (hcap : req.allowCapture = false)
    (h : (lookup cfg s req {}).2.hit = false ∧ (lookup cfg s' req {}).2.hit = true) :
    ¬Indistinguishable cfg s s' := by
  intro hsame
  have hhit : ∀ res : GraphLookupResult Exec, res.report.hit = res.hit := by
    simp [GraphLookupResult.report, GraphLookupResult.hit]
  have hreport := congrArg GraphLookupResult.hit (hsame.2 req {} {} hcap)
  rw [hhit, hhit, h.1, h.2] at hreport
  cases hreport

set_option maxRecDepth 100000 in
/-- After two recoveries an invalidation of everything leaves a valid copy behind. -/
theorem recover_twice_differs : ¬Indistinguishable (.cpu (.insertion _) .unit)
    (run (.cpu (.insertion _) .unit) (.fresh (some soloDirectory))
      [.recover (.insertion _), .invalidate { scope := .byAll }])
    (run (.cpu (.insertion _) .unit) (.fresh (some soloDirectory))
      [.recover (.insertion _), .recover (.insertion _), .invalidate { scope := .byAll }]) :=
  not_indistinguishable { namedRequest "x" with allowCapture := false } rfl (by decide +kernel)

end GraphCache
