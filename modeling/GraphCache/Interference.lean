import GraphCache.Specializations
import GraphCache.Views

/-!
# Workloads and each other

In a run of lookups a workload is served by the first request of its bucket that is captured. The
abstract cache keeps no more than the facts of that request (`tell`), one bucket apart from the
other; the engine refines it (`tells_run`), unless requests of different buckets share a digest.

So lookups of one workload do not see those of another (`workloads_independent`), as long as the two
have different buckets : the key `name|namespace` of a bucket does not tell `a|b`, `c` from `a`,
`b|c`.
-/

namespace GraphCache

open History

/-! ## The abstract cache -/

/-- What a lookup tells of hits, misses and captures. -/
structure Told where
  hit : Bool
  outcome : LookupOutcome
  captureStarted : Bool
  deriving DecidableEq, Repr

def GraphLookupResult.told {Exec : Type} (res : GraphLookupResult Exec) : Told :=
  ⟨res.hit, res.outcome, res.captureStarted⟩

/-- What a request is told where the facts `held` are the only ones. -/
def tellHeld (held : CompatibilityFacts) (req : GraphLookupRequest) : Told :=
  let dec := decideCompatibility (makeFacts req) held req.policy
  if isDependencyFresh held.dependencies (makeFacts req) = false then
    ⟨false, .missStaleDependency, false⟩
  else if dec.compatible then ⟨true, hitOutcome dec.klass .hostResident, false⟩
  else ⟨false, .missIncompatible, false⟩

section

variable {Exec : Type}

/-- Whether a backend captures a graph has nothing to do with the number of the attempt. -/
def GraphBackend.Blind (b : GraphBackend Exec) : Prop :=
  ∀ g attempt attempt', b.capture g attempt = b.capture g attempt'

theorem blind_cpu (o : IterationOrder GraphNodeId) (ops : FloatOps) : (cpuBackend o ops).Blind :=
  fun _ _ _ => rfl

/-- A capture of the request succeeds. -/
def captures (cfg : Config Exec) (req : GraphLookupRequest) : Bool :=
  (captureEntry cfg 0 0 req 0 0).toOption.isSome

/-- A request to a bucket that holds facts or nothing : what it is told, and what the bucket holds
then. -/
def tell (cfg : Config Exec) (held : Option CompatibilityFacts) (req : GraphLookupRequest) :
    Told × Option CompatibilityFacts :=
  match held with
  | some f => (tellHeld f req, some f)
  | none =>
    if req.allowCapture ∧ cfg.allowCapture then
      if captures cfg req then
        let t := tellHeld (makeFacts req) req
        (if t.hit then { t with captureStarted := true } else ⟨false, .missIncompatible, true⟩,
          some (makeFacts req))
      else (⟨false, .missCaptureRequired, true⟩, none)
    else (⟨false, .missCaptureRequired, false⟩, none)

/-! ## One bucket of the engine -/

/-- The bucket `k` holds one entry for the facts `f`, which can be leased. -/
structure Registry.Sole (r : Registry Exec) (k : Str) (f : CompatibilityFacts) (a : ℕ) : Prop where
  bucket : r.byWorkload k = [a]
  inUse : a < r.next
  facts : (r.heap a).facts = f
  keyHex : (r.heap a).keyHex = (GraphCompatibilityKey.build f).digestHex
  selectable : r.Selectable a
  exec : (r.heap a).exec.isSome = true

/-- The bucket `k` holds nothing, or one entry for the facts. -/
def Registry.Holds (r : Registry Exec) (k : Str) : Option CompatibilityFacts → Prop
  | none => r.byWorkload k = []
  | some f => ∃ a, r.Sole k f a

variable {cfg : Config Exec} {r r' : Registry Exec} {s s₁ : State Exec} {req : GraphLookupRequest}
  {env : LookupEnv} {k : Str} {f : CompatibilityFacts} {held : Option CompatibilityFacts} {a : ℕ}

theorem Registry.Sole.edits (h : r.Sole k f a) (he : Edits cfg Unmarked r r')
    (hoff : r.OffBackend) : r'.Sole k f a := by
  obtain ⟨hsame, hnext⟩ := he.same a
  refine ⟨?_, ?_, ?_, ?_, (he.selectable a).mpr h.selectable, he.offBackend hoff a h.exec⟩
  · rw [he.index.1, h.bucket]
  · rw [hnext]
    exact h.inUse
  · rw [hsame.facts, h.facts]
  · rw [CacheEntry.keyHex, hsame.key]
    exact h.keyHex

theorem Registry.Holds.edits (h : r.Holds k held) (he : Edits cfg Unmarked r r')
    (hoff : r.OffBackend) : r'.Holds k held := by
  cases held with
  | none =>
    rw [Registry.Holds, he.index.1]
    exact h
  | some f =>
    obtain ⟨a, ha⟩ := h
    exact ⟨a, ha.edits he hoff⟩

/-- An entry of another bucket, under another key, changes nothing. -/
theorem Registry.Holds.register (h : r.Holds k held) {e : CacheEntry Exec}
    (hwl : workloadKey e.workload ≠ k)
    (hkey : ∀ f, held = some f → e.keyHex ≠ (GraphCompatibilityKey.build f).digestHex) :
    (r.register e).Holds k held := by
  have hbucket : (r.register e).byWorkload k = r.byWorkload k := by
    simp only [Registry.register, Function.update_of_ne hwl.symm]
  cases held with
  | none =>
    rw [Registry.Holds, hbucket]
    exact h
  | some f =>
    obtain ⟨a, ha⟩ := h
    have hheap := register_heap_of_lt r e ha.inUse
    refine ⟨a, ?_, Nat.lt_succ_of_lt ha.inUse, ?_, ?_, ⟨?_, ?_, ?_⟩, ?_⟩
    · rw [hbucket, ha.bucket]
    all_goals rw [hheap]
    · exact ha.facts
    · exact ha.keyHex
    · exact ha.selectable.1
    · simp only [Registry.register]
      split_ifs
      · exact ha.selectable.2.1
      · rw [Function.update_of_ne, ha.selectable.2.1]
        rw [ha.keyHex]
        exact (hkey f rfl).symm
    · exact ha.selectable.2.2
    · exact ha.exec

theorem told_report (res : GraphLookupResult Exec) : res.report.told = res.told := by
  simp [GraphLookupResult.told, GraphLookupResult.report, GraphLookupResult.hit]

/-- One entry that can be leased tells a request what its facts do. -/
theorem told_tellViews {v : View Exec} {x : Exec} (hsel : v.selectable = true)
    (hready : v.ready = .ok x) :
    (tellViews [v] (makeFacts req) req.policy).told = tellHeld v.facts req := by
  unfold tellViews tellHeld tellMiss
  rw [Selection.best_singleton]
  unfold View.candidate View.refused View.stale View.eligible View.decision
  by_cases hfresh : isDependencyFresh v.facts.dependencies (makeFacts req) = true
  · by_cases hcomp : (decideCompatibility (makeFacts req) v.facts req.policy).compatible = true
    · simp [View.tell, View.decision, hsel, hready, hfresh, hcomp, GraphLookupResult.told,
        GraphLookupResult.hit]
    · simp [hsel, hfresh, hcomp, GraphLookupResult.told, GraphLookupResult.hit]
  · simp [hsel, hfresh, GraphLookupResult.told, GraphLookupResult.hit]

/-- What the search of a bucket with one entry tells. -/
theorem told_searched (h : s.toRegistry.Sole (workloadKey req.workload) f a)
    (hoff : s.toRegistry.OffBackend) : (searched cfg s req).told = tellHeld f req := by
  obtain ⟨x, hx⟩ := Option.isSome_iff_exists.mp h.exec
  have hready : (s.view cfg a).ready = .ok x := by simp [State.view, CacheEntry.ready, hx]
  rw [← told_report, search_report hoff, State.bucket, makeFacts_workload, h.bucket, List.map_singleton,
    told_tellViews (by simpa [State.view] using h.selectable) hready]
  simp only [State.view, h.facts]

theorem tellHeld_ne_required (f : CompatibilityFacts) (req : GraphLookupRequest) :
    (tellHeld f req).outcome ≠ .missCaptureRequired := by
  unfold tellHeld
  dsimp only
  split_ifs
  · simp
  · exact hitOutcome_ne_miss _ _
  · simp

variable (cfg env) in
/-- A bucket with one entry answers from it, and keeps it. -/
theorem lookup_held (h : s.toRegistry.Sole (workloadKey req.workload) f a)
    (hoff : s.toRegistry.OffBackend) :
    (lookup cfg s req env).2.told = tellHeld f req ∧
      (lookup cfg s req env).1.toRegistry.Sole (workloadKey req.workload) f a := by
  have htold : (searched cfg s req).told = tellHeld f req := told_searched h hoff
  have hout : (searched cfg s req).outcome ≠ .missCaptureRequired := by
    rw [show (searched cfg s req).outcome = (searched cfg s req).told.outcome from rfl, htold]
    exact tellHeld_ne_required f req
  constructor
  · have hanswer := lookup_answer cfg s req env
    generalize (lookup cfg s req env).2 = res at hanswer
    cases hanswer with
    | found _ _ => exact htold
    | missed _ _ _ => exact htold
    | failed hmay _ _ _ => exact absurd hmay.2.2 hout
    | captured _ hcap _ _ _ _ => exact absurd hcap.2.2.1 hout
    | unusable _ hcap _ _ _ _ => exact absurd hcap.2.2.1 hout
  · obtain ⟨s₁, hbase, -, hedits, -⟩ := lookup_spec cfg s req env
    cases hbase with
    | found _ hr _ => exact h.edits (hr ▸ hedits) hoff
    | captured _ hcap _ _ _ _ => exact absurd hcap.2.2.1 hout

theorem captures_eq (hblind : cfg.backend.Blind) (generation : GraphGeneration)
    (cacheGeneration : CacheGeneration) (req : GraphLookupRequest) (attempt : CaptureAttemptId)
    (costUs : UInt64) :
    (captureEntry cfg generation cacheGeneration req attempt costUs).toOption.isSome =
      captures cfg req := by
  unfold captures captureEntry
  rcases req.descriptor.finalize cfg.nodeOrder with e | g
  · rfl
  · dsimp only [bind, Except.bind]
    rw [hblind g attempt 0]
    rcases validateTopology cfg.nodeOrder g.nodes g.edges with e | u
    · rfl
    · dsimp only
      rcases cfg.backend.capture g 0 with e | x
      · rfl
      · dsimp only
        rcases cfg.backend.validate g x with e | u <;> rfl

/-- A captured entry is the only one of a bucket that was empty. -/
theorem sole_captured {e : CacheEntry Exec} (hempty : s.byWorkload (workloadKey req.workload) = [])
    (hc : Captures cfg s req env e) :
    (s.toRegistry.register e).Sole (workloadKey req.workload) (makeFacts req) s.next := by
  obtain ⟨g, x, -, -, rfl⟩ := captureEntry_ok hc.2.2.2
  refine ⟨?_, Nat.lt_succ_self _, ?_, ?_, ⟨?_, ?_, ?_⟩, ?_⟩
  · simp [Registry.register, capturedEntry, hempty]
  all_goals rw [register_heap_self]
  · rfl
  · rfl
  · rfl
  · simp [Registry.register, capturedEntry]
  · rfl
  · rfl

/-- A bucket that is empty is filled by a request that is captured. -/
theorem lookup_empty (hblind : cfg.backend.Blind)
    (h : s.toRegistry.Holds (workloadKey req.workload) none) (hoff : s.toRegistry.OffBackend) :
    (lookup cfg s req env).2.told = (tell cfg none req).1 ∧
      (lookup cfg s req env).1.toRegistry.Holds (workloadKey req.workload) (tell cfg none req).2 := by
  have hempty : s.bucket (makeFacts req) = [] := by
    rw [State.bucket, makeFacts_workload]
    exact h
  have hsearch : searchCandidates cfg s (makeFacts req) req.policy =
      (s, { outcome := .missCaptureRequired }) := search_required cfg (by rw [hempty]; simp)
  -- After a capture the bucket holds the entry of the request, and tells what that does.
  have hcaptured : ∀ e s₁, Captures cfg s req env e → s₁.toRegistry = s.toRegistry.register e →
      (searched cfg s₁ req).told = tellHeld (makeFacts req) req ∧
      (searchCandidates cfg s₁ (makeFacts req) req.policy).1.toRegistry.Holds
        (workloadKey req.workload) (some (makeFacts req)) ∧
      tell cfg none req = (if (tellHeld (makeFacts req) req).hit then
        { tellHeld (makeFacts req) req with captureStarted := true }
        else ⟨false, .missIncompatible, true⟩, some (makeFacts req)) := by
    intro e s₁ hcap hr
    have hsole := sole_captured h hcap
    have hoff₁ : s₁.toRegistry.OffBackend := by
      obtain ⟨g, x, -, -, rfl⟩ := captureEntry_ok hcap.2.2.2
      rw [hr]
      exact hoff.register (by simp [capturedEntry])
    rw [← hr] at hsole
    refine ⟨told_searched hsole hoff₁, ?_, ?_⟩
    · obtain ⟨-, hedits, -, -⟩ := searchCandidates_spec cfg s₁ (makeFacts req) req.policy
      exact Registry.Holds.edits ⟨_, hsole⟩ hedits hoff₁
    · have hcaptures : captures cfg req = true := by
        rw [← captures_eq hblind, hcap.2.2.2]
        rfl
      simp [tell, hcap.1, hcap.2.1, hcaptures]
  have hanswer := lookup_answer cfg s req env
  generalize (lookup cfg s req env).2 = res at hanswer
  cases hanswer with
  | found hhit _ =>
    rw [searched, hsearch] at hhit
    cases hhit
  | missed _ hno hs =>
    have htell : tell cfg none req = (⟨false, .missCaptureRequired, false⟩, none) := by
      refine if_neg fun hallowed => hno ⟨hallowed.1, hallowed.2, ?_⟩
      rw [searched, hsearch]
    rw [hsearch] at hs
    rw [htell, searched, hsearch, hs]
    exact ⟨rfl, h⟩
  | failed hmay err he hs =>
    have hcaptures : captures cfg req = false := by
      rw [← captures_eq hblind, he]
      rfl
    have htell : tell cfg none req = (⟨false, .missCaptureRequired, true⟩, none) := by
      simp [tell, hmay.1, hmay.2.1, hcaptures]
    rw [htell, searched, hsearch, hs]
    exact ⟨rfl, h⟩
  | captured e hcap s₁ hr hhit hs =>
    obtain ⟨htold, hholds, htell⟩ := hcaptured e s₁ hcap hr
    have hhit' : (tellHeld (makeFacts req) req).hit = true := by
      rw [← htold]
      exact hhit
    rw [htell, if_pos hhit', hs, ← htold]
    exact ⟨rfl, hholds⟩
  | unusable e hcap s₁ hr hmiss hs =>
    obtain ⟨htold, hholds, htell⟩ := hcaptured e s₁ hcap hr
    have hmiss' : (tellHeld (makeFacts req) req).hit = false := by
      rw [← htold]
      exact hmiss
    rw [htell, hmiss', hs, searched, hsearch]
    exact ⟨rfl, hholds⟩

/-- A lookup in another bucket, under another key, changes nothing. -/
theorem lookup_other (h : s.toRegistry.Holds k held) (hoff : s.toRegistry.OffBackend)
    (hwl : workloadKey req.workload ≠ k)
    (hkey : ∀ f, held = some f → requestKey req ≠ (GraphCompatibilityKey.build f).digestHex) :
    (lookup cfg s req env).1.toRegistry.Holds k held := by
  obtain ⟨s₁, hbase, -, hedits, -⟩ := lookup_spec cfg s req env
  cases hbase with
  | found _ hr _ => exact h.edits (hr ▸ hedits) hoff
  | captured e hc hr _ _ _ =>
    obtain ⟨g, x, -, -, rfl⟩ := captureEntry_ok hc.2.2.2
    rw [hr] at hedits
    refine (h.register ?_ ?_).edits hedits (hoff.register ?_)
    · exact hwl
    · exact hkey
    · simp [capturedEntry]

/-! ## Runs of lookups -/

/-- What each bucket of the abstract cache holds. -/
abbrev Held := Str → Option CompatibilityFacts

/-- What a bucket holds after a request. -/
def Held.next (cfg : Config Exec) (m : Held) (req : GraphLookupRequest) : Held :=
  Function.update m (workloadKey req.workload) (tell cfg (m (workloadKey req.workload)) req).2

/-- A request of the workload, by name and namespace. -/
def GraphLookupRequest.Of (req : GraphLookupRequest) (wl : WorkloadIdentity) : Prop :=
  req.workload.logicalName = wl.logicalName ∧ req.workload.namespaceName = wl.namespaceName

instance (req : GraphLookupRequest) (wl : WorkloadIdentity) : Decidable (req.Of wl) :=
  inferInstanceAs (Decidable (_ ∧ _))

/-- What the requests of a workload are told in a run of lookups. -/
def toldFor (cfg : Config Exec) (wl : WorkloadIdentity) :
    State Exec → List (GraphLookupRequest × LookupEnv) → List Told
  | _, [] => []
  | s, (req, env) :: rest =>
    let (s, res) := lookup cfg s req env
    if req.Of wl then res.told :: toldFor cfg wl s rest else toldFor cfg wl s rest

/-- The same of the abstract cache. -/
def tellFor (cfg : Config Exec) (wl : WorkloadIdentity) :
    Held → List (GraphLookupRequest × LookupEnv) → List Told
  | _, [] => []
  | m, (req, _) :: rest =>
    let t := (tell cfg (m (workloadKey req.workload)) req).1
    if req.Of wl then t :: tellFor cfg wl (m.next cfg req) rest
    else tellFor cfg wl (m.next cfg req) rest

/-- The engine does what the abstract cache says. -/
structure Refines (s : State Exec) (m : Held) : Prop where
  offBackend : s.toRegistry.OffBackend
  holds : ∀ k, s.toRegistry.Holds k (m k)

theorem refines_fresh (store : Option Store) :
    Refines (.fresh store : State Exec) fun _ => none :=
  ⟨offBackend_fresh store, fun _ => rfl⟩

/-- A request of another bucket has another key than the facts that a bucket holds. -/
def Held.Apart (m : Held) (req : GraphLookupRequest) : Prop :=
  ∀ k f, m k = some f → workloadKey req.workload ≠ k →
    requestKey req ≠ (GraphCompatibilityKey.build f).digestHex

variable (cfg) in
theorem tell_held (held : Option CompatibilityFacts) (req : GraphLookupRequest) :
    (tell cfg held req).2 = held ∨ (tell cfg held req).2 = some (makeFacts req) := by
  unfold tell
  split
  · exact .inl rfl
  · split_ifs
    · exact .inr rfl
    · exact .inl rfl
    · exact .inl rfl

/-- What a request adds is filed under it, so that it is apart from requests of another key. -/
theorem Held.Apart.next {m : Held} {req' : GraphLookupRequest} (h : m.Apart req')
    (hkey : workloadKey req'.workload ≠ workloadKey req.workload → requestKey req' ≠ requestKey req) :
    (m.next cfg req).Apart req' := by
  intro k f hf hne
  unfold Held.next at hf
  by_cases hk : k = workloadKey req.workload
  · subst hk
    rw [Function.update_self] at hf
    rcases tell_held cfg (m (workloadKey req.workload)) req with hsame | hadded
    · exact h _ f (hsame ▸ hf) hne
    · obtain rfl := Option.some.inj (hadded.symm.trans hf)
      exact hkey hne
  · rw [Function.update_of_ne hk] at hf
    exact h k f hf hne

variable (env) in
theorem refines_lookup (hblind : cfg.backend.Blind) {m : Held} (h : Refines s m)
    (hapart : m.Apart req) :
    (lookup cfg s req env).2.told = (tell cfg (m (workloadKey req.workload)) req).1 ∧
      Refines (lookup cfg s req env).1 (m.next cfg req) := by
  have hown : (lookup cfg s req env).2.told = (tell cfg (m (workloadKey req.workload)) req).1 ∧
      (lookup cfg s req env).1.toRegistry.Holds (workloadKey req.workload)
        (tell cfg (m (workloadKey req.workload)) req).2 := by
    have hholds := h.holds (workloadKey req.workload)
    generalize m (workloadKey req.workload) = held at hholds ⊢
    cases held with
    | none => exact lookup_empty hblind hholds h.offBackend
    | some f =>
      obtain ⟨a, ha⟩ := hholds
      obtain ⟨htold, hsole⟩ := lookup_held cfg env ha h.offBackend
      exact ⟨htold, a, hsole⟩
  refine ⟨hown.1, h.offBackend.run [.lookup req env], fun k => ?_⟩
  unfold Held.next
  by_cases hk : k = workloadKey req.workload
  · subst hk
    rw [Function.update_self]
    exact hown.2
  · rw [Function.update_of_ne hk]
    exact lookup_other (h.holds k) h.offBackend (Ne.symm hk) fun f hf => hapart k f hf (Ne.symm hk)

/-- No two requests of different buckets have the same key. -/
def CollisionFree (seq : List (GraphLookupRequest × LookupEnv)) : Prop :=
  ∀ p ∈ seq, ∀ q ∈ seq, workloadKey p.1.workload ≠ workloadKey q.1.workload →
    requestKey p.1 ≠ requestKey q.1

/-- In a run of lookups the engine refines the abstract cache. -/
theorem tells_run (hblind : cfg.backend.Blind) (wl : WorkloadIdentity) {m : Held} (h : Refines s m)
    {seq : List (GraphLookupRequest × LookupEnv)} (hfree : CollisionFree seq)
    (hapart : ∀ p ∈ seq, m.Apart p.1) : toldFor cfg wl s seq = tellFor cfg wl m seq := by
  induction seq generalizing s m with
  | nil => rfl
  | cons p rest ih =>
    obtain ⟨req, env⟩ := p
    obtain ⟨htold, hnext⟩ :=
      refines_lookup env hblind h (hapart (req, env) List.mem_cons_self)
    have hrest : toldFor cfg wl (lookup cfg s req env).1 rest =
        tellFor cfg wl (m.next cfg req) rest := by
      refine ih hnext ?_ ?_
      · exact fun p hp q hq => hfree p (List.mem_cons_of_mem _ hp) q (List.mem_cons_of_mem _ hq)
      · exact fun q hq => (hapart q (List.mem_cons_of_mem _ hq)).next
          (hfree q (List.mem_cons_of_mem _ hq) (req, env) List.mem_cons_self)
    simp only [toldFor, tellFor]
    rw [htold, hrest]

/-! ## Independence -/

theorem GraphLookupRequest.Of.workloadKey {wl : WorkloadIdentity} (h : req.Of wl) :
    workloadKey req.workload = GraphCache.workloadKey wl := by
  rw [GraphCache.workloadKey, GraphCache.workloadKey, h.1, h.2]

/-- The abstract cache keeps its buckets apart. -/
theorem tellFor_filter {wl wl' : WorkloadIdentity} (hne : workloadKey wl ≠ workloadKey wl')
    {m m' : Held} (hm : m (workloadKey wl) = m' (workloadKey wl))
    (seq : List (GraphLookupRequest × LookupEnv)) :
    tellFor cfg wl m seq = tellFor cfg wl m' (seq.filter fun p => ¬p.1.Of wl') := by
  induction seq generalizing m m' with
  | nil => rfl
  | cons p rest ih =>
    obtain ⟨req, env⟩ := p
    have hskip : workloadKey req.workload ≠ workloadKey wl → m.next cfg req (workloadKey wl) =
        m (workloadKey wl) := fun hother => Function.update_of_ne (Ne.symm hother) _ _
    by_cases hdel : req.Of wl'
    · have hother : workloadKey req.workload ≠ workloadKey wl := by
        rw [hdel.workloadKey]
        exact hne.symm
      have hnot : ¬req.Of wl := fun hof => hother hof.workloadKey
      rw [List.filter_cons_of_neg (by simpa using hdel)]
      simp only [tellFor, if_neg hnot]
      exact ih ((hskip hother).trans hm)
    · rw [List.filter_cons_of_pos (by simpa using hdel)]
      have hnext : m.next cfg req (workloadKey wl) = m'.next cfg req (workloadKey wl) := by
        unfold Held.next
        by_cases hk : workloadKey wl = workloadKey req.workload
        · rw [← hk, Function.update_self, Function.update_self, hm]
        · rw [Function.update_of_ne hk, Function.update_of_ne hk, hm]
      by_cases hof : req.Of wl
      · simp only [tellFor, if_pos hof, hof.workloadKey, hm]
        rw [ih hnext]
      · simp only [tellFor, if_neg hof]
        exact ih hnext

end

/-- Lookups of `wl'` are not seen by those of `wl` : without them, the latter are told the same. -/
def Independent {Exec : Type} (cfg : Config Exec) (wl wl' : WorkloadIdentity) : Prop :=
  ∀ store seq, CollisionFree seq → toldFor cfg wl (.fresh store) seq =
    toldFor cfg wl (.fresh store) (seq.filter fun p => ¬p.1.Of wl')

/-- A request of the workload for the empty graph. -/
def emptyRequest (wl : WorkloadIdentity) : GraphLookupRequest where
  workload := wl
  allowCapture := true

theorem captures_emptyRequest (o : IterationOrder GraphNodeId) (ops : FloatOps)
    (wl : WorkloadIdentity) : captures (.cpu o ops) (emptyRequest wl) = true := by
  have hv : validateTopology o [] [] = .ok () := by
    refine validateTopology_ok_iff.mpr ⟨List.nodup_nil, List.nodup_nil, by simp, List.nodup_nil, ?_⟩
    intro v h
    obtain ⟨u, -, hu⟩ := Relation.TransGen.tail'_iff.mp h
    cases hu
  simp [captures, captureEntry, emptyRequest, GraphDescriptor.finalize, canonicalizeTopology, sortById,
    Config.cpu, cpuBackend, cpuCapture, hv, bind, Except.bind, pure, Except.pure, Except.toOption]

theorem tell_emptyRequest (o : IterationOrder GraphNodeId) (ops : FloatOps) (wl : WorkloadIdentity) :
    (tell (.cpu o ops) none (emptyRequest wl)).1.captureStarted = true ∧
      (tell (.cpu o ops) none (emptyRequest wl)).2 = some (makeFacts (emptyRequest wl)) := by
  unfold tell
  dsimp only
  rw [if_pos ⟨rfl, rfl⟩, if_pos (captures_emptyRequest o ops wl)]
  refine ⟨?_, rfl⟩
  dsimp only
  split_ifs <;> rfl

theorem captureStarted_tellHeld (f : CompatibilityFacts) (req : GraphLookupRequest) :
    (tellHeld f req).captureStarted = false := by
  unfold tellHeld
  dsimp only
  split_ifs <;> rfl

section

variable (o : IterationOrder GraphNodeId) (ops : FloatOps) (wl wl' : WorkloadIdentity)

theorem tells_fresh (store : Option Store) {seq : List (GraphLookupRequest × LookupEnv)}
    (hfree : CollisionFree seq) :
    toldFor (.cpu o ops) wl (.fresh store) seq = tellFor (.cpu o ops) wl (fun _ => none) seq :=
  tells_run (blind_cpu o ops) wl (refines_fresh store) hfree fun _ _ _ _ hf => by cases hf

theorem CollisionFree.filter {seq : List (GraphLookupRequest × LookupEnv)} (h : CollisionFree seq)
    (p : GraphLookupRequest × LookupEnv → Bool) : CollisionFree (seq.filter p) :=
  fun x hx y hy => h x (List.mem_of_mem_filter hx) y (List.mem_of_mem_filter hy)

variable {wl wl'} in
/-- A request of `wl'` that is captured takes the bucket from a request of `wl`. -/
theorem interferes_of_workloadKey (hne : wl.logicalName ≠ wl'.logicalName ∨
    wl.namespaceName ≠ wl'.namespaceName) (hkey : workloadKey wl = workloadKey wl') :
    ¬Independent (.cpu o ops) wl wl' := by
  intro h
  have hnot : ¬(emptyRequest wl).Of wl' := by
    rintro ⟨hname, hns⟩
    rcases hne with hne | hne
    · exact hne hname
    · exact hne hns
  have hnot' : ¬(emptyRequest wl').Of wl := by
    rintro ⟨hname, hns⟩
    exact hnot ⟨hname.symm, hns.symm⟩
  have hself : ∀ w, (emptyRequest w).Of w := fun w => ⟨rfl, rfl⟩
  have hwl : workloadKey (emptyRequest wl).workload = workloadKey (emptyRequest wl').workload := hkey
  have hfree : CollisionFree [(emptyRequest wl', {}), (emptyRequest wl, {})] := by
    intro p hp q hq hpq
    have hbucket : ∀ p ∈ [(emptyRequest wl', ({} : LookupEnv)), (emptyRequest wl, {})],
        workloadKey p.1.workload = workloadKey wl := by
      simp [emptyRequest, hkey]
    exact absurd ((hbucket p hp).trans (hbucket q hq).symm) hpq
  obtain ⟨hstarted, -⟩ := tell_emptyRequest o ops wl
  obtain ⟨-, htaken⟩ := tell_emptyRequest o ops wl'
  have hfull : tellFor (.cpu o ops) wl (fun _ => none)
      [(emptyRequest wl', {}), (emptyRequest wl, {})] =
      [tellHeld (makeFacts (emptyRequest wl')) (emptyRequest wl)] := by
    simp only [tellFor, if_neg hnot', if_pos (hself wl), Held.next, hwl, Function.update_self, htaken]
    rfl
  have heq := h none _ hfree
  rw [tells_fresh o ops wl none hfree, tells_fresh o ops wl none (hfree.filter _), hfull,
    List.filter_cons_of_neg (by simpa using hself wl'),
    List.filter_cons_of_pos (by simpa using hnot)] at heq
  simp only [List.filter_nil, tellFor, if_pos (hself wl), List.cons.injEq, and_true] at heq
  rw [← heq, captureStarted_tellHeld] at hstarted
  cases hstarted

/-- On the CPU backend two workloads are independent exactly if their buckets have different keys. -/
theorem workloads_independent (hne : wl.logicalName ≠ wl'.logicalName ∨
    wl.namespaceName ≠ wl'.namespaceName) :
    Independent (.cpu o ops) wl wl' ↔ workloadKey wl ≠ workloadKey wl' := by
  constructor
  · exact fun h hkey => interferes_of_workloadKey o ops hne hkey h
  · intro hkey store seq hfree
    rw [tells_fresh o ops wl store hfree, tells_fresh o ops wl store (hfree.filter _)]
    exact tellFor_filter hkey rfl seq

end

theorem workloads_independent_plain :
    Independent (.cpu (.insertion _) .unit) { logicalName := str "a" } { logicalName := str "b" } :=
  (workloads_independent (.insertion _) .unit _ _ (.inl (by decide))).mpr (by decide)

/-- The separator in a name : `a|b` in the namespace `c`, and `a` in the namespace `b|c`. -/
theorem workloads_interfere :
    ({ logicalName := str "a|b", namespaceName := str "c" } : WorkloadIdentity).logicalName ≠
        ({ logicalName := str "a", namespaceName := str "b|c" } : WorkloadIdentity).logicalName ∧
      ¬Independent (.cpu (.insertion _) .unit)
        { logicalName := str "a|b", namespaceName := str "c" }
        { logicalName := str "a", namespaceName := str "b|c" } :=
  ⟨by decide, interferes_of_workloadKey (.insertion _) .unit (.inl (by decide)) (by decide)⟩

end GraphCache
