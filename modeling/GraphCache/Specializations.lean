import GraphCache.CpuBackend
import GraphCache.History
import GraphCache.Lookups

/-!
# Specializations of a workload

A request that is captured is an exact hit for itself, except where two of its dependencies have
one name and differ : `is_dependency_fresh` compares each dependency of the request with every
captured one of the same name (`capture_then_hit`).

A workload whose bucket holds a selectable entry captures no other specialization : a request that
no entry is compatible with is told so, and the entry stays (`one_authority`).
-/

namespace GraphCache

open History

/-! ## Compatibility with oneself -/

/-- Dependencies of one name that contribute to correctness agree. -/
def Consistent (deps : List KernelIdentityRef) : Prop :=
  ∀ d ∈ deps, ∀ d' ∈ deps, d.contributesToCorrectness = true → d'.contributesToCorrectness = true →
    d'.name = d.name →
      d'.generation = d.generation ∧ d'.contentDigest = d.contentDigest ∧ d'.abi = d.abi

instance (deps : List KernelIdentityRef) : Decidable (Consistent deps) :=
  inferInstanceAs (Decidable (∀ d ∈ deps, ∀ d' ∈ deps, _ → _ → _ → _))

theorem isDependencyFresh_self_iff (f : CompatibilityFacts) :
    isDependencyFresh f.dependencies f = true ↔ Consistent f.dependencies := by
  simp only [isDependencyFresh, List.all_eq_true, Bool.or_eq_true, Bool.not_eq_true', Bool.and_eq_true,
    Bool.and_eq_false_imp, beq_iff_eq, Consistent]
  constructor
  · intro h d hd d' hd' hc hc' hname
    rcases h d hd with hfalse | hall
    · rw [hc] at hfalse
      cases hfalse
    · rcases hall d' hd' with hfalse | ⟨⟨hgen, hdig⟩, habi⟩
      · rw [hfalse hname] at hc'
        cases hc'
      · exact ⟨hgen, hdig, habi⟩
  · intro h d hd
    by_cases hc : d.contributesToCorrectness = true
    · refine .inr fun d' hd' => ?_
      by_cases hmatch : d'.name = d.name → d'.contributesToCorrectness = false
      · exact .inl hmatch
      · push Not at hmatch
        obtain ⟨hgen, hdig, habi⟩ :=
          h d hd d' hd' hc ((Bool.not_eq_false _).mp hmatch.2) hmatch.1
        exact .inr ⟨⟨hgen, hdig⟩, habi⟩
    · exact .inl ((Bool.not_eq_true _).mp hc)

/-- A policy that does not filter out the namespace accepts facts for themselves, exactly, unless
their scalar is no number. -/
theorem decideCompatibility_self (f : CompatibilityFacts) (policy : GraphCompatibilityPolicy)
    (hns : policy.namespaceFilter = [] ∨ policy.namespaceFilter = f.workload.namespaceName)
    (hnan : f.scalar.specialized = true → f.scalar.floatValue.isNaN = false) :
    (decideCompatibility f f policy).klass = .exactCompatible := by
  have hfilter : ¬(policy.namespaceFilter ≠ [] ∧
      f.workload.namespaceName ≠ policy.namespaceFilter) := by
    rintro ⟨hne, hother⟩
    rcases hns with hns | hns
    · exact hne hns
    · exact hother hns.symm
  have hscalar : ¬(f.scalar.specialized = true ∧
      f.scalar.floatValue.eq f.scalar.floatValue = false) := by
    rintro ⟨hspec, hne⟩
    rw [Double.eq_self, hnan hspec] at hne
    cases hne
  have hhard : ∀ v, hardDomains f f policy v = v := by
    intro v
    simp [hardDomains, Verdict.failIf, dependencyDomain, missingDependency_self, hscalar]
  rw [decideCompatibility, if_neg (by simp), if_neg hfilter, hhard]
  simp [bindingDomain, shapeDomain, Verdict.failIf, Verdict.conclude]

/-! ## The entry of a request -/

section

variable {Exec : Type} {cfg : Config Exec} {r : Registry Exec} {s : State Exec}
  {req : GraphLookupRequest} {env : LookupEnv} {a : ℕ}

/-- The digest under which a request captures. -/
abbrev requestKey (req : GraphLookupRequest) : Str :=
  (GraphCompatibilityKey.build (makeFacts req)).digestHex

/-- Facts of the bucket of the request that are fresh and exact for it. -/
structure ExactFacts (facts : CompatibilityFacts) (req : GraphLookupRequest) : Prop where
  workload : workloadKey facts.workload = workloadKey req.workload
  fresh : isDependencyFresh facts.dependencies (makeFacts req) = true
  exact : (decideCompatibility (makeFacts req) facts req.policy).klass = .exactCompatible

/-- The entry at `a` is a selectable one of the bucket of the request, under its key, and exact for
it. -/
structure Registry.Serves (r : Registry Exec) (req : GraphLookupRequest) (a : ℕ) : Prop where
  mem : a ∈ r.byWorkload (workloadKey req.workload)
  inUse : a < r.next
  keyHex : (r.heap a).keyHex = requestKey req
  selectable : r.Selectable a
  exact : ExactFacts (r.heap a).facts req

theorem Registry.Selectable.set (h : r.Selectable a) {b : ℕ} {e : CacheEntry Exec}
    (he : Edit cfg False (r.heap b) e) : (r.set b e).Selectable a := by
  obtain ⟨hvalid, hgen, hlife⟩ := h
  by_cases hab : a = b
  · subst hab
    obtain ⟨hsame, hkept | ⟨hmark, -⟩⟩ := he.spec
    · refine ⟨?_, ?_, ?_⟩
      all_goals rw [set_heap_self]
      · rw [hkept.1, hvalid]
      · rw [CacheEntry.keyHex, hsame.key, hsame.generation]
        exact hgen
      · rw [hkept.2, hlife]
    · exact hmark.elim
  · unfold Registry.Selectable
    rw [set_heap_of_ne r e hab]
    exact ⟨hvalid, hgen, hlife⟩

theorem Registry.Serves.set (h : r.Serves req a) {b : ℕ} {e : CacheEntry Exec}
    (he : Edit cfg False (r.heap b) e) : (r.set b e).Serves req a := by
  obtain ⟨hsame, -, -⟩ := he.set_spec (M := fun _ => False) a
  refine ⟨h.mem, h.inUse, ?_, h.selectable.set he, ?_⟩
  · rw [CacheEntry.keyHex, hsame.key]
    exact h.keyHex
  · rw [hsame.facts]
    exact h.exact

/-- An entry that does not take over the key changes nothing. -/
theorem Registry.Serves.register (h : r.Serves req a) {e : CacheEntry Exec}
    (he : e.invalidated = true ∨ e.keyHex ≠ requestKey req) : (r.register e).Serves req a := by
  have hheap := register_heap_of_lt r e h.inUse
  have hcurrent : (r.register e).keyCurrentGen (r.heap a).keyHex = some (r.heap a).generation := by
    simp only [Registry.register]
    split_ifs with hinv
    · exact h.selectable.2.1
    · rw [Function.update_of_ne, h.selectable.2.1]
      rw [h.keyHex]
      exact (he.resolve_left hinv).symm
  have hmem : a ∈ (r.register e).byWorkload (workloadKey req.workload) := by
    simp only [Registry.register, Function.update_apply]
    split_ifs with hwl
    · rw [← hwl]
      exact List.mem_append_left _ h.mem
    · exact h.mem
  refine ⟨hmem, Nat.lt_succ_of_lt h.inUse, ?_, ⟨?_, ?_, ?_⟩, ?_⟩
  all_goals rw [hheap]
  · exact h.keyHex
  · exact h.selectable.1
  · exact hcurrent
  · exact h.selectable.2.2
  · exact h.exact

/-- A valid entry under the key, exact for the request, serves it. -/
theorem serves_register {e : CacheEntry Exec} (hvalid : e.invalidated = false)
    (hlife : e.lifecycle = .valid) (hkey : e.keyHex = requestKey req)
    (hfacts : e.facts.workload = e.workload) (hexact : ExactFacts e.facts req) :
    (r.register e).Serves req r.next := by
  refine ⟨?_, Nat.lt_succ_self _, ?_, ⟨?_, ?_, ?_⟩, ?_⟩
  · simp [Registry.register, ← hexact.workload, hfacts]
  all_goals rw [register_heap_self]
  · exact hkey
  · exact hvalid
  · simp [Registry.register, hvalid]
  · rw [hlife]
    rfl
  · exact hexact

/-- The step invalidates nothing, and a valid entry that it adds under the key of the request is
exact for the request. -/
def Undisturbing (req : GraphLookupRequest) (s : State Exec) : Op Exec → Prop
  | .invalidate _ => False
  | .lookup req' _ => requestKey req' = requestKey req → ExactFacts (makeFacts req') req
  | .recover _ => ∀ store id, s.store = some store → ∀ e : CacheEntry Exec,
      loadEntry store id = some e → e.invalidated = false → e.keyHex = requestKey req →
        ExactFacts e.facts req
  | _ => True

theorem serves_step (h : ∃ a, s.toRegistry.Serves req a) {op : Op Exec}
    (hop : Undisturbing req s op) : ∃ a, (step cfg s op).toRegistry.Serves req a := by
  have hmarks : ∀ b, ¬Marks s op b := by
    intro b
    cases op with
    | invalidate _ => exact hop.elim
    | _ => exact id
  refine (step_evolves cfg s op).invariant (I := fun r => ∃ a, r.Serves req a) h
    (fun r b e ⟨a, ha⟩ he => ⟨a, ha.set (he.mono (hmarks b))⟩) ?_
  rintro r e ⟨a, ha⟩ hreg
  by_cases hover : e.invalidated = true ∨ e.keyHex ≠ requestKey req
  · exact ⟨a, ha.register hover⟩
  push Not at hover
  obtain ⟨hvalid, hkey⟩ := hover
  replace hvalid := (Bool.not_eq_true _).mp hvalid
  refine ⟨r.next, ?_⟩
  cases op with
  | lookup req' env' =>
    obtain ⟨g, x, -, -, rfl⟩ := captureEntry_ok hreg.2.2.2.2
    exact serves_register rfl rfl hkey (makeFacts_workload req') (hop hkey)
  | recover listing =>
    obtain ⟨store, -, id, -, hstore, -, -, hload⟩ := hreg
    have hexact := hop store id hstore e hload hvalid hkey
    obtain ⟨g, md, rfl⟩ := loadEntry_some hload
    refine serves_register hvalid ?_ hkey (collectFacts_workload _ _ _ _ _) hexact
    simp only [recoveredEntry] at hvalid ⊢
    rw [hvalid]
    rfl
  | _ => exact hreg.elim

theorem serves_after (h : ∃ a, s.toRegistry.Serves req a) {later : List (Op Exec)}
    (hl : Throughout (step cfg) s (Undisturbing req) later) :
    ∃ a, (run cfg s later).toRegistry.Serves req a := by
  induction later using List.reverseRecOn with
  | nil => exact h
  | append_singleton ops op ih =>
    rw [throughout_concat] at hl
    rw [run_concat]
    exact serves_step (ih hl.1) hl.2

/-! ## Exact hits -/

/-- An exact hit. -/
def ExactHit (res : GraphLookupResult Exec) : Prop :=
  res.hit = true ∧ res.decision.klass = .exactCompatible

/-- A hit is exact if what the search finds is : a request that captures finds its own entry. -/
theorem exactHit_of_hit (hself : SelfExact req) (hhit : (lookup cfg s req env).2.hit = true)
    (hfound : (searched cfg s req).hit = true →
      (searched cfg s req).decision.klass = .exactCompatible) :
    ExactHit (lookup cfg s req env).2 := by
  refine ⟨hhit, ?_⟩
  rcases hit_cases hhit with ⟨hhit, heq, -⟩ | ⟨e, s₁, hcap, hr, -, heq, -⟩
  · rw [heq]
    exact hfound hhit
  · rw [heq]
    exact (searched_captured hself hcap hr).2

/-- A request that can be captured is an exact hit wherever an entry serves it, since the search
prefers exact entries. -/
theorem exactHit_of_serves (h : s.toRegistry.Serves req a) (hc : Obtainable cfg req)
    (hself : SelfExact req) : ExactHit (lookup cfg s req env).2 := by
  have hmem : a ∈ s.bucket (makeFacts req) := by
    rw [State.bucket, makeFacts_workload]
    exact h.mem
  have hcand : s.Candidate (makeFacts req) req.policy a :=
    ⟨h.selectable, h.exact.fresh, compatible_of_exact h.exact.exact⟩
  refine exactHit_of_hit hself ((lookup_hit_iff hc hself).mpr (.inl ⟨a, hmem, hcand⟩)) ?_
  intro hfound
  obtain ⟨l, hl⟩ := Option.isSome_iff_exists.mp hfound
  obtain ⟨_, hsearch⟩ := (searchCandidates_spec cfg s (makeFacts req) req.policy).2.2.1 l hl
  obtain ⟨hbest, hdec⟩ := scan_chosen hsearch.chosen
  rw [hdec]
  exact hbest.exact ⟨a, hmem, hcand, h.exact.exact⟩

/-- A request that captures is served from then on. -/
theorem serves_lookup {e : CacheEntry Exec} (hc : Captures cfg s req env e) (hself : SelfExact req) :
    ∃ a, (lookup cfg s req env).1.toRegistry.Serves req a := by
  obtain ⟨s₁, hbase, -, hedits, -⟩ := lookup_spec cfg s req env
  refine ⟨s.next, ?_⟩
  cases hbase with
  | found hn _ _ => exact absurd hc (hn e)
  | captured e' hc' hr _ _ _ =>
    have hserves : s₁.toRegistry.Serves req s.next := by
      obtain ⟨g, x, -, -, rfl⟩ := captureEntry_ok hc'.2.2.2
      rw [hr]
      refine serves_register rfl rfl rfl (makeFacts_workload req) ⟨?_, hself.fresh, hself.exact⟩
      rw [show (capturedEntry _ _ req g x _).facts = makeFacts req from rfl, makeFacts_workload]
    exact hedits.invariant (I := fun r => r.Serves req s.next) hserves
      (fun r b e hr he => hr.set he) fun _ _ _ hp => hp.elim

/-- In an empty bucket a request hits only if its facts are fresh for themselves. -/
theorem fresh_of_hit (hempty : s.bucket (makeFacts req) = [])
    (hhit : (lookup cfg s req env).2.hit = true) :
    isDependencyFresh (makeFacts req).dependencies (makeFacts req) = true := by
  have hmiss : (searched cfg s req).hit = false := by
    rw [searched, search_required cfg (by rw [hempty]; simp)]
    rfl
  rcases hit_cases hhit with ⟨hhit, -, -⟩ | ⟨e, s₁, hcap, hr, hagain, -, -⟩
  · rw [hmiss] at hhit
    cases hhit
  · obtain ⟨l, hl⟩ := Option.isSome_iff_exists.mp hagain
    obtain ⟨_, hsearch⟩ := (searchCandidates_spec cfg s₁ (makeFacts req) req.policy).2.2.1 l hl
    obtain ⟨hbest, -⟩ := scan_chosen hsearch.chosen
    obtain ⟨g, x, -, -, rfl⟩ := captureEntry_ok hcap.2.2.2
    have hmem := hbest.mem
    rw [hr] at hmem
    rcases mem_update_concat hmem with hold | ⟨hentry, -⟩
    · rw [show s.byWorkload _ = [] from hempty] at hold
      cases hold
    · have hfresh := hbest.candidate.fresh
      rw [hr, hentry, register_heap_self] at hfresh
      exact hfresh

end

/-! ## Capture, then hit -/

/-- The first lookup of the request on an empty cache is an exact hit, and so is every later one, as
long as the steps between do not disturb it. -/
def HitsExactly {Exec : Type} (cfg : Config Exec) (store : Option Store) (req : GraphLookupRequest) :
    Prop :=
  ∀ env, ExactHit (lookup cfg (.fresh store) req env).2 ∧
    ∀ later, Throughout (step cfg) (lookup cfg (.fresh store) req env).1 (Undisturbing req) later →
      ∀ env', ExactHit (lookup cfg (run cfg (lookup cfg (.fresh store) req env).1 later) req env').2

/-- A request that the CPU backend captures hits exactly from then on, provided that its
dependencies of one name agree. -/
theorem capture_then_hit (o : IterationOrder GraphNodeId) (ops : FloatOps) (store : Option Store)
    (req : GraphLookupRequest) (g : GraphDescriptor) (attempt : CaptureAttemptId) (x : CpuGraph)
    (hallow : req.allowCapture = true) (hg : req.descriptor.finalize o = .ok g)
    (hx : (cpuBackend o ops).capture g attempt = .ok x)
    (hv : (cpuBackend o ops).validate g x = .ok ())
    (hns : req.policy.namespaceFilter = [] ∨
      req.policy.namespaceFilter = req.workload.namespaceName)
    (hnan : (makeFacts req).scalar.floatValue.isNaN = false) :
    HitsExactly (.cpu o ops) store req ↔ Consistent req.descriptor.dependencies := by
  have hdeps : (makeFacts req).dependencies = req.descriptor.dependencies :=
    collectFacts_dependencies _ _ _ _ _
  rw [← hdeps, ← isDependencyFresh_self_iff]
  constructor
  · intro h
    exact fresh_of_hit rfl (h {}).1.1
  · intro hfresh env
    have hcap : Obtainable (.cpu o ops) req :=
      ⟨rfl, hallow, g, hg, hv, fun _ => ⟨x, hx, hv⟩⟩
    have hself : SelfExact req := by
      refine ⟨hfresh, decideCompatibility_self _ _ ?_ fun _ => hnan⟩
      rw [makeFacts_workload]
      exact hns
    have hempty : ∀ a ∈ (State.fresh store : State CpuGraph).bucket (makeFacts req),
        ¬(State.fresh store : State CpuGraph).Selectable a := by simp [State.bucket, State.fresh]
    have hrequired : (searched (.cpu o ops) (.fresh store) req).outcome = .missCaptureRequired := by
      rw [searched, search_required _ hempty]
    refine ⟨exactHit_of_hit hself ((lookup_hit_iff hcap hself).mpr (.inr hempty)) ?_,
      fun later hlater env' => ?_⟩
    · intro hhit
      rw [not_hit_of_required hrequired] at hhit
      cases hhit
    · obtain ⟨e, hcaptures⟩ := hcap.captures hrequired
      obtain ⟨a, ha⟩ := serves_after (serves_lookup hcaptures hself) hlater
      exact exactHit_of_serves ha hcap hself

/-- A request for the empty graph that depends on the kernel `k` in the given generations. -/
def dependentRequest (generations : List GraphGeneration) : GraphLookupRequest where
  workload := { logicalName := str "w" }
  descriptor := { dependencies := generations.map fun n => { name := str "k", generation := n } }
  allowCapture := true

set_option maxRecDepth 100000 in
theorem cpuCaptures_dependentRequest (generations : List GraphGeneration)
    (h : generations = [1] ∨ generations = [1, 2]) :
    ∃ g x, (dependentRequest generations).descriptor.finalize (.insertion _) = .ok g ∧
      (cpuBackend (.insertion _) .unit).capture g 1 = .ok x ∧
      (cpuBackend (.insertion _) .unit).validate g x = .ok () := by
  rcases h with rfl | rfl
  · exact ⟨_, _, rfl, rfl, rfl⟩
  · exact ⟨_, _, rfl, rfl, rfl⟩

theorem capture_then_hit_dependent :
    HitsExactly (.cpu (.insertion _) .unit) none (dependentRequest [1]) := by
  obtain ⟨g, x, hg, hx, hv⟩ := cpuCaptures_dependentRequest [1] (.inl rfl)
  exact (capture_then_hit _ _ _ _ g 1 x rfl hg hx hv (.inl rfl) (by decide)).mpr (by decide)

/-- Two generations of one kernel : the entry just captured is stale for its own request. -/
theorem capture_then_miss :
    (dependentRequest [1, 2]).allowCapture = true ∧
      (∃ g x, (dependentRequest [1, 2]).descriptor.finalize (.insertion _) = .ok g ∧
        (cpuBackend (.insertion _) .unit).capture g 1 = .ok x ∧
        (cpuBackend (.insertion _) .unit).validate g x = .ok ()) ∧
      (dependentRequest [1, 2]).policy.namespaceFilter = [] ∧
      (makeFacts (dependentRequest [1, 2])).scalar.floatValue.isNaN = false ∧
      ∀ env, (lookup (.cpu (.insertion _) .unit) (.fresh none) (dependentRequest [1, 2]) env).2.hit =
        false := by
  refine ⟨rfl, cpuCaptures_dependentRequest [1, 2] (.inr rfl), rfl, by decide, fun env => ?_⟩
  rw [← Bool.not_eq_true]
  intro hhit
  exact absurd (fresh_of_hit rfl hhit) (by decide)

/-! ## One authority for a workload -/

section

variable {Exec : Type} {cfg : Config Exec} {s : State Exec} {req : GraphLookupRequest}
  {env : LookupEnv}

/-- A hit on an entry that is a candidate for the request. -/
def CompatibleHit (cfg : Config Exec) (s : State Exec) (req : GraphLookupRequest) (env : LookupEnv) :
    Prop :=
  ∃ l, (lookup cfg s req env).2.lease = some l ∧ l.entry ∈ s.bucket (makeFacts req) ∧
    (lookup cfg s req env).1.Candidate (makeFacts req) req.policy l.entry

/-- The request has an entry : the search chooses it, and its executable is there. -/
def Settled (s : State Exec) (req : GraphLookupRequest) : Prop :=
  ∃ a dec, (scan s.toRegistry (makeFacts req) req.policy).chosen = some (a, dec) ∧
    (s.heap a).exec.isSome = true

theorem compatibleHit_of_hit (hhit : (searched cfg s req).hit = true) :
    CompatibleHit cfg s req env := by
  obtain ⟨l, hl⟩ := Option.isSome_iff_exists.mp hhit
  obtain ⟨_, hsearch⟩ := (searchCandidates_spec cfg s (makeFacts req) req.policy).2.2.1 l hl
  obtain ⟨hbest, -⟩ := scan_chosen hsearch.chosen
  refine ⟨l, by rw [lookup_of_hit hhit]; exact hl, hbest.mem, ?_⟩
  obtain ⟨s₁, hbase, -, hedits, -⟩ := lookup_spec cfg s req env
  cases hbase with
  | found _ hr _ => exact hedits.candidate (by rw [hr]; exact hbest.candidate)
  | captured _ hc _ _ _ _ =>
    rw [not_hit_of_required hc.2.2.1] at hhit
    cases hhit

theorem Settled.compatibleHit (h : Settled s req) : CompatibleHit cfg s req env := by
  obtain ⟨a, dec, hchosen, hexec⟩ := h
  exact compatibleHit_of_hit (searchCandidates_hit hchosen (by simp [materializeExec, hexec]))

/-- Settled requests stay so under edits that mark nothing. -/
theorem Settled.edits (h : Settled s req) {s' : State Exec}
    (he : Edits cfg Unmarked s.toRegistry s'.toRegistry) (hoff : s.toRegistry.OffBackend) :
    Settled s' req := by
  obtain ⟨a, dec, hchosen, hexec⟩ := h
  exact ⟨a, dec, by rw [he.scan]; exact hchosen, he.offBackend hoff a hexec⟩

/-- A request that has hit is settled. -/
theorem settled_of_hit (h : (lookup cfg s req env).2.hit = true) :
    Settled (lookup cfg s req env).1 req := by
  have hsearch : ∀ s₁ : State Exec, (searched cfg s₁ req).hit = true → ∀ s' : State Exec,
      s'.toRegistry = (searchCandidates cfg s₁ (makeFacts req) req.policy).1.toRegistry →
        Settled s' req := by
    intro s₁ hhit s' hs'
    obtain ⟨l, hl⟩ := Option.isSome_iff_exists.mp hhit
    obtain ⟨-, hedits, hlease, -⟩ := searchCandidates_spec cfg s₁ (makeFacts req) req.policy
    obtain ⟨_, hfound⟩ := hlease l hl
    refine ⟨l.entry, (searched cfg s₁ req).decision, ?_, ?_⟩
    · rw [hs', hedits.scan]
      exact hfound.chosen
    · rw [hs']
      exact search_leaves_exec hl
  rcases hit_cases h with ⟨hhit, -, hs⟩ | ⟨e, s₁, -, -, hhit, -, hs⟩
  · exact hsearch s hhit _ hs
  · exact hsearch s₁ hhit _ hs

variable (env) in
/-- A lookup that finds a candidate which can be made executable, or no candidate beside a
selectable entry, captures nothing : its entries are only edited. -/
theorem edits_of_selectable {a : ℕ} (ha : a ∈ s.bucket (makeFacts req)) (hsel : s.Selectable a)
    (hexec : ∀ b ∈ s.bucket (makeFacts req), s.Candidate (makeFacts req) req.policy b →
      (materializeExec cfg s b).2 = .ok ()) :
    (searched cfg s req).outcome ≠ .missCaptureRequired ∧
      Edits cfg Unmarked s.toRegistry (lookup cfg s req env).1.toRegistry := by
  have hout : (searched cfg s req).outcome ≠ .missCaptureRequired := by
    intro hout
    rcases hc : (scan s.toRegistry (makeFacts req) req.policy).chosen with _ | ⟨b, dec⟩
    · have hno := (scan_foldl s.toRegistry (makeFacts req) req.policy _).2 hc
      obtain ⟨-, -, hrefused⟩ := search_refused cfg hno ha hsel
      rw [show (searchCandidates cfg s _ _).2.outcome = .missCaptureRequired from hout] at hrefused
      rcases hrefused with hrefused | hrefused <;> cases hrefused
    · obtain ⟨hbest, -⟩ := scan_chosen hc
      have hhit := searchCandidates_hit hc (hexec b hbest.mem hbest.candidate)
      rw [← GraphLookupResult.hit, not_hit_of_required hout] at hhit
      cases hhit
  refine ⟨hout, ?_⟩
  obtain ⟨s₁, hbase, -, hedits, -⟩ := lookup_spec cfg s req env
  cases hbase with
  | found _ hr _ => rwa [hr] at hedits
  | captured _ hc _ _ _ _ => exact absurd hc.2.2.1 hout

/-- The refusal of a request : a miss that starts no capture and changes no entry. -/
structure Refused (cfg : Config Exec) (s : State Exec) (req : GraphLookupRequest)
    (env : LookupEnv) : Prop where
  hit : (lookup cfg s req env).2.hit = false
  outcome : (lookup cfg s req env).2.outcome = .missIncompatible ∨
    (lookup cfg s req env).2.outcome = .missStaleDependency
  captureStarted : (lookup cfg s req env).2.captureStarted = false
  registry : (lookup cfg s req env).1.toRegistry = s.toRegistry

/-- A request without a candidate, beside a selectable entry, is refused. -/
theorem refused_of_selectable {a : ℕ} (ha : a ∈ s.bucket (makeFacts req)) (hsel : s.Selectable a)
    (hno : ∀ b ∈ s.bucket (makeFacts req), ¬s.Candidate (makeFacts req) req.policy b) :
    Refused cfg s req env := by
  obtain ⟨hsame, hnone, hrefused⟩ := search_refused cfg hno ha hsel
  have hout : (searched cfg s req).outcome ≠ .missCaptureRequired := by
    intro hout
    rw [show (searchCandidates cfg s _ _).2.outcome = .missCaptureRequired from hout] at hrefused
    rcases hrefused with hrefused | hrefused <;> cases hrefused
  have hmiss : (searched cfg s req).hit = false := by simp [GraphLookupResult.hit, hnone]
  have hstarted : (searched cfg s req).captureStarted = false := by
    simp only [searched, searchCandidates, scan_none hno]
    split <;> rfl
  have hanswer := lookup_answer cfg s req env
  generalize hres : (lookup cfg s req env).2 = res at hanswer
  cases hanswer with
  | found h _ =>
    rw [hmiss] at h
    cases h
  | missed _ _ hs =>
    rw [hsame] at hs
    exact ⟨by rw [hres]; exact hmiss, by rw [hres]; exact hrefused, by rw [hres]; exact hstarted, hs⟩
  | failed h _ _ _ => exact absurd h.2.2 hout
  | captured _ hcap _ _ _ _ => exact absurd hcap.2.2.1 hout
  | unusable _ hcap _ _ _ _ => exact absurd hcap.2.2.1 hout

/-- Once a request has hit, a second one of its workload hits exactly when an entry of the workload
is compatible with it, and is refused otherwise : it captures no other specialization. The first
request goes on hitting. -/
theorem one_authority (cfg : Config Exec) (store : Option Store) (history : List (Op Exec))
    (req₁ req₂ : GraphLookupRequest) (env₁ env₂ : LookupEnv) (s s₁ s₂ : State Exec)
    (hs : s = run cfg (.fresh store) history) (hs₁ : s₁ = (lookup cfg s req₁ env₁).1)
    (hs₂ : s₂ = (lookup cfg s₁ req₂ env₂).1)
    (hwl : workloadKey req₂.workload = workloadKey req₁.workload)
    (hhit : (lookup cfg s req₁ env₁).2.hit = true)
    (hexec : ∀ a ∈ s₁.bucket (makeFacts req₂), s₁.Candidate (makeFacts req₂) req₂.policy a →
      (materializeExec cfg s₁ a).2 = .ok ()) :
    (∀ env, CompatibleHit cfg s₂ req₁ env) ∧
      ((∃ a ∈ s₁.bucket (makeFacts req₂), s₁.Candidate (makeFacts req₂) req₂.policy a) →
        CompatibleHit cfg s₁ req₂ env₂ ∧ ∀ env, CompatibleHit cfg s₂ req₂ env) ∧
      ((∀ a ∈ s₁.bucket (makeFacts req₂), ¬s₁.Candidate (makeFacts req₂) req₂.policy a) →
        Refused cfg s₁ req₂ env₂) := by
  subst hs₂
  have hoff : s₁.toRegistry.OffBackend := by
    have hrun : s₁ = run cfg (.fresh store) (history ++ [.lookup req₁ env₁]) := by
      rw [hs₁, hs, run_concat]
      rfl
    rw [hrun]
    exact (offBackend_fresh store).run _
  have hsettled : Settled s₁ req₁ := hs₁ ▸ settled_of_hit hhit
  obtain ⟨a, dec, hchosen, hx⟩ := hsettled
  obtain ⟨hbest, -⟩ := scan_chosen hchosen
  have ha : a ∈ s₁.bucket (makeFacts req₂) := by
    rw [State.bucket, makeFacts_workload, hwl, ← makeFacts_workload req₁]
    exact hbest.mem
  have hsel := hbest.candidate.selectable
  obtain ⟨hout, hedits⟩ := edits_of_selectable env₂ ha hsel hexec
  have hsettled : Settled s₁ req₁ := ⟨a, dec, hchosen, hx⟩
  refine ⟨fun env => (hsettled.edits hedits hoff).compatibleHit, ?_, refused_of_selectable ha hsel⟩
  rintro ⟨b, hb, hcand⟩
  have hsearched : (searched cfg s₁ req₂).hit = true :=
    (search_candidate hb hcand).resolve_right hout
  have hhit₂ : (lookup cfg s₁ req₂ env₂).2.hit = true := by
    rw [lookup_of_hit hsearched]
    exact hsearched
  exact ⟨compatibleHit_of_hit hsearched, fun env => (settled_of_hit hhit₂).compatibleHit⟩

end

/-- A request for the empty graph in a mode of capture. -/
def modeRequest (mode : CaptureMode) : GraphLookupRequest where
  workload := { logicalName := str "w" }
  descriptor := { sync := { captureMode := mode } }
  allowCapture := true

/-- The cache after the request in the default mode. -/
def modeState : State CpuGraph :=
  (lookup (.cpu (.insertion _) .unit) (.fresh none) (modeRequest ⟨0⟩) {}).1

set_option maxRecDepth 100000 in
/-- In another mode the request is refused, and the first one goes on hitting. -/
theorem one_authority_modes :
    (∀ env, CompatibleHit (.cpu (.insertion _) .unit)
      (lookup (.cpu (.insertion _) .unit) modeState (modeRequest ⟨1⟩) {}).1 (modeRequest ⟨0⟩) env) ∧
    Refused (.cpu (.insertion _) .unit) modeState (modeRequest ⟨1⟩) {} := by
  have hrun : (lookup (.cpu (.insertion _) .unit) (.fresh none) (modeRequest ⟨0⟩) {}).2.hit = true ∧
      ∀ a ∈ modeState.bucket (makeFacts (modeRequest ⟨1⟩)),
        (modeState.decision (makeFacts (modeRequest ⟨1⟩)) (modeRequest ⟨1⟩).policy a).compatible =
          false := by
    decide +kernel
  obtain ⟨hhit, hdecision⟩ := hrun
  have hno : ∀ a ∈ modeState.bucket (makeFacts (modeRequest ⟨1⟩)),
      ¬modeState.Candidate (makeFacts (modeRequest ⟨1⟩)) (modeRequest ⟨1⟩).policy a := by
    intro a ha hc
    have hcomp := hc.compatible
    rw [hdecision a ha] at hcomp
    cases hcomp
  obtain ⟨hfirst, -, hsecond⟩ := one_authority (.cpu (.insertion _) .unit) none []
    (modeRequest ⟨0⟩) (modeRequest ⟨1⟩) {} {} (.fresh none) modeState _ rfl rfl rfl rfl
    hhit fun a ha hc => absurd hc (hno a ha)
  exact ⟨hfirst, hsecond hno⟩

set_option maxRecDepth 100000 in
/-- Two requests of one workload under different keys, both with a graph that is captured : after a
lookup of each, the second one has no hit. -/
theorem specialization_refused :
    requestKey (modeRequest ⟨0⟩) ≠ requestKey (modeRequest ⟨1⟩) ∧
    (lookup (.cpu (.insertion _) .unit) (.fresh none) (modeRequest ⟨0⟩) {}).2.hit = true ∧
    (lookup (.cpu (.insertion _) .unit) (.fresh none) (modeRequest ⟨1⟩) {}).2.hit = true ∧
    (lookup (.cpu (.insertion _) .unit)
      (lookup (.cpu (.insertion _) .unit) modeState (modeRequest ⟨1⟩) {}).1
        (modeRequest ⟨1⟩) {}).2.hit = false := by
  decide +kernel

end GraphCache
