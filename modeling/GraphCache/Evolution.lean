import GraphCache.Engine

/-!
# What an operation does to the registry

Every operation of the engine changes the registry by a sequence of small changes : an edit of
one entry (`Edit`), or the registration of a new one. `step_evolves` says so once, and which
entries an operation registers (`Registers`); an invariant of the registry is then checked on
edits and registrations only (`Evolves.invariant`).

`lookup_spec` and `scan_chosen` : what a lookup leases is an entry of its bucket that is
selectable, fresh and compatible.
-/

namespace GraphCache

variable {Exec : Type} {cfg : Config Exec}

/-! ## Small changes -/

/-- A change of one entry, which may be marked invalidated only if `marks`. -/
inductive Edit (cfg : Config Exec) (marks : Prop) : CacheEntry Exec → CacheEntry Exec → Prop
  | counts (e : CacheEntry Exec) (pins leases : UInt64) :
    Edit cfg marks e { e with pinCount := pins, leaseCount := leases }
  | materialize (e : CacheEntry Exec) (attempt : CaptureAttemptId) (exec : Exec)
    (h : cfg.backend.capture e.descriptor attempt = .ok exec) :
    Edit cfg marks e { e with exec := some exec, residency := .hostResident }
  | drop (e : CacheEntry Exec) : Edit cfg marks e (dropResidency cfg e)
  | invalidate (e : CacheEntry Exec) (strong : Bool) (h : marks) :
    Edit cfg marks e (markInvalidated cfg strong e)

/-- Edits, which mark addresses in `M`, and registrations that satisfy `P`. -/
inductive Evolves (cfg : Config Exec) (M : ℕ → Prop) (P : Registry Exec → CacheEntry Exec → Prop) :
    Registry Exec → Registry Exec → Prop
  | refl (r : Registry Exec) : Evolves cfg M P r r
  | edit {r₀ r : Registry Exec} (a : ℕ) {e : CacheEntry Exec} (h : Evolves cfg M P r₀ r)
    (he : Edit cfg (M a) (r.heap a) e) : Evolves cfg M P r₀ (r.set a e)
  | register {r₀ r : Registry Exec} {e : CacheEntry Exec} (h : Evolves cfg M P r₀ r) (hp : P r e) :
    Evolves cfg M P r₀ (r.register e)

theorem Edit.mono {p q : Prop} (hpq : p → q) {e e' : CacheEntry Exec} (h : Edit cfg p e e') :
    Edit cfg q e e' := by
  cases h with
  | counts => exact .counts _ _ _
  | materialize attempt exec h => exact .materialize _ attempt exec h
  | drop => exact .drop _
  | invalidate strong h => exact .invalidate _ strong (hpq h)

namespace Evolves

variable {M N : ℕ → Prop} {P Q : Registry Exec → CacheEntry Exec → Prop} {r r' r'' : Registry Exec}

theorem trans (h : Evolves cfg M P r r') (h' : Evolves cfg M P r' r'') : Evolves cfg M P r r'' := by
  induction h' with
  | refl => exact h
  | edit a _ he ih => exact .edit a ih he
  | register _ hp ih => exact .register ih hp

theorem mono (hMN : ∀ a, M a → N a) (hPQ : ∀ r e, P r e → Q r e) (h : Evolves cfg M P r r') :
    Evolves cfg N Q r r' := by
  induction h with
  | refl => exact .refl _
  | edit a _ he ih => exact .edit a ih (he.mono (hMN a))
  | register _ hp ih => exact .register ih (hPQ _ _ hp)

theorem single (a : ℕ) {e : CacheEntry Exec} (he : Edit cfg (M a) (r.heap a) e) :
    Evolves cfg M P r (r.set a e) :=
  .edit a (.refl r) he

/-- What edits and registrations preserve holds afterwards. -/
theorem invariant {I : Registry Exec → Prop} (h : Evolves cfg M P r r') (hr : I r)
    (hedit : ∀ r a e, I r → Edit cfg (M a) (r.heap a) e → I (r.set a e))
    (hreg : ∀ r e, I r → P r e → I (r.register e)) : I r' := by
  induction h with
  | refl => exact hr
  | edit a _ he ih => exact hedit _ _ _ ih he
  | register _ hp ih => exact hreg _ _ ih hp

end Evolves

/-! ## Edits keep the identity of an entry -/

/-- The fields that no edit touches. -/
structure CacheEntry.Same (e e' : CacheEntry Exec) : Prop where
  artifactId : e'.artifactId = e.artifactId
  graphId : e'.graphId = e.graphId
  generation : e'.generation = e.generation
  descriptor : e'.descriptor = e.descriptor
  facts : e'.facts = e.facts
  key : e'.key = e.key
  workload : e'.workload = e.workload
  dependencyGeneration : e'.dependencyGeneration = e.dependencyGeneration
  cacheGeneration : e'.cacheGeneration = e.cacheGeneration

theorem CacheEntry.Same.refl (e : CacheEntry Exec) : e.Same e :=
  ⟨rfl, rfl, rfl, rfl, rfl, rfl, rfl, rfl, rfl⟩

theorem CacheEntry.Same.trans {e e' e'' : CacheEntry Exec} (h : e.Same e') (h' : e'.Same e'') :
    e.Same e'' :=
  ⟨h'.1.trans h.1, h'.2.trans h.2, h'.3.trans h.3, h'.4.trans h.4, h'.5.trans h.5,
    h'.6.trans h.6, h'.7.trans h.7, h'.8.trans h.8, h'.9.trans h.9⟩

variable (cfg) in
theorem same_dropResidency (e : CacheEntry Exec) : e.Same (dropResidency cfg e) := by
  unfold dropResidency
  split_ifs
  · split <;> exact ⟨rfl, rfl, rfl, rfl, rfl, rfl, rfl, rfl, rfl⟩
  · exact .refl e

variable (cfg) in
theorem invalidated_dropResidency (e : CacheEntry Exec) :
    (dropResidency cfg e).invalidated = e.invalidated ∧
      (dropResidency cfg e).lifecycle = e.lifecycle := by
  unfold dropResidency
  split_ifs
  · split <;> exact ⟨rfl, rfl⟩
  · exact ⟨rfl, rfl⟩

variable (cfg) in
theorem markInvalidated_spec (strong : Bool) (e : CacheEntry Exec) :
    e.Same (markInvalidated cfg strong e) ∧ (markInvalidated cfg strong e).invalidated = true ∧
      (markInvalidated cfg strong e).lifecycle = .invalidated := by
  unfold markInvalidated
  dsimp only
  split_ifs
  · obtain ⟨hi, hl⟩ := invalidated_dropResidency cfg
      { e with invalidated := true, lifecycle := .invalidated }
    refine ⟨?_, hi, hl⟩
    have hs := same_dropResidency cfg
      { e with invalidated := true, lifecycle := .invalidated }
    exact ⟨hs.1, hs.2, hs.3, hs.4, hs.5, hs.6, hs.7, hs.8, hs.9⟩
  · exact ⟨⟨rfl, rfl, rfl, rfl, rfl, rfl, rfl, rfl, rfl⟩, rfl, rfl⟩

/-- An edit keeps the identity of the entry; it leaves the validity alone, or invalidates. -/
theorem Edit.spec {marks : Prop} {e e' : CacheEntry Exec} (h : Edit cfg marks e e') :
    e.Same e' ∧ (e'.invalidated = e.invalidated ∧ e'.lifecycle = e.lifecycle ∨
      marks ∧ e'.invalidated = true ∧ e'.lifecycle = .invalidated) := by
  cases h with
  | counts => exact ⟨⟨rfl, rfl, rfl, rfl, rfl, rfl, rfl, rfl, rfl⟩, .inl ⟨rfl, rfl⟩⟩
  | materialize => exact ⟨⟨rfl, rfl, rfl, rfl, rfl, rfl, rfl, rfl, rfl⟩, .inl ⟨rfl, rfl⟩⟩
  | drop =>
    exact ⟨same_dropResidency _ e, .inl (invalidated_dropResidency _ e)⟩
  | invalidate strong hm =>
    obtain ⟨hs, hi, hl⟩ := markInvalidated_spec cfg strong e
    exact ⟨hs, .inr ⟨hm, hi, hl⟩⟩

/-! ## The registry -/

section

variable {r : Registry Exec}

@[simp] theorem set_heap_self (r : Registry Exec) (a : ℕ) (e : CacheEntry Exec) :
    (r.set a e).heap a = e := by
  simp [Registry.set]

@[simp] theorem set_heap_of_ne (r : Registry Exec) {a b : ℕ} (e : CacheEntry Exec) (h : b ≠ a) :
    (r.set a e).heap b = r.heap b := by
  simp [Registry.set, h]

@[simp] theorem set_next (r : Registry Exec) (a : ℕ) (e : CacheEntry Exec) :
    (r.set a e).next = r.next := rfl

@[simp] theorem set_artifact (r : Registry Exec) (a : ℕ) (e : CacheEntry Exec)
    (id : GraphArtifactId) : (r.set a e).artifact id = r.artifact id := rfl

@[simp] theorem set_byWorkload (r : Registry Exec) (a : ℕ) (e : CacheEntry Exec) :
    (r.set a e).byWorkload = r.byWorkload := rfl

@[simp] theorem set_keyCurrentGen (r : Registry Exec) (a : ℕ) (e : CacheEntry Exec) :
    (r.set a e).keyCurrentGen = r.keyCurrentGen := rfl

@[simp] theorem register_next (r : Registry Exec) (e : CacheEntry Exec) :
    (r.register e).next = r.next + 1 := rfl

@[simp] theorem register_heap_self (r : Registry Exec) (e : CacheEntry Exec) :
    (r.register e).heap r.next = e := by
  simp [Registry.register]

theorem register_heap_of_lt (r : Registry Exec) (e : CacheEntry Exec) {a : ℕ} (h : a < r.next) :
    (r.register e).heap a = r.heap a := by
  simp [Registry.register, Nat.ne_of_lt h]

@[simp] theorem register_artifact_self (r : Registry Exec) (e : CacheEntry Exec) :
    (r.register e).artifact e.artifactId = some r.next := by
  simp [Registry.register, Registry.artifact]

theorem register_artifact_of_ne (r : Registry Exec) (e : CacheEntry Exec) {id : GraphArtifactId}
    (h : id ≠ e.artifactId) : (r.register e).artifact id = r.artifact id := by
  simp [Registry.register, Registry.artifact, AList.lookup_insert_ne h]

/-- After an edit an entry is the same up to `Same`, a valid one was valid before, and one that
was not marked is as valid as before. -/
theorem Edit.set_spec {M : ℕ → Prop} {a : ℕ} {e : CacheEntry Exec}
    (h : Edit cfg (M a) (r.heap a) e) (b : ℕ) :
    (r.heap b).Same ((r.set a e).heap b) ∧
      (((r.set a e).heap b).invalidated = false → (r.heap b).invalidated = false) ∧
      (¬M b → ((r.set a e).heap b).invalidated = (r.heap b).invalidated) := by
  by_cases hb : b = a
  · subst hb
    obtain ⟨hs, hi | hi⟩ := h.spec
    · exact ⟨by simpa using hs, by simp [hi.1], by simp [hi.1]⟩
    · exact ⟨by simpa using hs, by simp [hi.2.1], fun hm => absurd hi.1 hm⟩
  · simp [hb, CacheEntry.Same.refl]

end

/-! ## Lookup -/

section

variable (r : Registry Exec) (facts : CompatibilityFacts) (policy : GraphCompatibilityPolicy)

/-- The decision on an entry. -/
def Registry.decision (a : ℕ) : GraphCompatibilityDecision :=
  decideCompatibility facts (r.heap a).facts policy

/-- An entry that a scan may choose. -/
structure Registry.Candidate (a : ℕ) : Prop where
  selectable : r.Selectable a
  fresh : isDependencyFresh (r.heap a).facts.dependencies facts = true
  compatible : (r.decision facts policy a).compatible = true

/-- A candidate that is exact, or one among candidates none of which is. -/
structure Registry.Best (l : List ℕ) (a : ℕ) : Prop where
  mem : a ∈ l
  candidate : r.Candidate facts policy a
  exact : (∃ b ∈ l, r.Candidate facts policy b ∧
    (r.decision facts policy b).klass = .exactCompatible) →
      (r.decision facts policy a).klass = .exactCompatible

/-- A scan chooses a best candidate, or there is none. -/
theorem scan_foldl (l : List ℕ) :
    (∀ a dec, (l.foldl (scanEntry r facts policy) {}).chosen = some (a, dec) →
      r.Best facts policy l a ∧ dec = r.decision facts policy a) ∧
    ((l.foldl (scanEntry r facts policy) {}).chosen = none →
      ∀ a ∈ l, ¬r.Candidate facts policy a) := by
  induction l using List.reverseRecOn with
  | nil => simp
  | append_singleton l b ih =>
    rw [List.foldl_append, List.foldl_cons, List.foldl_nil]
    set acc := l.foldl (scanEntry r facts policy) {} with hacc
    obtain ⟨hsome, hnone⟩ := ih
    -- an entry that is no candidate changes nothing
    have hkeep : ¬r.Candidate facts policy b → (scanEntry r facts policy acc b).chosen = acc.chosen := by
      intro hb
      unfold scanEntry
      dsimp only
      split_ifs with hsel hfresh hcomp hbest
      · rfl
      · exact absurd ⟨hsel, (Bool.not_eq_false _).mp hfresh, hcomp⟩ hb
      · rfl
      · rfl
      · rfl
    by_cases hb : r.Candidate facts policy b
    · have hstep : (scanEntry r facts policy acc b).chosen =
          if acc.chosen = none ∨ (r.decision facts policy b).klass = .exactCompatible
            then some (b, r.decision facts policy b) else acc.chosen := by
        have hc := hb.compatible
        unfold Registry.decision at hc ⊢
        simp only [scanEntry, hb.selectable, hb.fresh, hc]
        simp
        split_ifs <;> rfl
      rw [hstep]
      split_ifs with hwin
      · refine ⟨?_, by simp⟩
        rintro a dec h
        obtain ⟨rfl, rfl⟩ : b = a ∧ r.decision facts policy b = dec := by simpa using h
        refine ⟨⟨by simp, hb, ?_⟩, rfl⟩
        rintro ⟨c, hc, hcand, hex⟩
        rcases hwin with hempty | hexact
        · rcases List.mem_append.mp hc with hc | hc
          · exact absurd hcand (hnone hempty c hc)
          · rwa [List.mem_singleton.mp hc] at hex
        · exact hexact
      · obtain ⟨hfull, hinexact⟩ := not_or.mp hwin
        refine ⟨fun a dec h => ?_, fun h => absurd h hfull⟩
        obtain ⟨hbest, hdec⟩ := hsome a dec h
        refine ⟨⟨by simp [hbest.mem], hbest.candidate, ?_⟩, hdec⟩
        rintro ⟨c, hc, hcand, hex⟩
        rcases List.mem_append.mp hc with hc | hc
        · exact hbest.exact ⟨c, hc, hcand, hex⟩
        · rw [List.mem_singleton.mp hc] at hex
          exact absurd hex hinexact
    · rw [hkeep hb]
      refine ⟨fun a dec h => ?_, fun h a ha => ?_⟩
      · obtain ⟨hbest, hdec⟩ := hsome a dec h
        refine ⟨⟨by simp [hbest.mem], hbest.candidate, ?_⟩, hdec⟩
        rintro ⟨c, hc, hcand, hex⟩
        rcases List.mem_append.mp hc with hc | hc
        · exact hbest.exact ⟨c, hc, hcand, hex⟩
        · exact absurd (List.mem_singleton.mp hc ▸ hcand) hb
      · rcases List.mem_append.mp ha with ha | ha
        · exact hnone h a ha
        · rw [List.mem_singleton.mp ha]
          exact hb

end

/-- What a scan chooses. -/
theorem scan_chosen {r : Registry Exec} {facts : CompatibilityFacts}
    {policy : GraphCompatibilityPolicy} {a : ℕ} {dec : GraphCompatibilityDecision}
    (h : (scan r facts policy).chosen = some (a, dec)) :
    r.Best facts policy (r.byWorkload (workloadKey facts.workload)) a ∧
      dec = r.decision facts policy a :=
  (scan_foldl r facts policy _).1 a dec h

/-- States that agree on what the engine draws generations from, and on the store. -/
structure State.Keeps (s s' : State Exec) : Prop where
  graphGen : s'.graphGenerationCounter = s.graphGenerationCounter
  cacheGen : s'.cacheGeneration = s.cacheGeneration
  store : s'.store = s.store

theorem State.Keeps.trans {s s' s'' : State Exec} (h : s.Keeps s') (h' : s'.Keeps s'') :
    s.Keeps s'' :=
  ⟨h'.1.trans h.1, h'.2.trans h.2, h'.3.trans h.3⟩

/-- Edits only, which mark addresses in `M`. -/
abbrev Edits (cfg : Config Exec) (M : ℕ → Prop) : Registry Exec → Registry Exec → Prop :=
  Evolves cfg M fun _ _ => False

/-- No address is marked. -/
abbrev Unmarked : ℕ → Prop := fun _ => False

theorem Edits.evolves {M : ℕ → Prop} {P : Registry Exec → CacheEntry Exec → Prop}
    {r r' : Registry Exec} (h : Edits cfg M r r') : Evolves cfg M P r r' :=
  h.mono (fun _ h => h) fun _ _ h => h.elim

theorem Edits.same {M : ℕ → Prop} {r r' : Registry Exec} (h : Edits cfg M r r') (a : ℕ) :
    (r.heap a).Same (r'.heap a) ∧ r'.next = r.next := by
  refine h.invariant (I := fun r' => (r.heap a).Same (r'.heap a) ∧ r'.next = r.next)
    ⟨.refl _, rfl⟩ ?_ (fun _ _ _ h => h.elim)
  exact fun r' b e hr he => ⟨hr.1.trans (he.set_spec a).1, hr.2⟩

variable (cfg) in
/-- A materialized entry holds an executable; one that is not leaves the registry alone. -/
theorem materializeExec_spec (s : State Exec) (a : ℕ) :
    s.Keeps (materializeExec cfg s a).1 ∧
      Edits cfg Unmarked s.toRegistry (materializeExec cfg s a).1.toRegistry ∧
      ((materializeExec cfg s a).2 = .ok () →
        ((materializeExec cfg s a).1.heap a).exec.isSome = true) ∧
      ((materializeExec cfg s a).2 ≠ .ok () →
        (materializeExec cfg s a).1.toRegistry = s.toRegistry) := by
  unfold materializeExec
  split_ifs with h
  · exact ⟨⟨rfl, rfl, rfl⟩, .refl _, fun _ => h, fun _ => rfl⟩
  · dsimp only
    split
    · exact ⟨⟨rfl, rfl, rfl⟩, .refl _, by simp, fun _ => rfl⟩
    · rename_i exec hcap
      split
      · exact ⟨⟨rfl, rfl, rfl⟩, .refl _, by simp, fun _ => rfl⟩
      · refine ⟨⟨rfl, rfl, rfl⟩, .single a (.materialize _ _ exec hcap), fun _ => ?_,
          fun hne => absurd rfl hne⟩
        simp [State.touchMetric, State.set]

/-- What a search leases, and from which registry. -/
structure SearchHit (cfg : Config Exec) (r : Registry Exec) (facts : CompatibilityFacts)
    (policy : GraphCompatibilityPolicy) (res : GraphLookupResult Exec) (l : Lease Exec)
    (r' : Registry Exec) : Prop where
  chosen : (scan r facts policy).chosen = some (l.entry, res.decision)
  edits : Edits cfg Unmarked r r'
  artifactId : l.artifactId = (r'.heap l.entry).artifactId
  generation : l.generation = (r'.heap l.entry).generation
  executable : l.executable = (r'.heap l.entry).exec
  materialized : l.executable.isSome = true
  resArtifactId : res.artifactId = l.artifactId
  resGeneration : res.generation = l.generation

theorem hitOutcome_ne_miss (klass : GraphCompatibilityClass) (residency : ResidencyTier) :
    hitOutcome klass residency ≠ .missCaptureRequired := by
  unfold hitOutcome
  split
  · split_ifs <;> simp
  all_goals simp

variable (cfg) in
theorem searchCandidates_spec (s : State Exec) (facts : CompatibilityFacts)
    (policy : GraphCompatibilityPolicy) :
    s.Keeps (searchCandidates cfg s facts policy).1 ∧
      Edits cfg Unmarked s.toRegistry (searchCandidates cfg s facts policy).1.toRegistry ∧
      (∀ l, (searchCandidates cfg s facts policy).2.lease = some l →
        ∃ r, SearchHit cfg s.toRegistry facts policy (searchCandidates cfg s facts policy).2 l r) ∧
      ((searchCandidates cfg s facts policy).2.outcome = .missCaptureRequired →
        (searchCandidates cfg s facts policy).2.lease = none ∧
        (searchCandidates cfg s facts policy).1.toRegistry = s.toRegistry) := by
  unfold searchCandidates
  dsimp only
  split
  · split
    · exact ⟨⟨rfl, rfl, rfl⟩, .refl _, by simp, fun _ => ⟨rfl, rfl⟩⟩
    · exact ⟨⟨rfl, rfl, rfl⟩, .refl _, by simp, fun _ => ⟨rfl, rfl⟩⟩
  · rename_i a dec hchosen
    obtain ⟨hkeeps, hedits, hok, herr⟩ := materializeExec_spec cfg s a
    split
    · rename_i s' e hm
      rw [hm] at hkeeps hedits herr
      exact ⟨hkeeps, hedits, by simp, fun _ => ⟨rfl, herr (by simp)⟩⟩
    · rename_i s' hm
      rw [hm] at hkeeps hedits hok
      split_ifs
      · exact ⟨hkeeps, hedits, by simp, by simp⟩
      · refine ⟨⟨hkeeps.1, hkeeps.2, hkeeps.3⟩,
          hedits.trans (.single a (.counts _ (s'.heap a).pinCount _)), ?_,
          fun hout => absurd hout (hitOutcome_ne_miss _ _)⟩
        rintro l hl
        obtain rfl : (makeLease s' a dec.needsRebinding).2 = l := by simpa using hl
        exact ⟨s'.toRegistry, hchosen, hedits, rfl, rfl, rfl, hok rfl, rfl, rfl⟩

variable (cfg) in
theorem materializeExec_touchMetric (s : State Exec) (f : Metrics → Metrics) (a : ℕ) :
    ∃ g, materializeExec cfg (s.touchMetric f) a =
      ((materializeExec cfg s a).1.touchMetric g, (materializeExec cfg s a).2) := by
  by_cases h : (s.heap a).exec.isSome = true
  · exact ⟨f, by simp [materializeExec, State.touchMetric, h]⟩
  · rcases hc : cfg.backend.capture (s.heap a).descriptor (s.captureCounter + 1) with err | exec
    · exact ⟨f, by simp [materializeExec, State.touchMetric, h, hc]⟩
    · rcases hv : cfg.backend.validate (s.heap a).descriptor exec with err | u
      · exact ⟨f, by simp [materializeExec, State.touchMetric, h, hc, hv]⟩
      · refine ⟨fun _ => { f s.metrics with
          recaptures := (f s.metrics).recaptures + 1
          instantiations := (f s.metrics).instantiations + 1 }, ?_⟩
        simp [materializeExec, State.touchMetric, State.set, h, hc, hv]

variable (cfg) in
/-- The counters have no say in a search. -/
theorem searchCandidates_touchMetric (s : State Exec) (f : Metrics → Metrics)
    (facts : CompatibilityFacts) (policy : GraphCompatibilityPolicy) :
    (searchCandidates cfg (s.touchMetric f) facts policy).2 =
        (searchCandidates cfg s facts policy).2 ∧
      (searchCandidates cfg (s.touchMetric f) facts policy).1.captureCounter =
        (searchCandidates cfg s facts policy).1.captureCounter ∧
      (searchCandidates cfg (s.touchMetric f) facts policy).1.toRegistry =
        (searchCandidates cfg s facts policy).1.toRegistry := by
  unfold searchCandidates
  rw [show (s.touchMetric f).toRegistry = s.toRegistry from rfl]
  dsimp only
  rcases (scan s.toRegistry facts policy).chosen with _ | ⟨a, dec⟩
  · dsimp only
    rcases (scan s.toRegistry facts policy).bestIncompat with _ | dec <;> exact ⟨rfl, rfl, rfl⟩
  · obtain ⟨g, hg⟩ := materializeExec_touchMetric cfg s f a
    dsimp only
    rw [hg]
    rcases materializeExec cfg s a with ⟨s', e | u⟩
    · exact ⟨rfl, rfl, rfl⟩
    · dsimp only [State.touchMetric]
      split_ifs <;> exact ⟨rfl, rfl, rfl⟩

/-- The store after a write of `e`. -/
def State.written (s : State Exec) (e : CacheEntry Exec) (putOk : Bool) : Option Store :=
  if putOk then s.store.map (AList.insert e.artifactId (encodeEntryPayload e)) else s.store

theorem persistEntry_eq (s : State Exec) (a : ℕ) (putOk : Bool) :
    (persistEntry s a putOk).1 = { s with store := s.written (s.heap a) putOk } := by
  unfold persistEntry State.written
  split
  · rename_i h
    rcases s with ⟨_, _, _, _, _, _, _, store, _⟩
    obtain rfl : store = none := h
    simp
  · rename_i st h
    split_ifs
    · simp [h]
    · rfl

/-- What a successful capture publishes. -/
theorem captureEntry_ok {generation : GraphGeneration} {cacheGeneration : CacheGeneration}
    {req : GraphLookupRequest} {attempt : CaptureAttemptId} {costUs : UInt64} {e : CacheEntry Exec}
    (h : captureEntry cfg generation cacheGeneration req attempt costUs = .ok e) :
    ∃ g exec, req.descriptor.finalize cfg.nodeOrder = .ok g ∧
      cfg.backend.capture g attempt = .ok exec ∧
      e = capturedEntry generation cacheGeneration req g exec costUs := by
  unfold captureEntry at h
  split at h
  · exact absurd h (fail_ne_ok _ _ _)
  · rename_i g hg
    rcases hv : validateTopology cfg.nodeOrder g.nodes g.edges with err | u
    · simp [hv, bind, Except.bind] at h
    · rcases hc : cfg.backend.capture g attempt with err | exec
      · simp [hv, hc, bind, Except.bind] at h
      · simp only [hv, hc, bind, Except.bind] at h
        split at h
        · simp at h
        · exact ⟨g, exec, hg, hc, (Except.ok.inj h).symm⟩

theorem loadEntry_some {store : Store} {id : GraphArtifactId} {e : CacheEntry Exec}
    (h : loadEntry store id = some e) : ∃ g md, e = recoveredEntry g md := by
  obtain ⟨payload, -, h⟩ := Option.bind_eq_some_iff.mp h
  unfold decodeEntryPayload at h
  split at h
  · rename_i g md _
    exact ⟨g, md, (Option.some.inj h).symm⟩
  · simp at h

/-- The entry that a lookup captures : a miss that allows it, of a graph that can be captured. -/
def Captures (cfg : Config Exec) (s : State Exec) (req : GraphLookupRequest) (env : LookupEnv)
    (e : CacheEntry Exec) : Prop :=
  req.allowCapture = true ∧ cfg.allowCapture = true ∧
    (searchCandidates cfg s (makeFacts req) req.policy).2.outcome = .missCaptureRequired ∧
    captureEntry cfg s.graphGenerationCounter s.cacheGeneration req
      ((searchCandidates cfg s (makeFacts req) req.policy).1.captureCounter + 1)
      env.captureCostUs = .ok e

/-- The state in which a lookup finds its answer : the given one, or the one after a capture. -/
inductive LookupBase (cfg : Config Exec) (s : State Exec) (req : GraphLookupRequest)
    (env : LookupEnv) (s' : State Exec) : Prop
  | found (hn : ∀ e, ¬Captures cfg s req env e) (hr : s'.toRegistry = s.toRegistry) (hk : s.Keeps s')
  | captured (e : CacheEntry Exec) (hc : Captures cfg s req env e)
    (hr : s'.toRegistry = s.toRegistry.register e)
    (hg : s'.graphGenerationCounter = s.graphGenerationCounter + 1)
    (hcg : s'.cacheGeneration = s.cacheGeneration)
    (hs : s'.store = s.written e env.putOk)

variable (cfg) in
theorem captureFailureMetric_keeps (s : State Exec) (req : GraphLookupRequest)
    (attempt : CaptureAttemptId) :
    (captureFailureMetric cfg s req attempt).toRegistry = s.toRegistry ∧
      s.Keeps (captureFailureMetric cfg s req attempt) := by
  unfold captureFailureMetric
  split
  · exact ⟨rfl, rfl, rfl, rfl⟩
  · split
    · exact ⟨rfl, rfl, rfl, rfl⟩
    · split <;> exact ⟨rfl, rfl, rfl, rfl⟩

variable (cfg) in
theorem captureGraph_spec (s : State Exec) (req : GraphLookupRequest) (attempt : CaptureAttemptId)
    (env : LookupEnv) :
    (∃ err, captureEntry cfg s.graphGenerationCounter s.cacheGeneration req attempt
        env.captureCostUs = .error err ∧
      (captureGraph cfg s req attempt env).2 = .error err ∧
      (captureGraph cfg s req attempt env).1.toRegistry = s.toRegistry ∧
      s.Keeps (captureGraph cfg s req attempt env).1) ∨
    ∃ e, captureEntry cfg s.graphGenerationCounter s.cacheGeneration req attempt
        env.captureCostUs = .ok e ∧
      (captureGraph cfg s req attempt env).2 = .ok e.artifactId ∧
      (captureGraph cfg s req attempt env).1.toRegistry = s.toRegistry.register e ∧
      (captureGraph cfg s req attempt env).1.graphGenerationCounter =
        s.graphGenerationCounter + 1 ∧
      (captureGraph cfg s req attempt env).1.cacheGeneration = s.cacheGeneration ∧
      (captureGraph cfg s req attempt env).1.store = s.written e env.putOk := by
  unfold captureGraph
  split
  · rename_i err herr
    exact .inl ⟨err, herr, rfl, captureFailureMetric_keeps cfg s req attempt⟩
  · rename_i e he
    refine .inr ⟨e, he, rfl, ?_⟩
    dsimp only
    rw [persistEntry_eq]
    refine ⟨rfl, rfl, rfl, ?_⟩
    simp [State.written, State.register, State.touchMetric]

/-- The state in which a lookup searches : the lookup is counted. -/
def State.lookedUp (s : State Exec) (req : GraphLookupRequest) : State Exec :=
  s.touchMetric fun m => { m.bumpScopes (makeFacts req).workload.logicalName
    (makeFacts req).device.scope (makeFacts req).workload.namespaceName
    (fun p => { p with lookups := p.lookups + 1 }) with lookups := m.lookups + 1 }

/-- The state after a search that missed : the miss is counted. -/
def State.missed (s : State Exec) (req : GraphLookupRequest) : State Exec :=
  s.touchMetric fun m => m.bumpScopes (makeFacts req).workload.logicalName
    (makeFacts req).device.scope (makeFacts req).workload.namespaceName
    fun p => { p with misses := p.misses + 1 }

/-- The state in which a miss captures. -/
def State.capturing (s : State Exec) (req : GraphLookupRequest) : State Exec :=
  { s.missed req with captureCounter := s.captureCounter + 1 }

/-- The ways of a lookup : it finds something, misses, captures in vain, or captures and finds
something then, or nothing. -/
inductive LookupPath (cfg : Config Exec) (s : State Exec) (req : GraphLookupRequest)
    (env : LookupEnv) : State Exec → GraphLookupResult Exec → Prop
  | found {s₁ : State Exec} {res : GraphLookupResult Exec}
    (hs : searchCandidates cfg (s.lookedUp req) (makeFacts req) req.policy = (s₁, res))
    (hhit : res.hit = true) : LookupPath cfg s req env (finishHit s₁ req res.outcome) res
  | missed {s₁ : State Exec} {res : GraphLookupResult Exec}
    (hs : searchCandidates cfg (s.lookedUp req) (makeFacts req) req.policy = (s₁, res))
    (hmiss : res.hit = false)
    (hno : ¬(req.allowCapture = true ∧ cfg.allowCapture = true ∧
      res.outcome = .missCaptureRequired)) :
    LookupPath cfg s req env (s₁.missed req)
      { res with reasonText := missReason res.outcome }
  | failed {s₁ s₂ : State Exec} {res : GraphLookupResult Exec} {err : Error}
    (hs : searchCandidates cfg (s.lookedUp req) (makeFacts req) req.policy = (s₁, res))
    (hmay : req.allowCapture = true ∧ cfg.allowCapture = true ∧
      res.outcome = .missCaptureRequired)
    (hg : captureGraph cfg (s₁.capturing req) req (s₁.captureCounter + 1) env = (s₂, .error err)) :
    LookupPath cfg s req env
      (s₂.touchMetric fun m => { m with captureFailures := m.captureFailures + 1 })
      { res with
        captureStarted := true
        outcome := .missCaptureRequired
        reasonText := str "capture failed: " ++ err.message }
  | captured {s₁ s₂ s₃ : State Exec} {res again : GraphLookupResult Exec} {id : GraphArtifactId}
    (hs : searchCandidates cfg (s.lookedUp req) (makeFacts req) req.policy = (s₁, res))
    (hmay : req.allowCapture = true ∧ cfg.allowCapture = true ∧
      res.outcome = .missCaptureRequired)
    (hg : captureGraph cfg (s₁.capturing req) req (s₁.captureCounter + 1) env = (s₂, .ok id))
    (ha : searchCandidates cfg s₂ (makeFacts req) req.policy = (s₃, again))
    (hhit : again.hit = true) :
    LookupPath cfg s req env (finishHit s₃ req again.outcome)
      { again with
        captureStarted := true
        reasonText := str "captured and replayed-compatible; hit" }
  | unusable {s₁ s₂ s₃ : State Exec} {res again : GraphLookupResult Exec} {id : GraphArtifactId}
    (hs : searchCandidates cfg (s.lookedUp req) (makeFacts req) req.policy = (s₁, res))
    (hmay : req.allowCapture = true ∧ cfg.allowCapture = true ∧
      res.outcome = .missCaptureRequired)
    (hg : captureGraph cfg (s₁.capturing req) req (s₁.captureCounter + 1) env = (s₂, .ok id))
    (ha : searchCandidates cfg s₂ (makeFacts req) req.policy = (s₃, again))
    (hmiss : again.hit = false) :
    LookupPath cfg s req env s₃
      { res with
        captureStarted := true
        outcome := .missIncompatible
        reasonText := str "capture completed but no compatible candidate is replay-eligible" }

variable (cfg) in
theorem lookup_path (s : State Exec) (req : GraphLookupRequest) (env : LookupEnv) :
    LookupPath cfg s req env (lookup cfg s req env).1 (lookup cfg s req env).2 := by
  rcases hs : searchCandidates cfg (s.lookedUp req) (makeFacts req) req.policy with ⟨s₁, res⟩
  have hs' : searchCandidates cfg (s.touchMetric _) (makeFacts req) req.policy = (s₁, res) := hs
  unfold lookup
  simp only [hs']
  split_ifs with hhit hmay
  · exact .found hs hhit
  · split
    · rename_i s₂ err hg
      exact .failed hs hmay hg
    · rename_i s₂ id hg
      rcases ha : searchCandidates cfg s₂ (makeFacts req) req.policy with ⟨s₃, again⟩
      dsimp only
      split_ifs with hhit'
      · exact .captured hs hmay hg ha hhit'
      · exact .unusable hs hmay hg ha ((Bool.not_eq_true _).mp hhit')
  · exact .missed hs ((Bool.not_eq_true _).mp hhit) hmay

section

variable {s s₁ s₂ : State Exec} {req : GraphLookupRequest} {env : LookupEnv}
  {res : GraphLookupResult Exec} {r : Result GraphArtifactId}

/-- That the lookup is counted makes no difference to what it finds. -/
theorem search_lookedUp
    (hs : searchCandidates cfg (s.lookedUp req) (makeFacts req) req.policy = (s₁, res)) :
    res = (searchCandidates cfg s (makeFacts req) req.policy).2 ∧
      s₁.captureCounter = (searchCandidates cfg s (makeFacts req) req.policy).1.captureCounter ∧
      s₁.toRegistry = (searchCandidates cfg s (makeFacts req) req.policy).1.toRegistry := by
  obtain ⟨f, hf⟩ : ∃ f, s.lookedUp req = s.touchMetric f := ⟨_, rfl⟩
  have h := searchCandidates_touchMetric cfg s f (makeFacts req) req.policy
  rwa [← hf, hs] at h

/-- A capture after a search that asked for it, told of the state before the search. -/
theorem capture_spec
    (hs : searchCandidates cfg (s.lookedUp req) (makeFacts req) req.policy = (s₁, res))
    (hout : res.outcome = .missCaptureRequired)
    (hg : captureGraph cfg (s₁.capturing req) req (s₁.captureCounter + 1) env = (s₂, r)) :
    (∃ err, r = .error err ∧ captureEntry cfg s.graphGenerationCounter s.cacheGeneration req
        ((searchCandidates cfg s (makeFacts req) req.policy).1.captureCounter + 1)
        env.captureCostUs = .error err ∧ s₂.toRegistry = s.toRegistry ∧ s.Keeps s₂) ∨
    ∃ e, r = .ok e.artifactId ∧ captureEntry cfg s.graphGenerationCounter s.cacheGeneration req
        ((searchCandidates cfg s (makeFacts req) req.policy).1.captureCounter + 1)
        env.captureCostUs = .ok e ∧ s₂.toRegistry = s.toRegistry.register e ∧
      s₂.graphGenerationCounter = s.graphGenerationCounter + 1 ∧
      s₂.cacheGeneration = s.cacheGeneration ∧ s₂.store = s.written e env.putOk := by
  obtain ⟨hk, -, -, hmiss⟩ := searchCandidates_spec cfg (s.lookedUp req) (makeFacts req) req.policy
  rw [hs] at hk hmiss
  obtain ⟨-, hcounter, -⟩ := search_lookedUp hs
  have hr₁ : (s₁.capturing req).toRegistry = s.toRegistry := (hmiss hout).2
  have hk₁ : s.Keeps (s₁.capturing req) := ⟨hk.1, hk.2, hk.3⟩
  have hspec := captureGraph_spec cfg (s₁.capturing req) req (s₁.captureCounter + 1) env
  rw [hg, hk₁.graphGen, hk₁.cacheGen, hr₁, hcounter] at hspec
  rcases hspec with ⟨err, herr, rfl, hr, hkeep⟩ | ⟨e, he, rfl, hr, hgen, hcache, hstore⟩
  · exact .inl ⟨err, rfl, herr, hr, hk₁.trans hkeep⟩
  · rw [State.written, hk₁.store] at hstore
    exact .inr ⟨e, rfl, he, hr, hgen, hcache, hstore⟩

end

variable (cfg) in
/-- A lookup answers from its base, and edits entries there. -/
theorem lookup_spec (s : State Exec) (req : GraphLookupRequest) (env : LookupEnv) :
    ∃ s₁, LookupBase cfg s req env s₁ ∧ s₁.Keeps (lookup cfg s req env).1 ∧
      Edits cfg Unmarked s₁.toRegistry (lookup cfg s req env).1.toRegistry ∧
      ∀ l, (lookup cfg s req env).2.lease = some l →
        ∃ r, SearchHit cfg s₁.toRegistry (makeFacts req) req.policy (lookup cfg s req env).2 l r := by
  have hpath := lookup_path cfg s req env
  generalize (lookup cfg s req env).1 = s', (lookup cfg s req env).2 = res' at hpath ⊢
  obtain ⟨hk, hed, hlease, hmiss⟩ :=
    searchCandidates_spec cfg (s.lookedUp req) (makeFacts req) req.policy
  cases hpath with
  | found hs hhit =>
    rw [hs] at hk hed hlease hmiss
    refine ⟨s.lookedUp req, .found ?_ rfl ⟨rfl, rfl, rfl⟩, ⟨hk.1, hk.2, hk.3⟩, hed, hlease⟩
    rintro e ⟨-, -, hout, -⟩
    rw [← (search_lookedUp hs).1] at hout
    have hnone : res'.lease = none := (hmiss hout).1
    simp [GraphLookupResult.hit, hnone] at hhit
  | missed hs hmissed hno =>
    rw [hs] at hk hed
    refine ⟨s.lookedUp req, .found ?_ rfl ⟨rfl, rfl, rfl⟩, ⟨hk.1, hk.2, hk.3⟩, hed, fun l hl => ?_⟩
    · rintro e ⟨hreq, hcfg, hout, -⟩
      exact hno ⟨hreq, hcfg, (search_lookedUp hs).1 ▸ hout⟩
    · rw [GraphLookupResult.hit, hl] at hmissed
      cases hmissed
  | failed hs hmay hg =>
    rename_i s₂ _ err
    rw [hs] at hmiss
    rcases capture_spec hs hmay.2.2 hg with ⟨_, -, herr, hr, hkeep⟩ | ⟨e, hok, -⟩
    · refine ⟨s₂, .found ?_ hr hkeep, ⟨rfl, rfl, rfl⟩, .refl _, fun l hl => ?_⟩
      · rintro e ⟨-, -, -, he⟩
        simp [he] at herr
      · exact nomatch (hmiss hmay.2.2).1.symm.trans hl
    · cases hok
  | captured hs hmay hg ha hhit =>
    rename_i s₂ s₃ _ again _
    obtain ⟨hres, -⟩ := search_lookedUp hs
    rcases capture_spec hs hmay.2.2 hg with ⟨_, herr, -⟩ | ⟨e, -, he, hr, hgen, hcache, hstore⟩
    · cases herr
    · obtain ⟨hk', hed', hlease', -⟩ := searchCandidates_spec cfg s₂ (makeFacts req) req.policy
      rw [ha] at hk' hed' hlease'
      refine ⟨s₂, .captured e ⟨hmay.1, hmay.2.1, hres ▸ hmay.2.2, he⟩ hr hgen hcache hstore,
        ⟨hk'.1, hk'.2, hk'.3⟩, hed', fun l hl => ?_⟩
      obtain ⟨r, hh⟩ := hlease' l hl
      exact ⟨r, hh.1, hh.2, hh.3, hh.4, hh.5, hh.6, hh.7, hh.8⟩
  | unusable hs hmay hg ha hmissed =>
    rename_i s₂ _ again _
    obtain ⟨hres, -⟩ := search_lookedUp hs
    rw [hs] at hmiss
    rcases capture_spec hs hmay.2.2 hg with ⟨_, herr, -⟩ | ⟨e, -, he, hr, hgen, hcache, hstore⟩
    · cases herr
    · obtain ⟨hk', hed', -, -⟩ := searchCandidates_spec cfg s₂ (makeFacts req) req.policy
      rw [ha] at hk' hed'
      refine ⟨s₂, .captured e ⟨hmay.1, hmay.2.1, hres ▸ hmay.2.2, he⟩ hr hgen hcache hstore,
        hk', hed', fun l hl => ?_⟩
      exact nomatch (hmiss hmay.2.2).1.symm.trans hl

/-- Edits leave the validity of an entry that is not marked alone. -/
theorem Edits.unmarked {M : ℕ → Prop} {r r' : Registry Exec} (h : Edits cfg M r r') {a : ℕ}
    (ha : ¬M a) : (r'.heap a).invalidated = (r.heap a).invalidated ∧
      (r'.heap a).lifecycle = (r.heap a).lifecycle := by
  refine h.invariant (I := fun r' => (r'.heap a).invalidated = (r.heap a).invalidated ∧
    (r'.heap a).lifecycle = (r.heap a).lifecycle) ⟨rfl, rfl⟩ ?_ (fun _ _ _ h => h.elim)
  intro r' b e hr he
  by_cases hab : a = b
  · subst hab
    obtain ⟨-, hsame | ⟨hmark, -⟩⟩ := he.spec
    · rw [set_heap_self]
      exact ⟨hsame.1.trans hr.1, hsame.2.trans hr.2⟩
    · exact absurd hmark ha
  · rwa [set_heap_of_ne r' e hab]

theorem Edits.valid {r r' : Registry Exec} (h : Edits cfg Unmarked r r') (a : ℕ) :
    (r'.heap a).invalidated = (r.heap a).invalidated ∧ (r'.heap a).lifecycle = (r.heap a).lifecycle :=
  h.unmarked id

/-- A chosen entry that can be materialized is leased. -/
theorem searchCandidates_hit {s : State Exec} {facts : CompatibilityFacts}
    {policy : GraphCompatibilityPolicy} {a : ℕ} {dec : GraphCompatibilityDecision}
    (hc : (scan s.toRegistry facts policy).chosen = some (a, dec))
    (hm : (materializeExec cfg s a).2 = .ok ()) :
    (searchCandidates cfg s facts policy).2.lease.isSome = true := by
  have hsel := (scan_chosen hc).1.candidate.selectable
  have hvalid := (materializeExec_spec cfg s a).2.1.valid a
  unfold searchCandidates
  simp only [hc]
  split
  · rename_i s' err h
    rw [h] at hm
    simp at hm
  · rename_i s' h
    rw [h] at hvalid
    dsimp only at hvalid
    rw [if_neg (by simp [hvalid.1, hvalid.2, hsel.1, hsel.2.2])]
    rfl

theorem lookup_hit {s : State Exec} {req : GraphLookupRequest} (env : LookupEnv) {a : ℕ}
    {dec : GraphCompatibilityDecision}
    (hc : (scan s.toRegistry (makeFacts req) req.policy).chosen = some (a, dec))
    (hm : (materializeExec cfg s a).2 = .ok ()) :
    (lookup cfg s req env).2.lease.isSome = true := by
  have hhit := searchCandidates_hit hc hm
  unfold lookup
  dsimp only
  rw [← (searchCandidates_touchMetric _ s _ (makeFacts req) req.policy).1] at hhit
  rw [if_pos (by exact hhit)]
  exact hhit

/-! ## Steps and runs -/

/-- What an operation registers : a lookup what it captures; a recovery each record of the
listing, on the registry that the records before it leave. -/
def Registers (cfg : Config Exec) (s : State Exec) :
    Op Exec → Registry Exec → CacheEntry Exec → Prop
  | .lookup req env, r, e => r = s.toRegistry ∧ Captures cfg s req env e
  | .recover listing, r, e => ∃ store pre id post, s.store = some store ∧
      listing.arrange store.keys = pre ++ id :: post ∧
      r = (pre.foldl (recoverEntry store) s).toRegistry ∧ loadEntry store id = some e
  | _, _, _ => False

/-- What an operation marks. -/
def Marks (s : State Exec) : Op Exec → ℕ → Prop
  | .invalidate req, a => a ∈ invalidationTargets s.toRegistry req
  | _, _ => False

theorem LookupBase.evolves {s s' : State Exec} {req : GraphLookupRequest} {env : LookupEnv}
    (h : LookupBase cfg s req env s') :
    Evolves cfg Unmarked (Registers cfg s (.lookup req env)) s.toRegistry s'.toRegistry := by
  cases h with
  | found hn hr hk => exact hr ▸ .refl _
  | captured e hc hr hg hcg hs => exact hr ▸ .register (.refl _) ⟨rfl, hc⟩

theorem foldl_invalidateEntry_edits {M : ℕ → Prop} (strong : Bool) :
    ∀ (l : List ℕ) (acc : State Exec × InvalidationResult), (∀ a ∈ l, M a) →
      Edits cfg M acc.1.toRegistry (l.foldl (invalidateEntry cfg strong) acc).1.toRegistry
  | [], _, _ => .refl _
  | a :: l, acc, hM => by
    have hhead : Edits cfg M acc.1.toRegistry (invalidateEntry cfg strong acc a).1.toRegistry := by
      by_cases h : (acc.1.heap a).invalidated = true
      · simpa [invalidateEntry, h] using .refl _
      · simpa [invalidateEntry, h] using .single a (.invalidate _ strong (hM a (by simp)))
    exact hhead.trans (foldl_invalidateEntry_edits strong l _ fun b hb => hM b (by simp [hb]))

theorem invalidate_edits (s : State Exec) (req : InvalidationRequest) :
    Edits cfg (· ∈ invalidationTargets s.toRegistry req) s.toRegistry
      (invalidate cfg s req).1.toRegistry :=
  foldl_invalidateEntry_edits req.strong (invalidationTargets s.toRegistry req)
    ({ s with cacheGeneration := s.cacheGeneration + 1 }, {}) fun _ h => h

theorem persistLoop_registry (putOk : GraphArtifactId → Bool) :
    ∀ (l : List ℕ) (s : State Exec), (persistLoop putOk l s).1.toRegistry = s.toRegistry
  | [], _ => rfl
  | a :: l, s => by
    have hp : (persistEntry s a (putOk (s.heap a).artifactId)).1.toRegistry = s.toRegistry := by
      rw [persistEntry_eq]
    unfold persistLoop
    split
    · rename_i s' h
      rw [h] at hp
      exact (persistLoop_registry putOk l s').trans hp
    · rename_i s' e h
      rw [h] at hp
      exact hp

theorem foldl_recoverEntry_evolves {store : Store} {s : State Exec}
    {listing : IterationOrder GraphArtifactId} (hs : s.store = some store) :
    ∀ (post pre : List GraphArtifactId), listing.arrange store.keys = pre ++ post →
      Evolves cfg Unmarked (Registers cfg s (.recover listing))
        (pre.foldl (recoverEntry store) s).toRegistry
        ((pre ++ post).foldl (recoverEntry store) s).toRegistry
  | [], pre, _ => by simpa using .refl _
  | id :: post, pre, h => by
    have ih := foldl_recoverEntry_evolves hs post (pre ++ [id]) (by simpa using h)
    rw [List.append_cons]
    refine Evolves.trans ?_ ih
    rw [List.foldl_append, List.foldl_cons, List.foldl_nil]
    generalize hp : pre.foldl (recoverEntry store) s = s'
    unfold recoverEntry
    split
    · exact .refl _
    · rename_i e he
      exact .register (.refl _) ⟨store, pre, id, post, hs, h, by rw [hp], he⟩

variable (cfg) in
/-- What an operation does to the registry. -/
theorem step_evolves (s : State Exec) (op : Op Exec) :
    Evolves cfg (Marks s op) (Registers cfg s op) s.toRegistry (step cfg s op).toRegistry := by
  cases op with
  | lookup req env =>
    obtain ⟨s₁, hbase, -, hedits, -⟩ := lookup_spec cfg s req env
    exact hbase.evolves.trans hedits.evolves
  | release l =>
    by_cases h : l.token ∈ s.released
    · simpa [step, release, h] using .refl _
    · simpa [step, release, h] using .single l.entry (.counts _ (s.heap l.entry).pinCount _)
  | replay l expected b rd mem =>
    have h : (replay cfg s l expected b rd mem).1.toRegistry = s.toRegistry := by
      unfold replay
      split_ifs
      · rfl
      · rfl
      · split
        · rfl
        · dsimp only
          split <;> rfl
    exact h ▸ .refl _
  | invalidate req => exact (invalidate_edits s req).evolves
  | pin id =>
    simp only [step, pin]
    split
    · exact .refl _
    · rename_i a _
      exact .single a (.counts _ _ (s.heap a).leaseCount)
  | unpin id =>
    simp only [step, unpin]
    split
    · exact .refl _
    · rename_i a _
      split_ifs
      · exact .refl _
      · exact .single a (.counts _ _ (s.heap a).leaseCount)
  | evict id =>
    simp only [step, evict]
    split
    · exact .refl _
    · split_ifs
      · exact .refl _
      · exact .single _ (.drop _)
  | unload id =>
    simp only [step, unload]
    split
    · exact .refl _
    · split_ifs
      · exact .refl _
      · exact .single _ (.drop _)
  | persistAll order putOk =>
    have h : (persistAll s order putOk).1.toRegistry = s.toRegistry := by
      unfold persistAll
      split
      · rfl
      · exact persistLoop_registry putOk _ s
    exact h ▸ .refl _
  | recover listing =>
    simp only [step, recover]
    split
    · exact .refl _
    · rename_i store hs
      exact foldl_recoverEntry_evolves hs (listing.arrange store.keys) [] rfl

theorem run_concat (s : State Exec) (ops : List (Op Exec)) (op : Op Exec) :
    run cfg s (ops ++ [op]) = step cfg (run cfg s ops) op := by
  rw [run, List.foldl_append]
  rfl

/-- What edits and the registrations of each operation preserve holds along a run. -/
theorem run_invariant {I : Registry Exec → Prop}
    (hedit : ∀ (M : ℕ → Prop) r a e, I r → Edit cfg (M a) (r.heap a) e → I (r.set a e))
    (hreg : ∀ s op r e, I r → Registers cfg s op r e → I (r.register e)) :
    ∀ (ops : List (Op Exec)) (s : State Exec), I s.toRegistry → I (run cfg s ops).toRegistry
  | [], _, h => h
  | op :: ops, s, h =>
    run_invariant hedit hreg ops _ ((step_evolves _ s op).invariant h (hedit _) (hreg s op))

/-- What captured and recovered entries have, and edits keep, every entry has along a run. -/
theorem run_entries {P : CacheEntry Exec → Prop}
    (hedit : ∀ {marks : Prop} {e e' : CacheEntry Exec}, Edit cfg marks e e' → P e → P e')
    (hcaptured : ∀ generation cacheGeneration req g exec costUs,
      P (capturedEntry generation cacheGeneration req g exec costUs))
    (hrecovered : ∀ g md, P (recoveredEntry g md)) (ops : List (Op Exec)) (s : State Exec)
    (h : ∀ a, P (s.heap a)) (a : ℕ) : P ((run cfg s ops).heap a) := by
  refine run_invariant (I := fun r => ∀ a, P (r.heap a)) ?_ ?_ ops s h a
  · intro M r b e hr he a
    by_cases hab : a = b
    · subst hab
      rw [set_heap_self]
      exact hedit he (hr a)
    · rw [set_heap_of_ne r e hab]
      exact hr a
  · intro s op r e hr hreg a
    have he : P e := by
      cases op with
      | lookup req env =>
        obtain ⟨g, x, -, -, rfl⟩ := captureEntry_ok hreg.2.2.2.2
        exact hcaptured _ _ _ _ _ _
      | recover listing =>
        obtain ⟨_, _, _, _, -, -, -, hload⟩ := hreg
        obtain ⟨g, md, rfl⟩ := loadEntry_some hload
        exact hrecovered g md
      | _ => exact hreg.elim
    simp only [Registry.register, Function.update_apply]
    split_ifs
    · exact he
    · exact hr a

variable (cfg) in
/-- Where the entries of the registry after an operation come from. -/
theorem step_origin (s : State Exec) (op : Op Exec) :
    ∀ a < (step cfg s op).next,
      (a < s.next ∧ (s.heap a).Same ((step cfg s op).heap a) ∧
        (((step cfg s op).heap a).invalidated = true → (s.heap a).invalidated = true ∨ Marks s op a)) ∨
      ∃ r x, Registers cfg s op r x ∧ r.next = a ∧ x.Same ((step cfg s op).heap a) ∧
        (((step cfg s op).heap a).invalidated = true → x.invalidated = true ∨ Marks s op a) := by
  refine (step_evolves _ s op).invariant (I := fun r' => ∀ a < r'.next,
    (a < s.next ∧ (s.heap a).Same (r'.heap a) ∧
      ((r'.heap a).invalidated = true → (s.heap a).invalidated = true ∨ Marks s op a)) ∨
    ∃ r x, Registers cfg s op r x ∧ r.next = a ∧ x.Same (r'.heap a) ∧
      ((r'.heap a).invalidated = true → x.invalidated = true ∨ Marks s op a))
    (fun a ha => .inl ⟨ha, .refl _, .inl⟩) ?_ ?_
  · intro r' b e h he a ha
    obtain ⟨hsame, -, hunmarked⟩ := he.set_spec a
    have hback : ∀ {p : Prop}, ((r'.heap a).invalidated = true → p ∨ Marks s op a) →
        ((r'.set b e).heap a).invalidated = true → p ∨ Marks s op a := by
      intro p hp hinv
      by_cases hm : Marks s op a
      · exact .inr hm
      · exact hp (hunmarked hm ▸ hinv)
    rcases h a ha with ⟨hlt, hs, hi⟩ | ⟨r, x, hreg, hnext, hs, hi⟩
    · exact .inl ⟨hlt, hs.trans hsame, hback hi⟩
    · exact .inr ⟨r, x, hreg, hnext, hs.trans hsame, hback hi⟩
  · intro r' e h hreg a ha
    rcases Nat.lt_succ_iff_lt_or_eq.mp ha with ha | rfl
    · rw [register_heap_of_lt r' e ha]
      exact h a ha
    · rw [register_heap_self]
      exact .inr ⟨r', e, hreg, rfl, .refl _, .inl⟩

/-! ## The indices -/

theorem mem_artifacts {r : Registry Exec} {a : ℕ} :
    a ∈ r.artifacts ↔ ∃ id, r.artifact id = some a := by
  simp only [Registry.artifacts, Registry.artifact, List.mem_map, Sigma.exists]
  constructor
  · rintro ⟨id, b, hb, rfl⟩
    exact ⟨id, AList.mem_lookup_iff.mpr hb⟩
  · rintro ⟨id, h⟩
    exact ⟨id, a, AList.mem_lookup_iff.mp h, rfl⟩

/-- The indices hold addresses in use, under the keys of the entries there. -/
structure Registry.Indexed (r : Registry Exec) : Prop where
  bucket : ∀ k, ∀ a ∈ r.byWorkload k, a < r.next ∧ workloadKey (r.heap a).workload = k
  key : ∀ k, ∀ a ∈ r.byKey k, a < r.next ∧ (r.heap a).keyHex = k
  artifact : ∀ id a, r.artifact id = some a → a < r.next ∧ (r.heap a).artifactId = id

theorem Registry.Indexed.set {M : ℕ → Prop} {r : Registry Exec} (h : r.Indexed) {a : ℕ}
    {e : CacheEntry Exec} (he : Edit cfg (M a) (r.heap a) e) : (r.set a e).Indexed where
  bucket := fun k b hb => by
    rw [(he.set_spec b).1.workload]
    exact h.bucket k b hb
  key := fun k b hb => by
    rw [CacheEntry.keyHex, (he.set_spec b).1.key]
    exact h.key k b hb
  artifact := fun id b hb => by
    rw [(he.set_spec b).1.artifactId]
    exact h.artifact id b hb

/-- A list of an index, after an address was filed. -/
theorem mem_update_concat {f : Str → List ℕ} {k k' : Str} {n b : ℕ}
    (h : b ∈ Function.update f k (f k ++ [n]) k') : b ∈ f k' ∨ b = n ∧ k = k' := by
  by_cases hk : k' = k
  · subst hk
    simpa using h
  · rw [Function.update_of_ne hk] at h
    exact .inl h

theorem Registry.Indexed.register {r : Registry Exec} (h : r.Indexed) (e : CacheEntry Exec) :
    (r.register e).Indexed where
  bucket := fun k b hb => by
    rcases mem_update_concat hb with hmem | ⟨rfl, hk⟩
    · obtain ⟨hlt, hkey⟩ := h.bucket k b hmem
      rw [register_heap_of_lt r e hlt, register_next]
      exact ⟨by omega, hkey⟩
    · simpa using hk
  key := fun k b hb => by
    rcases mem_update_concat hb with hmem | ⟨rfl, hk⟩
    · obtain ⟨hlt, hkey⟩ := h.key k b hmem
      rw [register_heap_of_lt r e hlt, register_next]
      exact ⟨by omega, hkey⟩
    · simpa using hk
  artifact := fun id b hb => by
    by_cases hid : id = e.artifactId
    · subst hid
      obtain rfl : r.next = b := by simpa using hb
      simp
    · rw [register_artifact_of_ne r e hid] at hb
      obtain ⟨hlt, hkey⟩ := h.artifact id b hb
      rw [register_heap_of_lt r e hlt, register_next]
      exact ⟨by omega, hkey⟩

theorem indexed_fresh (store : Option Store) :
    (State.fresh store : State Exec).toRegistry.Indexed where
  bucket := by simp [State.fresh]
  key := by simp [State.fresh]
  artifact := by
    intro id a h
    simp [State.fresh, Registry.artifact] at h

variable (cfg) in
theorem indexed_step {s : State Exec} (h : s.toRegistry.Indexed) (op : Op Exec) :
    (step cfg s op).toRegistry.Indexed :=
  (step_evolves _ s op).invariant h (fun _ _ _ h he => h.set he) (fun _ e h _ => h.register e)

theorem indexed_run (s : State Exec) (h : s.toRegistry.Indexed) (ops : List (Op Exec)) :
    (run cfg s ops).toRegistry.Indexed :=
  run_invariant (fun _ _ _ _ h he => h.set he) (fun _ _ _ e h _ => h.register e) ops s h

end GraphCache
