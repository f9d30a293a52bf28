import GraphCache.Evolution

/-!
# Invalidation

A lookup finds entries through `by_workload`, an invalidation through `by_artifact`. An entry that
lookups select but `by_artifact` no longer names is out of reach of every invalidation, and a
registration makes one when it takes over the artifact id of an entry that stays selectable : two
workloads with one descriptor, or a recovery over a live cache.

`invalidation_complete` : in a run whose registrations shadow no entry (`RunClean`) an invalidation
reaches everything it covers. `invalidation_incomplete` : a run of two captures in which it does
not.
-/

namespace GraphCache

variable {Exec : Type} {cfg : Config Exec}

/-! ## Entries by their artifact id -/

/-- `by_artifact` names the entry at `a`. -/
def Registry.Named (r : Registry Exec) (a : ℕ) : Prop :=
  r.artifact (r.heap a).artifactId = some a

/-- Every selectable entry is named. -/
def Registry.Reached (r : Registry Exec) : Prop := ∀ a < r.next, r.Selectable a → r.Named a

/-- The registration of `e` leaves no selectable entry unnamed : whatever is selectable after it
was named before, under another artifact id. -/
def NoShadow (r : Registry Exec) (e : CacheEntry Exec) : Prop :=
  ∀ a < r.next, (r.register e).Selectable a → r.Named a ∧ (r.heap a).artifactId ≠ e.artifactId

/-- The entry at `a` is invalidated, or no invalidation will find it. -/
def Registry.Gone (r : Registry Exec) (a : ℕ) : Prop :=
  (r.heap a).invalidated = true ∨ ¬r.Named a

section

variable {M : ℕ → Prop} {r : Registry Exec} {a : ℕ} {e : CacheEntry Exec}

theorem Edit.named_iff (he : Edit cfg (M a) (r.heap a) e) (b : ℕ) : (r.set a e).Named b ↔ r.Named b := by
  simp [Registry.Named, (he.set_spec b).1.artifactId]

theorem Edit.selectable (he : Edit cfg (M a) (r.heap a) e) {b : ℕ} (h : (r.set a e).Selectable b) :
    r.Selectable b := by
  obtain ⟨hinv, hcur, hlife⟩ := h
  by_cases hb : b = a
  · subst hb
    rw [set_heap_self] at hinv hcur hlife
    obtain ⟨hsame, ⟨hi, hl⟩ | ⟨-, hi, -⟩⟩ := he.spec
    · refine ⟨hi ▸ hinv, ?_, hl ▸ hlife⟩
      simpa [CacheEntry.keyHex, hsame.key, hsame.generation] using hcur
    · simp [hi] at hinv
  · rw [set_heap_of_ne r e hb] at hinv hcur hlife
    exact ⟨hinv, hcur, hlife⟩

theorem Registry.Reached.set (h : r.Reached) (he : Edit cfg (M a) (r.heap a) e) : (r.set a e).Reached :=
  fun b hb hsel => (he.named_iff b).mpr (h b hb (he.selectable hsel))

theorem Registry.Reached.register (h : NoShadow r e) : (r.register e).Reached := by
  intro b hb hsel
  rcases Nat.lt_succ_iff_lt_or_eq.mp hb with hb | rfl
  · obtain ⟨hnamed, hne⟩ := h b hb hsel
    rw [Registry.Named, register_heap_of_lt r e hb, register_artifact_of_ne r e hne]
    exact hnamed
  · simp [Registry.Named]

theorem Registry.Gone.set {b : ℕ} (h : r.Gone b) (he : Edit cfg (M a) (r.heap a) e) :
    (r.set a e).Gone b := by
  rcases h with h | h
  · refine .inl (Bool.not_eq_false _ ▸ fun hf => ?_)
    simp [(he.set_spec b).2.1 hf] at h
  · exact .inr (mt (he.named_iff b).mp h)

theorem Registry.Gone.register {b : ℕ} (hb : b < r.next) (h : r.Gone b) :
    (r.register e).Gone b := by
  unfold Registry.Gone Registry.Named
  rw [register_heap_of_lt r e hb]
  rcases h with h | h
  · exact .inl h
  · refine .inr ?_
    by_cases hid : (r.heap b).artifactId = e.artifactId
    · rw [hid, register_artifact_self]
      simpa using hb.ne'
    · rw [register_artifact_of_ne r e hid]
      exact h

end

/-- A gone entry stays gone. -/
theorem gone_run {s : State Exec} {a : ℕ} (ha : a < s.next) (h : s.toRegistry.Gone a)
    (ops : List (Op Exec)) : (run cfg s ops).toRegistry.Gone a := by
  refine (run_invariant (I := fun r => a < r.next ∧ r.Gone a) ?_ ?_ ops s ⟨ha, h⟩).2
  · exact fun M r b e h he => ⟨h.1, h.2.set he⟩
  · exact fun _ _ r e h _ => ⟨Nat.lt_succ_of_lt h.1, h.2.register h.1⟩

/-! ## One invalidation -/

theorem Edits.invalidated {M : ℕ → Prop} {r r' : Registry Exec} (h : Edits cfg M r r') {a : ℕ}
    (ha : (r.heap a).invalidated = true) : (r'.heap a).invalidated = true := by
  refine h.invariant (I := fun r => (r.heap a).invalidated = true) ha ?_ (fun _ _ _ h => h.elim)
  intro r b e hr he
  refine (Bool.not_eq_false _).mp fun hf => ?_
  simp [(he.set_spec a).2.1 hf] at hr

theorem invalidated_invalidateEntry (strong : Bool) (acc : State Exec × InvalidationResult)
    (a : ℕ) : ((invalidateEntry cfg strong acc a).1.heap a).invalidated = true := by
  by_cases h : (acc.1.heap a).invalidated = true
  · simp [invalidateEntry, h]
  · have hs := (markInvalidated_spec cfg strong (acc.1.heap a)).2.1
    simpa [invalidateEntry, h, State.set] using hs

theorem invalidated_of_mem_targets (strong : Bool) {a : ℕ} :
    ∀ (l : List ℕ) (acc : State Exec × InvalidationResult), a ∈ l →
      ((l.foldl (invalidateEntry cfg strong) acc).1.heap a).invalidated = true
  | b :: l, acc, h => by
    rcases List.mem_cons.mp h with rfl | h
    · exact (foldl_invalidateEntry_edits (M := fun _ => True) strong l _ (by simp)).invalidated
        (invalidated_invalidateEntry strong acc a)
    · exact invalidated_of_mem_targets strong l _ h

theorem mem_invalidationTargets {r : Registry Exec} {req : InvalidationRequest} {a : ℕ}
    (hc : req.covers (r.heap a) = true) (hn : r.Named a) : a ∈ invalidationTargets r req := by
  unfold invalidationTargets
  split_ifs with hscope
  · have hid : (r.heap a).artifactId = req.artifactId := by
      simpa [InvalidationRequest.covers, hscope] using hc
    rw [← hid, hn]
    simp
  · exact List.mem_filter.mpr ⟨mem_artifacts.mpr ⟨_, hn⟩, hc⟩

/-- An invalidation marks what it covers, or cannot find it. -/
theorem gone_invalidate (s : State Exec) {req : InvalidationRequest} {a : ℕ}
    (hc : req.covers (s.heap a) = true) : (invalidate cfg s req).1.toRegistry.Gone a := by
  by_cases hn : s.toRegistry.Named a
  · exact .inl (invalidated_of_mem_targets req.strong _
      ({ s with cacheGeneration := s.cacheGeneration + 1 }, {}) (mem_invalidationTargets hc hn))
  · exact (invalidate_edits s req).invariant (I := fun r => r.Gone a) (.inr hn)
      (fun _ _ _ h he => h.set he) (fun _ _ _ h => h.elim)

/-! ## Runs -/

/-- Each operation registers only entries that shadow none. -/
def RunClean (cfg : Config Exec) (s : State Exec) : List (Op Exec) → Prop
  | [] => True
  | op :: ops => (∀ r e, Registers cfg s op r e → NoShadow r e) ∧ RunClean cfg (step cfg s op) ops

theorem reached_run : ∀ (ops : List (Op Exec)) (s : State Exec), s.toRegistry.Reached →
    RunClean cfg s ops → (run cfg s ops).toRegistry.Reached
  | [], _, h, _ => h
  | op :: ops, s, h, hc => by
    refine reached_run ops _ ?_ hc.2
    refine (step_evolves _ s op).invariant h (fun _ _ _ h he => h.set he) ?_
    exact fun r e _ hp => .register (hc.1 r e hp)

/-- What a lookup without capture leases is selectable, and in use. -/
theorem lookup_selectable {s : State Exec} (hs : s.toRegistry.Indexed) {req : GraphLookupRequest}
    {env : LookupEnv} {l : Lease Exec} (hreq : req.allowCapture = false)
    (h : (lookup cfg s req env).2.lease = some l) :
    l.entry < s.next ∧ s.toRegistry.Selectable l.entry := by
  obtain ⟨s₁, hbase, -, -, hlease⟩ := lookup_spec cfg s req env
  obtain ⟨r, hhit⟩ := hlease l h
  obtain ⟨⟨hmem, ⟨hsel, -, -⟩, -⟩, -⟩ := scan_chosen hhit.chosen
  cases hbase with
  | found hn hr hk =>
    rw [hr] at hmem hsel
    exact ⟨(hs.bucket _ _ hmem).1, hsel⟩
  | captured e hc => simp [hc.1] at hreq

/-- After `ops₁`, an invalidation, and `ops₂` : no lookup without capture leases an entry that was
published before the invalidation and that it covers. -/
def InvalidationHolds (cfg : Config Exec) (store : Option Store) (ops₁ : List (Op Exec))
    (req : InvalidationRequest) (ops₂ : List (Op Exec)) : Prop :=
  let before := run cfg (.fresh store) ops₁
  let after := run cfg (invalidate cfg before req).1 ops₂
  ∀ a < before.next, req.covers (before.heap a) = true →
    ∀ r env l, r.allowCapture = false → (lookup cfg after r env).2.lease = some l → l.entry ≠ a

/-- Invalidation is complete in every run that shadows no entry. -/
theorem invalidation_complete (cfg : Config Exec) (store : Option Store) (ops₁ : List (Op Exec))
    (req : InvalidationRequest) (ops₂ : List (Op Exec))
    (h : RunClean cfg (.fresh store) (ops₁ ++ .invalidate req :: ops₂)) :
    InvalidationHolds cfg store ops₁ req ops₂ := by
  intro a ha hcov r env l hr hl heq
  set before := run cfg (.fresh store) ops₁ with hbefore
  set after := run cfg (invalidate cfg before req).1 ops₂ with hafter
  have hafter : after = run cfg (.fresh store) (ops₁ ++ .invalidate req :: ops₂) := by
    simp [hafter, hbefore, run, step]
  have hindexed : after.toRegistry.Indexed := hafter ▸ indexed_run _ (indexed_fresh store) _
  have hreached : after.toRegistry.Reached := by
    rw [hafter]
    exact reached_run _ _ (by intro a ha; simp [State.fresh] at ha) h
  have hgone : after.toRegistry.Gone a := by
    refine gone_run ?_ (gone_invalidate before hcov) ops₂
    rwa [((invalidate_edits before req).same a).2]
  obtain ⟨hlt, hsel⟩ := lookup_selectable hindexed hr hl
  rw [heq] at hlt hsel
  rcases hgone with hinv | hname
  · simp [hsel.1] at hinv
  · exact hname (hreached a hlt hsel)

theorem invalidation_complete_single :
    InvalidationHolds (.cpu (.insertion _) .unit) none [.lookup (blankRequest "a" true) {}]
      { scope := .byAll } [] := by
  refine invalidation_complete _ _ _ _ _ ⟨?_, ?_, trivial⟩
  · rintro r e ⟨rfl, -⟩ a ha
    simp [State.fresh] at ha
  · exact fun r e h => h.elim

/-- A lease that refutes completeness. -/
theorem not_invalidationHolds {store : Option Store} {ops₁ ops₂ : List (Op Exec)}
    {req : InvalidationRequest} (a : ℕ) (r : GraphLookupRequest) (env : LookupEnv)
    (hr : r.allowCapture = false)
    (h : a < (run cfg (.fresh store) ops₁).next ∧
      req.covers ((run cfg (.fresh store) ops₁).heap a) = true ∧
      (lookup cfg (run cfg (invalidate cfg (run cfg (.fresh store) ops₁) req).1 ops₂) r env).2.lease.map
        (·.entry) = some a) : ¬InvalidationHolds cfg store ops₁ req ops₂ := by
  intro hholds
  obtain ⟨ha, hcov, hlease⟩ := h
  obtain ⟨l, hl, hentry⟩ := Option.map_eq_some_iff.mp hlease
  exact hholds a ha hcov r env l hr hl hentry

set_option maxRecDepth 100000 in
/-- Two workloads with one descriptor : the second capture takes over the artifact id, and the
first entry survives the invalidation of everything. -/
theorem invalidation_incomplete :
    ¬InvalidationHolds (.cpu (.insertion _) .unit) none
      [.lookup (blankRequest "a" true) {}, .lookup (blankRequest "b" true) {}]
      { scope := .byAll } [] :=
  not_invalidationHolds 0 (blankRequest "a" false) {} rfl (by decide +kernel)

end GraphCache
