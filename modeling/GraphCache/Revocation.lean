import GraphCache.History
import GraphCache.Invalidation

/-!
# Leases and strong invalidation

A lease keeps the executable it was granted with, and a replay through it does not look at the state
of the entry. So an invalidation ends no lease, not even a strong one, which `cache.hpp` calls an
authoritative revocation (`strong_invalidation_lost`). What it does is to keep new leases from being
granted, on the entries that `by_artifact` names. A lease is void once it is released, so nothing is
replayed where every lease on the entries in scope was released before (`strong_invalidation_revokes`).
-/

namespace GraphCache

open History

variable {Exec : Type} {cfg : Config Exec}

/-! ## Leases of a run -/

/-- The step is a lookup that grants the lease. -/
def Grants (cfg : Config Exec) (l : Lease Exec) (s : State Exec) (op : Op Exec) : Prop :=
  ∃ req env, op = .lookup req env ∧ (lookup cfg s req env).2.lease = some l

/-- The lease was granted in the run. -/
def Granted (cfg : Config Exec) (s : State Exec) (ops : List (Op Exec)) (l : Lease Exec) : Prop :=
  Once (step cfg) s (Grants cfg l) ops

/-- Replays through the lease fail, whatever they ask for. -/
def Refuses (cfg : Config Exec) (s : State Exec) (l : Lease Exec) : Prop :=
  ∀ expected b rd mem, ∃ mem' err, (replay cfg s l expected b rd mem).2 = some (mem', .error err)

theorem refuses_of_released {s : State Exec} {l : Lease Exec} (h : l.token ∈ s.released) :
    Refuses cfg s l := by
  intro expected b rd mem
  refine ⟨mem, ⟨.leaseNotHeld, str "replay called with no valid lease"⟩, ?_⟩
  rw [replay, if_pos h]
  rfl

/-! ## What is released stays released -/

section

variable (cfg) (s : State Exec) (facts : CompatibilityFacts) (policy : GraphCompatibilityPolicy)
  (req : GraphLookupRequest) (env : LookupEnv)

theorem materializeExec_released (a : ℕ) :
    (materializeExec cfg s a).1.released = s.released := by
  unfold materializeExec
  dsimp only
  split_ifs
  · rfl
  · split
    · rfl
    · split <;> rfl

theorem searchCandidates_released :
    (searchCandidates cfg s facts policy).1.released = s.released := by
  unfold searchCandidates
  dsimp only
  split
  · split <;> rfl
  · rename_i a _ _
    have hmat := materializeExec_released cfg s a
    split
    · rename_i hm
      rwa [hm] at hmat
    · rename_i hm
      rw [hm] at hmat
      split_ifs
      · exact hmat
      · exact hmat

theorem captureGraph_released (attempt : CaptureAttemptId) :
    (captureGraph cfg s req attempt env).1.released = s.released := by
  unfold captureGraph
  split
  · unfold captureFailureMetric
    split
    · rfl
    · split
      · rfl
      · split <;> rfl
  · dsimp only [State.touchMetric]
    rw [persistEntry_eq]
    rfl

theorem lookup_released : (lookup cfg s req env).1.released = s.released := by
  have hpath := lookup_path cfg s req env
  generalize (lookup cfg s req env).1 = s', (lookup cfg s req env).2 = res' at hpath ⊢
  have hsearch : ∀ {s s₁ : State Exec} {res : GraphLookupResult Exec},
      searchCandidates cfg s (makeFacts req) req.policy = (s₁, res) → s₁.released = s.released := by
    intro s s₁ res h
    rw [← searchCandidates_released cfg s (makeFacts req) req.policy, h]
  have hfirst : ∀ {s₁ : State Exec} {res : GraphLookupResult Exec},
      searchCandidates cfg (s.lookedUp req) (makeFacts req) req.policy = (s₁, res) →
        s₁.released = s.released := by
    intro s₁ res hs
    have hfound := hsearch hs
    exact hfound
  have hgraph : ∀ {s₁ s₂ : State Exec} {r : Result GraphArtifactId},
      captureGraph cfg (s₁.capturing req) req (s₁.captureCounter + 1) env = (s₂, r) →
        s₂.released = s₁.released := by
    intro s₁ s₂ r hg
    have hcaptured := captureGraph_released cfg (s₁.capturing req) req env (s₁.captureCounter + 1)
    rwa [hg] at hcaptured
  cases hpath with
  | found hs _ =>
    have hfound := hfirst hs
    exact hfound
  | missed hs _ _ =>
    have hmissed := hfirst hs
    exact hmissed
  | failed hs _ hg =>
    have hfailed := (hgraph hg).trans (hfirst hs)
    exact hfailed
  | captured hs _ hg ha _ =>
    have hagain := (hsearch ha).trans ((hgraph hg).trans (hfirst hs))
    exact hagain
  | unusable hs _ hg ha _ => exact (hsearch ha).trans ((hgraph hg).trans (hfirst hs))

theorem invalidate_released (req : InvalidationRequest) :
    (invalidate cfg s req).1.released = s.released := by
  have hfold : ∀ (l : List ℕ) (acc : State Exec × InvalidationResult),
      (l.foldl (invalidateEntry cfg req.strong) acc).1.released = acc.1.released := by
    intro l
    induction l with
    | nil => exact fun _ => rfl
    | cons a l ih =>
      intro acc
      rw [List.foldl_cons, ih]
      unfold invalidateEntry
      dsimp only
      split_ifs <;> rfl
  exact hfold _ _

theorem recover_released (listing : IterationOrder GraphArtifactId) :
    (recover s listing).1.released = s.released := by
  have hfold : ∀ (store : Store) (ids : List GraphArtifactId) (s : State Exec),
      (ids.foldl (recoverEntry store) s).released = s.released := by
    intro store ids
    induction ids with
    | nil => exact fun _ => rfl
    | cons id ids ih =>
      intro s
      rw [List.foldl_cons, ih]
      unfold recoverEntry
      split <;> rfl
  unfold recover
  split
  · rfl
  · exact hfold _ _ s

theorem persistLoop_released (putOk : GraphArtifactId → Bool) :
    ∀ (l : List ℕ) (s : State Exec), (persistLoop putOk l s).1.released = s.released
  | [], _ => rfl
  | a :: l, s => by
    have hentry : (persistEntry s a (putOk (s.heap a).artifactId)).1.released = s.released := by
      rw [persistEntry_eq]
    unfold persistLoop
    split
    · rename_i hp
      rw [persistLoop_released putOk l, ← hentry, hp]
    · rename_i hp
      rw [← hentry, hp]

/-- No step takes the release of a lease back. -/
theorem released_step {t : ℕ} (h : t ∈ s.released) (op : Op Exec) :
    t ∈ (step cfg s op).released := by
  cases op with
  | lookup req env =>
    rw [step, lookup_released]
    exact h
  | release l =>
    by_cases hl : l.token ∈ s.released
    · simpa [step, release, hl] using h
    · simpa [step, release, hl] using .inr h
  | replay l expected b rd mem =>
    have hreplay : (replay cfg s l expected b rd mem).1.released = s.released := by
      unfold replay
      split_ifs
      · rfl
      · rfl
      · split
        · rfl
        · dsimp only
          split <;> rfl
    rw [step, hreplay]
    exact h
  | invalidate req =>
    rw [step, invalidate_released]
    exact h
  | pin id =>
    simp only [step, pin]
    split <;> exact h
  | unpin id =>
    simp only [step, unpin]
    split
    · exact h
    · split_ifs <;> exact h
  | evict id =>
    simp only [step, evict]
    split
    · exact h
    · split_ifs <;> exact h
  | unload id =>
    simp only [step, unload]
    split
    · exact h
    · split_ifs <;> exact h
  | persistAll order putOk =>
    simp only [step, persistAll]
    split
    · exact h
    · rw [persistLoop_released]
      exact h
  | recover listing =>
    rw [step, recover_released]
    exact h

theorem released_run {t : ℕ} : ∀ (ops : List (Op Exec)) {s : State Exec}, t ∈ s.released →
    t ∈ (run cfg s ops).released
  | [], _, h => h
  | op :: ops, s, h => released_run ops (released_step cfg s h op)

end

/-! ## Invalidated entries are not leased -/

theorem invalidated_run {s : State Exec} {a : ℕ} (ha : a < s.next)
    (h : (s.heap a).invalidated = true) (ops : List (Op Exec)) :
    a < (run cfg s ops).next ∧ ((run cfg s ops).heap a).invalidated = true := by
  refine run_invariant (I := fun r => a < r.next ∧ (r.heap a).invalidated = true) ?_ ?_ ops s ⟨ha, h⟩
  · intro M r b e hr he
    refine ⟨hr.1, (Bool.not_eq_false _).mp fun hf => ?_⟩
    rw [(he.set_spec a).2.1 hf] at hr
    cases hr.2
  · intro _ _ r e hr _
    rw [register_heap_of_lt r e hr.1]
    exact ⟨Nat.lt_succ_of_lt hr.1, hr.2⟩

/-- A lookup leases an entry that is not invalidated, or was not there before. -/
theorem valid_of_leased {s : State Exec} {req : GraphLookupRequest} {env : LookupEnv} {l : Lease Exec}
    (h : (lookup cfg s req env).2.lease = some l) (hl : l.entry < s.next) :
    (s.heap l.entry).invalidated = false := by
  obtain ⟨s₁, hbase, -, -, hlease⟩ := lookup_spec cfg s req env
  obtain ⟨r, hhit⟩ := hlease l h
  have hvalid := (scan_chosen hhit.chosen).1.candidate.selectable.1
  cases hbase with
  | found _ hr _ =>
    rw [hr] at hvalid
    exact hvalid
  | captured e _ hr _ _ _ =>
    rw [hr, register_heap_of_lt s.toRegistry e hl] at hvalid
    exact hvalid

/-! ## Revocation -/

/-- After `ops₁`, a strong invalidation, and `ops₂` : replays fail through every lease on an entry
that was there before the invalidation and is in its scope, whenever the lease was granted. -/
def Revokes (cfg : Config Exec) (store : Option Store) (ops₁ : List (Op Exec))
    (req : InvalidationRequest) (ops₂ : List (Op Exec)) : Prop :=
  let before := run cfg (.fresh store) ops₁
  req.strong = true → ∀ l, Granted cfg (.fresh store) (ops₁ ++ .invalidate req :: ops₂) l →
    l.entry < before.next → req.covers (before.heap l.entry) = true →
    Refuses cfg (run cfg (.fresh store) (ops₁ ++ .invalidate req :: ops₂)) l

/-- The entries in scope of an invalidation are within its reach, and not leased. -/
structure Drained (cfg : Config Exec) (store : Option Store) (ops : List (Op Exec))
    (req : InvalidationRequest) : Prop where
  named : ∀ a < (run cfg (.fresh store) ops).next,
    req.covers ((run cfg (.fresh store) ops).heap a) = true →
    ((run cfg (.fresh store) ops).heap a).invalidated = false →
      (run cfg (.fresh store) ops).toRegistry.Named a
  released : ∀ l, Granted cfg (.fresh store) ops l →
    req.covers ((run cfg (.fresh store) ops).heap l.entry) = true →
      l.token ∈ (run cfg (.fresh store) ops).released

/-- A lease is granted before the invalidation, or after it. -/
theorem granted_split {s : State Exec} {ops₁ ops₂ : List (Op Exec)} {req : InvalidationRequest}
    {l : Lease Exec} (h : Granted cfg s (ops₁ ++ .invalidate req :: ops₂) l) :
    Granted cfg s ops₁ l ∨ ∃ pre post r env, ops₂ = pre ++ .lookup r env :: post ∧
      (lookup cfg (run cfg (invalidate cfg (run cfg s ops₁) req).1 pre) r env).2.lease = some l := by
  obtain ⟨pre, op, post, hsplit, r, env, rfl, hlease⟩ := h
  rcases List.append_eq_append_iff.mp hsplit with ⟨mid, rfl, hmid⟩ | ⟨mid, hmid, hpost⟩
  · cases mid with
    | nil => cases hmid
    | cons x mid =>
      obtain ⟨rfl, rfl⟩ := List.cons.inj hmid
      refine .inr ⟨mid, post, r, env, rfl, ?_⟩
      rw [← hlease, History.after_append]
      rfl
  · cases mid with
    | nil =>
      rw [List.nil_append] at hpost
      cases hpost
    | cons x mid =>
      obtain ⟨rfl, -⟩ := List.cons.inj hpost
      exact .inl ⟨pre, _, mid, hmid, r, env, rfl, hlease⟩

/-- A strong invalidation revokes what it covers, where this is within reach and no longer leased. -/
theorem strong_invalidation_revokes (cfg : Config Exec) (store : Option Store)
    (ops₁ : List (Op Exec)) (req : InvalidationRequest) (ops₂ : List (Op Exec))
    (h : Drained cfg store ops₁ req) : Revokes cfg store ops₁ req ops₂ := by
  intro _ l hgranted hlt hcovers
  set before := run cfg (.fresh store) ops₁ with hbefore
  have hrun : run cfg (.fresh store) (ops₁ ++ .invalidate req :: ops₂) =
      run cfg (invalidate cfg before req).1 ops₂ := List.foldl_append
  rcases granted_split hgranted with hearly | ⟨pre, post, r, env, rfl, hlease⟩
  · rw [hrun]
    refine refuses_of_released (released_run cfg ops₂ ?_)
    rw [invalidate_released]
    exact h.released l hearly hcovers
  · exfalso
    have hnext : (invalidate cfg before req).1.next = before.next :=
      ((invalidate_edits before req).same 0).2
    have hinv : ((invalidate cfg before req).1.heap l.entry).invalidated = true := by
      rcases hvalid : (before.heap l.entry).invalidated with _ | _
      · exact invalidated_of_mem_targets req.strong _ _
          (mem_invalidationTargets hcovers (h.named l.entry hlt hcovers hvalid))
      · exact Edits.invalidated (invalidate_edits before req) hvalid
    obtain ⟨hlater, hstays⟩ := invalidated_run (by rw [hnext]; exact hlt) hinv pre
    rw [valid_of_leased hlease hlater] at hstays
    cases hstays

/-- The first lease is released before anything else happens. -/
theorem drained_first {req : GraphLookupRequest} {env : LookupEnv} {l : Lease Exec}
    (h : (lookup cfg (.fresh none) req env).2.lease = some l) {r : InvalidationRequest}
    (hnamed : ∀ a < (run cfg (.fresh none) [.lookup req env, .release l]).next,
      (run cfg (.fresh none) [.lookup req env, .release l]).toRegistry.Named a) :
    Drained cfg none [.lookup req env, .release l] r := by
  refine ⟨fun a ha _ _ => hnamed a ha, ?_⟩
  rintro l' ⟨pre, op, post, hsplit, r', env', rfl, hlease⟩ -
  have hl : l' = l := by
    cases pre with
    | nil =>
      obtain ⟨hop, -⟩ := List.cons.inj hsplit
      obtain ⟨rfl, rfl⟩ := Op.lookup.inj hop
      exact Option.some.inj (hlease.symm.trans h)
    | cons x pre =>
      obtain ⟨rfl, hrest⟩ := List.cons.inj hsplit
      cases pre with
      | nil => cases (List.cons.inj hrest).1
      | cons y pre => simp at hrest
  rw [hl]
  change l.token ∈ (release (lookup cfg (.fresh none) req env).1 l).released
  by_cases hreleased : l.token ∈ (lookup cfg (.fresh none) req env).1.released
  · simp [release, hreleased]
  · simp [release, hreleased]

/-- A lease that is replayed after a strong invalidation refutes its revocation. -/
theorem not_revokes (b : ReplayBuffers) (mem : Memory) {req : GraphLookupRequest} {env : LookupEnv}
    {l : Lease Exec}
    {r : InvalidationRequest} (hstrong : r.strong = true)
    (h : (lookup cfg (.fresh none) req env).2.lease = some l)
    (hrun : l.entry < (lookup cfg (.fresh none) req env).1.next ∧
      r.covers ((lookup cfg (.fresh none) req env).1.heap l.entry) = true ∧
      (replay cfg (invalidate cfg (lookup cfg (.fresh none) req env).1 r).1 l 0 b {} mem).2.map
        (fun p => p.2.toOption.isSome) = some true) :
    ¬Revokes cfg none [.lookup req env] r [] := by
  intro hrevokes
  obtain ⟨hlt, hcovers, hok⟩ := hrun
  obtain ⟨mem', err, hfail⟩ :=
    hrevokes hstrong l ⟨[], _, _, rfl, req, env, rfl, h⟩ hlt hcovers 0 b {} mem
  rw [show (replay cfg (invalidate cfg (lookup cfg (.fresh none) req env).1 r).1 l 0 b {} mem).2 = _
    from hfail] at hok
  cases hok

/-- Everything, at once. -/
def strongAll : InvalidationRequest := { scope := .byAll, strong := true }

set_option maxRecDepth 100000 in
/-- The lease of a first lookup. -/
def firstLease : Lease CpuGraph :=
  ((lookup (.cpu (.insertion _) .unit) (.fresh none) (blankRequest "a" true) {}).2.lease).get
    (by decide +kernel)

theorem firstLease_granted :
    (lookup (.cpu (.insertion _) .unit) (.fresh none) (blankRequest "a" true) {}).2.lease =
      some firstLease :=
  (Option.some_get _).symm

set_option maxRecDepth 100000 in
theorem strong_invalidation_revokes_released :
    Revokes (.cpu (.insertion _) .unit) none
      [.lookup (blankRequest "a" true) {}, .release firstLease] strongAll
      [.lookup (blankRequest "a" true) {}] :=
  strong_invalidation_revokes _ _ _ _ _ (drained_first firstLease_granted (by
    unfold Registry.Named
    decide +kernel))

set_option maxRecDepth 100000 in
/-- A graph is captured and leased, everything is invalidated strongly, and the lease still
replays. -/
theorem strong_invalidation_lost :
    ¬Revokes (.cpu (.insertion _) .unit) none [.lookup (blankRequest "a" true) {}] strongAll [] :=
  not_revokes ⟨[], [], [], []⟩ [] rfl firstLease_granted (by decide +kernel)

end GraphCache
