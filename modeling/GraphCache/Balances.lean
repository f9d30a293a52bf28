import GraphCache.Candidates
import Mathlib.Algebra.Group.Pi.Basic
import Mathlib.Data.UInt
import Mathlib.Tactic.Ring

/-!
# The balance of the lookup counters

Every lookup is counted, and so are its hits and misses : for its workload, device and namespace in
`lookup` and `finish_hit`, for the whole cache as an exact or a compatible hit. Two counts are
off. A lookup that captures is counted as a miss before, and as a hit after; and no miss is ever
counted for the whole cache. A capture that the backend refuses is counted in `capture_graph`, and
again in `lookup`.

`Books` is what the counters are out of balance by. A lookup that finds its answer at once leaves it
as it is, any other adds to it (`lookup_books`), and nothing takes away from it. So the balances
hold after a run in which each lookup found an answer at once, and after no other that is too short
for the counters to wrap (`lookups_balance_iff`).
-/

namespace GraphCache

open scoped UInt64.CommRing

/-! ## Books -/

/-- The hits and misses of a scope beyond its lookups. -/
def PerScopeMetrics.surplus (p : PerScopeMetrics) : UInt64 := p.hits + p.misses - p.lookups

/-- What the counters of lookups are out of balance by, and the failures counted. -/
@[ext]
structure Books where
  workload : Str → UInt64
  device : Str → UInt64
  namespaceName : Str → UInt64
  /-- The lookups beyond hits and misses of the whole cache. -/
  deficit : UInt64
  failures : UInt64

def Metrics.books (m : Metrics) : Books where
  workload k := (m.perWorkload k).surplus
  device k := (m.perDevice k).surplus
  namespaceName k := (m.perNamespace k).surplus
  deficit := m.lookups - (m.exactHits + m.compatibleHits + m.misses)
  failures := m.captureFailures

namespace Books

/-- The surplus of the scopes of a request grows by `c`. -/
def charge (b : Books) (req : GraphLookupRequest) (c : UInt64) : Books :=
  { b with
    workload := Function.update b.workload req.workload.logicalName
      (b.workload req.workload.logicalName + c)
    device := Function.update b.device req.device.scope (b.device req.device.scope + c)
    namespaceName := Function.update b.namespaceName req.workload.namespaceName
      (b.namespaceName req.workload.namespaceName + c) }

variable (b : Books) (req : GraphLookupRequest)

/-- A lookup takes from its scopes what a hit or a miss gives back. -/
theorem charge_back (deficit : UInt64) : charge { b.charge req (-1) with deficit } req 1 =
    { b with deficit } := by
  refine Books.ext ?_ ?_ ?_ rfl rfl <;> simp [charge]

end Books

theorem surplus_update {f : PerScopeMetrics → PerScopeMetrics} {c : UInt64}
    (hf : ∀ p, (f p).surplus = p.surplus + c) (scopes : Str → PerScopeMetrics) (key : Str) :
    (fun k => (Function.update scopes key (f (scopes key)) k).surplus) =
      Function.update (fun k => (scopes k).surplus) key ((scopes key).surplus + c) := by
  funext k
  by_cases hk : k = key
  · subst hk
    simp [hf]
  · simp [hk]

/-- Counts of captures, replays and invalidations are not in the books. -/
theorem bumpScopes_books (m : Metrics) (w d n : Str) {f : PerScopeMetrics → PerScopeMetrics}
    (hf : ∀ p, (f p).surplus = p.surplus) : (m.bumpScopes w d n f).books = m.books := by
  have hsame (scopes : Str → PerScopeMetrics) (key : Str) :
      (fun k => (Function.update scopes key (f (scopes key)) k).surplus) =
        fun k => (scopes k).surplus := by
    simpa using @surplus_update f 0 (fun p => by rw [hf, add_zero]) scopes key
  exact Books.ext (hsame _ w) (hsame _ d) (hsame _ n) rfl rfl

/-! ## A lookup -/

section

variable {Exec : Type} {cfg : Config Exec} {s : State Exec} {req : GraphLookupRequest}

theorem lookedUp_books : (s.lookedUp req).metrics.books = { s.metrics.books.charge req (-1) with
    deficit := s.metrics.books.deficit + 1 } := by
  have hlookup (p : PerScopeMetrics) :
      PerScopeMetrics.surplus { p with lookups := p.lookups + 1 } = p.surplus + -1 := by
    simp only [PerScopeMetrics.surplus]
    ring
  have hmetrics : (s.lookedUp req).metrics = { s.metrics.bumpScopes req.workload.logicalName
      req.device.scope req.workload.namespaceName (fun p => { p with lookups := p.lookups + 1 }) with
      lookups := s.metrics.lookups + 1 } := by
    simp [State.lookedUp, State.touchMetric, makeFacts]
  rw [hmetrics]
  refine Books.ext (surplus_update hlookup _ _) (surplus_update hlookup _ _)
    (surplus_update hlookup _ _) ?_ rfl
  simp only [Metrics.books, Metrics.bumpScopes]
  ring

theorem missed_books : (s.missed req).metrics.books = s.metrics.books.charge req 1 := by
  have hmiss (p : PerScopeMetrics) :
      PerScopeMetrics.surplus { p with misses := p.misses + 1 } = p.surplus + 1 := by
    simp only [PerScopeMetrics.surplus]
    ring
  have hmetrics : (s.missed req).metrics = s.metrics.bumpScopes req.workload.logicalName
      req.device.scope req.workload.namespaceName (fun p => { p with misses := p.misses + 1 }) := by
    simp [State.missed, State.touchMetric, makeFacts]
  rw [hmetrics]
  exact Books.ext (surplus_update hmiss _ _) (surplus_update hmiss _ _) (surplus_update hmiss _ _)
    rfl rfl

theorem hitOutcome_cases (k : GraphCompatibilityClass) (residency : ResidencyTier) :
    hitOutcome k residency = .exactBackendResidentHit ∨ hitOutcome k residency = .exactHostHit ∨
      hitOutcome k residency = .compatibleHitRebinding ∨
      hitOutcome k residency = .compatibleDynamicShapeHit := by
  cases k <;> cases residency <;> simp [hitOutcome]

theorem finishHit_books (k : GraphCompatibilityClass) (residency : ResidencyTier) :
    (finishHit s req (hitOutcome k residency)).metrics.books =
      { s.metrics.books.charge req 1 with deficit := s.metrics.books.deficit - 1 } := by
  have hhit (p : PerScopeMetrics) :
      PerScopeMetrics.surplus { p with hits := p.hits + 1 } = p.surplus + 1 := by
    simp only [PerScopeMetrics.surplus]
    ring
  have hscopes (o : LookupOutcome) : (finishHit s req o).metrics.books =
      { s.metrics.books.charge req 1 with
        deficit := (finishHit s req o).metrics.books.deficit } := by
    cases o <;> exact Books.ext (surplus_update hhit _ _) (surplus_update hhit _ _)
      (surplus_update hhit _ _) rfl rfl
  -- A hit is exact or compatible for the whole cache.
  have hdeficit : (finishHit s req (hitOutcome k residency)).metrics.books.deficit =
      s.metrics.books.deficit - 1 := by
    rcases hitOutcome_cases k residency with h | h | h | h <;>
      simp only [h, finishHit, State.touchMetric, Metrics.books, Metrics.bumpScopes] <;>
      ring
  rw [hscopes, hdeficit]

variable (cfg s) in
theorem materializeExec_books (a : ℕ) :
    (materializeExec cfg s a).1.metrics.books = s.metrics.books := by
  unfold materializeExec
  split_ifs
  · rfl
  · dsimp only
    split
    · rfl
    · split <;> rfl

variable (cfg s) in
theorem searchCandidates_books (facts : CompatibilityFacts) (policy : GraphCompatibilityPolicy) :
    (searchCandidates cfg s facts policy).1.metrics.books = s.metrics.books := by
  unfold searchCandidates
  dsimp only
  split
  · split <;> rfl
  · rename_i a dec hchosen
    have hbooks := materializeExec_books cfg s a
    split
    · rename_i s' e h
      rw [h] at hbooks
      exact hbooks
    · rename_i s' h
      rw [h] at hbooks
      split_ifs
      · exact hbooks
      · exact hbooks

/-- A capture that fails is counted at most; one that succeeds is not in the books. -/
theorem captureGraph_books {s' : State Exec} {attempt : CaptureAttemptId} {env : LookupEnv}
    {res : Result GraphArtifactId} (h : captureGraph cfg s req attempt env = (s', res)) :
    (∃ failures, s'.metrics.books = { s.metrics.books with failures }) ∧
      (∀ id, res = .ok id → s'.metrics.books = s.metrics.books) := by
  unfold captureGraph at h
  split at h
  · obtain ⟨rfl, rfl⟩ := Prod.mk.inj h
    refine ⟨?_, nofun⟩
    unfold captureFailureMetric
    split
    · exact ⟨_, rfl⟩
    · split
      · exact ⟨_, rfl⟩
      · split <;> exact ⟨_, rfl⟩
  · rename_i e he
    obtain ⟨rfl, rfl⟩ := Prod.mk.inj h
    have hbooks : ∀ (m : Metrics) (w d n : Str), Metrics.books { m.bumpScopes w d n
        (fun p => { p with captures := p.captures + 1 }) with captures := m.captures + 1 } =
          m.books :=
      fun m w d n => @bumpScopes_books m w d n (fun p => { p with captures := p.captures + 1 })
        fun _ => rfl
    rw [persistEntry_eq]
    exact ⟨⟨_, hbooks _ _ _ _⟩, fun _ _ => hbooks _ _ _ _⟩

/-- The bucket holds a best candidate whose executable is there, or can be captured again. -/
def State.Ready (cfg : Config Exec) (s : State Exec) (req : GraphLookupRequest) : Prop :=
  ∃ a dec, (scan s.toRegistry (makeFacts req) req.policy).chosen = some (a, dec) ∧ s.Usable cfg a

theorem ready_iff_hit : s.Ready cfg req ↔
    (searchCandidates cfg s (makeFacts req) req.policy).2.hit = true := by
  constructor
  · rintro ⟨a, dec, hchosen, husable⟩
    exact searchCandidates_hit hchosen (materializeExec_ok_iff.mpr husable)
  · intro hhit
    unfold searchCandidates at hhit
    dsimp only at hhit
    split at hhit
    · split at hhit <;> cases hhit
    · rename_i a dec hchosen
      refine ⟨a, dec, hchosen, materializeExec_ok_iff.mp ?_⟩
      split at hhit
      · cases hhit
      · rename_i s' h
        rw [h]

theorem search_hit_outcome {facts : CompatibilityFacts} {policy : GraphCompatibilityPolicy}
    (h : (searchCandidates cfg s facts policy).2.hit = true) : ∃ k residency,
      (searchCandidates cfg s facts policy).2.outcome = hitOutcome k residency := by
  unfold searchCandidates at *
  dsimp only at *
  split at *
  · split at h <;> cases h
  · split at *
    · cases h
    · split_ifs at h ⊢
      · cases h
      · exact ⟨_, _, rfl⟩

theorem ready_iff_search {s₁ : State Exec} {res : GraphLookupResult Exec}
    (hs : searchCandidates cfg (s.lookedUp req) (makeFacts req) req.policy = (s₁, res)) :
    s.Ready cfg req ↔ res.hit = true := by
  rw [ready_iff_hit, ← (search_lookedUp hs).1]

/-- A search that asks for a capture has found nothing. -/
theorem not_ready_of_required {s₁ : State Exec} {res : GraphLookupResult Exec}
    (hs : searchCandidates cfg (s.lookedUp req) (makeFacts req) req.policy = (s₁, res))
    (hout : res.outcome = .missCaptureRequired) : ¬s.Ready cfg req := by
  obtain ⟨-, -, -, hrequired⟩ :=
    searchCandidates_spec cfg (s.lookedUp req) (makeFacts req) req.policy
  rw [hs] at hrequired
  rw [ready_iff_search hs, GraphLookupResult.hit, (hrequired hout).1]
  exact Bool.false_ne_true

/-- After a search the lookup is counted. -/
theorem search_books {s₁ : State Exec} {res : GraphLookupResult Exec}
    (hs : searchCandidates cfg (s.lookedUp req) (makeFacts req) req.policy = (s₁, res)) :
    s₁.metrics.books = (s.lookedUp req).metrics.books := by
  have hsearch := searchCandidates_books cfg (s.lookedUp req) (makeFacts req) req.policy
  rwa [hs] at hsearch

/-- After a search that misses, the scopes have counted the lookup and its miss. -/
theorem missed_search_books {s₁ : State Exec} {res : GraphLookupResult Exec}
    (hs : searchCandidates cfg (s.lookedUp req) (makeFacts req) req.policy = (s₁, res)) :
    (s₁.missed req).metrics.books =
      { s.metrics.books with deficit := s.metrics.books.deficit + 1 } := by
  rw [missed_books, search_books hs, lookedUp_books, Books.charge_back]

/-- A capture that succeeds after it does not change that. -/
theorem captured_search_books {s₁ s₂ : State Exec} {res : GraphLookupResult Exec}
    {attempt : CaptureAttemptId} {env : LookupEnv} {id : GraphArtifactId}
    (hs : searchCandidates cfg (s.lookedUp req) (makeFacts req) req.policy = (s₁, res))
    (hg : captureGraph cfg (s₁.capturing req) req attempt env = (s₂, .ok id)) :
    s₂.metrics.books = { s.metrics.books with deficit := s.metrics.books.deficit + 1 } := by
  have hcapturing : (s₁.capturing req).metrics.books = (s₁.missed req).metrics.books := rfl
  rw [(captureGraph_books hg).2 id rfl, hcapturing, missed_search_books hs]

/-- A lookup leaves the books as they are if it finds its answer at once. Otherwise the whole cache
misses a miss, or the scopes count both a miss and a hit. -/
theorem lookup_books (cfg : Config Exec) (s : State Exec) (req : GraphLookupRequest)
    (env : LookupEnv) :
    (s.Ready cfg req ∧ (lookup cfg s req env).1.metrics.books = s.metrics.books) ∨
    (¬s.Ready cfg req ∧ ((∃ failures, (lookup cfg s req env).1.metrics.books =
        { s.metrics.books with deficit := s.metrics.books.deficit + 1, failures }) ∨
      (lookup cfg s req env).1.metrics.books = s.metrics.books.charge req 1)) := by
  have hpath := lookup_path cfg s req env
  generalize (lookup cfg s req env).1 = s', (lookup cfg s req env).2 = res' at hpath ⊢
  cases hpath with
  | found hs hhit =>
    obtain ⟨k, residency, hout⟩ := search_hit_outcome (by rw [hs]; exact hhit)
    rw [hs] at hout
    refine .inl ⟨(ready_iff_search hs).mpr hhit, ?_⟩
    rw [hout, finishHit_books, search_books hs, lookedUp_books, Books.charge_back]
    exact Books.ext rfl rfl rfl (add_sub_cancel_right _ _) rfl
  | missed hs hmiss hno =>
    refine .inr ⟨by simp [ready_iff_search hs, hmiss], .inl ⟨s.metrics.books.failures, ?_⟩⟩
    rw [missed_search_books hs]
  | failed hs hmay hg =>
    obtain ⟨⟨failures, hbooks⟩, -⟩ := captureGraph_books hg
    refine .inr ⟨not_ready_of_required hs hmay.2.2, .inl ⟨failures + 1, ?_⟩⟩
    rename_i s₁ s₂ res err
    have hcapturing : (s₁.capturing req).metrics.books = (s₁.missed req).metrics.books := rfl
    rw [hcapturing, missed_search_books hs] at hbooks
    obtain ⟨hw, hd, hn, hdeficit, hfail⟩ := Books.ext_iff.mp hbooks
    exact Books.ext hw hd hn hdeficit (congrArg (· + 1) hfail)
  | captured hs hmay hg ha hhit =>
    rename_i s₁ s₂ s₃ res again id
    have hagain := searchCandidates_books cfg s₂ (makeFacts req) req.policy
    obtain ⟨k, residency, hout⟩ := search_hit_outcome (by rw [ha]; exact hhit)
    rw [ha] at hagain hout
    refine .inr ⟨not_ready_of_required hs hmay.2.2, .inr ?_⟩
    rw [hout, finishHit_books, hagain, captured_search_books hs hg]
    exact Books.ext rfl rfl rfl (add_sub_cancel_right _ _) rfl
  | unusable hs hmay hg ha hmiss =>
    rename_i s₁ s₂ res again id
    have hagain := searchCandidates_books cfg s₂ (makeFacts req) req.policy
    rw [ha] at hagain
    refine .inr ⟨not_ready_of_required hs hmay.2.2, .inl ⟨s.metrics.books.failures, ?_⟩⟩
    rw [hagain, captured_search_books hs hg]

end

/-! ## Runs -/

section

variable {Exec : Type} {cfg : Config Exec} {s : State Exec}

theorem invalidate_books (req : InvalidationRequest) :
    (invalidate cfg s req).1.metrics.books = s.metrics.books := by
  have hentry (acc : State Exec × InvalidationResult) (a : ℕ) :
      (invalidateEntry cfg req.strong acc a).1.metrics.books = acc.1.metrics.books := by
    unfold invalidateEntry
    dsimp only
    by_cases hinv : (acc.1.heap a).invalidated = true
    · rw [if_pos hinv]
    · rw [if_neg hinv]
      exact @bumpScopes_books acc.1.metrics _ _ _
        (fun p => { p with invalidations := p.invalidations + 1 }) fun _ => rfl
  have hfold (l : List ℕ) (acc : State Exec × InvalidationResult) :
      (l.foldl (invalidateEntry cfg req.strong) acc).1.metrics.books = acc.1.metrics.books := by
    induction l generalizing acc with
    | nil => rfl
    | cons a l ih => exact (ih _).trans (hentry acc a)
  exact hfold _ _

theorem persistLoop_books (putOk : GraphArtifactId → Bool) : ∀ (l : List ℕ) (s : State Exec),
    (persistLoop putOk l s).1.metrics.books = s.metrics.books
  | [], _ => rfl
  | a :: l, s => by
    have hentry : (persistEntry s a (putOk (s.heap a).artifactId)).1.metrics.books =
        s.metrics.books := by
      rw [persistEntry_eq]
    unfold persistLoop
    split
    · rename_i s' h
      rw [h] at hentry
      exact (persistLoop_books putOk l s').trans hentry
    · rename_i s' e h
      rw [h] at hentry
      exact hentry

theorem foldl_recoverEntry_books (store : Store) (l : List GraphArtifactId) (s : State Exec) :
    (l.foldl (recoverEntry store) s).metrics.books = s.metrics.books := by
  induction l generalizing s with
  | nil => rfl
  | cons id l ih =>
    rw [List.foldl_cons, ih]
    unfold recoverEntry
    split <;> rfl

/-- Only a lookup touches the books. -/
theorem step_books {op : Op Exec} (hop : ∀ req env, op ≠ .lookup req env) :
    (step cfg s op).metrics.books = s.metrics.books := by
  cases op with
  | lookup req env => exact absurd rfl (hop req env)
  | release l =>
    simp only [step, release]
    split_ifs <;> rfl
  | replay l expected b rd mem =>
    simp only [step, replay]
    split_ifs
    · rfl
    · rfl
    · split
      · rfl
      · split
        · rfl
        · rfl
        · exact @bumpScopes_books s.metrics _ _ _ (fun p => { p with replays := p.replays + 1 })
            fun _ => rfl
  | invalidate req => exact invalidate_books req
  | pin id =>
    simp only [step, pin]
    split <;> rfl
  | unpin id =>
    simp only [step, unpin]
    split
    · rfl
    · split_ifs <;> rfl
  | evict id =>
    simp only [step, evict]
    split
    · rfl
    · split_ifs <;> rfl
  | unload id =>
    simp only [step, unload]
    split
    · rfl
    · split_ifs <;> rfl
  | persistAll order putOk =>
    simp only [step, persistAll]
    split
    · rfl
    · exact persistLoop_books putOk _ s
  | recover listing =>
    simp only [step, recover]
    split
    · rfl
    · exact foldl_recoverEntry_books _ _ s

/-- Out of balance by `w` more in each workload, and by `d` more for the whole cache. -/
structure Books.Lapses (b b' : Books) (w : Str → ℕ) (d : ℕ) : Prop where
  workload : ∀ k, b'.workload k = b.workload k + UInt64.ofNat (w k)
  deficit : b'.deficit = b.deficit + UInt64.ofNat d

theorem Books.Lapses.refl (b : Books) : b.Lapses b 0 0 :=
  ⟨fun _ => (add_zero _).symm, (add_zero _).symm⟩

theorem Books.Lapses.trans {b b' b'' : Books} {w w' : Str → ℕ} {d d' : ℕ} (h : b.Lapses b' w d)
    (h' : b'.Lapses b'' w' d') : b.Lapses b'' (w + w') (d + d') where
  workload k := by rw [h'.workload, h.workload, Pi.add_apply, UInt64.ofNat_add, add_assoc]
  deficit := by rw [h'.deficit, h.deficit, UInt64.ofNat_add, add_assoc]

theorem Books.lapses_charge (b : Books) (req : GraphLookupRequest) :
    b.Lapses (b.charge req 1) (Pi.single req.workload.logicalName 1) 0 where
  workload k := by
    by_cases hk : k = req.workload.logicalName
    · subst hk
      simp [charge]
    · simp [charge, hk]
  deficit := (add_zero _).symm

variable (cfg) in
/-- An operation puts the books out by one at most, and a lookup that does not find its answer at
once by one. -/
theorem step_lapses (s : State Exec) (op : Op Exec) : ∃ w d,
    s.metrics.books.Lapses (step cfg s op).metrics.books w d ∧ (∀ k, w k ≤ 1) ∧ d ≤ 1 ∧
      (w = 0 → d = 0 → ∀ req env, op = .lookup req env → s.Ready cfg req) := by
  by_cases hop : ∃ req env, op = .lookup req env
  · obtain ⟨req, env, rfl⟩ := hop
    rw [step]
    rcases lookup_books cfg s req env with ⟨hready, h⟩ | ⟨-, ⟨failures, h⟩ | h⟩
    · refine ⟨0, 0, h ▸ .refl _, fun _ => zero_le_one, zero_le_one, fun _ _ req' env' heq => ?_⟩
      cases heq
      exact hready
    · refine ⟨0, 1, ?_, fun _ => zero_le_one, le_rfl, fun _ hd => absurd hd one_ne_zero⟩
      rw [h]
      exact ⟨fun _ => (add_zero _).symm, rfl⟩
    · refine ⟨_, 0, h ▸ Books.lapses_charge _ req, fun k => ?_, zero_le_one, fun hw => ?_⟩
      · by_cases hk : k = req.workload.logicalName
        · simp [hk]
        · simp [hk]
      · exact absurd (Pi.single_eq_zero_iff.mp hw) one_ne_zero
  · refine ⟨0, 0, ?_, fun _ => zero_le_one, zero_le_one, fun _ _ req env heq => ?_⟩
    · rw [step_books fun req env heq => hop ⟨req, env, heq⟩]
      exact .refl _
    · exact absurd ⟨req, env, heq⟩ hop

/-- Whether a lookup captures, in vain. -/
def captureFails (cfg : Config Exec) (s : State Exec) (req : GraphLookupRequest)
    (env : LookupEnv) : Bool :=
  let found := searchCandidates cfg s (makeFacts req) req.policy
  req.allowCapture && cfg.allowCapture && decide (found.2.outcome = .missCaptureRequired) &&
    (captureEntry cfg s.graphGenerationCounter s.cacheGeneration req (found.1.captureCounter + 1)
      env.captureCostUs).toOption.isNone

/-- The captures that failed in a run. -/
def failedCaptures (cfg : Config Exec) : State Exec → List (Op Exec) → ℕ
  | _, [] => 0
  | s, .lookup req env :: ops =>
    (captureFails cfg s req env).toNat + failedCaptures cfg (step cfg s (.lookup req env)) ops
  | s, op :: ops => failedCaptures cfg (step cfg s op) ops

theorem captureFails_of_ready {req : GraphLookupRequest} (h : s.Ready cfg req) (env : LookupEnv) :
    captureFails cfg s req env = false := by
  have hhit := ready_iff_hit.mp h
  obtain ⟨-, -, -, hrequired⟩ := searchCandidates_spec cfg s (makeFacts req) req.policy
  have hout : (searchCandidates cfg s (makeFacts req) req.policy).2.outcome ≠
      .missCaptureRequired := by
    intro hout
    rw [GraphLookupResult.hit, (hrequired hout).1] at hhit
    exact Bool.false_ne_true hhit
  simp [captureFails, hout]

/-- Every lookup of a run finds its answer at once. -/
def AtOnce (cfg : Config Exec) (s : State Exec) (ops : List (Op Exec)) : Prop :=
  ∀ pre req env, pre ++ [.lookup req env] <+: ops → (run cfg s pre).Ready cfg req

theorem AtOnce.cons {op : Op Exec} {ops : List (Op Exec)}
    (hop : ∀ req env, op = .lookup req env → s.Ready cfg req) (h : AtOnce cfg (step cfg s op) ops) :
    AtOnce cfg s (op :: ops) := by
  rintro (_ | ⟨op', pre⟩) req env hpre
  · exact hop req env (List.cons_prefix_cons.mp hpre).1.symm
  · rw [List.cons_append, List.cons_prefix_cons] at hpre
    obtain ⟨rfl, hpre⟩ := hpre
    exact h pre req env hpre

theorem AtOnce.tail {op : Op Exec} {ops : List (Op Exec)} (h : AtOnce cfg s (op :: ops)) :
    AtOnce cfg (step cfg s op) ops :=
  fun pre req env hpre => h (op :: pre) req env (List.cons_prefix_cons.mpr ⟨rfl, hpre⟩)

/-- A run whose lookups all find their answers at once leaves the books as they are. -/
theorem AtOnce.books {ops : List (Op Exec)} (h : AtOnce cfg s ops) :
    (run cfg s ops).metrics.books = s.metrics.books ∧ failedCaptures cfg s ops = 0 := by
  induction ops generalizing s with
  | nil => exact ⟨rfl, rfl⟩
  | cons op ops ih =>
    obtain ⟨hbooks, hfailed⟩ := ih h.tail
    by_cases hop : ∃ req env, op = .lookup req env
    · obtain ⟨req, env, rfl⟩ := hop
      have hready : s.Ready cfg req := h [] req env ⟨ops, rfl⟩
      rcases lookup_books cfg s req env with ⟨-, hsame⟩ | ⟨hno, -⟩
      · refine ⟨hbooks.trans hsame, ?_⟩
        rw [failedCaptures, captureFails_of_ready hready, hfailed]
        rfl
      · exact absurd hready hno
    · refine ⟨hbooks.trans (step_books fun req env heq => hop ⟨req, env, heq⟩), ?_⟩
      cases op with
      | lookup req env => exact absurd ⟨req, env, rfl⟩ hop
      | _ => exact hfailed

variable (cfg) in
/-- A run puts the books out by no more than it has operations, and not at all only if each of its
lookups finds its answer at once. -/
theorem run_lapses (ops : List (Op Exec)) (s : State Exec) : ∃ w d,
    s.metrics.books.Lapses (run cfg s ops).metrics.books w d ∧ (∀ k, w k ≤ ops.length) ∧
      d ≤ ops.length ∧ (w = 0 → d = 0 → AtOnce cfg s ops) := by
  induction ops generalizing s with
  | nil => exact ⟨0, 0, .refl _, fun _ => le_rfl, le_rfl, fun _ _ pre req env h => by simp at h⟩
  | cons op ops ih =>
    obtain ⟨w, d, hstep, hw, hd, hop⟩ := step_lapses cfg s op
    obtain ⟨w', d', hrun, hw', hd', honce⟩ := ih (step cfg s op)
    refine ⟨w + w', d + d', hstep.trans hrun, fun k => ?_, ?_, fun hzero hzero' => ?_⟩
    · have hk := hw k
      have hk' := hw' k
      simp only [Pi.add_apply, List.length_cons]
      omega
    · simp only [List.length_cons]
      omega
    · have hsum (k : Str) : w k = 0 ∧ w' k = 0 := Nat.add_eq_zero_iff.mp (congrFun hzero k)
      obtain ⟨hd0, hd0'⟩ := Nat.add_eq_zero_iff.mp hzero'
      exact .cons (hop (funext fun k => (hsum k).1) hd0) (honce (funext fun k => (hsum k).2) hd0')

/-- The counters of a cache that ran `history` balance. -/
structure Balanced (cfg : Config Exec) (store : Option Store) (history : List (Op Exec)) : Prop where
  workload : ∀ k, ((run cfg (.fresh store) history).metrics.perWorkload k).lookups =
    ((run cfg (.fresh store) history).metrics.perWorkload k).hits +
      ((run cfg (.fresh store) history).metrics.perWorkload k).misses
  device : ∀ k, ((run cfg (.fresh store) history).metrics.perDevice k).lookups =
    ((run cfg (.fresh store) history).metrics.perDevice k).hits +
      ((run cfg (.fresh store) history).metrics.perDevice k).misses
  namespaceName : ∀ k, ((run cfg (.fresh store) history).metrics.perNamespace k).lookups =
    ((run cfg (.fresh store) history).metrics.perNamespace k).hits +
      ((run cfg (.fresh store) history).metrics.perNamespace k).misses
  total : (run cfg (.fresh store) history).metrics.lookups =
    (run cfg (.fresh store) history).metrics.exactHits +
      (run cfg (.fresh store) history).metrics.compatibleHits +
      (run cfg (.fresh store) history).metrics.misses
  failures : (run cfg (.fresh store) history).metrics.captureFailures =
    UInt64.ofNat (failedCaptures cfg (.fresh store) history)

theorem balanced_iff {store : Option Store} {history : List (Op Exec)} :
    Balanced cfg store history ↔
      (run cfg (.fresh store) history).metrics.books =
        ⟨0, 0, 0, 0, UInt64.ofNat (failedCaptures cfg (.fresh store) history)⟩ := by
  have hscope (p : PerScopeMetrics) : p.lookups = p.hits + p.misses ↔ p.surplus = 0 := by
    rw [PerScopeMetrics.surplus, sub_eq_zero, eq_comm]
  have htotal (m : Metrics) : m.lookups = m.exactHits + m.compatibleHits + m.misses ↔
      m.books.deficit = 0 := sub_eq_zero.symm
  rw [Books.ext_iff, funext_iff, funext_iff, funext_iff]
  constructor
  · rintro ⟨hw, hd, hn, ht, hfail⟩
    exact ⟨fun k => (hscope _).mp (hw k), fun k => (hscope _).mp (hd k),
      fun k => (hscope _).mp (hn k), (htotal _).mp ht, hfail⟩
  · rintro ⟨hw, hd, hn, ht, hfail⟩
    exact ⟨fun k => (hscope _).mpr (hw k), fun k => (hscope _).mpr (hd k),
      fun k => (hscope _).mpr (hn k), (htotal _).mpr ht, hfail⟩

theorem eq_zero_of_ofNat {n : ℕ} (h : UInt64.ofNat n = 0) (hn : n < 2 ^ 64) : n = 0 := by
  have htoNat := congrArg UInt64.toNat h
  rwa [UInt64.toNat_ofNat_of_lt' hn] at htoNat

/-- The counters of lookups balance after a run in which every lookup found its answer at once, and
after no other of fewer than 2 ^ 64 operations. -/
theorem lookups_balance_iff (cfg : Config Exec) (store : Option Store)
    (history : List (Op Exec)) :
    ((∀ pre req env, pre ++ [.lookup req env] <+: history →
      (run cfg (.fresh store) pre).Ready cfg req) → Balanced cfg store history) ∧
    (history.length < 2 ^ 64 → Balanced cfg store history →
      ∀ pre req env, pre ++ [.lookup req env] <+: history →
        (run cfg (.fresh store) pre).Ready cfg req) := by
  have hfresh : (State.fresh store : State Exec).metrics.books = ⟨0, 0, 0, 0, 0⟩ := by
    refine Books.ext (funext fun _ => ?_) (funext fun _ => ?_) (funext fun _ => ?_) ?_ rfl <;>
      simp [State.fresh, Metrics.books, PerScopeMetrics.surplus]
  constructor
  · intro hready
    obtain ⟨hbooks, hfailed⟩ := AtOnce.books hready
    rw [balanced_iff, hbooks, hfailed, hfresh]
    rfl
  · intro hlength hbalanced
    obtain ⟨w, d, hlapses, hw, hd, honce⟩ := run_lapses cfg history (.fresh store)
    rw [balanced_iff.mp hbalanced, hfresh] at hlapses
    have hzero : ∀ k, UInt64.ofNat (w k) = 0 := fun k => by
      simpa using (hlapses.workload k).symm
    have hzero' : UInt64.ofNat d = 0 := by simpa using hlapses.deficit.symm
    refine honce (funext fun k => ?_) (eq_zero_of_ofNat hzero' (hd.trans_lt hlength))
    exact eq_zero_of_ofNat (hzero k) ((hw k).trans_lt hlength)

/-- A lookup that may not capture is a miss of its scopes only; one that captures is a miss of them
and a hit. -/
theorem lookups_unbalanced :
    ¬Balanced (.cpu (.insertion _) .unit) none [.lookup (blankRequest "w" false) {}] ∧
      ¬Balanced (.cpu (.insertion _) .unit) none [.lookup (blankRequest "w" true) {}] :=
  ⟨fun h => absurd h.total (by decide +kernel),
    fun h => absurd (h.workload (str "w")) (by decide +kernel)⟩

end

end GraphCache
