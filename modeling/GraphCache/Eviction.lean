import GraphCache.Revocation
import GraphCache.Lookups

/-!
# Eviction

`evict` and `unload` hand an executable back to the backend where the entry is resident there. No
operation makes an entry resident on the backend : a capture and `materialize_exec` leave it
`HostResident`, a recovery `MetadataOnly`, and these are the tiers that entries reach
(`tiered_run`). So the release branch is dead, and a call that succeeds changes no entry
(`Removal.call_registry`).

`evicts_iff` : eviction evicts exactly where the entry was `MetadataOnly` before. What is evicted
then is captured again by the next lookup that leases it.
-/

namespace GraphCache

open History

section

variable {Exec : Type} {cfg : Config Exec} {s : State Exec}

/-! ## Tiers -/

/-- The tier says whether the entry holds an executable. -/
def CacheEntry.Tiered (e : CacheEntry Exec) : Prop :=
  e.residency = if e.exec.isSome then .hostResident else .metadataOnly

theorem CacheEntry.Tiered.off_backend {e : CacheEntry Exec} (h : e.Tiered) :
    e.residency ≠ .backendResident := by
  rw [h]
  split_ifs <;> simp

theorem CacheEntry.Tiered.exec_eq_none_iff {e : CacheEntry Exec} (h : e.Tiered) :
    e.exec = none ↔ e.residency = .metadataOnly := by
  rw [h]
  cases e.exec <;> simp

theorem Edit.tiered {marks : Prop} {e e' : CacheEntry Exec} (he : Edit cfg marks e e')
    (h : e.Tiered) : e'.Tiered := by
  cases he with
  | counts => exact h
  | materialize => rfl
  | drop => rwa [dropResidency_eq h.off_backend]
  | invalidate strong =>
    unfold markInvalidated
    dsimp only
    split_ifs
    · rw [dropResidency_eq (by exact h.off_backend)]
      exact h
    · exact h

variable (cfg) in
theorem tiered_run (store : Option Store) (history : List (Op Exec)) (a : ℕ) :
    ((run cfg (.fresh store) history).heap a).Tiered :=
  run_entries Edit.tiered (fun _ _ _ _ _ _ => rfl) (fun _ _ => rfl) history (.fresh store)
    (fun _ => rfl) a

/-! ## The calls -/

/-- The calls that take an executable away. -/
inductive Removal
  | evict
  | unload

namespace Removal

variable (cfg s) in
def call (id : GraphArtifactId) : Removal → State Exec × Result Unit
  | .evict => GraphCache.evict cfg s id
  | .unload => GraphCache.unload cfg s id

/-- What the call refuses to touch : a leased entry, and `evict` a pinned one too. -/
def Refuses (e : CacheEntry Exec) : Removal → Prop
  | .evict => e.pinCount > 0 ∨ e.leaseCount > 0
  | .unload => e.leaseCount > 0

variable (m : Removal) {id : GraphArtifactId}

theorem call_ok_iff : (m.call cfg s id).2 = .ok () ↔
    ∃ a, s.artifact id = some a ∧ ¬m.Refuses (s.heap a) := by
  have hrefused : ∀ {a}, m.Refuses (s.heap a) →
      ¬∃ b, some a = some b ∧ ¬m.Refuses (s.heap b) := by
    rintro a h ⟨b, hb, hfree⟩
    obtain rfl := Option.some.inj hb
    exact hfree h
  cases m with
  | evict =>
    simp only [call, GraphCache.evict]
    cases s.artifact id with
    | none => exact iff_of_false (fail_ne_ok _ _ _) (by rintro ⟨_, h, -⟩; cases h)
    | some a =>
      dsimp only
      split_ifs with h
      · exact iff_of_false (fail_ne_ok _ _ _) (hrefused h)
      · exact iff_of_true rfl ⟨a, rfl, h⟩
  | unload =>
    simp only [call, GraphCache.unload]
    cases s.artifact id with
    | none => exact iff_of_false (fail_ne_ok _ _ _) (by rintro ⟨_, h, -⟩; cases h)
    | some a =>
      dsimp only
      split_ifs with h
      · exact iff_of_false (fail_ne_ok _ _ _) (hrefused h)
      · exact iff_of_true rfl ⟨a, rfl, h⟩

/-- Off the backend, a call changes no entry. -/
theorem call_registry (h : s.toRegistry.OffBackend) :
    (m.call cfg s id).1.toRegistry = s.toRegistry := by
  have hset : ∀ a, s.toRegistry.set a (dropResidency cfg (s.heap a)) = s.toRegistry := by
    intro a
    rw [dropResidency_eq (h a), Registry.set, Function.update_eq_self]
  cases m with
  | evict =>
    simp only [call, GraphCache.evict]
    split
    · rfl
    · split_ifs
      · rfl
      · exact hset _
  | unload =>
    simp only [call, GraphCache.unload]
    split
    · rfl
    · split_ifs
      · rfl
      · exact hset _

end Removal

/-! ## What fills an entry -/

/-- The configuration, over a backend that captures nothing. -/
def Config.idle (cfg : Config Exec) : Config Exec :=
  { cfg with backend := { cfg.backend with capture := fun _ _ => fail .backendUnavailable "" } }

theorem Edit.idle {marks : Prop} {e e' : CacheEntry Exec} (he : Edit cfg.idle marks e e')
    (h : e.residency ≠ .backendResident) : e'.exec = e.exec := by
  cases he with
  | counts => rfl
  | materialize attempt x hcap => exact absurd hcap (fail_ne_ok _ _ _)
  | drop => rw [dropResidency_eq h]
  | invalidate strong =>
    unfold markInvalidated
    dsimp only
    split_ifs
    · rw [dropResidency_eq (by exact h)]
    · rfl

/-- Only a lookup changes an executable : the other operations do the same over a backend that
captures nothing. -/
theorem step_exec (h : s.toRegistry.OffBackend) {a : ℕ} (ha : a < s.next) {op : Op Exec}
    (hop : ∀ req env, op ≠ .lookup req env) :
    ((step cfg s op).heap a).exec = (s.heap a).exec := by
  have hidle : step cfg s op = step cfg.idle s op := by
    cases op with
    | lookup req env => exact absurd rfl (hop req env)
    | _ => rfl
  rw [hidle]
  refine ((step_evolves cfg.idle s op).invariant (I := fun r => a < r.next ∧
    (r.heap a).residency ≠ .backendResident ∧ (r.heap a).exec = (s.heap a).exec)
    ⟨ha, h a, rfl⟩ ?_ ?_).2.2
  · rintro r b e ⟨hlt, hoff, hexec⟩ he
    refine ⟨hlt, ?_⟩
    by_cases hab : a = b
    · subst hab
      rw [set_heap_self]
      exact ⟨(he.offBackend hoff).1, (he.idle hoff).trans hexec⟩
    · rw [set_heap_of_ne r e hab]
      exact ⟨hoff, hexec⟩
  · rintro r e ⟨hlt, hoff, hexec⟩ -
    rw [register_heap_of_lt r e hlt]
    exact ⟨Nat.lt_succ_of_lt hlt, hoff, hexec⟩

/-- On the way from `s` to `s'` executables changed by one `materialize_exec` at most, on the entry
that is leased then. -/
structure Fills (s s' : State Exec) (lease : Option (Lease Exec)) : Prop where
  next : s.next ≤ s'.next
  leased : ∀ l, lease = some l → l.entry < s.next → s'.metrics.recaptures =
    s.metrics.recaptures + if (s.heap l.entry).exec.isSome then 0 else 1
  missed : lease = none → s'.metrics.recaptures = s.metrics.recaptures
  others : ∀ a < s.next, (∀ l, lease = some l → l.entry ≠ a) →
    (s'.heap a).exec = (s.heap a).exec

namespace Fills

variable {s s' s'' : State Exec} {lease : Option (Lease Exec)}

theorem of_eq (hr : s'.toRegistry = s.toRegistry)
    (hm : s'.metrics.recaptures = s.metrics.recaptures) : Fills s s' none where
  next := by rw [hr]
  leased := fun _ h => nomatch h
  missed := fun _ => hm
  others := fun _ _ _ => by rw [hr]

theorem of_register {e : CacheEntry Exec} (hr : s'.toRegistry = s.toRegistry.register e)
    (hm : s'.metrics.recaptures = s.metrics.recaptures) : Fills s s' none where
  next := by
    rw [hr]
    exact Nat.le_succ _
  leased := fun _ h => nomatch h
  missed := fun _ => hm
  others := fun a ha _ => by rw [hr, register_heap_of_lt _ e ha]

theorem trans (h : Fills s s' none) (h' : Fills s' s'' lease) : Fills s s'' lease where
  next := h.next.trans h'.next
  leased := fun l hl hlt => by
    rw [h'.leased l hl (hlt.trans_le h.next), h.missed rfl, h.others _ hlt (fun _ h => nomatch h)]
  missed := fun hl => (h'.missed hl).trans (h.missed rfl)
  others := fun a ha hne => (h'.others a (ha.trans_le h.next) hne).trans
    (h.others a ha fun _ h => nomatch h)

theorem touch (h : Fills s s' lease) (hr : s''.toRegistry = s'.toRegistry)
    (hm : s''.metrics.recaptures = s'.metrics.recaptures) : Fills s s'' lease where
  next := hr ▸ h.next
  leased := fun l hl hlt => hm.trans (h.leased l hl hlt)
  missed := fun hl => hm.trans (h.missed hl)
  others := fun a ha hne => by
    rw [hr]
    exact h.others a ha hne

end Fills

variable (cfg s) in
theorem materializeExec_fills (a : ℕ) : (materializeExec cfg s a).1.next = s.next ∧
    ((materializeExec cfg s a).2 = .ok () → (materializeExec cfg s a).1.metrics.recaptures =
      s.metrics.recaptures + if (s.heap a).exec.isSome then 0 else 1) ∧
    ((materializeExec cfg s a).2 ≠ .ok () →
      (materializeExec cfg s a).1.metrics.recaptures = s.metrics.recaptures) ∧
    ∀ b, b ≠ a → (materializeExec cfg s a).1.heap b = s.heap b := by
  unfold materializeExec
  split_ifs with h
  · exact ⟨rfl, fun _ => (UInt64.add_zero _).symm, fun _ => rfl, fun _ _ => rfl⟩
  · dsimp only
    split
    · exact ⟨rfl, nofun, fun _ => rfl, fun _ _ => rfl⟩
    · split
      · exact ⟨rfl, nofun, fun _ => rfl, fun _ _ => rfl⟩
      · refine ⟨rfl, fun _ => rfl, fun hne => absurd rfl hne, fun b hb => ?_⟩
        simp [State.touchMetric, State.set, hb]

variable (cfg s) in
theorem searchCandidates_fills (facts : CompatibilityFacts) (policy : GraphCompatibilityPolicy) :
    Fills s (searchCandidates cfg s facts policy).1 (searchCandidates cfg s facts policy).2.lease := by
  unfold searchCandidates
  dsimp only
  split
  · split <;> exact .of_eq rfl rfl
  · rename_i a dec hchosen
    obtain ⟨hnext, hok, herr, hother⟩ := materializeExec_fills cfg s a
    obtain ⟨-, hedits, -, hkeep⟩ := materializeExec_spec cfg s a
    have hvalid := hedits.valid a
    split
    · rename_i s' err hm
      rw [hm] at herr hkeep
      exact .of_eq (hkeep nofun) (herr nofun)
    · rename_i s' hm
      rw [hm] at hnext hok hother hvalid
      dsimp only at hnext hok hother hvalid
      have hsel := (scan_chosen hchosen).1.candidate.selectable
      -- a materialized entry is as valid as the scan found it
      rw [if_neg (by simp [hvalid.1, hvalid.2, hsel.1, hsel.2.2])]
      refine ⟨hnext.ge, ?_, nofun, fun b _ hb => ?_⟩
      · rintro l hl -
        obtain rfl := Option.some.inj hl
        exact hok rfl
      · have hba : b ≠ a := fun h => hb _ rfl h.symm
        simp [makeLease, State.set, hba, hother b hba]

theorem captureGraph_fills {s' : State Exec} {req : GraphLookupRequest} {attempt : CaptureAttemptId}
    {env : LookupEnv} {res : Result GraphArtifactId}
    (h : captureGraph cfg s req attempt env = (s', res)) : Fills s s' none := by
  have hm : (captureGraph cfg s req attempt env).1.metrics.recaptures = s.metrics.recaptures := by
    unfold captureGraph
    split
    · unfold captureFailureMetric
      split
      · rfl
      · split
        · rfl
        · split <;> rfl
    · dsimp only [State.touchMetric]
      rw [persistEntry_eq]
      rfl
  have hspec := captureGraph_spec cfg s req attempt env
  rw [h] at hm hspec
  rcases hspec with ⟨_, -, -, hr, -⟩ | ⟨e, -, -, hr, -⟩
  · exact .of_eq hr hm
  · exact .of_register hr hm

theorem Fills.finishHit {s s' : State Exec} {lease : Option (Lease Exec)} (h : Fills s s' lease)
    (req : GraphLookupRequest) (outcome : LookupOutcome) :
    Fills s (finishHit s' req outcome) lease := by
  refine h.touch rfl ?_
  unfold GraphCache.finishHit
  cases outcome <;> rfl

variable (cfg s) in
/-- A lookup fills no entry but the one that it leases. -/
theorem lookup_fills (req : GraphLookupRequest) (env : LookupEnv) :
    Fills s (lookup cfg s req env).1 (lookup cfg s req env).2.lease := by
  have hpath := lookup_path cfg s req env
  generalize (lookup cfg s req env).1 = s', (lookup cfg s req env).2 = res' at hpath ⊢
  have hsearch : ∀ {s s₁ : State Exec} {res : GraphLookupResult Exec},
      searchCandidates cfg s (makeFacts req) req.policy = (s₁, res) → Fills s s₁ res.lease := by
    intro s s₁ res h
    have hfills := searchCandidates_fills cfg s (makeFacts req) req.policy
    rwa [h] at hfills
  have hstart : Fills s (s.lookedUp req) none := .of_eq rfl rfl
  -- a search that asks for a capture leases nothing
  have hgraph : ∀ {s₁ s₂ : State Exec} {res : GraphLookupResult Exec} {r : Result GraphArtifactId},
      searchCandidates cfg (s.lookedUp req) (makeFacts req) req.policy = (s₁, res) →
      res.outcome = .missCaptureRequired →
      captureGraph cfg (s₁.capturing req) req (s₁.captureCounter + 1) env = (s₂, r) →
      res.lease = none ∧ Fills s s₂ none := by
    intro s₁ s₂ res r hs hout hg
    have hmiss := (searchCandidates_spec cfg (s.lookedUp req) (makeFacts req) req.policy).2.2.2
    rw [hs] at hmiss
    have hnone : res.lease = none := (hmiss hout).1
    have hmissed := hstart.trans (hsearch hs)
    rw [hnone] at hmissed
    exact ⟨hnone, .trans (by exact hmissed.touch rfl rfl) (captureGraph_fills hg)⟩
  cases hpath with
  | found hs hhit => exact (hstart.trans (hsearch hs)).finishHit req _
  | missed hs hmiss hno => exact (hstart.trans (hsearch hs)).touch rfl rfl
  | failed hs hmay hg =>
    obtain ⟨hnone, hfills⟩ := hgraph hs hmay.2.2 hg
    rw [hnone]
    exact hfills.touch rfl rfl
  | captured hs hmay hg ha hhit =>
    exact ((hgraph hs hmay.2.2 hg).2.trans (hsearch ha)).finishHit req _
  | unusable hs hmay hg ha hmiss =>
    obtain ⟨hnone, hfills⟩ := hgraph hs hmay.2.2 hg
    have hagain := hfills.trans (hsearch ha)
    rwa [Option.not_isSome_iff_eq_none.mp ((Bool.not_eq_true _).mpr hmiss), ← hnone] at hagain

/-! ## Evicted entries -/

variable (cfg s) in
theorem step_next (op : Op Exec) : s.next ≤ (step cfg s op).next :=
  (step_evolves cfg s op).invariant (I := fun r => s.next ≤ r.next) le_rfl (fun _ _ _ h _ => h)
    fun _ _ h _ => Nat.le_succ_of_le h

/-- The operation does not lease the entry at `a`. -/
def Passes (cfg : Config Exec) (a : ℕ) (s : State Exec) (op : Op Exec) : Prop :=
  ∀ l, Grants cfg l s op → l.entry ≠ a

theorem empty_step (h : s.toRegistry.OffBackend) {a : ℕ} (ha : a < s.next)
    (hx : (s.heap a).exec = none) {op : Op Exec} (hop : Passes cfg a s op) :
    ((step cfg s op).heap a).exec = none := by
  by_cases hlookup : ∃ req env, op = .lookup req env
  · obtain ⟨req, env, rfl⟩ := hlookup
    have hother := (lookup_fills cfg s req env).others a ha fun l hl => hop l ⟨req, env, rfl, hl⟩
    exact hother.trans hx
  · exact (step_exec h ha fun req env hop => hlookup ⟨req, env, hop⟩).trans hx

/-- An entry without an executable stays so until it is leased. -/
theorem empty_run (h : s.toRegistry.OffBackend) {a : ℕ} (ha : a < s.next)
    (hx : (s.heap a).exec = none) {ops : List (Op Exec)}
    (hpass : Throughout (step cfg) s (Passes cfg a) ops) :
    a < (run cfg s ops).next ∧ ((run cfg s ops).heap a).exec = none := by
  induction ops using List.reverseRecOn with
  | nil => exact ⟨ha, hx⟩
  | append_singleton ops op ih =>
    obtain ⟨hpass, hlast⟩ := throughout_concat.mp hpass
    obtain ⟨hlt, hnone⟩ := ih hpass
    rw [run_concat]
    exact ⟨hlt.trans_le (step_next cfg _ op), empty_step (h.run ops) hlt hnone hlast⟩

/-- The entry at `a` is evicted : it holds no executable, and the next lookup that leases it captures
it again. -/
structure Evicted (cfg : Config Exec) (s : State Exec) (a : ℕ) : Prop where
  exec : (s.heap a).exec = none
  tier : (s.heap a).residency = .metadataOnly ∨ (s.heap a).residency = .persistentStorage
  recaptured : ∀ ops req env l, Throughout (step cfg) s (Passes cfg a) ops →
    (lookup cfg (run cfg s ops) req env).2.lease = some l → l.entry = a →
      ((run cfg s ops).heap a).exec = none ∧ l.executable.isSome = true ∧
        (lookup cfg (run cfg s ops) req env).1.metrics.recaptures =
          (run cfg s ops).metrics.recaptures + 1

theorem evicted_iff (h : s.toRegistry.OffBackend) {a : ℕ} (ha : a < s.next)
    (ht : (s.heap a).Tiered) : Evicted cfg s a ↔ (s.heap a).residency = .metadataOnly := by
  constructor
  · exact fun hev => ht.exec_eq_none_iff.mp hev.exec
  · intro htier
    have hx := ht.exec_eq_none_iff.mpr htier
    refine ⟨hx, .inl htier, ?_⟩
    rintro ops req env l hpass hl rfl
    obtain ⟨hlt, hnone⟩ := empty_run h ha hx hpass
    obtain ⟨s₁, -, -, -, hlease⟩ := lookup_spec cfg (run cfg s ops) req env
    obtain ⟨r, hhit⟩ := hlease l hl
    refine ⟨hnone, hhit.materialized, ?_⟩
    rw [(lookup_fills cfg (run cfg s ops) req env).leased l hl hlt, hnone]
    rfl

/-- The call evicts if it succeeds, and changes no executable and no tier if it fails. -/
structure Evicts (cfg : Config Exec) (m : Removal) (s : State Exec) (id : GraphArtifactId) :
    Prop where
  success : (m.call cfg s id).2 = .ok () → ∃ a, (m.call cfg s id).1.artifact id = some a ∧
    Evicted cfg (m.call cfg s id).1 a
  failure : (m.call cfg s id).2 ≠ .ok () → ∀ a,
    ((m.call cfg s id).1.heap a).exec = (s.heap a).exec ∧
      ((m.call cfg s id).1.heap a).residency = (s.heap a).residency

end

/-- In every state that a cache reaches, eviction evicts exactly if the entry under the id, unless
it is refused, is `MetadataOnly`. -/
theorem evicts_iff {Exec : Type} (cfg : Config Exec) (store : Option Store)
    (history : List (Op Exec)) (m : Removal) (id : GraphArtifactId) :
    Evicts cfg m (run cfg (.fresh store) history) id ↔
      ∀ a, (run cfg (.fresh store) history).artifact id = some a →
        ¬m.Refuses ((run cfg (.fresh store) history).heap a) →
          ((run cfg (.fresh store) history).heap a).residency = .metadataOnly := by
  set s := run cfg (.fresh store) history with hs
  have htiered : ∀ a, (s.heap a).Tiered := tiered_run cfg store history
  have hindexed : s.toRegistry.Indexed := indexed_run _ (indexed_fresh store) history
  have hreg : (m.call cfg s id).1.toRegistry = s.toRegistry :=
    m.call_registry fun a => (htiered a).off_backend
  have hev : ∀ {a}, s.artifact id = some a →
      (Evicted cfg (m.call cfg s id).1 a ↔ (s.heap a).residency = .metadataOnly) := by
    intro a ha
    have hlt := (hindexed.artifact id a ha).1
    rw [evicted_iff (by rw [hreg]; exact fun a => (htiered a).off_backend) (by rwa [hreg])
      (by rw [hreg]; exact htiered a), hreg]
  constructor
  · intro h a ha hfree
    obtain ⟨b, hb, hevicted⟩ := h.success (m.call_ok_iff.mpr ⟨a, ha, hfree⟩)
    rw [hreg] at hb
    obtain rfl := Option.some.inj (ha.symm.trans hb)
    exact (hev ha).mp hevicted
  · intro h
    refine ⟨fun hok => ?_, fun _ a => by rw [hreg]; exact ⟨rfl, rfl⟩⟩
    obtain ⟨a, ha, hfree⟩ := m.call_ok_iff.mp hok
    exact ⟨a, by rw [hreg]; exact ha, (hev ha).mpr (h a ha hfree)⟩

/-- A call that succeeds, and an executable that refutes eviction. -/
theorem not_evicts {Exec : Type} {cfg : Config Exec} {m : Removal} {s : State Exec}
    {id : GraphArtifactId} (a : ℕ)
    (h : (m.call cfg s id).2 = .ok () ∧ (m.call cfg s id).1.artifact id = some a ∧
      ((m.call cfg s id).1.heap a).exec.isSome = true) : ¬Evicts cfg m s id := by
  intro hevicts
  obtain ⟨hok, hnamed, hexec⟩ := h
  obtain ⟨b, hb, hevicted⟩ := hevicts.success hok
  obtain rfl := Option.some.inj (hnamed.symm.trans hb)
  exact Option.isSome_iff_ne_none.mp hexec hevicted.exec

set_option maxRecDepth 100000 in
/-- A graph is captured, its lease is released, and the eviction that follows leaves the executable
where it was. -/
theorem evicts_nothing : ¬Evicts (.cpu (.insertion _) .unit) .evict
    (run (.cpu (.insertion _) .unit) (.fresh none)
      [.lookup (blankRequest "a" true) {}, .release firstLease]) firstLease.artifactId :=
  not_evicts 0 (by decide +kernel)

end GraphCache
