import GraphCache.History
import GraphCache.Invalidation
import GraphCache.Listings

/-!
# The lifecycle machine

`lifecycle.cpp` : the table of legal transitions and its lookup. The engine does not consult it. It
keeps entries valid or invalidated, and writes the field in three places : a capture leaves it at
its initial value, an invalidation and the decoding of an invalidated record overwrite it, and the
table has no transition from `Valid` to `Invalidated`.

`lifecycle_obeyed` : a run obeys the machine exactly when no invalidation finds a valid entry and
no recovery an invalidated record.
-/

namespace GraphCache

open History

/-! ## The table -/

/-- `to_string`. -/
def GraphLifecycle.toString : GraphLifecycle → String
  | .discovered => "Discovered"
  | .capturing => "Capturing"
  | .captured => "Captured"
  | .validating => "Validating"
  | .valid => "Valid"
  | .persisting => "Persisting"
  | .persisted => "Persisted"
  | .loading => "Loading"
  | .residentHost => "ResidentHost"
  | .residentBackend => "ResidentBackend"
  | .leasing => "Leasing"
  | .replaying => "Replaying"
  | .invalidationPending => "InvalidationPending"
  | .evictionPending => "EvictionPending"
  | .evictedBackend => "EvictedBackend"
  | .evictedHost => "EvictedHost"
  | .invalidated => "Invalidated"
  | .corrupt => "Corrupt"
  | .failed => "Failed"
  | .retired => "Retired"
  | .terminal => "Terminal"

/-- The legal transitions. -/
def kTransitions : List (GraphLifecycle × GraphLifecycle) :=
  [(.discovered, .capturing), (.discovered, .invalidated), (.discovered, .corrupt),
    (.discovered, .failed), (.discovered, .terminal),
  (.capturing, .captured), (.capturing, .failed), (.capturing, .invalidated),
    (.capturing, .terminal),
  (.captured, .validating), (.captured, .failed), (.captured, .invalidated),
    (.captured, .terminal),
  (.validating, .valid), (.validating, .failed), (.validating, .invalidated),
    (.validating, .corrupt), (.validating, .terminal),
  (.valid, .persisting), (.valid, .loading), (.valid, .leasing), (.valid, .residentHost),
    (.valid, .residentBackend), (.valid, .invalidationPending), (.valid, .evictionPending),
    (.valid, .retired), (.valid, .terminal),
  (.persisting, .persisted), (.persisting, .failed), (.persisting, .terminal),
  (.persisted, .loading), (.persisted, .leasing), (.persisted, .residentHost),
    (.persisted, .residentBackend), (.persisted, .evictionPending), (.persisted, .retired),
    (.persisted, .terminal),
  (.loading, .residentHost), (.loading, .residentBackend), (.loading, .failed),
    (.loading, .invalidated), (.loading, .terminal),
  (.residentHost, .residentBackend), (.residentHost, .persisted), (.residentHost, .leasing),
    (.residentHost, .evictionPending), (.residentHost, .retired), (.residentHost, .terminal),
  (.residentBackend, .residentHost), (.residentBackend, .persisted),
    (.residentBackend, .leasing), (.residentBackend, .replaying),
    (.residentBackend, .evictionPending), (.residentBackend, .invalidationPending),
    (.residentBackend, .retired), (.residentBackend, .terminal),
  (.leasing, .residentBackend), (.leasing, .replaying), (.leasing, .residentHost),
    (.leasing, .invalidationPending), (.leasing, .evictionPending), (.leasing, .retired),
    (.leasing, .terminal),
  (.replaying, .residentBackend), (.replaying, .leasing), (.replaying, .terminal),
  (.invalidationPending, .invalidated), (.invalidationPending, .evictionPending),
    (.invalidationPending, .terminal),
  (.evictionPending, .evictedBackend), (.evictionPending, .evictedHost),
    (.evictionPending, .terminal)]

def transitionLifecycle (s t : GraphLifecycle) : Result Unit :=
  if (s, t) ∈ kTransitions then .ok ()
  else fail .illegalTransition
    ("illegal lifecycle transition " ++ s.toString ++ " -> " ++ t.toString)

/-- Nothing leads out of the final states. -/
theorem transition_final {s t : GraphLifecycle}
    (h : s = .evictedBackend ∨ s = .evictedHost ∨ s = .invalidated ∨ s = .corrupt ∨ s = .failed ∨
      s = .retired ∨ s = .terminal) : transitionLifecycle s t ≠ .ok () := by
  have hfinal : (s, t) ∉ kTransitions := by
    rcases h with rfl | rfl | rfl | rfl | rfl | rfl | rfl <;> cases t <;> decide
  rw [transitionLifecycle, if_neg hfinal]
  exact fail_ne_ok _ _ _

/-- An entry becomes neither invalidated nor valid again by a legal transition. -/
theorem transition_valid_invalidated :
    transitionLifecycle .valid .invalidated ≠ .ok () ∧
      transitionLifecycle .invalidated .valid ≠ .ok () := by
  refine ⟨?_, transition_final (by decide)⟩
  rw [transitionLifecycle, if_neg (by decide)]
  exact fail_ne_ok _ _ _

/-! ## What the engine writes -/

section

variable {Exec : Type} {cfg : Config Exec} {s : State Exec}

/-- Entries are valid or invalidated, as the flag says; what is not there yet has the initial
state. -/
structure Registry.TwoState (r : Registry Exec) : Prop where
  lifecycle : ∀ a, (r.heap a).lifecycle = if (r.heap a).invalidated then .invalidated else .valid
  blank : ∀ a, r.next ≤ a → (r.heap a).invalidated = false

theorem Registry.TwoState.register {r : Registry Exec} (h : r.TwoState) {e : CacheEntry Exec}
    (he : e.lifecycle = if e.invalidated then .invalidated else .valid) :
    (r.register e).TwoState := by
  refine ⟨fun a => ?_, fun a ha => ?_⟩
  · by_cases hab : a = r.next
    · rw [hab, register_heap_self]
      exact he
    · simpa [Registry.register, hab] using h.lifecycle a
  · have hlt : r.next < a := ha
    simpa [Registry.register, hlt.ne'] using h.blank a hlt.le

theorem Registers.lifecycle {op : Op Exec} {r : Registry Exec} {e : CacheEntry Exec}
    (h : Registers cfg s op r e) :
    e.lifecycle = if e.invalidated then .invalidated else .valid := by
  cases op with
  | lookup req env =>
    obtain ⟨g, x, -, -, rfl⟩ := captureEntry_ok h.2.2.2.2
    rfl
  | recover listing =>
    obtain ⟨_, _, _, _, -, -, -, hload⟩ := h
    obtain ⟨g, md, rfl⟩ := loadEntry_some hload
    rfl
  | _ => exact h.elim

theorem Marks.lt {op : Op Exec} {a : ℕ} (hi : s.toRegistry.Indexed) (h : Marks s op a) :
    a < s.next := by
  cases op with
  | invalidate req =>
    unfold Marks invalidationTargets at h
    dsimp only at h
    split_ifs at h
    · exact (hi.artifact req.artifactId a (by simpa using h)).1
    · obtain ⟨id, hid⟩ := mem_artifacts.mp (List.mem_filter.mp h).1
      exact (hi.artifact id a hid).1
  | _ => exact h.elim

theorem twoState_step (hi : s.toRegistry.Indexed) (h : s.toRegistry.TwoState) (op : Op Exec) :
    (step cfg s op).toRegistry.TwoState := by
  refine ((step_evolves cfg s op).invariant (I := fun r => s.next ≤ r.next ∧ r.TwoState)
    ⟨le_rfl, h⟩ ?_ ?_).2
  · rintro r a e ⟨hle, hr⟩ he
    refine ⟨hle, fun b => ?_, fun b hb => ?_⟩
    · by_cases hab : b = a
      · subst hab
        rw [set_heap_self]
        obtain ⟨-, ⟨hinv, hlife⟩ | ⟨-, hinv, hlife⟩⟩ := he.spec
        · rw [hinv, hlife]
          exact hr.lifecycle b
        · simp [hinv, hlife]
      · rw [set_heap_of_ne r e hab]
        exact hr.lifecycle b
    · by_cases hab : b = a
      · subst hab
        rw [set_heap_self]
        obtain ⟨-, ⟨hinv, -⟩ | ⟨hmark, -⟩⟩ := he.spec
        · rw [hinv]
          exact hr.blank b hb
        · exact absurd (hmark.lt hi) (Nat.not_lt.mpr (hle.trans hb))
      · rw [set_heap_of_ne r e hab]
        exact hr.blank b hb
  · rintro r e ⟨hle, hr⟩ hreg
    exact ⟨Nat.le_succ_of_le hle, hr.register hreg.lifecycle⟩

theorem twoState_run (store : Option Store) (history : List (Op Exec)) :
    (run cfg (.fresh store) history).toRegistry.TwoState := by
  induction history using List.reverseRecOn with
  | nil => exact ⟨fun _ => rfl, fun _ _ => rfl⟩
  | append_singleton history op ih =>
    rw [run_concat]
    exact twoState_step (indexed_run _ (indexed_fresh store) history) ih op

/-! ## Obedience -/

variable (cfg s) in
/-- Every change of a lifecycle by the operation is a legal transition, and what a lookup leases is
eligible. An address that is not in use holds an entry as its constructor leaves it, so the field of
a new entry changes from `Valid`. -/
structure Obeys (op : Op Exec) : Prop where
  legal : ∀ a, (s.heap a).lifecycle ≠ ((step cfg s op).heap a).lifecycle →
    transitionLifecycle (s.heap a).lifecycle ((step cfg s op).heap a).lifecycle = .ok ()
  eligible : ∀ req env l, op = .lookup req env → (lookup cfg s req env).2.lease = some l →
    ((lookup cfg s req env).1.heap l.entry).lifecycle.isReplayEligible = true

/-- The operation invalidates no valid entry and recovers no invalidated record. -/
def Quiet (s : State Exec) : Op Exec → Prop
  | .invalidate req => ∀ a ∈ invalidationTargets s.toRegistry req, (s.heap a).invalidated = true
  | .recover _ => ∀ store, s.store = some store → ∀ id (e : CacheEntry Exec),
      loadEntry store id = some e → e.invalidated = false
  | _ => True

/-- A lookup leases eligible entries only. -/
theorem eligible_of_leased {req : GraphLookupRequest} {env : LookupEnv} {l : Lease Exec}
    (h : (lookup cfg s req env).2.lease = some l) :
    ((lookup cfg s req env).1.heap l.entry).lifecycle.isReplayEligible = true := by
  obtain ⟨s₁, -, -, hedits, hlease⟩ := lookup_spec cfg s req env
  obtain ⟨r, hhit⟩ := hlease l h
  rw [(hedits.valid l.entry).2]
  exact (scan_chosen hhit.chosen).1.candidate.selectable.2.2

/-- Between two states of the two-state kind, the changes are legal exactly when there are none. -/
theorem legal_iff {r r' : Registry Exec} (h : r.TwoState) (h' : r'.TwoState) :
    (∀ a, (r.heap a).lifecycle ≠ (r'.heap a).lifecycle →
      transitionLifecycle (r.heap a).lifecycle (r'.heap a).lifecycle = .ok ()) ↔
    ∀ a, (r'.heap a).invalidated = (r.heap a).invalidated := by
  refine forall_congr' fun a => ?_
  rw [h.lifecycle a, h'.lifecycle a]
  cases (r.heap a).invalidated <;> cases (r'.heap a).invalidated <;>
    simp [transition_valid_invalidated]

/-- A quiet operation leaves every entry as valid as it was. -/
theorem Quiet.invalidated (h : s.toRegistry.TwoState) {op : Op Exec} (hq : Quiet s op) (a : ℕ) :
    ((step cfg s op).heap a).invalidated = (s.heap a).invalidated := by
  refine ((step_evolves cfg s op).invariant (I := fun r => s.next ≤ r.next ∧
    ∀ b, (r.heap b).invalidated = (s.heap b).invalidated) ⟨le_rfl, fun _ => rfl⟩ ?_ ?_).2 a
  · rintro r b e ⟨hle, hr⟩ he
    refine ⟨hle, fun c => ?_⟩
    by_cases hcb : c = b
    · subst hcb
      rw [set_heap_self]
      obtain ⟨-, ⟨hinv, -⟩ | ⟨hmark, hinv, -⟩⟩ := he.spec
      · rw [hinv, hr c]
      · cases op with
        | invalidate req => rw [hinv, hq c hmark]
        | _ => exact hmark.elim
    · rw [set_heap_of_ne r e hcb]
      exact hr c
  · rintro r e ⟨hle, hr⟩ hreg
    refine ⟨Nat.le_succ_of_le hle, fun c => ?_⟩
    by_cases hc : c = r.next
    · rw [hc, register_heap_self, h.blank r.next hle]
      cases op with
      | lookup req env =>
        obtain ⟨g, x, -, -, rfl⟩ := captureEntry_ok hreg.2.2.2.2
        rfl
      | recover listing =>
        obtain ⟨store, _, id, _, hs, -, -, hload⟩ := hreg
        exact hq store hs id e hload
      | _ => exact hreg.elim
    · simpa [Registry.register, hc] using hr c

/-- An operation that leaves every entry as valid as it was is quiet. -/
theorem quiet_of_invalidated (h : s.toRegistry.TwoState) {op : Op Exec}
    (hkeep : ∀ a, ((step cfg s op).heap a).invalidated = (s.heap a).invalidated) : Quiet s op := by
  cases op with
  | invalidate req =>
    intro a ha
    rw [← hkeep a]
    exact invalidated_of_mem_targets req.strong _
      ({ s with cacheGeneration := s.cacheGeneration + 1 }, {}) ha
  | recover listing =>
    intro store hs id e hload
    -- the record becomes an entry at an address that was not in use
    have hmem : e ∈ listed Exec store listing := mem_listed.mpr ⟨id, hload⟩
    obtain ⟨i, hlt, rfl⟩ := List.getElem_of_mem hmem
    have hnew := hkeep (s.next + i)
    rw [h.blank _ (Nat.le_add_right _ i)] at hnew
    have hreg : (recover s listing).1.toRegistry =
        (listed Exec store listing).foldl Registry.register s.toRegistry := recover_registry hs listing
    rwa [step, hreg, foldl_register_heap_new _ _ hlt] at hnew
  | _ => trivial

/-- An operation obeys the machine exactly when it is quiet. -/
theorem obeys_iff (hi : s.toRegistry.Indexed) (h : s.toRegistry.TwoState) (op : Op Exec) :
    Obeys cfg s op ↔ Quiet s op := by
  have hlegal := legal_iff h (twoState_step hi h op : (step cfg s op).toRegistry.TwoState)
  constructor
  · exact fun hobeys => quiet_of_invalidated h (hlegal.mp hobeys.legal)
  · refine fun hq => ⟨hlegal.mpr (hq.invalidated h), ?_⟩
    rintro req env l rfl hl
    exact eligible_of_leased hl

end

/-! ## Runs -/

/-- A run obeys the lifecycle machine exactly when no invalidation finds a valid entry and no
recovery an invalidated record. -/
theorem lifecycle_obeyed {Exec : Type} (cfg : Config Exec) (store : Option Store)
    (history : List (Op Exec)) :
    Throughout (step cfg) (.fresh store) (Obeys cfg) history ↔
      Throughout (step cfg) (.fresh store) Quiet history := by
  refine forall_congr' fun pre => forall_congr' fun op => forall₂_congr fun post _ => ?_
  exact obeys_iff (indexed_run _ (indexed_fresh store) pre) (twoState_run store pre) op

set_option maxRecDepth 100000 in
/-- A captured entry goes from `Valid` to `Invalidated` at once. -/
theorem lifecycle_disobeyed : ¬Throughout (step (.cpu (.insertion _) .unit)) (.fresh none)
    (Obeys (.cpu (.insertion _) .unit))
    [.lookup (blankRequest "a" true) {}, .invalidate { scope := .byAll }] := by
  intro h
  have hlast := h [.lookup (blankRequest "a" true) {}] (.invalidate { scope := .byAll }) [] rfl
  set s := after (step (.cpu (.insertion _) .unit)) (.fresh none)
    [.lookup (blankRequest "a" true) {}] with hs
  obtain ⟨hbefore, hafter⟩ : (s.heap 0).lifecycle = .valid ∧
      ((invalidate (.cpu (.insertion _) .unit) s { scope := .byAll }).1.heap 0).lifecycle =
        .invalidated := by
    rw [hs]
    decide +kernel
  have hlegal := hlast.legal 0
  rw [step, hbefore, hafter] at hlegal
  exact transition_valid_invalidated.1 (hlegal (by decide))

end GraphCache
