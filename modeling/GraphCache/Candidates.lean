import GraphCache.Decisions
import GraphCache.Lookups

/-!
# Hits on terms

A search walks the bucket of its workload, and keeps the first candidate unless an exact one comes
after it (`Registry.First`). An entry that is chosen is leased if its executable is there or can be
captured again (`State.Usable`). A rebinding and a dynamic shape have an outcome of their own : it
is answered exactly when the entry that serves the request does so on these terms
(`outcome_iff_serves`).
-/

namespace GraphCache

/-! ## The first candidate -/

section

variable {Exec : Type} {r : Registry Exec} {facts : CompatibilityFacts}
  {policy : GraphCompatibilityPolicy} {acc : Scan}

instance decidableCandidate (r : Registry Exec) (facts : CompatibilityFacts)
    (policy : GraphCompatibilityPolicy) (a : ℕ) : Decidable (r.Candidate facts policy a) :=
  decidable_of_iff (r.Selectable a ∧
    isDependencyFresh (r.heap a).facts.dependencies facts = true ∧
      (r.decision facts policy a).compatible = true)
    ⟨fun h => ⟨h.1, h.2.1, h.2.2⟩, fun h => ⟨h.1, h.2, h.3⟩⟩

/-- The first candidate of the bucket, which holds no exact one. -/
structure Registry.First (r : Registry Exec) (facts : CompatibilityFacts)
    (policy : GraphCompatibilityPolicy) (b : ℕ) : Prop where
  first : (r.byWorkload (workloadKey facts.workload)).find?
    (fun c => r.Candidate facts policy c) = some b
  inexact : ∀ c ∈ r.byWorkload (workloadKey facts.workload), r.Candidate facts policy c →
    (r.decision facts policy c).klass ≠ .exactCompatible

theorem scanEntry_inexact {b : ℕ}
    (hb : r.Candidate facts policy b → (r.decision facts policy b).klass ≠ .exactCompatible) :
    (scanEntry r facts policy acc b).chosen = acc.chosen.or
      (if r.Candidate facts policy b then some (b, r.decision facts policy b) else none) := by
  by_cases hc : r.Candidate facts policy b
  · have hinexact := hb hc
    have hcomp := hc.compatible
    unfold Registry.decision at hinexact hcomp
    rw [if_pos hc]
    cases hacc : acc.chosen <;>
      simp [scanEntry, hc.selectable, hc.fresh, hcomp, hinexact, hacc, Registry.decision]
  · rw [if_neg hc, Option.or_none]
    unfold scanEntry
    dsimp only
    split_ifs with hsel hfresh hcomp hexact
    · rfl
    · exact absurd ⟨hsel, (Bool.not_eq_false _).mp hfresh, hcomp⟩ hc
    · rfl
    · rfl
    · rfl

/-- Without an exact candidate, a walk keeps the first. -/
theorem foldl_scanEntry_first {l : List ℕ} (h : ∀ c ∈ l, r.Candidate facts policy c →
    (r.decision facts policy c).klass ≠ .exactCompatible) :
    (l.foldl (scanEntry r facts policy) acc).chosen = acc.chosen.or
      ((l.find? fun c => r.Candidate facts policy c).map
        fun b => (b, r.decision facts policy b)) := by
  induction l generalizing acc with
  | nil => simp
  | cons c l ih =>
    rw [List.foldl_cons, ih fun d hd => h d (by simp [hd]), scanEntry_inexact (h c (by simp)),
      Option.or_assoc]
    by_cases hc : r.Candidate facts policy c <;> simp [hc]

/-- What is chosen on terms is the first candidate. -/
theorem scan_first_iff {b : ℕ} {dec : GraphCompatibilityDecision}
    (hk : dec.klass ≠ .exactCompatible) :
    (scan r facts policy).chosen = some (b, dec) ↔
      r.First facts policy b ∧ dec = r.decision facts policy b := by
  constructor
  · intro hchosen
    obtain ⟨⟨hmem, hcand, hexact⟩, rfl⟩ := scan_chosen hchosen
    have hinexact : ∀ c ∈ r.byWorkload (workloadKey facts.workload),
        r.Candidate facts policy c → (r.decision facts policy c).klass ≠ .exactCompatible :=
      fun c hc hcc hce => hk (hexact ⟨c, hc, hcc, hce⟩)
    rw [scan, foldl_scanEntry_first hinexact, Option.none_or, Option.map_eq_some_iff] at hchosen
    obtain ⟨c, hfirst, heq⟩ := hchosen
    obtain rfl : c = b := (Prod.mk.inj heq).1
    exact ⟨⟨hfirst, hinexact⟩, rfl⟩
  · rintro ⟨⟨hfirst, hinexact⟩, rfl⟩
    rw [scan, foldl_scanEntry_first hinexact, hfirst]
    rfl

end

/-! ## Hits on terms -/

theorem hitOutcome_rebinding (k : GraphCompatibilityClass) (residency : ResidencyTier) :
    hitOutcome k residency = .compatibleHitRebinding ↔ k = .compatibleWithRebinding := by
  cases k <;> cases residency <;> decide

theorem hitOutcome_dynamic (k : GraphCompatibilityClass) (residency : ResidencyTier) :
    hitOutcome k residency = .compatibleDynamicShapeHit ↔
      k = .compatibleWithDynamicShapeConstraint := by
  cases k <;> cases residency <;> decide

section

variable {Exec : Type} {cfg : Config Exec} {s : State Exec} {req : GraphLookupRequest}
  {env : LookupEnv}

/-- The executable of the entry is there, or can be captured again. -/
def State.Usable (cfg : Config Exec) (s : State Exec) (b : ℕ) : Prop :=
  (s.heap b).exec.isSome = true ∨
    ∃ x, cfg.backend.capture (s.heap b).descriptor (s.captureCounter + 1) = .ok x ∧
      cfg.backend.validate (s.heap b).descriptor x = .ok ()

theorem materializeExec_ok_iff {b : ℕ} : (materializeExec cfg s b).2 = .ok () ↔ s.Usable cfg b := by
  unfold materializeExec State.Usable
  by_cases hexec : (s.heap b).exec.isSome = true
  · simp [hexec]
  · simp only [hexec, Bool.false_eq_true, if_false, false_or]
    cases hcap : cfg.backend.capture (s.heap b).descriptor (s.captureCounter + 1) with
    | error e => simp
    | ok x =>
      simp only [Except.ok.injEq, exists_eq_left']
      cases hval : cfg.backend.validate (s.heap b).descriptor x <;> simp

/-- A chosen entry that is usable is leased under the outcome of its decision. -/
theorem searchCandidates_chosen {facts : CompatibilityFacts} {policy : GraphCompatibilityPolicy}
    {a : ℕ} {dec : GraphCompatibilityDecision}
    (hc : (scan s.toRegistry facts policy).chosen = some (a, dec)) (hu : s.Usable cfg a) :
    (∃ residency, (searchCandidates cfg s facts policy).2.outcome =
      hitOutcome dec.klass residency) ∧
    ∃ l, (searchCandidates cfg s facts policy).2.lease = some l ∧
      l.needsRebinding = dec.needsRebinding := by
  have hm := materializeExec_ok_iff.mpr hu
  have hsel := (scan_chosen hc).1.candidate.selectable
  have hvalid := (materializeExec_spec cfg s a).2.1.valid a
  unfold searchCandidates
  simp only [hc]
  split
  · rename_i s' err h
    rw [h] at hm
    simp at hm
  · rename_i s' h
    rw [h] at hvalid
    dsimp only at hvalid
    rw [if_neg (by simp [hvalid.1, hvalid.2, hsel.1, hsel.2.2])]
    exact ⟨⟨_, rfl⟩, _, rfl, rfl⟩

/-- The decision behind an outcome that only it has. -/
theorem chosen_of_outcome {o : LookupOutcome} {k : GraphCompatibilityClass}
    (ho : ∀ k' residency, hitOutcome k' residency = o → k' = k)
    (hmiss : o ≠ .missCaptureRequired ∧ o ≠ .missIncompatible ∧ o ≠ .missInvalidated ∧
      o ≠ .missStaleDependency) (h : (searched cfg s req).outcome = o) :
    ∃ b dec, (scan s.toRegistry (makeFacts req) req.policy).chosen = some (b, dec) ∧
      dec.klass = k ∧ s.Usable cfg b := by
  obtain ⟨hreq, hincompat, hinv, hstale⟩ := hmiss
  unfold searched searchCandidates at h
  dsimp only at h
  split at h
  · split at h
    · exact absurd h.symm hincompat
    · rcases scan_outcome s.toRegistry (makeFacts req) req.policy
          (s.bucket (makeFacts req)) with ⟨hout, -⟩ | ⟨hout, -⟩
      · exact absurd (h.symm.trans hout) hstale
      · exact absurd (h.symm.trans hout) hreq
  · rename_i b dec hchosen
    split at h
    · exact absurd h.symm hreq
    · rename_i s' hm
      split_ifs at h
      · exact absurd h.symm hinv
      · refine ⟨b, dec, hchosen, ho _ _ h, materializeExec_ok_iff.mp ?_⟩
        rw [hm]

/-- The entry that serves the request on the terms of `klass` : the first candidate of a bucket
without an exact one, and usable. -/
structure Serves (cfg : Config Exec) (s : State Exec) (req : GraphLookupRequest)
    (klass : GraphCompatibilityClass) (b : ℕ) : Prop where
  first : s.toRegistry.First (makeFacts req) req.policy b
  klass : (s.toRegistry.decision (makeFacts req) req.policy b).klass = klass
  usable : s.Usable cfg b

variable (cfg s env) in
/-- A lookup that may not capture answers what the search finds. -/
theorem lookup_uncaptured (h : req.allowCapture = false) :
    (lookup cfg s req env).2.outcome = (searched cfg s req).outcome ∧
      (lookup cfg s req env).2.lease = (searched cfg s req).lease := by
  generalize hres : (lookup cfg s req env).2 = res
  cases hres ▸ lookup_answer cfg s req env with
  | found _ _ => exact ⟨rfl, rfl⟩
  | missed _ _ _ => exact ⟨rfl, rfl⟩
  | failed hmay _ _ _ => exact absurd (h.symm.trans hmay.1) Bool.false_ne_true
  | captured _ hcap _ _ _ _ => exact absurd (h.symm.trans hcap.1) Bool.false_ne_true
  | unusable _ hcap _ _ _ _ => exact absurd (h.symm.trans hcap.1) Bool.false_ne_true

variable (cfg s env) in
/-- An outcome that only one inexact class has is that of the entry that serves the request. -/
theorem outcome_iff_serves {o : LookupOutcome} {k : GraphCompatibilityClass}
    (hk : k ≠ .exactCompatible) (ho : ∀ k' residency, hitOutcome k' residency = o ↔ k' = k)
    (hmiss : o ≠ .missCaptureRequired ∧ o ≠ .missIncompatible ∧ o ≠ .missInvalidated ∧
      o ≠ .missStaleDependency) (hcap : req.allowCapture = false) :
    ((lookup cfg s req env).2.outcome = o ↔ ∃ b, Serves cfg s req k b) ∧
      ((lookup cfg s req env).2.outcome = o → ∃ l, (lookup cfg s req env).2.lease = some l ∧
        l.needsRebinding = decide (k = .compatibleWithRebinding)) := by
  obtain ⟨hout, hlease⟩ := lookup_uncaptured cfg s env hcap
  rw [hout, hlease]
  refine ⟨⟨fun h => ?_, ?_⟩, fun h => ?_⟩
  · obtain ⟨b, dec, hchosen, hklass, hu⟩ := chosen_of_outcome (fun k' r => (ho k' r).mp) hmiss h
    obtain ⟨hfirst, rfl⟩ := (scan_first_iff (hklass ▸ hk)).mp hchosen
    exact ⟨b, hfirst, hklass, hu⟩
  · rintro ⟨b, hfirst, hklass, hu⟩
    have hchosen := (scan_first_iff (hklass ▸ hk)).mpr ⟨hfirst, rfl⟩
    obtain ⟨⟨residency, hres⟩, -⟩ := searchCandidates_chosen hchosen hu
    exact hres.trans ((ho _ _).mpr hklass)
  · obtain ⟨b, dec, hchosen, hklass, hu⟩ := chosen_of_outcome (fun k' r => (ho k' r).mp) hmiss h
    obtain ⟨-, l, hl, hneeds⟩ := searchCandidates_chosen hchosen hu
    exact ⟨l, hl, by rw [hneeds, GraphCompatibilityDecision.needsRebinding, hklass]⟩

end

end GraphCache
