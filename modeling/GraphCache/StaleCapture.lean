import GraphCache.Threads

/-!
# Captures that an invalidation overtakes

A capture loads `cache_generation` when it starts and compares it before it publishes; an
invalidation increments it. The comparison is made under `capture_mutex` and the insert under
`registry_mutex`, and the increment takes neither : an invalidation that comes between the two is
not seen, and what the capture inserts then is not among the targets it collected before
(`stale_capture_published`). Without an increment between a comparison and its insert
(`Undisturbed`), no capture publishes that an invalidation overtook (`stale_capture_rejected`).
-/

namespace GraphCache

/-- The capture loaded `gen`; once it inserted its entry this does not matter. -/
def CaptureStage.Carries {Exec : Type} (gen : CacheGeneration) : CaptureStage Exec → Prop
  | .entered => False
  | .loaded g | .built g _ _ | .drawn g _ _ _ | .stamped g _ | .checked g _ => g = gen
  | .inserted _ => True

/-- The thread is in `capture_graph`, between the check and the insert. -/
def Pc.checked {Exec : Type} : Pc Exec → Bool
  | .flight _ _ _ (.owner _ _ (.executing (.checked _ _))) => true
  | _ => false

namespace Threads

open History SingleFlight

variable {Exec : Type} {cfg : Config Exec} {s : Threads Exec} {ev : ThreadEvent}
  {evs : List ThreadEvent} {t u : ℕ} {k : Str} {a : ℕ} {gen : CacheGeneration}
  {e : CacheEntry Exec} {stage : CaptureStage Exec} {engine : State Exec}

/-- The capture of attempt `a` loads `gen_at_start`. -/
def Loads (t a : ℕ) (s : Threads Exec) (ev : ThreadEvent) : Prop :=
  ev = .step t ∧ s.Captures t a .entered

/-- An invalidation increments `cache_generation`. -/
def Rolls (s : Threads Exec) : ThreadEvent → Prop
  | .step t => (s.pc t).rolls
  | _ => False

instance : DecidablePred s.Rolls
  | .step t => inferInstanceAs (Decidable ((s.pc t).rolls = true))
  | .lookup _ _ | .invalidate _ _ => isFalse id

/-- `cache_generation` is incremented only while no capture is between its check and its insert,
and it does not wrap. -/
def Undisturbed (s : Threads Exec) (ev : ThreadEvent) : Prop :=
  s.Rolls ev → (∀ t, (s.pc t).checked = false) ∧
    s.engine.cacheGeneration < s.engine.cacheGeneration + 1

/-! ## The generation of the cache -/

theorem cacheGeneration_next (h : ¬ s.Rolls ev) :
    (s.next cfg ev).engine.cacheGeneration = s.engine.cacheGeneration := by
  rcases next_cases cfg s ev with heq | ⟨t, p, -, -, heq⟩ | ⟨t, rfl⟩
  · rw [heq]
  · rw [heq]
    rfl
  · exact advance_cacheGeneration s.toShared h

theorem cacheGeneration_roll (h : s.Rolls ev) :
    (s.next cfg ev).engine.cacheGeneration = s.engine.cacheGeneration + 1 := by
  cases ev with
  | step t =>
    rcases hp : s.pc t <;> simp [Rolls, hp, Pc.rolls] at h
    simp [next, hp, move, Shared.advance, engineStep]
  | _ => exact h.elim

theorem cacheGeneration_le (h : Undisturbed s ev) :
    s.engine.cacheGeneration.toNat ≤ (s.next cfg ev).engine.cacheGeneration.toNat := by
  by_cases hr : s.Rolls ev
  · rw [cacheGeneration_roll hr]
    exact (UInt64.lt_iff_toNat_lt.mp (h hr).2).le
  · rw [cacheGeneration_next hr]

/-! ## A capture and its generation -/

/-- A capture that passed its check did so in the present generation. -/
def Checked (s : Threads Exec) : Prop :=
  ∀ t a gen e, s.Captures t a (.checked gen e) → gen = s.engine.cacheGeneration

theorem Checked.next (h : s.Checked) (hu : Undisturbed s ev) : (s.next cfg ev).Checked := by
  rintro t a gen e ⟨l, res, attempt, k, hpc⟩
  rcases executing_next hpc with ⟨-, hold⟩ | ⟨rfl, ⟨-, hstage⟩ | ⟨st, hst, hm⟩⟩
  · by_cases hr : s.Rolls ev
    · have hnot := (hu hr).1 t
      rw [hold] at hnot
      cases hnot
    · rw [cacheGeneration_next hr]
      exact h t a gen e ⟨l, res, attempt, k, hold⟩
  · cases hstage
  · generalize (s.next cfg (.step t)).engine = engine' at hm ⊢
    cases hm
    rfl

theorem checked_run (evs : List ThreadEvent)
    (hu : Throughout (next cfg) { engine } Undisturbed evs) : (run cfg engine evs).Checked := by
  induction evs using List.reverseRecOn with
  | nil =>
    rintro t a gen e ⟨l, res, attempt, k, h⟩
    cases h
  | append_singleton evs ev ih =>
    obtain ⟨hevs, hlast⟩ := throughout_concat.mp hu
    rw [run, after_concat]
    exact (ih hevs).next hlast

/-- Whoever captures for attempt `a` loaded `gen`. -/
structure Begun (a : ℕ) (gen : CacheGeneration) (s : Threads Exec) : Prop where
  alloc : a < s.flights.next
  entered : ∀ t k, s.single.phase t ≠ .owner k a .inserted
  loaded : ∀ t stage, s.Captures t a stage → stage.Carries gen

theorem Begun.next (h : s.Begun a gen) : (s.next cfg ev).Begun a gen := by
  have hsingle : a < (s.next cfg ev).single.flights.next ∧
      ∀ t k, (s.next cfg ev).single.phase t ≠ .owner k a .inserted := by
    rcases single_cases cfg s ev with heq | ⟨u, p, f, p', hp, hm, heq⟩
    · rw [heq]
      exact ⟨h.alloc, h.entered⟩
    · rw [heq]
      refine ⟨h.alloc.trans_le hm.next_le, fun t k ht => ?_⟩
      have ht : Function.update s.single.phase u p' t = .owner k a .inserted := ht
      by_cases htu : t = u
      · subst htu
        rw [Function.update_self] at ht
        subst ht
        exact absurd hm.of_inserted h.alloc.ne
      · rw [Function.update_of_ne htu] at ht
        exact h.entered t k ht
  refine ⟨hsingle.1, hsingle.2, ?_⟩
  rintro t stage ⟨l, res, attempt, k, hpc⟩
  rcases executing_next hpc with ⟨-, hold⟩ | ⟨rfl, ⟨hins, -⟩ | ⟨st, hst, hm⟩⟩
  · exact h.loaded t stage ⟨l, res, attempt, k, hold⟩
  · exact absurd (single_phase hins) (h.entered t k)
  · have hcarries := h.loaded t st ⟨l, res, attempt, k, hst⟩
    generalize (s.next cfg (.step t)).engine = engine' at hm
    cases hm with
    | load => exact hcarries.elim
    | insert => trivial
    | _ => exact hcarries

theorem Loads.begun (h : Loads t a (run cfg engine evs) ev) :
    (run cfg engine (evs ++ [ev])).Begun a (run cfg engine evs).engine.cacheGeneration := by
  obtain ⟨rfl, l, res, attempt, k, hpc⟩ := h
  have hinv : (run cfg engine (evs ++ [.step t])).single.Inv := single_inv engine _
  have ht : (run cfg engine (evs ++ [.step t])).pc t = .flight l res attempt
      (.owner k a (.executing (.loaded (run cfg engine evs).engine.cacheGeneration))) := by
    rw [run, after_concat, next, move_pc, if_pos rfl, hpc]
    rfl
  have hphase : (run cfg engine (evs ++ [.step t])).single.phase t =
      .owner k a (.executing (.loaded (run cfg engine evs).engine.cacheGeneration)) :=
    single_phase ht
  refine ⟨hinv.alloc hphase, fun u k' hu => ?_, fun u stage hc => ?_⟩
  · obtain rfl := hinv.one u t k' k a _ _ hu hphase
    rw [hphase] at hu
    cases hu
  · obtain ⟨k', hu⟩ := hc.owner
    obtain rfl := hinv.one u t k' k a _ _ hu hphase
    rw [hphase] at hu
    cases hu
    rfl

/-! ## No stale capture is published -/

/-- Some capture inserts its entry though `cache_generation` was incremented since it loaded it. -/
def Overtaken (cfg : Config Exec) (engine : State Exec) (evs : List ThreadEvent) : Prop :=
  ∃ t a e pre ev mid roll mid' ev' post, evs = pre ++ ev :: mid ++ roll :: mid' ++ ev' :: post ∧
    Loads t a (run cfg engine pre) ev ∧ (run cfg engine (pre ++ ev :: mid)).Rolls roll ∧
    Inserts t a e (run cfg engine (pre ++ ev :: mid ++ roll :: mid')) ev'

/-- On a run on which no increment of `cache_generation` comes between a check and its insert, no
capture publishes that an increment overtook. -/
theorem stale_capture_rejected (engine : State Exec) (evs : List ThreadEvent)
    (hu : Throughout (next cfg) { engine } Undisturbed evs) : ¬ Overtaken cfg engine evs := by
  rintro ⟨t, a, e, pre, ev, mid, roll, mid', ev', post, rfl, hload, hroll, -, gen, hinsert⟩
  have hle : ∀ xs ys, Throughout (next cfg) { engine } Undisturbed (xs ++ ys) →
      (run cfg engine xs).engine.cacheGeneration.toNat ≤
        (run cfg engine (xs ++ ys)).engine.cacheGeneration.toNat := fun xs ys h =>
    Throughout.le (f := fun s => s.engine.cacheGeneration.toNat)
      (h.imp fun s ev hs => cacheGeneration_le hs)
  have hinserted : Throughout (next cfg) { engine } Undisturbed
      (pre ++ ev :: mid ++ roll :: mid') := hu.of_append
  -- the capture still carries the generation it loaded, and it is the present one
  have hgen : (run cfg engine pre).engine.cacheGeneration =
      (run cfg engine (pre ++ ev :: mid ++ roll :: mid')).engine.cacheGeneration := by
    have hbegun : (run cfg engine (pre ++ [ev] ++ (mid ++ roll :: mid'))).Begun a
        (run cfg engine pre).engine.cacheGeneration :=
      after_keeps (fun pre e post _ h => h.next) hload.begun
    rw [show pre ++ [ev] ++ (mid ++ roll :: mid') = pre ++ ev :: mid ++ roll :: mid' by simp]
      at hbegun
    have hcarries : gen = _ := hbegun.loaded t _ hinsert
    exact hcarries ▸ checked_run _ hinserted t a gen e hinsert
  have hbefore := hle pre (ev :: mid) hinserted.of_append
  have hsplit : pre ++ ev :: mid ++ [roll] ++ mid' = pre ++ ev :: mid ++ roll :: mid' := by simp
  have hafter := hle (pre ++ ev :: mid ++ [roll]) mid' (hsplit ▸ hinserted)
  have hlt := (hinserted (pre ++ ev :: mid) roll mid' rfl hroll).2
  rw [hsplit, ← hgen, run, after_concat, cacheGeneration_roll hroll] at hafter
  exact absurd (hafter.trans hbefore) (not_le.mpr (UInt64.lt_iff_toNat_lt.mp hlt))

/-- The threads of which no event speaks need no check. -/
theorem undisturbed_of_mem (ts : List ℕ) (hts : ∀ ev ∈ evs, ev.thread ∈ ts)
    (h : Throughout (next cfg) { engine } (fun s ev => s.Rolls ev →
      (∀ t ∈ ts, (s.pc t).checked = false) ∧
        s.engine.cacheGeneration < s.engine.cacheGeneration + 1) evs) :
    Throughout (next cfg) { engine } Undisturbed evs := by
  intro pre ev post hsplit hroll
  obtain ⟨hchecked, hwrap⟩ := h pre ev post hsplit hroll
  refine ⟨fun t => ?_, hwrap⟩
  by_cases ht : t ∈ ts
  · exact hchecked t ht
  · have hidle : (run cfg engine pre).pc t = .idle := pc_idle engine pre fun ev' hev' heq =>
      ht (heq ▸ hts ev' (by simp [hsplit, hev']))
    rw [hidle]
    rfl

set_option maxRecDepth 100000 in
/-- Thread 0 captured, then thread 1 invalidates everything, and thread 0 captures again : no
increment comes between a check and its insert. -/
theorem stale_capture_rejected_again :
    ¬ Overtaken (.cpu (.insertion _) .unit) (.fresh none) (.lookup 0 blankCall :: steps 0 20 ++
      .invalidate 1 { scope := .byAll } :: steps 1 4 ++ .lookup 0 blankCall :: steps 0 20) :=
  stale_capture_rejected _ _ (undisturbed_of_mem [0, 1] (by decide) (by decide +kernel))

set_option maxRecDepth 100000 in
/-- Thread 0 captures and passes its check; thread 1 begins to invalidate everything, and
increments `cache_generation`; thread 0 inserts its entry. -/
theorem stale_capture_published :
    Overtaken (.cpu (.insertion _) .unit) (.fresh none) (.lookup 0 blankCall :: steps 0 10 ++
      [.invalidate 1 { scope := .byAll }, .step 1, .step 0]) :=
  ⟨0, 0, _, .lookup 0 blankCall :: steps 0 5, .step 0, steps 0 4 ++ [.invalidate 1 { scope := .byAll }],
    .step 1, [], .step 0, [], rfl, ⟨rfl, _, _, _, _, rfl⟩, by decide +kernel,
    rfl, _, _, _, _, _, rfl⟩

end Threads

end GraphCache
