import GraphCache.Invalidation
import GraphCache.Records

/-!
# Invalidation across a restart

An invalidation marks entries in memory; the record of an entry keeps the flag it was written
with. So a restart brings an invalidated entry back unless its artifact id was written again : by
`persist_all`, or by a capture that takes the id over. An entry is identified across a restart by
its artifact id and generation.

`invalidation_survives_restart` : in a run in which each marked entry with a live record is written
again before the restart. `invalidation_lost` : a capture, an invalidation and a restart.
-/

namespace GraphCache

variable {Exec : Type} {cfg : Config Exec}

/-! ## Records and entries -/

/-- The record under `id` reads back as an entry of generation `gen` that is not invalidated. -/
def LiveRecord (s : State Exec) (id : GraphArtifactId) (gen : GraphGeneration) : Prop :=
  ∃ payload, s.record id = some payload ∧ ∃ e : CacheEntry Exec,
    decodeEntryPayload payload = some e ∧ e.invalidated = false ∧ e.generation = gen

/-- Every record that decodes is filed under its own artifact id. -/
def WellFiled (s : State Exec) : Prop :=
  ∀ id payload, s.record id = some payload → ∀ e : CacheEntry Exec,
    decodeEntryPayload payload = some e → e.artifactId = id

/-- No invalidated entry has the artifact id and the generation of `e`. -/
def PairUnused (r : Registry Exec) (e : CacheEntry Exec) : Prop :=
  e.invalidated = false → ∀ a < r.next, (r.heap a).invalidated = true →
    ¬((r.heap a).artifactId = e.artifactId ∧ (r.heap a).generation = e.generation)

/-- The entry that `by_artifact` names, if valid, shares its generation with no invalidated entry
of the same id. -/
def Registry.Distinct (r : Registry Exec) : Prop :=
  ∀ a < r.next, r.Named a → PairUnused r (r.heap a)

theorem Registry.Distinct.set {M : ℕ → Prop} {r : Registry Exec} (h : r.Distinct) {a : ℕ}
    {e : CacheEntry Exec} (he : Edit cfg (M a) (r.heap a) e) (hM : ∀ b, M b → r.Named b) :
    (r.set a e).Distinct := by
  intro b hb hnamed hvalid c hc hinv ⟨hid, hgen⟩
  obtain ⟨hsb, hlb, -⟩ := he.set_spec b
  obtain ⟨hsc, -, huc⟩ := he.set_spec c
  rw [hsb.artifactId, hsc.artifactId] at hid
  rw [hsb.generation, hsc.generation] at hgen
  have hnb := (he.named_iff b).mp hnamed
  by_cases hcM : M c
  · -- a marked entry is named, so it is `b` itself
    have hnc := hM c hcM
    rw [Registry.Named, hid, hnb, Option.some.injEq] at hnc
    rw [hnc, hinv] at hvalid
    cases hvalid
  · exact h b hb hnb (hlb hvalid) c hc (huc hcM ▸ hinv) ⟨hid, hgen⟩

theorem Registry.Distinct.register {r : Registry Exec} (h : r.Distinct) {e : CacheEntry Exec}
    (he : PairUnused r e) : (r.register e).Distinct := by
  intro b hb hnamed hvalid c hc hinv hpair
  rcases Nat.lt_succ_iff_lt_or_eq.mp hb with hb | rfl
  · -- an older entry that is still named has another id
    rw [Registry.Named, register_heap_of_lt r e hb] at hnamed
    rw [register_heap_of_lt r e hb] at hvalid hpair
    have hne : (r.heap b).artifactId ≠ e.artifactId := by
      intro heq
      rw [heq, register_artifact_self, Option.some.injEq] at hnamed
      omega
    rw [register_artifact_of_ne r e hne] at hnamed
    rcases Nat.lt_succ_iff_lt_or_eq.mp hc with hc | rfl
    · rw [register_heap_of_lt r e hc] at hinv hpair
      exact h b hb hnamed hvalid c hc hinv hpair
    · rw [register_heap_self] at hpair
      exact hne hpair.1.symm
  · rw [register_heap_self] at hvalid hpair
    rcases Nat.lt_succ_iff_lt_or_eq.mp hc with hc | rfl
    · rw [register_heap_of_lt r e hc] at hinv hpair
      exact he hvalid c hc hinv hpair
    · rw [register_heap_self, hvalid] at hinv
      cases hinv

/-! ## The condition -/

/-- Some operation of `ops`, run from `s`, writes under `id`. -/
def Rewritten (cfg : Config Exec) (s : State Exec) (ops : List (Op Exec)) (id : GraphArtifactId) :
    Prop :=
  ∃ pre op post, ops = pre ++ op :: post ∧ Writes cfg (run cfg s pre) op id

/-- Each entry that an invalidation marks while its record is live is written again; no
registration reuses the artifact id and generation of an invalidated entry; what is written fits
a payload. -/
def RestartSafe (cfg : Config Exec) (s : State Exec) : List (Op Exec) → Prop
  | [] => True
  | op :: ops =>
    (∀ a, Marks s op a → (s.heap a).invalidated = false →
      LiveRecord s (s.heap a).artifactId (s.heap a).generation →
        Rewritten cfg (step cfg s op) ops (s.heap a).artifactId) ∧
    (∀ r e, Registers cfg s op r e → PairUnused r e) ∧
    (∀ e, Puts cfg s op e → e.Writable) ∧
    RestartSafe cfg (step cfg s op) ops

/-- What holds between two operations, with `ops` still to come. -/
structure RestartInv (cfg : Config Exec) (s : State Exec) (ops : List (Op Exec)) : Prop where
  indexed : s.toRegistry.Indexed
  distinct : s.toRegistry.Distinct
  filed : WellFiled s
  settled : ∀ a < s.next, (s.heap a).invalidated = true →
    LiveRecord s (s.heap a).artifactId (s.heap a).generation →
      Rewritten cfg s ops (s.heap a).artifactId

/-! ## One operation -/

theorem Marks.named {s : State Exec} (hi : s.toRegistry.Indexed) {op : Op Exec} {a : ℕ}
    (h : Marks s op a) : s.toRegistry.Named a := by
  cases op with
  | invalidate req =>
    have hmem : a ∈ s.artifacts := by
      simp only [Marks, invalidationTargets] at h
      split_ifs at h
      · exact mem_artifacts.mpr ⟨_, by simpa using h⟩
      · exact List.mem_of_mem_filter h
    obtain ⟨id, hid⟩ := mem_artifacts.mp hmem
    rw [Registry.Named, (hi.artifact id a hid).2]
    exact hid
  | _ => exact h.elim

/-- A `persist_all` that succeeds after an invalidation writes again what was marked. -/
theorem writes_after_invalidate {s : State Exec} (hi : s.toRegistry.Indexed)
    (hs : s.store.isSome = true) {req : InvalidationRequest} {a : ℕ}
    (hm : Marks s (.invalidate req) a) (order : IterationOrder ℕ) :
    Writes cfg (step cfg s (.invalidate req)) (.persistAll order fun _ => true)
      (s.heap a).artifactId := by
  refine ⟨by rw [step, invalidate_store, hs], fun _ => rfl, a, ?_⟩
  exact (invalidate_edits s req).invariant (I := fun r => r.artifact (s.heap a).artifactId = some a)
    (hm.named hi) (fun _ _ _ h _ => h) (fun _ _ _ h => h.elim)

theorem Registers.not_marks {s : State Exec} {op : Op Exec} {r : Registry Exec}
    {e : CacheEntry Exec} (h : Registers cfg s op r e) (a : ℕ) : ¬Marks s op a := by
  cases op with
  | lookup req env => exact id
  | recover listing => exact id
  | _ => exact h.elim

theorem Puts.not_marks {s : State Exec} {op : Op Exec} {e : CacheEntry Exec}
    (h : Puts cfg s op e) (a : ℕ) : ¬Marks s op a := by
  cases op with
  | lookup req env => exact id
  | persistAll order putOk => exact id
  | _ => exact h.elim

theorem distinct_step {s : State Exec} {op : Op Exec} (hi : s.toRegistry.Indexed)
    (hd : s.toRegistry.Distinct) (hreg : ∀ r e, Registers cfg s op r e → PairUnused r e) :
    (step cfg s op).toRegistry.Distinct := by
  have h := (step_evolves cfg s op).invariant
    (I := fun r => r.Distinct ∧ ∀ b, Marks s op b → r.Named b)
    ⟨hd, fun b hb => hb.named hi⟩ ?_ ?_
  · exact h.1
  · intro r a e ⟨hr, hm⟩ he
    exact ⟨hr.set he hm, fun b hb => (he.named_iff b).mpr (hm b hb)⟩
  · intro r e ⟨hr, hm⟩ he
    exact ⟨hr.register (hreg r e he), fun b hb => absurd hb (he.not_marks b)⟩

theorem filed_step {s : State Exec} {op : Op Exec} (hf : WellFiled s)
    (hw : ∀ e, Puts cfg s op e → e.Writable) : WellFiled (step cfg s op) := by
  intro id payload hrec e he
  rcases step_record cfg s op id with h | ⟨x, hput, hid, h⟩
  · exact hf id payload (h ▸ hrec) e he
  · obtain rfl : encodeEntryPayload x = payload := Option.some.inj (h.symm.trans hrec)
    rw [(decode_written (hw x hput) he).1, hid]

/-- What an operation writes is not the record of an entry invalidated before. -/
theorem not_liveRecord_of_puts {s s' : State Exec} {op : Op Exec} (hi : s.toRegistry.Indexed)
    (hd : s.toRegistry.Distinct) (hreg : ∀ r e, Registers cfg s op r e → PairUnused r e)
    (hw : ∀ e, Puts cfg s op e → e.Writable) {x : CacheEntry Exec} (hput : Puts cfg s op x)
    {a : ℕ} (ha : a < s.next) (hinv : (s.heap a).invalidated = true)
    (hid : x.artifactId = (s.heap a).artifactId)
    (hrec : s'.record (s.heap a).artifactId = some (encodeEntryPayload x)) :
    ¬LiveRecord s' (s.heap a).artifactId (s.heap a).generation := by
  rintro ⟨payload, hp, e, he, hlive, hgen⟩
  obtain rfl : encodeEntryPayload x = payload := Option.some.inj (hrec.symm.trans hp)
  obtain ⟨-, hxgen, hxinv⟩ := decode_written (hw x hput) he
  rw [hxinv] at hlive
  rw [hxgen] at hgen
  cases op with
  | lookup req env =>
    exact hreg s.toRegistry x ⟨rfl, hput.2⟩ hlive a ha hinv ⟨hid.symm, hgen.symm⟩
  | persistAll order putOk =>
    obtain ⟨b, hb, rfl, -⟩ := hput
    obtain ⟨id, hb⟩ := mem_artifacts.mp hb
    obtain ⟨hlt, rfl⟩ := hi.artifact id b hb
    exact hd b hlt hb hlive a ha hinv ⟨hid.symm, hgen.symm⟩
  | _ => exact hput.elim

theorem RestartInv.advance {s : State Exec} {op : Op Exec} {ops : List (Op Exec)}
    (h : RestartInv cfg s (op :: ops)) (hs : RestartSafe cfg s (op :: ops)) :
    RestartInv cfg (step cfg s op) ops := by
  obtain ⟨hmark, hreg, hw, -⟩ := hs
  refine ⟨indexed_step _ h.indexed op, distinct_step h.indexed h.distinct hreg,
    filed_step h.filed hw, fun a ha hinv hlive => ?_⟩
  · rcases step_origin cfg s op a ha with ⟨hlt, hsame, horig⟩ | ⟨r, x, hx, -, hsame, horig⟩
    · rw [hsame.artifactId] at hlive ⊢
      rw [hsame.generation] at hlive
      rcases step_record cfg s op (s.heap a).artifactId with hrec | ⟨x, hput, hid, hrec⟩
      · -- the record is the old one : it is written later, or it was just marked
        have hold : LiveRecord s (s.heap a).artifactId (s.heap a).generation := by
          obtain ⟨payload, hp, hrest⟩ := hlive
          exact ⟨payload, hrec ▸ hp, hrest⟩
        by_cases hbefore : (s.heap a).invalidated = true
        · obtain ⟨pre, op', post, heq, hwrites⟩ := h.settled a hlt hbefore hold
          cases pre with
          | nil =>
            obtain ⟨rfl, rfl⟩ : op = op' ∧ ops = post := by simpa using heq
            obtain ⟨x, hput, hid, hrec'⟩ := record_of_writes h.indexed hwrites
            exact absurd hlive
              (not_liveRecord_of_puts h.indexed h.distinct hreg hw hput hlt hbefore hid hrec')
          | cons op'' pre =>
            obtain ⟨rfl, rfl⟩ : op = op'' ∧ ops = pre ++ op' :: post := by simpa using heq
            exact ⟨pre, op', post, rfl, hwrites⟩
        · have hm := (horig hinv).resolve_left hbefore
          exact hmark a hm ((Bool.not_eq_true _).mp hbefore) hold
      · have hbefore := (horig hinv).resolve_right (hput.not_marks a)
        exact absurd hlive
          (not_liveRecord_of_puts h.indexed h.distinct hreg hw hput hlt hbefore hid hrec)
    · -- a registered entry is invalidated only if its record is
      have hxinv := (horig hinv).resolve_right (hx.not_marks a)
      cases op with
      | lookup req env =>
        obtain ⟨-, -, -, -, hcap⟩ := hx
        obtain ⟨g, exec, -, -, rfl⟩ := captureEntry_ok hcap
        simp [capturedEntry] at hxinv
      | recover listing =>
        obtain ⟨store, pre, id, post, hstore, -, -, hload⟩ := hx
        obtain ⟨payload, hlook, -, hdec⟩ := loadEntry_lookup hload
        have hrec : s.record id = some payload := by simpa [State.record, hstore] using hlook
        obtain rfl := h.filed id payload hrec x hdec
        obtain ⟨payload', hp, e, he, hvalid, -⟩ := hlive
        rw [hsame.artifactId, State.record, step, recover_store] at hp
        obtain rfl : payload = payload' := Option.some.inj (hrec.symm.trans hp)
        obtain rfl : x = e := Option.some.inj (hdec.symm.trans he)
        simp [hxinv] at hvalid
      | _ => exact hx.elim

theorem RestartInv.finish : ∀ {ops : List (Op Exec)} {s : State Exec}, RestartInv cfg s ops →
    RestartSafe cfg s ops → RestartInv cfg (run cfg s ops) []
  | [], _, h, _ => h
  | _ :: _, _, h, hs => (h.advance hs).finish hs.2.2.2

/-! ## The restart -/

/-- An operation that may register an entry. -/
def Op.Registering : Op Exec → Prop
  | .lookup req _ => req.allowCapture = true
  | .recover _ => True
  | _ => False

/-- After a restart on the directory of `s`, a recovery and operations that register nothing : no
lookup without capture leases the artifact id and generation of an entry invalidated in `s`. -/
def SurvivesRestart (cfg : Config Exec) (s : State Exec) : Prop :=
  ∀ listing later req env l, (∀ op ∈ later, ¬Op.Registering op) → req.allowCapture = false →
    (lookup cfg (run cfg (recover (.fresh s.store) listing).1 later) req env).2.lease = some l →
    ∀ a < s.next, (s.heap a).invalidated = true →
      ¬(l.artifactId = (s.heap a).artifactId ∧ l.generation = (s.heap a).generation)

theorem not_registers_of_not_registering {s : State Exec} {op : Op Exec} (h : ¬op.Registering)
    (r : Registry Exec) (e : CacheEntry Exec) : ¬Registers cfg s op r e := by
  cases op with
  | lookup req env => exact fun hr => h hr.2.1
  | recover listing => exact absurd trivial h
  | _ => exact id

/-- The entry stands for a record of the directory of `s`, and is valid only if the record is. -/
def FromRecord (s : State Exec) (e : CacheEntry Exec) : Prop :=
  ∃ id payload, s.record id = some payload ∧ ∃ x : CacheEntry Exec,
    decodeEntryPayload payload = some x ∧ x.Same e ∧ (e.invalidated = false → x.invalidated = false)

theorem FromRecord.edit {marks : Prop} {s : State Exec} {e e' : CacheEntry Exec}
    (h : FromRecord s e) (he : Edit cfg marks e e') : FromRecord s e' := by
  obtain ⟨id, payload, hrec, x, hx, hsame, hvalid⟩ := h
  obtain ⟨hs, ⟨hi, -⟩ | ⟨-, hi, -⟩⟩ := he.spec
  · exact ⟨id, payload, hrec, x, hx, hsame.trans hs, fun hf => hvalid (hi ▸ hf)⟩
  · exact ⟨id, payload, hrec, x, hx, hsame.trans hs, fun hf => by simp [hi] at hf⟩

theorem fromRecord_recover (s : State Exec) (listing : IterationOrder GraphArtifactId) :
    ∀ a < (recover (State.fresh s.store : State Exec) listing).1.next,
      FromRecord s ((recover (State.fresh s.store : State Exec) listing).1.heap a) := by
  intro a ha
  cases hs : s.store with
  | none => simp [hs, State.fresh, recover] at ha
  | some store =>
    rw [hs] at ha
    obtain ⟨id, hload⟩ := recovered_entry ha
    obtain ⟨payload, hlook, -, hdec⟩ := loadEntry_lookup hload
    exact ⟨id, payload, by simpa [State.record, hs] using hlook, _, hdec, .refl _, fun h => h⟩

theorem fromRecord_later {s : State Exec} : ∀ {later : List (Op Exec)} {t : State Exec},
    (∀ op ∈ later, ¬Op.Registering op) → (∀ a < t.next, FromRecord s (t.heap a)) →
      ∀ a < (run cfg t later).next, FromRecord s ((run cfg t later).heap a)
  | [], _, _, h => h
  | op :: later, t, hops, h => by
    refine fromRecord_later (t := step cfg t op) (fun op' h' => hops op' (by simp [h'])) ?_
    refine (step_evolves cfg t op).invariant
      (I := fun r => ∀ a < r.next, FromRecord s (r.heap a)) h ?_ ?_
    · intro r a e hr he b hb
      by_cases hba : b = a
      · subst hba
        rw [set_heap_self]
        exact (hr b hb).edit he
      · rw [set_heap_of_ne r e hba]
        exact hr b hb
    · exact fun r e _ hp => absurd hp (not_registers_of_not_registering (hops op (by simp)) r e)

theorem RestartInv.survives {s : State Exec} (h : RestartInv cfg s []) : SurvivesRestart cfg s := by
  intro listing later req env l hlater hreq hl a ha hinv ⟨hid, hgen⟩
  set t := run cfg (recover (.fresh s.store) listing).1 later with ht
  obtain ⟨s₁, hbase, -, -, hlease⟩ := lookup_spec cfg t req env
  obtain ⟨r', hhit⟩ := hlease l hl
  obtain ⟨⟨hmem, ⟨hsel, -, -⟩, -⟩, -⟩ := scan_chosen hhit.chosen
  cases hbase with
  | captured e hc => simp [hc.1] at hreq
  | found hn hr hk =>
    rw [hr] at hmem hsel
    have hti : t.toRegistry.Indexed :=
      indexed_run _ (indexed_step cfg (indexed_fresh s.store) (.recover listing)) later
    have hlt := (hti.bucket _ _ hmem).1
    obtain ⟨id, payload, hrec, x, hx, hsame, hvalid⟩ :=
      fromRecord_later hlater (fromRecord_recover s listing) l.entry hlt
    have hedit := (hhit.edits.same l.entry).1
    rw [hr] at hedit
    have hxid : x.artifactId = (s.heap a).artifactId := by
      rw [← hid, hhit.artifactId, hedit.artifactId, hsame.artifactId]
    have hxgen : x.generation = (s.heap a).generation := by
      rw [← hgen, hhit.generation, hedit.generation, hsame.generation]
    obtain rfl := h.filed id payload hrec x hx
    obtain ⟨pre, op, post, heq, -⟩ := h.settled a ha hinv
      ⟨payload, hxid ▸ hrec, x, hx, hvalid hsel.1, hxgen⟩
    simp at heq

/-- Invalidations survive a restart after every run that writes again what it marks. -/
theorem invalidation_survives_restart (cfg : Config Exec) (store : Store) (ops : List (Op Exec))
    (hfiled : WellFiled (State.fresh (some store) : State Exec))
    (hsafe : RestartSafe cfg (.fresh (some store)) ops) :
    SurvivesRestart cfg (run cfg (.fresh (some store)) ops) := by
  have hstart : RestartInv cfg (.fresh (some store)) ops := by
    refine ⟨indexed_fresh _, ?_, hfiled, ?_⟩
    · intro a ha
      simp [State.fresh] at ha
    · intro a ha
      simp [State.fresh] at ha
  exact (hstart.finish hsafe).survives

theorem writable_of_ok {r : Result (CacheEntry Exec)} {e : CacheEntry Exec} (h : r = .ok e)
    (hall : (r.toOption.all fun e => decide e.Writable) = true) : e.Writable := by
  simpa [h, Except.toOption] using hall

set_option maxRecDepth 100000 in
theorem invalidation_survives_restart_persisted :
    SurvivesRestart (.cpu (.insertion _) .unit) (run (.cpu (.insertion _) .unit) (.fresh (some ∅))
      [.lookup (blankRequest "a" true) {}, .invalidate { scope := .byAll },
        .persistAll (.insertion _) fun _ => true]) := by
  have hfiled : WellFiled (State.fresh (some ∅) : State CpuGraph) := by
    intro id payload h
    simp [State.fresh, State.record] at h
  have hrun :
      ((captureEntry (.cpu (.insertion _) .unit) 1 1 (blankRequest "a" true) 1 0).toOption.all
        fun e => decide e.Writable) = true ∧
      (step (.cpu (.insertion _) .unit) (.fresh (some ∅))
        (.lookup (blankRequest "a" true) {})).store.isSome = true ∧
      ∀ a ∈ (step (.cpu (.insertion _) .unit) (step (.cpu (.insertion _) .unit) (.fresh (some ∅))
          (.lookup (blankRequest "a" true) {})) (.invalidate { scope := .byAll })).artifacts,
        ((step (.cpu (.insertion _) .unit) (step (.cpu (.insertion _) .unit) (.fresh (some ∅))
          (.lookup (blankRequest "a" true) {})) (.invalidate { scope := .byAll })).heap
            a).Writable := by
    decide +kernel
  obtain ⟨hcaptured, hstore, hlisted⟩ := hrun
  refine invalidation_survives_restart _ ∅ _ hfiled ⟨fun _ h => h.elim, ?_, ?_, ?_,
    fun _ _ h => h.elim, fun _ h => h.elim, fun _ h => h.elim, fun _ _ h => h.elim, ?_, trivial⟩
  · rintro r e ⟨rfl, -⟩ - a ha
    simp [State.fresh] at ha
  · rintro e ⟨-, -, -, -, hcap⟩
    exact writable_of_ok hcap hcaptured
  · intro a hm _ _
    refine ⟨[], _, [], rfl, ?_⟩
    simp only [run, List.foldl_nil]
    exact writes_after_invalidate (indexed_step _ (indexed_fresh _) _) hstore hm _
  · rintro e ⟨a, ha, he, -⟩
    rw [he]
    exact hlisted a ha

/-- A lease that refutes survival. -/
theorem not_survivesRestart {s : State Exec} (a : ℕ) (listing : IterationOrder GraphArtifactId)
    (req : GraphLookupRequest) (env : LookupEnv) (hreq : req.allowCapture = false)
    (h : a < s.next ∧ (s.heap a).invalidated = true ∧
      (lookup cfg (recover (.fresh s.store) listing).1 req env).2.lease.map
        (fun l => (l.artifactId, l.generation)) =
          some ((s.heap a).artifactId, (s.heap a).generation)) : ¬SurvivesRestart cfg s := by
  intro hs
  obtain ⟨ha, hinv, hlease⟩ := h
  obtain ⟨l, hl, hpair⟩ := Option.map_eq_some_iff.mp hlease
  exact hs listing [] req env l (by simp) hreq hl a ha hinv (Prod.mk.inj hpair)

set_option maxRecDepth 100000 in
/-- A capture, an invalidation of everything and a restart : the record written by the capture
brings the entry back. -/
theorem invalidation_lost :
    ¬SurvivesRestart (.cpu (.insertion _) .unit) (run (.cpu (.insertion _) .unit) (.fresh (some ∅))
      [.lookup (blankRequest "a" true) {}, .invalidate { scope := .byAll }]) :=
  not_survivesRestart 0 (.insertion _) (blankRequest "a" false) {} rfl (by decide +kernel)

end GraphCache
