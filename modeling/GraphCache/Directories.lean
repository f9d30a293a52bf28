import GraphCache.History
import GraphCache.Records

/-!
# Directories that the engine wrote

`Written` : the directories that runs of the engine leave. A record is filed under the artifact id
of the entry it decodes to (`filed_of_written`), so the records of one recovery do not displace
each other in `by_artifact` (`mem_artifacts_recover`), and the bound that `recover` computes from
there is above every entry it loads. Entries that captures or recoveries displaced are below the
counter already : `generation_fresh`.
-/

namespace GraphCache

open History

variable {Exec : Type} {cfg : Config Exec}

variable (Exec) in
/-- The directories that runs of the engine leave, one after the other. -/
inductive Written : Store → Prop
  | empty : Written ∅
  | run {store store' : Store} (cfg : Config Exec) (ops : List (Op Exec)) (h : Written store)
    (hs : (run cfg (.fresh (some store)) ops).store = some store') : Written store'

/-- Every record that is read back is of the artifact id that it is filed under. -/
def State.Filed (s : State Exec) : Prop :=
  ∀ store, s.store = some store → ∀ id, ∀ e : CacheEntry Exec, loadEntry store id = some e →
    e.artifactId = id

theorem State.Filed.step {s : State Exec} (h : s.Filed) (op : Op Exec) : (step cfg s op).Filed := by
  intro store hs id e hload
  obtain ⟨payload, hlook, hfits, hdec⟩ := loadEntry_lookup hload
  have hrec : (GraphCache.step cfg s op).record id = some payload := by
    simpa [State.record, hs] using hlook
  rcases step_record cfg s op id with hold | ⟨x, -, rfl, hnew⟩
  · obtain ⟨store₀, hs₀, hlook₀⟩ := Option.bind_eq_some_iff.mp (hold.symm.trans hrec)
    refine h store₀ hs₀ id e (Option.bind_eq_some_iff.mpr ⟨payload, ?_, hdec⟩)
    exact Option.filter_eq_some_iff.mpr ⟨hlook₀, envelopeFits_iff.mpr hfits⟩
  · obtain rfl : encodeEntryPayload x = payload := Option.some.inj (hnew.symm.trans hrec)
    exact (decode_written hfits hdec).1

theorem State.Filed.run {s : State Exec} (h : s.Filed) :
    ∀ ops : List (Op Exec), (run cfg s ops).Filed := by
  intro ops
  induction ops generalizing s with
  | nil => exact h
  | cons op ops ih => exact ih (h.step op)

theorem filed_of_written {store : Store} (h : Written Exec store) :
    (State.fresh (some store) : State Exec).Filed := by
  induction h with
  | empty =>
    rintro store hs id e hload
    obtain rfl : ∅ = store := Option.some.inj hs
    obtain ⟨payload, hlook, -⟩ := loadEntry_lookup hload
    simp at hlook
  | run cfg ops _ hs ih =>
    rintro store hs' id e hload
    obtain rfl := Option.some.inj hs'
    exact (ih.run ops) _ hs id e hload

/-! ## One recovery -/

/-- Entries of different artifact ids, registered in turn, are all named at the end. -/
theorem named_foldl_register (r : Registry Exec) {es : List (CacheEntry Exec)}
    (hd : es.Pairwise fun e e' => e.artifactId ≠ e'.artifactId) {e : CacheEntry Exec}
    (he : e ∈ es) : ∃ a < (es.foldl Registry.register r).next,
      (es.foldl Registry.register r).artifact e.artifactId = some a ∧
        (es.foldl Registry.register r).heap a = e := by
  induction es using List.reverseRecOn with
  | nil => cases he
  | append_singleton es x ih =>
    obtain ⟨hd, -, hx⟩ := List.pairwise_append.mp hd
    rw [List.foldl_append, List.foldl_cons, List.foldl_nil]
    rcases List.mem_append.mp he with he | he
    · obtain ⟨a, ha, hart, hheap⟩ := ih hd he
      refine ⟨a, Nat.lt_succ_of_lt ha, ?_, ?_⟩
      · rw [register_artifact_of_ne _ _ (hx e he x (by simp))]
        exact hart
      · rw [register_heap_of_lt _ _ ha]
        exact hheap
    · obtain rfl := List.mem_singleton.mp he
      exact ⟨_, Nat.lt_succ_self _, register_artifact_self _ _, register_heap_self _ _⟩

/-- Each entry that a recovery loads is one that `by_artifact` names at the end. -/
theorem mem_artifacts_recover {s : State Exec} (hf : s.Filed) {store : Store}
    (hs : s.store = some store) (listing : IterationOrder GraphArtifactId) {id : GraphArtifactId}
    {e : CacheEntry Exec} (hid : id ∈ listing.arrange store.keys)
    (hload : loadEntry store id = some e) :
    ∃ a ∈ (recover s listing).1.artifacts, (recover s listing).1.heap a = e := by
  have hd : ((listing.arrange store.keys).filterMap (loadEntry store)).Pairwise
      fun e e' : CacheEntry Exec => e.artifactId ≠ e'.artifactId := by
    refine List.pairwise_filterMap.mpr ?_
    have hnodup : (listing.arrange store.keys).Nodup :=
      (listing.perm _).nodup_iff.mpr store.nodupKeys
    refine hnodup.imp ?_
    rintro i j hij x hx y hy heq
    exact hij (((hf store hs i x hx).symm.trans heq).trans (hf store hs j y hy))
  obtain ⟨a, -, hart, hheap⟩ :=
    named_foldl_register s.toRegistry hd (List.mem_filterMap.mpr ⟨id, hid, hload⟩)
  rw [← recover_registry hs listing] at hart hheap
  exact ⟨a, mem_artifacts.mpr ⟨_, hart⟩, hheap⟩

/-- The maximum that a loop of `recover` computes. -/
theorem foldl_max_spec {α : Type} (f : α → UInt64) (l : List α) :
    (∀ a ∈ l, f a ≤ l.foldl (fun m a => if f a > m then f a else m) 0) ∧
      (l.foldl (fun m a => if f a > m then f a else m) 0 = 0 ∨
        ∃ a ∈ l, l.foldl (fun m a => if f a > m then f a else m) 0 = f a) := by
  induction l using List.reverseRecOn with
  | nil => simp
  | append_singleton l b ih =>
    rw [List.foldl_append, List.foldl_cons, List.foldl_nil]
    set m := l.foldl (fun m a => if f a > m then f a else m) 0
    obtain ⟨hle, hmem⟩ := ih
    split_ifs with hb
    · refine ⟨fun a ha => ?_, .inr ⟨b, by simp, rfl⟩⟩
      rcases List.mem_append.mp ha with ha | ha
      · exact UInt64.le_trans (hle a ha) (UInt64.le_of_lt hb)
      · rw [List.mem_singleton.mp ha]
        exact UInt64.le_refl _
    · refine ⟨fun a ha => ?_, ?_⟩
      · rcases List.mem_append.mp ha with ha | ha
        · exact hle a ha
        · rw [List.mem_singleton.mp ha]
          exact UInt64.not_lt.mp hb
      · exact hmem.imp id fun ⟨a, ha, h⟩ => ⟨a, by simp [ha], h⟩

/-! ## The counter -/

/-- No generation of the operation reaches the last 64-bit word : the counter does not wrap, and no
entry of that generation is registered. -/
structure BelowMax (cfg : Config Exec) (s : State Exec) (op : Op Exec) : Prop where
  counter : s.graphGenerationCounter ≤ (step cfg s op).graphGenerationCounter
  registers : ∀ r e, Registers cfg s op r e → e.generation.toNat < 2 ^ 64 - 1

/-- The counter is above the generation of every entry there is. -/
def State.Ahead (s : State Exec) : Prop :=
  ∀ a < s.next, (s.heap a).generation < s.graphGenerationCounter

/-- A lookup draws the generation of what it captures, and moves the counter on. -/
theorem captured_generation {s : State Exec} {req : GraphLookupRequest} {env : LookupEnv}
    {e : CacheEntry Exec} (h : Captures cfg s req env e) :
    e.generation = s.graphGenerationCounter ∧
      (lookup cfg s req env).1.graphGenerationCounter = s.graphGenerationCounter + 1 := by
  obtain ⟨g, x, -, -, rfl⟩ := captureEntry_ok h.2.2.2
  refine ⟨rfl, ?_⟩
  obtain ⟨s₁, hbase, hkeeps, -⟩ := lookup_spec cfg s req env
  cases hbase with
  | found hn => exact absurd h (hn _)
  | captured _ _ _ hg => rw [hkeeps.graphGen, hg]

/-- After a recovery the counter is above every entry that was loaded. -/
theorem lt_recover {s : State Exec} (hi : s.toRegistry.Indexed) (hf : s.Filed) (h : s.Ahead)
    (listing : IterationOrder GraphArtifactId)
    (hmax : ∀ r e, Registers cfg s (.recover listing) r e → e.generation.toNat < 2 ^ 64 - 1)
    {r : Registry Exec} {e : CacheEntry Exec} (he : Registers cfg s (.recover listing) r e) :
    e.generation < (recover s listing).1.graphGenerationCounter := by
  obtain ⟨store, pre, id, post, hs, hlist, -, hload⟩ := id he
  obtain ⟨a, ha, rfl⟩ := mem_artifacts_recover hf hs listing (by simp [hlist]) hload
  set s' := (recover s listing).1 with hs'
  set m := s'.artifacts.foldl
    (fun m a => if (s'.heap a).generation > m then (s'.heap a).generation else m) 0 with hm
  obtain ⟨hle, hmem⟩ := foldl_max_spec (fun a => (s'.heap a).generation) s'.artifacts
  rw [← hm] at hle hmem
  -- the maximum is below the last word
  have hlt : m.toNat < 2 ^ 64 - 1 := by
    rcases hmem with hzero | ⟨b, hb, hgen⟩
    · simp [hzero]
    · obtain ⟨bid, hbid⟩ := mem_artifacts.mp hb
      have hbnext := (((indexed_step cfg hi (.recover listing)).artifact bid b hbid)).1
      rw [hgen]
      rcases step_origin cfg s (.recover listing) b hbnext with
        ⟨hbold, hsame, -⟩ | ⟨r', x, hx, -, hsame, -⟩
      · have hold := UInt64.lt_iff_toNat_lt.mp (h b hbold)
        have hword := s.graphGenerationCounter.toNat_lt
        rw [show (s'.heap b).generation = (s.heap b).generation from hsame.generation]
        omega
      · rw [show (s'.heap b).generation = x.generation from hsame.generation]
        exact hmax r' x hx
  have hcounter : m + 1 ≤ s'.graphGenerationCounter := by
    have hrecover : s'.graphGenerationCounter = if m + 1 > s.graphGenerationCounter then m + 1
        else s.graphGenerationCounter := by
      have hkeeps := (foldl_recoverEntry_keeps store (listing.arrange store.keys) s).graphGen
      rw [hm, hs', recover, hs, ← hkeeps]
    rw [hrecover]
    split_ifs with hgt
    · exact UInt64.le_refl _
    · exact UInt64.not_lt.mp hgt
  have hnext : m.toNat < (m + 1).toNat := by
    rw [UInt64.toNat_add, UInt64.toNat_one]
    omega
  exact UInt64.lt_iff_toNat_lt.mpr ((UInt64.le_iff_toNat_le.mp (hle a ha)).trans_lt
    (hnext.trans_le (UInt64.le_iff_toNat_le.mp hcounter)))

theorem State.Ahead.step {s : State Exec} (hi : s.toRegistry.Indexed) (hf : s.Filed) (h : s.Ahead)
    {op : Op Exec} (hop : BelowMax cfg s op) : (step cfg s op).Ahead := by
  intro a ha
  rcases step_origin cfg s op a ha with ⟨hlt, hsame, -⟩ | ⟨r, e, hreg, -, hsame, -⟩
  · rw [hsame.generation]
    exact UInt64.lt_of_lt_of_le (h a hlt) hop.counter
  · rw [hsame.generation]
    cases op with
    | lookup req env =>
      obtain ⟨hgen, hcount⟩ := captured_generation hreg.2
      have hbelow := hop.registers r e hreg
      rw [hgen] at hbelow ⊢
      rw [show (GraphCache.step cfg s (.lookup req env)).graphGenerationCounter =
        s.graphGenerationCounter + 1 from hcount, UInt64.lt_iff_toNat_lt, UInt64.toNat_add,
        UInt64.toNat_one]
      omega
    | recover listing => exact lt_recover hi hf h listing hop.registers hreg
    | _ => exact hreg.elim

theorem ahead_run {s : State Exec} (hi : s.toRegistry.Indexed) (hf : s.Filed) (h : s.Ahead)
    (ops : List (Op Exec)) (hops : Throughout (step cfg) s (BelowMax cfg) ops) :
    (run cfg s ops).Ahead := by
  induction ops using List.reverseRecOn with
  | nil => exact h
  | append_singleton ops op ih =>
    obtain ⟨hops, hlast⟩ := throughout_concat.mp hops
    rw [run_concat]
    exact (ih hops).step (indexed_run s hi ops) (hf.run ops) hlast

/-- In every run over a directory that the engine wrote, with all generations below 2 ^ 64 - 1, the
counter is above the generation of every entry in an index, and a capture draws a generation that
none of them has. -/
theorem generation_fresh (cfg : Config Exec) (store : Option Store)
    (hstore : ∀ st ∈ store, Written Exec st) (ops : List (Op Exec))
    (hops : Throughout (step cfg) (.fresh store) (BelowMax cfg) ops) (a : ℕ)
    (ha : a ∈ (run cfg (.fresh store) ops).artifacts ∨
      (∃ k, a ∈ (run cfg (.fresh store) ops).byKey k) ∨
      ∃ k, a ∈ (run cfg (.fresh store) ops).byWorkload k) :
    ((run cfg (.fresh store) ops).heap a).generation <
        (run cfg (.fresh store) ops).graphGenerationCounter ∧
      ∀ req env e, Captures cfg (run cfg (.fresh store) ops) req env e →
        e.generation ≠ ((run cfg (.fresh store) ops).heap a).generation := by
  have hfiled : (State.fresh store : State Exec).Filed := by
    cases store with
    | none => exact fun st hst => by cases hst
    | some st => exact filed_of_written (hstore st rfl)
  have hahead := ahead_run (indexed_fresh store) hfiled (fun a ha => by simp [State.fresh] at ha)
    ops hops
  have hi : (run cfg (.fresh store) ops).toRegistry.Indexed := indexed_run _ (indexed_fresh store) ops
  set s := run cfg (.fresh store) ops
  have hlt : a < s.next := by
    rcases ha with ha | ⟨k, ha⟩ | ⟨k, ha⟩
    · obtain ⟨id, hid⟩ := mem_artifacts.mp ha
      exact (hi.artifact id a hid).1
    · exact (hi.key k a ha).1
    · exact (hi.bucket k a ha).1
  refine ⟨hahead a hlt, fun req env e hcap heq => ?_⟩
  have hbelow := hahead a hlt
  rw [← heq, (captured_generation hcap).1] at hbelow
  exact UInt64.lt_irrefl _ hbelow

/-- `BelowMax`, by a look at the counter and at the records of the store. -/
def belowMax (cfg : Config Exec) (s : State Exec) (op : Op Exec) : Bool :=
  decide (s.graphGenerationCounter ≤ (step cfg s op).graphGenerationCounter) &&
    match op with
    | .lookup _ _ => decide (s.graphGenerationCounter.toNat < 2 ^ 64 - 1)
    | .recover _ => s.store.all fun store => store.keys.all fun id =>
        (loadEntry store id : Option (CacheEntry Exec)).all fun e =>
          decide (e.generation.toNat < 2 ^ 64 - 1)
    | _ => true

theorem belowMax_spec {s : State Exec} {op : Op Exec} (h : belowMax cfg s op = true) :
    BelowMax cfg s op := by
  obtain ⟨hcounter, hop⟩ := Bool.and_eq_true_iff.mp h
  refine ⟨of_decide_eq_true hcounter, fun r e hreg => ?_⟩
  cases op with
  | lookup req env =>
    rw [(captured_generation hreg.2).1]
    exact of_decide_eq_true hop
  | recover listing =>
    obtain ⟨store, pre, id, post, hs, hlist, -, hload⟩ := hreg
    have hid : id ∈ store.keys := (listing.perm _).mem_iff.mp (by simp [hlist])
    rw [hs, Option.all_some, List.all_eq_true] at hop
    simpa [hload] using hop id hid
  | _ => exact hreg.elim

/-- A graph is captured and persisted, and the directory is read again. -/
def reloadRun : List (Op CpuGraph) :=
  [.lookup (blankRequest "a" true) {}, .recover (.insertion _)]

set_option maxRecDepth 100000 in
theorem generation_fresh_reloaded :
    ((run (.cpu (.insertion _) .unit) (.fresh (some ∅)) reloadRun).heap 0).generation <
        (run (.cpu (.insertion _) .unit) (.fresh (some ∅)) reloadRun).graphGenerationCounter ∧
      ∀ req env e,
        Captures (.cpu (.insertion _) .unit)
          (run (.cpu (.insertion _) .unit) (.fresh (some ∅)) reloadRun) req env e →
        e.generation ≠
          ((run (.cpu (.insertion _) .unit) (.fresh (some ∅)) reloadRun).heap 0).generation := by
  have hrun : Throughout (step (.cpu (.insertion _) .unit)) (.fresh (some ∅))
      (fun s op => belowMax (.cpu (.insertion _) .unit) s op = true) reloadRun ∧
      0 ∈ (run (.cpu (.insertion _) .unit) (.fresh (some ∅)) reloadRun).byWorkload (str "a|") := by
    decide +kernel
  obtain ⟨hops, hlisted⟩ := hrun
  refine generation_fresh _ (some ∅) ?_ reloadRun (hops.imp fun _ _ => belowMax_spec) 0
    (.inr (.inr ⟨str "a|", hlisted⟩))
  intro st hst
  obtain rfl : ∅ = st := Option.some.inj hst
  exact .empty

end GraphCache
