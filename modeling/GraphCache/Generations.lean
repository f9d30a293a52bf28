import GraphCache.Threads

/-!
# Generations advance key by key

A capture draws its generation from a counter that all captures share, long before it inserts its
entry, so the entries of different keys are inserted in any order. For one key the captures are one
after the other, each from its draw to its insert : a capture that drew `n` finds only smaller
generations under its key when it inserts (`Above`). So what is written to `key_current_gen[k]`
increases, and an entry whose generation is the current one of its key is the newest of its key
(`generations_advance`).
-/

namespace GraphCache

variable {Exec : Type} {cfg : Config Exec}

/-! ## What a capture drew -/

/-- Generation `n` was drawn, and every entry of key `k` has a smaller one. -/
structure State.Above (s : State Exec) (k : Str) (n : GraphGeneration) : Prop where
  drawn : n < s.graphGenerationCounter
  newest : ∀ b < s.next, (s.heap b).keyHex = k → (s.heap b).generation < n

/-- A capture for key `k` holds a generation that is above those of its key. -/
def CaptureStage.Ready (s : State Exec) (k : Str) : CaptureStage Exec → Prop
  | .drawn _ _ _ n => s.Above k n
  | .stamped _ e | .checked _ e => e.keyHex = k ∧ e.invalidated = false ∧ s.Above k e.generation
  | _ => True

theorem CaptureStage.Ready.imp {s s' : State Exec} {k : Str} {stage : CaptureStage Exec}
    (h : stage.Ready s k) (himp : ∀ n, s.Above k n → s'.Above k n) : stage.Ready s' k := by
  cases stage with
  | drawn gen g exec n => exact himp n h
  | stamped gen e => exact ⟨h.1, h.2.1, himp _ h.2.2⟩
  | checked gen e => exact ⟨h.1, h.2.1, himp _ h.2.2⟩
  | _ => trivial

/-- Every entry has a generation that was drawn, and none is newer than the current one of its
key. -/
structure State.Ordered (s : State Exec) : Prop where
  drawn : ∀ b < s.next, (s.heap b).generation < s.graphGenerationCounter
  current : ∀ k n, s.keyCurrentGen k = some n →
    ∀ b < s.next, (s.heap b).keyHex = k → (s.heap b).generation ≤ n

theorem Edits.keyCurrentGen {M : ℕ → Prop} {r r' : Registry Exec} (h : Edits cfg M r r') :
    r'.keyCurrentGen = r.keyCurrentGen :=
  h.invariant (I := fun r' => r'.keyCurrentGen = r.keyCurrentGen) rfl (fun _ _ _ hr _ => hr)
    fun _ _ _ h => h.elim

section

variable {s s' : State Exec} {k k' : Str} {n : GraphGeneration} {e : CacheEntry Exec}
  {M : ℕ → Prop}

theorem State.Above.edits (h : s.Above k n) (he : Edits cfg M s.toRegistry s'.toRegistry)
    (hle : s.graphGenerationCounter ≤ s'.graphGenerationCounter) : s'.Above k n where
  drawn := UInt64.lt_of_lt_of_le h.drawn hle
  newest := fun b hb hk => by
    obtain ⟨hsame, hnext⟩ := he.same b
    rw [hsame.generation]
    rw [hnext] at hb
    refine h.newest b hb ?_
    rwa [CacheEntry.keyHex, ← hsame.key]

theorem State.Ordered.edits (h : s.Ordered) (he : Edits cfg M s.toRegistry s'.toRegistry)
    (hle : s.graphGenerationCounter ≤ s'.graphGenerationCounter) : s'.Ordered where
  drawn := fun b hb => by
    obtain ⟨hsame, hnext⟩ := he.same b
    rw [hsame.generation]
    exact UInt64.lt_of_lt_of_le (h.drawn b (hnext ▸ hb)) hle
  current := fun k n hk b hb hkey => by
    obtain ⟨hsame, hnext⟩ := he.same b
    rw [he.keyCurrentGen] at hk
    rw [hsame.generation]
    refine h.current k n hk b (hnext ▸ hb) ?_
    rwa [CacheEntry.keyHex, ← hsame.key]

/-- The insert of an entry of another key leaves a capture ready. -/
theorem State.Above.register (h : s.Above k n) (hr : s'.toRegistry = s.toRegistry.register e)
    (hle : s.graphGenerationCounter ≤ s'.graphGenerationCounter) (hk : e.keyHex ≠ k) :
    s'.Above k n where
  drawn := UInt64.lt_of_lt_of_le h.drawn hle
  newest := fun b hb hkey => by
    rw [hr] at hb hkey ⊢
    rcases Nat.lt_succ_iff_lt_or_eq.mp hb with hlt | rfl
    · rw [register_heap_of_lt _ _ hlt] at hkey ⊢
      exact h.newest b hlt hkey
    · rw [register_heap_self] at hkey
      exact absurd hkey hk

/-- The insert of an entry that is above its key. -/
theorem State.Ordered.register (h : s.Ordered) (hr : s'.toRegistry = s.toRegistry.register e)
    (hle : s.graphGenerationCounter ≤ s'.graphGenerationCounter) (hvalid : e.invalidated = false)
    (he : s.Above e.keyHex e.generation) : s'.Ordered where
  drawn := fun b hb => by
    rw [hr] at hb ⊢
    rcases Nat.lt_succ_iff_lt_or_eq.mp hb with hlt | rfl
    · rw [register_heap_of_lt _ _ hlt]
      exact UInt64.lt_of_lt_of_le (h.drawn b hlt) hle
    · rw [register_heap_self]
      exact UInt64.lt_of_lt_of_le he.drawn hle
  current := fun k n hk b hb hkey => by
    rw [hr] at hk hb hkey ⊢
    have hk : Function.update s.keyCurrentGen e.keyHex (some e.generation) k = some n := by
      simpa [Registry.register, hvalid] using hk
    rcases Nat.lt_succ_iff_lt_or_eq.mp hb with hlt | rfl
    · rw [register_heap_of_lt _ _ hlt] at hkey ⊢
      by_cases hke : k = e.keyHex
      · subst hke
        rw [Function.update_self, Option.some.injEq] at hk
        subst hk
        exact UInt64.le_of_lt (he.newest b hlt hkey)
      · rw [Function.update_of_ne hke] at hk
        exact h.current k n hk b hlt hkey
    · rw [register_heap_self] at hkey ⊢
      subst hkey
      rw [Function.update_self, Option.some.injEq] at hk
      exact UInt64.le_of_eq hk

end

namespace Threads

open History SingleFlight

variable {s : Threads Exec} {ev : ThreadEvent} {evs : List ThreadEvent} {t u : ℕ} {k k' : Str}
  {a : ℕ} {n n' : GraphGeneration} {e : CacheEntry Exec} {stage : CaptureStage Exec}
  {engine : State Exec} {store : Option Store}

/-- A capture writes `n` to `key_current_gen[k]`. -/
def Writes (k : Str) (n : GraphGeneration) (s : Threads Exec) (ev : ThreadEvent) : Prop :=
  ∃ t a e, Inserts t a e s ev ∧ e.keyHex = k ∧ e.generation = n

variable (cfg) in
/-- The generation counter does not wrap. -/
def Advances (s : Threads Exec) (ev : ThreadEvent) : Prop :=
  s.engine.graphGenerationCounter ≤ (s.next cfg ev).engine.graphGenerationCounter

instance : Decidable (s.Advances cfg ev) :=
  inferInstanceAs (Decidable (_ ≤ _))

/-! ## The invariant -/

/-- The registry is ordered, and so are the captures that drew their generation. -/
structure Serial (s : Threads Exec) : Prop where
  ordered : s.engine.Ordered
  ready : ∀ t l res attempt k a stage,
    s.pc t = .flight l res attempt (.owner k a (.executing stage)) → stage.Ready s.engine k

theorem Serial.ordered_next (h : s.Serial) (hadv : s.Advances cfg ev) :
    (s.next cfg ev).engine.Ordered := by
  rcases registry_next cfg s ev with
    ⟨t, l, res, attempt, k, a, gen, e, -, hpc, hr⟩ | ⟨M, he⟩
  · obtain ⟨rfl, hvalid, habove⟩ := h.ready t l res attempt k a _ hpc
    exact h.ordered.register hr hadv hvalid habove
  · exact h.ordered.edits he hadv

/-- A capture that does not move stays ready : another one that inserts has another key. -/
theorem Serial.ready_other (h : s.Serial) (hinv : s.single.Inv) (hadv : s.Advances cfg ev)
    (hne : ev ≠ .step t) {l : LookupCall} {res : GraphLookupResult Exec}
    {attempt : CaptureAttemptId}
    (hpc : s.pc t = .flight l res attempt (.owner k a (.executing stage))) :
    stage.Ready (s.next cfg ev).engine k := by
  refine (h.ready t l res attempt k a stage hpc).imp fun n hn => ?_
  rcases registry_next cfg s ev with
    ⟨u, l', res', attempt', k', a', gen, e, rfl, hpc', hr⟩ | ⟨M, he⟩
  · obtain ⟨rfl, -, -⟩ := h.ready u l' res' attempt' k' a' _ hpc'
    refine hn.register hr hadv fun hk => hne ?_
    subst hk
    rw [hinv.exclusive (single_phase hpc') (single_phase hpc)]
  · exact hn.edits he hadv

theorem Serial.next (h : s.Serial) (hkeyed : s.Keyed) (hinv : s.single.Inv)
    (hadv : s.Advances cfg ev) : (s.next cfg ev).Serial := by
  refine ⟨h.ordered_next hadv, fun t l res attempt k a stage hpc => ?_⟩
  rcases executing_next hpc with ⟨hne, hold⟩ | ⟨rfl, ⟨-, rfl⟩ | ⟨stage₀, hst, hm⟩⟩
  · exact h.ready_other hinv hadv hne hold
  · trivial
  · have hready : stage₀.Ready s.engine k := h.ready t l res attempt k a stage₀ hst
    have hkey : keyHex l.req = k :=
      (Option.some.inj (hkeyed t l res attempt _ hst)).symm
    unfold Advances at hadv
    generalize (s.next cfg (.step t)).engine = engine' at hm hadv ⊢
    cases hm with
    | draw gen g exec =>
      have hlt : s.engine.graphGenerationCounter < s.engine.graphGenerationCounter + 1 := by
        refine UInt64.lt_of_le_of_ne hadv fun heq => ?_
        have := congrArg UInt64.toNat heq
        simp at this
        omega
      exact ⟨hlt, fun b hb _ => h.ordered.drawn b hb⟩
    | stamp gen g exec n => exact ⟨hkey, rfl, hready⟩
    | check e => exact hready
    | _ => trivial

variable (cfg) in
theorem serial_run (evs : List ThreadEvent)
    (hadv : Throughout (next cfg) { engine := .fresh store } (Advances cfg) evs) :
    (run cfg (.fresh store) evs).Serial := by
  induction evs using List.reverseRecOn with
  | nil =>
    refine ⟨⟨fun b hb => absurd hb (Nat.not_lt_zero b), fun k n hk => ?_⟩, ?_⟩
    · cases hk
    · intro t l res attempt k a stage h
      cases h
  | append_singleton evs ev ih =>
    obtain ⟨hevs, hlast⟩ := throughout_concat.mp hadv
    rw [run, after_concat]
    exact (ih hevs).next (keyed_run _ evs) (single_inv _ evs) hlast

/-! ## What was written -/

/-- An entry of key `k` and generation `n` was registered. -/
def Registered (k : Str) (n : GraphGeneration) (s : Threads Exec) : Prop :=
  ∃ b < s.engine.next, (s.engine.heap b).keyHex = k ∧ (s.engine.heap b).generation = n

theorem Registered.next (h : Registered k n s) : Registered k n (s.next cfg ev) := by
  obtain ⟨b, hb, hk, hn⟩ := h
  rcases registry_next cfg s ev with ⟨t, l, res, attempt, k', a, gen, e, -, -, hr⟩ | ⟨M, he⟩
  · refine ⟨b, ?_, ?_⟩
    · rw [hr]
      exact Nat.lt_succ_of_lt hb
    · rw [hr, register_heap_of_lt _ _ hb]
      exact ⟨hk, hn⟩
  · obtain ⟨hsame, hnext⟩ := he.same b
    refine ⟨b, hnext ▸ hb, ?_, hsame.generation.trans hn⟩
    rwa [CacheEntry.keyHex, hsame.key]

theorem Inserts.registry (h : Inserts t a e s ev) :
    (s.next cfg ev).engine.toRegistry = s.engine.toRegistry.register e := by
  obtain ⟨rfl, gen, l, res, attempt, k, hpc⟩ := h
  simp only [Threads.next, hpc]
  rfl

theorem Writes.registered (h : Writes k n s ev) : Registered k n (s.next cfg ev) := by
  obtain ⟨t, a, e, hins, hk, hn⟩ := h
  refine ⟨s.engine.next, ?_⟩
  rw [hins.registry, register_heap_self]
  exact ⟨Nat.lt_succ_self _, hk, hn⟩

theorem registered_run (h : Once (next cfg) { engine } (Writes k n) evs) :
    Registered k n (run cfg engine evs) := by
  obtain ⟨pre, ev, post, rfl, hw⟩ := h
  have hsplit : pre ++ ev :: post = pre ++ [ev] ++ post := by simp
  rw [hsplit]
  refine after_keeps (fun _ _ _ _ h => h.next) ?_
  rw [after_concat]
  exact hw.registered

variable (cfg) in
/-- What is registered was written. -/
theorem written_run (evs : List ThreadEvent) (h : Registered k n (run cfg (.fresh store) evs)) :
    Once (next cfg) { engine := .fresh store } (Writes k n) evs := by
  induction evs using List.reverseRecOn with
  | nil =>
    obtain ⟨b, hb, -⟩ := h
    exact absurd hb (Nat.not_lt_zero b)
  | append_singleton evs ev ih =>
    rw [run, after_concat] at h
    obtain ⟨b, hb, hk, hn⟩ := h
    rcases registry_next cfg (run cfg (.fresh store) evs) ev with
      ⟨t, l, res, attempt, k', a, gen, e, rfl, hpc, hr⟩ | ⟨M, he⟩
    · rw [hr] at hb hk hn
      rcases Nat.lt_succ_iff_lt_or_eq.mp hb with hlt | rfl
      · rw [register_heap_of_lt _ _ hlt] at hk hn
        exact (ih ⟨b, hlt, hk, hn⟩).append _
      · rw [register_heap_self] at hk hn
        exact .last ⟨t, a, e, ⟨rfl, gen, l, res, attempt, k', hpc⟩, hk, hn⟩
    · obtain ⟨hsame, hnext⟩ := he.same b
      refine (ih ⟨b, hnext ▸ hb, ?_, hsame.generation.symm.trans hn⟩).append _
      rwa [CacheEntry.keyHex, ← hsame.key]

/-! ## Generations advance -/

variable (cfg) in
/-- What is written to `key_current_gen[k]` increases, and the candidate that a search chooses
carries the greatest generation written for its key so far. -/
structure GenerationsAdvance (store : Option Store) (evs : List ThreadEvent) : Prop where
  increasing : ∀ pre ev mid ev' post k n n', evs = pre ++ ev :: mid ++ ev' :: post →
    Writes k n (run cfg (.fresh store) pre) ev →
    Writes k n' (run cfg (.fresh store) (pre ++ ev :: mid)) ev' → n < n'
  newest : ∀ t l miss a dec, (run cfg (.fresh store) evs).pc t = .search l miss →
    (scan (run cfg (.fresh store) evs).engine.toRegistry (makeFacts l.req) l.req.policy).chosen =
      some (a, dec) →
    Once (next cfg) { engine := .fresh store }
        (Writes ((run cfg (.fresh store) evs).engine.heap a).keyHex
          ((run cfg (.fresh store) evs).engine.heap a).generation) evs ∧
      ∀ n, Once (next cfg) { engine := .fresh store }
        (Writes ((run cfg (.fresh store) evs).engine.heap a).keyHex n) evs →
        n ≤ ((run cfg (.fresh store) evs).engine.heap a).generation

/-- On every run on which the generation counter does not wrap. -/
theorem generations_advance (store : Option Store) (evs : List ThreadEvent)
    (hadv : Throughout (next cfg) { engine := .fresh store } (Advances cfg) evs) :
    GenerationsAdvance cfg store evs := by
  refine ⟨?_, fun t l miss a dec _ hchosen => ?_⟩
  · rintro pre ev mid ev' post k n n' rfl hw ⟨t, a, e, ⟨-, gen, l, res, attempt, k', hpc⟩, hk, hn⟩
    have hserial : (run cfg (.fresh store) (pre ++ ev :: mid)).Serial :=
      serial_run cfg _ hadv.of_append
    obtain ⟨hkey, -, habove⟩ := hserial.ready t l res attempt k' a _ hpc
    obtain ⟨b, hb, hbk, hbn⟩ := registered_run ⟨pre, ev, mid, rfl, hw⟩
    rw [← hbn, ← hn]
    exact habove.newest b hb (by rw [hbk, ← hk, hkey])
  · obtain ⟨hbest, -⟩ := scan_chosen hchosen
    obtain ⟨hlt, -⟩ := (indexed_after store evs).bucket _ a hbest.mem
    refine ⟨written_run cfg evs ⟨a, hlt, rfl, rfl⟩, fun n hw => ?_⟩
    obtain ⟨b, hb, hbk, rfl⟩ := registered_run hw
    exact (serial_run cfg evs hadv).ordered.current _ _ hbest.candidate.selectable.2.1 b hb hbk

set_option maxRecDepth 100000 in
/-- Thread 0 captures, thread 1 invalidates everything, and thread 0 captures again. -/
theorem generations_advance_again : GenerationsAdvance (.cpu (.insertion _) .unit) none
    (.lookup 0 blankCall :: steps 0 20 ++ .invalidate 1 { scope := .byAll } :: steps 1 4 ++
      .lookup 0 blankCall :: steps 0 20) :=
  generations_advance none _ (by decide +kernel)

end Threads

end GraphCache
