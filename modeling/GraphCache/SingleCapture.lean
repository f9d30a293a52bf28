import GraphCache.StaleCapture

/-!
# One capture for many misses

Threads that look up the same request on an empty cache are to share one capture. A thread decides
that it misses before it looks for an attempt in flight. If in between another thread captured,
published and erased its attempt, it finds neither, and captures once more (`captured_twice`). If
every thread that gets to own an attempt does so before anything is published (`Timely`), one entry
is published, and it is there when the first of the lookups returns (`captures_once`).
-/

namespace GraphCache

variable {Exec : Type} {cfg : Config Exec}

/-- The addresses of the entries of key `k` that were ever published. -/
def Registry.published (r : Registry Exec) (k : Str) : List ℕ :=
  (List.range r.next).filter fun b => (r.heap b).keyHex = k

variable (cfg) in
/-- A capture of the request is allowed, and succeeds. -/
structure Capturable (req : GraphLookupRequest) : Prop where
  allowed : req.allowCapture ∧ cfg.allowCapture
  builds : ∀ attempt, ∃ g exec, buildCapture cfg req attempt = .ok (g, exec)

/-- A lookup of `req` is called, or a thread takes a step. -/
def ThreadEvent.Of (req : GraphLookupRequest) : ThreadEvent → Prop
  | .lookup _ l => l.req = req
  | .invalidate _ _ => False
  | .step _ => True

namespace Pc

/-- The thread is in no call, or in a lookup of `req`. -/
def Of (req : GraphLookupRequest) : Pc Exec → Prop
  | .idle | .answered _ => True
  | .started l | .search l _ | .materialize l _ _ _ | .recheck l _ _ _ | .lease l _ _ _
  | .missed l _ | .flight l _ _ _ => l.req = req
  | .roll _ | .collect _ _ | .mark _ _ _ _ | .invalidated _ => False

/-- The key for which the thread is about to look for an attempt. -/
def calling : Pc Exec → Option Str
  | .flight _ _ _ (.called k) => some k
  | _ => none

/-- The thread owns an attempt, and its capture did not insert its entry yet. -/
def Early : Pc Exec → Prop
  | .flight _ _ _ (.owner _ _ .inserted) => True
  | .flight _ _ _ (.owner _ _ (.executing (.inserted _))) => False
  | .flight _ _ _ (.owner _ _ (.executing _)) => True
  | _ => False

/-- The thread saw an entry, or the result of a capture. -/
def Past : Pc Exec → Prop
  | .search _ (some _) | .materialize _ _ _ _ | .recheck _ _ _ _ | .lease _ _ _ _
  | .answered _ => True
  | .flight _ _ _ (.owner _ _ .inserted) => False
  | .flight _ _ _ (.owner _ _ (.executing (.inserted _))) => True
  | .flight _ _ _ (.owner _ _ (.executing _)) => False
  | .flight _ _ _ (.owner _ _ _) | .flight _ _ _ (.woken _ _)
  | .flight _ _ _ (.returned _ _ _ _) => True
  | _ => False

end Pc

/-- The generation a capture loaded is `gen`, and the entry it made has key `k`. -/
def CaptureStage.Current (gen : CacheGeneration) (k : Str) : CaptureStage Exec → Prop
  | .entered | .inserted _ => True
  | .loaded g | .built g _ _ | .drawn g _ _ _ => g = gen
  | .stamped g e | .checked g e => g = gen ∧ e.keyHex = k

/-! ## Steps of a lookup -/

section

variable {req : GraphLookupRequest} {s : Shared Exec} {p : Pc Exec}

theorem of_afterMiss {s : State Exec} {l : LookupCall} {cand : GraphLookupResult Exec}
    {miss : Option (GraphLookupResult Exec × Bool)} (h : l.req = req) :
    (afterMiss cfg s l cand miss).2.Of req := by
  rcases miss with _ | ⟨res, owned⟩
  · unfold afterMiss
    dsimp only
    split_ifs
    · exact h
    · trivial
  · trivial

variable (cfg) in
theorem of_engineStep (s : State Exec) (h : p.Of req) : (engineStep cfg s p).2.Of req := by
  cases p with
  | search l miss =>
    simp only [engineStep]
    split
    · split <;> exact of_afterMiss h
    · exact h
  | materialize l miss a dec =>
    simp only [engineStep]
    split
    · exact of_afterMiss h
    · exact h
  | recheck l miss a dec =>
    simp only [engineStep]
    split_ifs
    · exact of_afterMiss h
    · exact h
  | lease l miss a dec => rcases miss with _ | ⟨res, owned⟩ <;> trivial
  | mark req newGen targets res => exact h.elim
  | _ => exact h

theorem of_advance (h : p.Of req) : (s.advance cfg p).2.Of req := by
  cases p with
  | flight l res attempt phase =>
    rcases phase with _ | k | ⟨k, a, _ | stage | r | r | r⟩ | ⟨k, a⟩ | ⟨k, a⟩ | ⟨k, a, r, owned⟩
    case owner.executing =>
      simp only [Shared.advance]
      split <;> exact h
    case returned =>
      rcases r with e | id
      · trivial
      · exact h
    all_goals exact h
  | _ => exact of_engineStep cfg s.engine h

theorem next_advance (s : Shared Exec) (p : Pc Exec) :
    s.engine.next ≤ (s.advance cfg p).1.engine.next := by
  rcases advance_registry cfg s p with ⟨-, -, -, -, -, -, e, -, hr⟩ | he
  · rw [hr]
    exact Nat.le_succ _
  · exact (he.same 0).2.ge

/-- A thread that owns an attempt and did not insert its entry yet was there before, or found no
attempt in flight. -/
theorem early_advance (h : (s.advance cfg p).2.Early) :
    (s.advance cfg p).1.engine.next = s.engine.next ∧ (p.Early ∨
      ∃ l res attempt k, p = .flight l res attempt (.called k) ∧ s.flights.inflight k = none) := by
  have hflight : ∃ l res attempt phase, (s.advance cfg p).2 = .flight l res attempt phase := by
    rcases hp : (s.advance cfg p).2 with _ | _ | _ | _ | _ | _ | _ | ⟨l, res, attempt, phase⟩ | _ |
      _ | _ | _ | _
    case flight => exact ⟨l, res, attempt, phase, rfl⟩
    all_goals
      rw [hp] at h
      exact h.elim
  obtain ⟨l, res, attempt, phase, hp⟩ := hflight
  rcases advance_flight_of hp with ⟨rfl, rfl⟩ | ⟨phase₀, rfl, -⟩
  · exact h.elim
  · rcases phase₀ with _ | k | ⟨k, a, _ | stage | r | r | r⟩ | ⟨k, a⟩ | ⟨k, a⟩ | ⟨k, a, r, owned⟩
    case called =>
      refine ⟨rfl, .inr ⟨l, res, attempt, k, rfl, ?_⟩⟩
      rcases hk : s.flights.inflight k with _ | a
      · rfl
      · simp [Shared.advance, Flights.advance, hk, Pc.Early] at h
    case owner.inserted => exact ⟨rfl, .inl trivial⟩
    case owner.executing =>
      simp only [Shared.advance] at h hp ⊢
      rcases hc : captureStep cfg s.engine l attempt stage with ⟨engine, stage' | r⟩
      · simp only [hc] at h ⊢
        have hm := captureStep_move hc
        cases hm with
        | insert => exact h.elim
        | _ => exact ⟨rfl, .inl trivial⟩
      · simp only [hc] at h
        exact h.elim
    case waiter =>
      by_cases hd : (s.flights.attempts a).done
      · simp [Shared.advance, Flights.advance, hd, Pc.Early] at h
      · simp [Shared.advance, Flights.advance, hd, Pc.Early] at h
    case returned => rcases r with e | id <;> exact h.elim
    all_goals exact h.elim

/-- While nothing is published a search finds nothing. -/
theorem scan_empty {r : Registry Exec} (hr : r.Indexed) (hnext : r.next = 0)
    (facts : CompatibilityFacts) (policy : GraphCompatibilityPolicy) :
    scan r facts policy = {} := by
  have hbucket : r.byWorkload (workloadKey facts.workload) = [] :=
    List.eq_nil_iff_forall_not_mem.mpr fun a ha => by
      have := (hr.bucket _ a ha).1
      omega
  rw [scan, hbucket]
  rfl

/-- A lookup that searches an empty cache goes on to capture. -/
theorem past_search {s : State Exec} {l : LookupCall} (hcap : Capturable cfg l.req)
    (hidx : s.toRegistry.Indexed) (h : (engineStep cfg s (.search l none)).2.Past) :
    s.next ≠ 0 := by
  intro hnext
  obtain ⟨hreq, hcfg⟩ := hcap.allowed
  simp [engineStep, scan_empty hidx hnext, afterMiss, hreq, hcfg, Pc.Past] at h

/-- A capture of a request that can be captured returns only after it inserted its entry. -/
theorem captureStep_inr {s s' : State Exec} {l : LookupCall} {attempt : CaptureAttemptId}
    {stage : CaptureStage Exec} {k : Str} {r : Result GraphArtifactId}
    (hcap : Capturable cfg l.req) (hcur : stage.Current s.cacheGeneration k)
    (h : captureStep cfg s l attempt stage = (s', .inr r)) : ∃ a, stage = .inserted a := by
  cases stage with
  | loaded gen =>
    obtain ⟨g, exec, hb⟩ := hcap.builds attempt
    simp only [captureStep, hb] at h
    cases h
  | stamped gen e =>
    obtain ⟨rfl, -⟩ := hcur
    simp [captureStep] at h
  | inserted a => exact ⟨a, rfl⟩
  | _ => cases h

/-- Whoever has seen an entry or a result had seen one before, or an entry is published. -/
theorem past_advance (hcap : Capturable cfg req) (hof : p.Of req) (hidx : s.engine.toRegistry.Indexed)
    (hcur : ∀ l res attempt k a stage,
      p = .flight l res attempt (.owner k a (.executing stage)) →
        stage.Current s.engine.cacheGeneration k)
    (hdone : ∀ a, (s.flights.attempts a).done → s.engine.next ≠ 0)
    (h : (s.advance cfg p).2.Past) : p.Past ∨ (s.advance cfg p).1.engine.next ≠ 0 := by
  have hle : s.engine.next ≤ (s.advance cfg p).1.engine.next := next_advance s p
  cases p with
  | flight l res attempt phase =>
    obtain rfl : l.req = req := hof
    rcases phase with _ | k | ⟨k, a, _ | stage | r | r | r⟩ | ⟨k, a⟩ | ⟨k, a⟩ | ⟨k, a, r, owned⟩
    case outside => exact h.elim
    case called =>
      rcases hk : s.flights.inflight k with _ | a
      · simp [Shared.advance, Flights.advance, hk, Pc.Past] at h
      · simp [Shared.advance, Flights.advance, hk, Pc.Past] at h
    case owner.inserted => exact h.elim
    case owner.executing =>
      simp only [Shared.advance] at h ⊢
      rcases hc : captureStep cfg s.engine l attempt stage with ⟨engine, stage' | r⟩
      · simp only [hc] at h ⊢
        have hm := captureStep_move hc
        cases hm with
        | insert gen e => exact .inr (Nat.succ_ne_zero _)
        | _ => exact h.elim
      · obtain ⟨b, rfl⟩ := captureStep_inr hcap (hcur l res attempt k a stage rfl) hc
        exact .inl trivial
    case waiter =>
      by_cases hd : (s.flights.attempts a).done
      · exact .inr (hdone a hd)
      · simp [Shared.advance, Flights.advance, hd, Pc.Past] at h
    all_goals exact .inl trivial
  | search l miss =>
    rcases miss with _ | m
    · have hne := past_search (show Capturable cfg l.req from hof ▸ hcap) hidx h
      exact .inr (Nat.pos_iff_ne_zero.mp ((Nat.pos_iff_ne_zero.mpr hne).trans_le hle))
    · exact .inl trivial
  | materialize l miss a dec => exact .inl trivial
  | recheck l miss a dec => exact .inl trivial
  | lease l miss a dec => exact .inl trivial
  | answered res => exact .inl trivial
  | mark req' newGen targets res => exact hof.elim
  | _ => exact h.elim

end

namespace Threads

open History SingleFlight

variable {req : GraphLookupRequest} {s : Threads Exec} {ev : ThreadEvent}
  {evs : List ThreadEvent} {t u : ℕ} {store : Option Store}

/-- A thread that finds no attempt in flight, and so gets to own one, does so before anything is
published. -/
def Timely (s : Threads Exec) : ThreadEvent → Prop
  | .step t => ∀ k ∈ (s.pc t).calling, s.flights.inflight k = none → s.engine.next = 0
  | _ => True

instance : DecidablePred s.Timely
  | .step t => inferInstanceAs (Decidable (∀ k ∈ (s.pc t).calling, _))
  | .lookup _ _ | .invalidate _ _ => isTrue trivial

/-- Threads that look up `req` : at most one entry is published, none while some thread that owns
an attempt did not insert its entry yet, and one once some thread has seen an entry or a result. -/
structure Shares (req : GraphLookupRequest) (s : Threads Exec) : Prop where
  calls : ∀ t, (s.pc t).Of req
  current : ∀ t l res attempt k a stage,
    s.pc t = .flight l res attempt (.owner k a (.executing stage)) →
      stage.Current s.engine.cacheGeneration k
  keys : ∀ b < s.engine.next, (s.engine.heap b).keyHex = keyHex req
  atMost : s.engine.next ≤ 1
  early : ∀ t, (s.pc t).Early → s.engine.next = 0
  past : ∀ t, (s.pc t).Past → s.engine.next ≠ 0
  done : ∀ a, (s.flights.attempts a).done → s.engine.next ≠ 0

/-- A thread that is early is between the insert into `inflight` and the erase. -/
theorem early_phase {p : Pc Exec} (h : p.Early) :
    ∃ k a st, p.phase = .owner k a st ∧ st.inTable := by
  cases p with
  | flight l res attempt phase =>
    rcases phase with _ | k | ⟨k, a, _ | stage | r | r | r⟩ | ⟨k, a⟩ | ⟨k, a⟩ | ⟨k, a, r, owned⟩
    case owner.inserted => exact ⟨k, a, _, rfl, rfl⟩
    case owner.executing => exact ⟨k, a, _, rfl, rfl⟩
    all_goals exact h.elim
  | _ => exact h.elim

/-- Of the threads that look up one request, one is early at most. -/
theorem early_unique (hinv : s.single.Inv) (hkeyed : s.Keyed) (hcalls : ∀ t, (s.pc t).Of req)
    (ht : (s.pc t).Early) (hu : (s.pc u).Early) : t = u := by
  have hlisted : ∀ t, (s.pc t).Early → ∃ a st, s.single.phase t = .owner (keyHex req) a st ∧
      s.flights.inflight (keyHex req) = some a := by
    intro t ht
    obtain ⟨k, a, st, hp, hst⟩ := early_phase ht
    obtain ⟨l, res, attempt, hpc⟩ := Pc.eq_flight hp (by simp)
    have hreq : l.req = req := by
      have := hcalls t
      rwa [hpc] at this
    obtain rfl : k = keyHex l.req := Option.some.inj (hkeyed t l res attempt _ hpc)
    subst hreq
    exact ⟨a, st, hp, hinv.listed (single_phase hpc) hst⟩
  obtain ⟨a, st, hpt, hat⟩ := hlisted t ht
  obtain ⟨a', st', hpu, hau⟩ := hlisted u hu
  obtain rfl : a = a' := Option.some.inj (hat.symm.trans hau)
  exact hinv.one t u _ _ a st st' hpt hpu

/-- A lookup begins. -/
theorem Shares.call (h : s.Shares req) {l : LookupCall} (hl : l.req = req) (t : ℕ) :
    (s.move t s.toShared (.started l)).Shares req := by
  have hpc := move_pc s t
  refine ⟨fun u => ?_, fun u l' res attempt k a stage hu => ?_, h.keys, h.atMost, fun u hu => ?_,
    fun u hu => ?_, h.done⟩
  · rw [hpc]
    split_ifs
    · exact hl
    · exact h.calls u
  · rw [hpc] at hu
    split_ifs at hu
    exact h.current u l' res attempt k a stage hu
  · rw [hpc] at hu
    split_ifs at hu
    · exact hu.elim
    · exact h.early u hu
  · rw [hpc] at hu
    split_ifs at hu
    · exact hu.elim
    · exact h.past u hu

/-- What a capture of the lookups loaded is current, since none of them rolls the generation. -/
theorem Shares.current_next (h : s.Shares req) (hkeyed : s.Keyed) {l : LookupCall}
    {res : GraphLookupResult Exec} {attempt : CaptureAttemptId} {k : Str} {a : ℕ}
    {stage : CaptureStage Exec}
    (hgen : (s.next cfg ev).engine.cacheGeneration = s.engine.cacheGeneration)
    (hpc : (s.next cfg ev).pc u = .flight l res attempt (.owner k a (.executing stage))) :
    stage.Current (s.next cfg ev).engine.cacheGeneration k := by
  rw [hgen]
  rcases executing_next hpc with ⟨-, hold⟩ | ⟨rfl, ⟨-, rfl⟩ | ⟨stage₀, hst, hm⟩⟩
  · exact h.current u l res attempt k a stage hold
  · trivial
  · have hcur := h.current u l res attempt k a stage₀ hst
    have hkey : keyHex l.req = k := (Option.some.inj (hkeyed u l res attempt _ hst)).symm
    generalize (s.next cfg (.step u)).engine = engine' at hm
    cases hm with
    | load => exact rfl
    | stamp gen g exec n => exact ⟨hcur, hkey⟩
    | insert gen e => trivial
    | _ => exact hcur

theorem Shares.step (h : s.Shares req) (hcap : Capturable cfg req) (hkeyed : s.Keyed)
    (hinv : s.single.Inv) (hidx : s.engine.toRegistry.Indexed) (htimely : s.Timely (.step t)) :
    (s.next cfg (.step t)).Shares req := by
  have hpc : ∀ u, (s.next cfg (.step t)).pc u =
      if u = t then (s.advance cfg (s.pc t)).2 else s.pc u := fun u => move_pc s t u _ _
  have hle : s.engine.next ≤ (s.next cfg (.step t)).engine.next := next_advance s.toShared (s.pc t)
  have hroll : ¬ (s.pc t).rolls := fun hr => by
    have := h.calls t
    unfold Pc.rolls at hr
    split at hr <;> simp_all [Pc.Of]
  have hgen : (s.next cfg (.step t)).engine.cacheGeneration = s.engine.cacheGeneration :=
    advance_cacheGeneration s.toShared hroll
  have hpast : ∀ {n : ℕ}, s.engine.next ≤ n → s.engine.next ≠ 0 → n ≠ 0 := by omega
  -- either thread `t` inserts the entry of its capture, and it was early, or there is no new entry
  have hregistry : ((s.pc t).Early ∧ ∃ e, e.keyHex = keyHex req ∧
        (s.next cfg (.step t)).engine.toRegistry = s.engine.toRegistry.register e) ∨
      ∃ M, Edits cfg M s.engine.toRegistry (s.next cfg (.step t)).engine.toRegistry := by
    rcases advance_registry cfg s.toShared (s.pc t) with
      ⟨l, res, attempt, k, a, gen, e, hp, hr⟩ | he
    · obtain rfl : k = keyHex l.req := Option.some.inj (hkeyed t l res attempt _ hp)
      have hreq : l.req = req := by
        have := h.calls t
        rwa [hp] at this
      refine .inl ⟨by rw [hp]; trivial, e, ?_, hr⟩
      rw [← hreq]
      exact (h.current t l res attempt _ a _ hp).2
    · exact .inr ⟨_, he⟩
  refine ⟨fun u => ?_, fun u l res attempt k a stage hu => h.current_next hkeyed hgen hu,
    fun b hb => ?_, ?_, fun u hu => ?_, fun u hu => ?_, fun a hd => ?_⟩
  · rw [hpc]
    split_ifs
    · exact of_advance (h.calls t)
    · exact h.calls u
  · rcases hregistry with ⟨-, e, he, hr⟩ | ⟨M, he⟩
    · rw [hr] at hb ⊢
      rcases Nat.lt_succ_iff_lt_or_eq.mp hb with hlt | rfl
      · rw [register_heap_of_lt _ _ hlt]
        exact h.keys b hlt
      · rw [register_heap_self]
        exact he
    · obtain ⟨hsame, hnext⟩ := he.same b
      rw [CacheEntry.keyHex, hsame.key]
      exact h.keys b (hnext ▸ hb)
  · rcases hregistry with ⟨hearly, e, -, hr⟩ | ⟨M, he⟩
    · rw [hr, register_next, h.early t hearly]
    · rw [(he.same 0).2]
      exact h.atMost
  · rw [hpc] at hu
    split_ifs at hu with hut
    · obtain ⟨hnext, hearly | ⟨l, res, attempt, k, hcalled, hk⟩⟩ := early_advance hu
      · exact hnext.trans (h.early t hearly)
      · exact hnext.trans (htimely k (by rw [hcalled]; rfl) hk)
    · rcases hregistry with ⟨hearly, -⟩ | ⟨M, he⟩
      · exact absurd (early_unique hinv hkeyed h.calls hu hearly) hut
      · exact (he.same 0).2.trans (h.early u hu)
  · rw [hpc] at hu
    split_ifs at hu
    · rcases past_advance hcap (h.calls t) hidx (fun l res attempt k a stage => h.current t l res
        attempt k a stage) h.done hu with hold | hnew
      · exact hpast hle (h.past t hold)
      · exact hnew
    · exact hpast hle (h.past u hu)
  · refine hpast hle ?_
    rcases advance_move cfg s.toShared (s.pc t) with ⟨hf, -⟩ | hm
    · have hd : ((s.advance cfg (s.pc t)).1.flights.attempts a).done := hd
      rw [hf] at hd
      exact h.done a hd
    · rcases hm.of_done hd with hold | ⟨k, res, hp⟩
      · exact h.done a hold
      · obtain ⟨l, r, attempt, hpc⟩ := Pc.eq_flight hp (by simp)
        exact h.past t (by rw [hpc]; trivial)

theorem shares_run (hcap : Capturable cfg req) (evs : List ThreadEvent)
    (hof : ∀ ev ∈ evs, ev.Of req)
    (htimely : Throughout (next cfg) { engine := .fresh store } Timely evs) :
    (run cfg (.fresh store) evs).Shares req := by
  induction evs using List.reverseRecOn with
  | nil =>
    refine ⟨fun t => trivial, ?_, fun b hb => absurd hb (Nat.not_lt_zero b), Nat.zero_le _,
      fun t h => h.elim, fun t h => h.elim, ?_⟩
    · intro t l res attempt k a stage h
      cases h
    · intro a h
      cases h
  | append_singleton evs ev ih =>
    obtain ⟨hevs, hlast⟩ := throughout_concat.mp htimely
    have hshares := ih (fun ev' h => hof ev' (by simp [h])) hevs
    have hev := hof ev (by simp)
    rw [run, after_concat]
    cases ev with
    | lookup t l =>
      rw [next]
      rcases call_cases (run cfg (.fresh store) evs) t (.started l) with heq | ⟨-, heq⟩
      · rwa [heq]
      · rw [heq]
        exact hshares.call hev t
    | invalidate t r => exact hev.elim
    | step t =>
      exact hshares.step hcap (keyed_run _ evs) (single_inv _ evs) (indexed_after store evs) hlast

/-! ## One capture -/

variable (cfg) in
/-- At most one entry is published for the request, and one once some lookup returned. -/
structure CapturesOnce (store : Option Store) (req : GraphLookupRequest)
    (evs : List ThreadEvent) : Prop where
  atMost : ((run cfg (.fresh store) evs).engine.published (keyHex req)).length ≤ 1
  exactly : ∀ t res, (run cfg (.fresh store) evs).pc t = .answered res →
    ((run cfg (.fresh store) evs).engine.published (keyHex req)).length = 1

/-- Threads that look up one request share one capture, if none gets to own an attempt once an
entry is published. -/
theorem captures_once (hcap : Capturable cfg req) (store : Option Store) (evs : List ThreadEvent)
    (hof : ∀ ev ∈ evs, ev.Of req)
    (htimely : Throughout (next cfg) { engine := .fresh store } Timely evs) :
    CapturesOnce cfg store req evs := by
  have h : (run cfg (.fresh store) evs).Shares req := shares_run hcap evs hof htimely
  have hall : (run cfg (.fresh store) evs).engine.published (keyHex req) =
      List.range (run cfg (.fresh store) evs).engine.next :=
    List.filter_eq_self.mpr fun b hb => by simpa using h.keys b (List.mem_range.mp hb)
  have hlen := congrArg List.length hall
  rw [List.length_range] at hlen
  refine ⟨hlen ▸ h.atMost, fun t res ht => ?_⟩
  have hne : (run cfg (.fresh store) evs).engine.next ≠ 0 := h.past t (by rw [ht]; trivial)
  have := h.atMost
  omega

theorem blank_capturable : Capturable (.cpu (.insertion _) .unit) blankCall.req where
  allowed := ⟨rfl, rfl⟩
  builds := fun _ => ⟨_, _, rfl⟩

set_option maxRecDepth 100000 in
/-- Two threads miss; one of them captures, and the other joins it. -/
theorem captures_once_joined :
    CapturesOnce (.cpu (.insertion _) .unit) none blankCall.req
      (.lookup 0 blankCall :: .lookup 1 blankCall :: steps 0 4 ++ steps 1 4 ++ steps 0 20 ++
        steps 1 10) :=
  captures_once blank_capturable none _ (by simp [ThreadEvent.Of, steps]) (by decide +kernel)

set_option maxRecDepth 100000 in
/-- Two threads miss; one of them captures and returns before the other looks for an attempt. -/
theorem captured_twice :
    Capturable (.cpu (.insertion _) .unit) blankCall.req ∧
      (∀ ev ∈ (.lookup 0 blankCall :: .lookup 1 blankCall :: steps 0 2 ++ steps 1 2 ++ steps 0 20 ++
        steps 1 20 : List ThreadEvent), ev.Of blankCall.req) ∧
      ¬ CapturesOnce (.cpu (.insertion _) .unit) none blankCall.req
        (.lookup 0 blankCall :: .lookup 1 blankCall :: steps 0 2 ++ steps 1 2 ++ steps 0 20 ++
          steps 1 20) := by
  refine ⟨blank_capturable, by simp [ThreadEvent.Of, steps], fun h => ?_⟩
  have htwo : ((run (.cpu (.insertion _) .unit) (.fresh none)
      (.lookup 0 blankCall :: .lookup 1 blankCall :: steps 0 2 ++ steps 1 2 ++ steps 0 20 ++
        steps 1 20)).engine.published (keyHex blankCall.req)).length = 2 := by
    decide +kernel
  have := h.atMost
  omega

end Threads

end GraphCache
