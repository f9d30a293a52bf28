import GraphCache.Accounting

/-!
# Leases and the life of their engine

A token keeps its cache entry alive, but knows the engine by its address alone, and a release goes
to `active_leases` behind that address whether or not the engine is still there. So a lease that
outlives its engine must not be released (`release_reaches_dead`). What keeps a release from a dead
engine is that engines are destroyed only once `active_leases` is zero (`release_finds_alive`).
-/

namespace GraphCache

namespace Leases

open History

/-- The lookups of the engine have returned. -/
def Unused (s : Leases) (g : ℕ) : Prop :=
  ∀ t stage p x tok, s.pc t = .granting stage p x → s.token p = some tok → tok.engine ≠ g

def activeLeases (s : Leases) (g : ℕ) : UInt64 :=
  ((s.engine g).map Impl.activeLeases).getD 0

/-- An engine is destroyed once its lookups have returned and its leases are released. -/
def Orderly (s : Leases) : LeaseEvent → Prop
  | .destroy g => s.Unused g ∧ s.activeLeases g = 0
  | _ => True

def Alive (s : Leases) (g : ℕ) : Prop := ∃ n, s.engine g = some ⟨true, n⟩

/-- Tokens belong to living engines, but for those that are about to be dropped. -/
structure Housed (s : Leases) : Prop where
  token : ∀ p tok, s.token p = some tok →
    (∃ t x source, s.pc t = .releasing .reset p x source) ∨ s.Alive tok.engine
  safe : s.deadAccess = false

theorem housed_start : Housed {} := ⟨nofun, rfl⟩

section

variable {s : Leases} {t : ℕ} {p : Address} {f : UInt64 → UInt64}

theorem onEngine_keeps {g : ℕ} (h : s.Alive g) : (s.onEngine p f).Alive g := by
  obtain ⟨n, hn⟩ := h
  unfold onEngine Alive
  split
  · exact ⟨n, hn⟩
  · rename_i tok _
    split
    · rename_i m hm
      dsimp only
      by_cases hg : g = tok.engine
      · subst hg
        rw [Function.update_self]
        exact ⟨f m, rfl⟩
      · rw [Function.update_of_ne hg]
        exact ⟨n, hn⟩
    · exact ⟨n, hn⟩

theorem onEngine_safe {tok : Token} (htok : s.token p = some tok) (h : s.Alive tok.engine)
    (hsafe : s.deadAccess = false) : (s.onEngine p f).deadAccess = false := by
  obtain ⟨n, hn⟩ := h
  unfold onEngine
  rw [htok]
  dsimp only
  rw [hn]
  exact hsafe

/-- A thread with a token in its hands finds the engine alive until it drops the token. -/
theorem Housed.alive (h : s.Housed) (ho : s.Owned) (hp : (s.pc t).token = some p)
    (hreset : ∀ x source, s.pc t ≠ .releasing .reset p x source) :
    ∃ tok, s.token p = some tok ∧ s.Alive tok.engine := by
  obtain ⟨tok, htok⟩ := ho.live_token hp
  refine ⟨tok, htok, (h.token p tok htok).resolve_left ?_⟩
  rintro ⟨u, x, source, hu⟩
  obtain rfl := ho.unique u t p (by rw [hu]; rfl) hp
  exact hreset x source hu

/-- A step that leaves the tokens where they are, and no engine dead. -/
theorem Housed.keep (h : s.Housed) {s' : Leases} {pc : LeasePc}
    (hpc : s'.pc = Function.update s.pc t pc)
    (hreset : ∀ p x source, s.pc t ≠ .releasing .reset p x source)
    (htoken : ∀ p tok, s'.token p = some tok →
      ∃ tok', s.token p = some tok' ∧ tok'.engine = tok.engine)
    (halive : ∀ g, s.Alive g → s'.Alive g) (hsafe : s'.deadAccess = false) : s'.Housed := by
  refine ⟨fun p tok htok => ?_, hsafe⟩
  obtain ⟨tok', htok', hengine⟩ := htoken p tok htok
  rcases h.token p tok' htok' with ⟨u, x, source, hu⟩ | hg
  · exact .inl ⟨u, x, source, by rw [hpc]; exact pc_goto_of_ne hu fun heq => hreset p x source heq⟩
  · exact .inr (hengine ▸ halive _ hg)

/-- An access to the engine by a thread that has a token of it in its hands. -/
theorem Housed.atEngine (h : s.Housed) (ho : s.Owned) (hp : (s.pc t).token = some p)
    (hreset : ∀ p x source, s.pc t ≠ .releasing .reset p x source) (f : UInt64 → UInt64)
    (pc : LeasePc) : ((s.onEngine p f).goto t pc).Housed := by
  obtain ⟨tok, htok, hlives⟩ := h.alive ho hp fun x source => hreset p x source
  obtain ⟨hgoes, -, htoken⟩ := onEngine_frame s p f
  refine h.keep (pc_goto hgoes) hreset (fun q tok' hq => ?_)
    (fun g hg => onEngine_keeps hg) (onEngine_safe htok hlives h.safe)
  exact ⟨tok', (congrFun htoken q).symm.trans hq, rfl⟩

/-- An access to the entry. -/
theorem Housed.atEntry (h : s.Housed)
    (hreset : ∀ p x source, s.pc t ≠ .releasing .reset p x source) (f : UInt64 → UInt64)
    (pc : LeasePc) : ((s.onEntry p f).goto t pc).Housed := by
  obtain ⟨hgoes, -, htoken⟩ := onEntry_frame s p f
  have hengine : (s.onEntry p f).engine = s.engine ∧
      (s.onEntry p f).deadAccess = s.deadAccess := by
    unfold onEntry
    split <;> exact ⟨rfl, rfl⟩
  refine h.keep (pc_goto hgoes) hreset (fun q tok hq => ?_) (fun g hg => ?_)
    (hengine.2.trans h.safe)
  · exact ⟨tok, (congrFun htoken q).symm.trans hq, rfl⟩
  · obtain ⟨n, hn⟩ := hg
    exact ⟨n, (congrFun hengine.1 g).trans hn⟩

/-- A step that goes to no counter. -/
theorem Housed.goto (h : s.Housed) (hreset : ∀ p x source, s.pc t ≠ .releasing .reset p x source)
    (pc : LeasePc) : (s.goto t pc).Housed :=
  h.keep rfl hreset (fun _ tok htok => ⟨tok, htok, rfl⟩) (fun _ hg => hg) h.safe

theorem Housed.reset (h : s.Housed) {x : ℕ} {source : Option ℕ}
    (hpc : s.pc t = .releasing .reset p x source) :
    ({ s with
      token := Function.update s.token p none
      held := Function.update s.held x none }.goto t (.leave x source)).Housed := by
  refine ⟨fun q tok hq => ?_, h.safe⟩
  have hq' : Function.update s.token p none q = some tok := hq
  have hqp : q ≠ p := by
    rintro rfl
    rw [Function.update_self] at hq'
    cases hq'
  rw [Function.update_of_ne hqp] at hq'
  refine (h.token q tok hq').imp_left ?_
  rintro ⟨u, y, source', hu⟩
  refine ⟨u, y, source', pc_goto_of_ne hu ?_⟩
  rw [hpc]
  rintro ⟨⟩
  exact hqp rfl

theorem Housed.advance (h : s.Housed) (ho : s.Owned) (t : ℕ) : (s.advance t (s.pc t)).Housed := by
  rcases hpc : s.pc t with _ | ⟨stage, p, x⟩ | ⟨x, source⟩ | ⟨stage, p, x, source⟩ | ⟨x, y⟩
  · exact h
  · have hp : (s.pc t).token = some p := congrArg LeasePc.token hpc
    have hreset : ∀ q y source, s.pc t ≠ .releasing .reset q y source := by
      intro q y source heq
      rw [hpc] at heq
      cases heq
    cases stage with
    | countEntry => exact h.atEntry hreset _ _
    | countEngine => exact h.atEngine ho hp hreset _ _
    | build =>
      exact h.keep rfl hreset (fun _ tok htok => ⟨tok, htok, rfl⟩) (fun _ hg => hg) h.safe
  · have hreset : ∀ q y source, s.pc t ≠ .releasing .reset q y source := by
      intro q y source heq
      rw [hpc] at heq
      cases heq
    unfold Leases.advance
    dsimp only
    split <;> exact h.goto hreset _
  · have hp : (s.pc t).token = some p := congrArg LeasePc.token hpc
    by_cases hstage : stage = .reset
    · subst hstage
      exact h.reset hpc
    · have hreset : ∀ q y source', s.pc t ≠ .releasing .reset q y source' := by
        intro q y source' heq
        rw [hpc] at heq
        cases heq
        exact hstage rfl
      cases stage with
      | exchange =>
        obtain ⟨g, a, htok⟩ := ho.unmarked hpc
        simp only [Leases.advance, htok]
        refine h.keep rfl hreset (fun q tok hq => ?_) (fun _ hg => hg) h.safe
        have hq' : Function.update s.token p (some ⟨g, a, true⟩) q = some tok := hq
        by_cases hqp : q = p
        · subst hqp
          rw [Function.update_self] at hq'
          obtain rfl := Option.some.inj hq'
          exact ⟨_, htok, rfl⟩
        · rw [Function.update_of_ne hqp] at hq'
          exact ⟨tok, hq', rfl⟩
      | loadEntry => exact h.goto hreset _
      | subEntry v =>
        unfold Leases.advance
        dsimp only
        split_ifs
        · exact h.atEntry hreset _ _
        · exact h.goto hreset _
      | loadEngine => exact h.atEngine ho hp hreset _ _
      | subEngine v =>
        unfold Leases.advance
        dsimp only
        split_ifs
        · exact h.atEngine ho hp hreset _ _
        · exact h.goto hreset _
      | reset => exact absurd rfl hstage
  · refine h.keep rfl ?_ (fun _ tok htok => ⟨tok, htok, rfl⟩) (fun _ hg => hg) h.safe
    intro q y source heq
    rw [hpc] at heq
    cases heq

/-- An orderly destruction leaves no token behind that will be taken out of a count. -/
theorem Housed.destroy (h : s.Housed) (ha : s.Accounted) {g : ℕ} (impl : Impl)
    (hunused : s.Unused g) (hzero : s.activeLeases g = 0) :
    Housed { s with engine := Function.update s.engine g (some { impl with alive := false }) } := by
  refine ⟨fun p tok htok => ?_, h.safe⟩
  rcases h.token p tok htok with hreset | ⟨n, hn⟩
  · exact .inl hreset
  · by_cases htg : tok.engine = g
    · left
      have hn0 : n = 0 := by
        rw [activeLeases, ← htg, hn] at hzero
        exact hzero
      have hnone : p ∉ s.leasesOn tok.engine := by
        intro hmem
        have hpos := counter_pos (ha.engine tok.engine n hn) hmem
        rw [hn0] at hpos
        exact absurd hpos (by decide)
      have hoff : ∃ t, (s.pc t).offEngine = some p := by
        by_contra hno
        push Not at hno
        exact hnone ⟨by rw [show s.token p = some tok from htok]; rfl, hno⟩
      obtain ⟨t, ht⟩ := hoff
      rcases hpc : s.pc t with _ | ⟨stage, q, x⟩ | ⟨x, source⟩ | ⟨stage, q, x, source⟩ | ⟨x, y⟩
      case granting =>
        exfalso
        obtain rfl : q = p := by
          have htoken := LeasePc.token_of_offEngine ht
          rw [hpc] at htoken
          exact Option.some.inj htoken
        exact hunused t stage q x tok hpc htok htg
      case releasing =>
        rw [hpc] at ht
        cases stage with
        | reset =>
          obtain rfl := Option.some.inj ht
          exact ⟨t, x, source, hpc⟩
        | _ => cases ht
      all_goals
        rw [hpc] at ht
        cases ht
    · exact .inr ⟨n, (Function.update_of_ne htg _ _).trans hn⟩

theorem Housed.next (h : s.Housed) (ho : s.Owned) (ha : s.Accounted) {ev : LeaseEvent}
    (he : s.Orderly ev) : (s.next ev).Housed := by
  have hidle : ∀ {t}, s.pc t = .idle → ∀ q y source, s.pc t ≠ .releasing .reset q y source := by
    intro t ht q y source heq
    rw [ht] at heq
    cases heq
  cases ev with
  | construct g =>
    unfold Leases.next
    dsimp only
    split_ifs with hnone
    · refine ⟨fun p tok htok => (h.token p tok htok).imp_right ?_, h.safe⟩
      rintro ⟨n, hn⟩
      have htg : tok.engine ≠ g := by
        rintro rfl
        rw [hnone] at hn
        cases hn
      exact ⟨n, (Function.update_of_ne htg _ _).trans hn⟩
    · exact h
  | destroy g =>
    unfold Leases.next
    dsimp only
    split
    · exact h.destroy ha _ he.1 he.2
    · exact h
  | makeLease t g a p x =>
    unfold Leases.next
    dsimp only
    split_ifs with hguard
    · obtain ⟨ht, halive, hp, -⟩ := hguard
      obtain ⟨⟨alive, n⟩, hg, hlives⟩ := (Option.any_eq_true _ _).mp halive
      refine ⟨fun q tok hq => ?_, h.safe⟩
      have hq' : Function.update s.token p (some ⟨g, a, false⟩) q = some tok := hq
      by_cases hqp : q = p
      · subst hqp
        rw [Function.update_self] at hq'
        obtain rfl := Option.some.inj hq'
        obtain rfl : alive = true := hlives
        exact .inr ⟨n, hg⟩
      · rw [Function.update_of_ne hqp] at hq'
        refine (h.token q tok hq').imp_left ?_
        rintro ⟨u, y, source, hu⟩
        exact ⟨u, y, source, pc_goto_of_ne hu (hidle ht q y source)⟩
    · exact h
  | release t x =>
    unfold Leases.next
    dsimp only
    split_ifs with hguard
    · exact h.goto (hidle hguard) _
    · exact h
  | moveConstruct t x y =>
    unfold Leases.next
    dsimp only
    split_ifs <;> exact ⟨h.token, h.safe⟩
  | moveAssign t x y =>
    unfold Leases.next
    dsimp only
    split_ifs with hguard
    · exact h.goto (hidle hguard.1) _
    · exact h
  | step t => exact h.advance ho t

theorem housed_run {evs : List LeaseEvent} (he : Throughout Leases.next {} Exclusive evs)
    (hd : Throughout Leases.next {} Orderly evs) : (run evs).Housed := by
  induction evs using List.reverseRecOn with
  | nil => exact housed_start
  | append_singleton evs ev ih =>
    obtain ⟨hevs, -⟩ := throughout_concat.mp he
    obtain ⟨hdevs, hdev⟩ := throughout_concat.mp hd
    rw [run, after_concat]
    exact (ih hevs hdevs).next (owned_run hevs) (accounted_run hevs) hdev

end

/-- No step reaches a dead engine, in runs that destroy engines when their leases are released. -/
theorem release_finds_alive (evs : List LeaseEvent) (he : Throughout Leases.next {} Exclusive evs)
    (hd : Throughout Leases.next {} Orderly evs) : (run evs).deadAccess = false :=
  (housed_run he hd).safe

/-- A lease on entry `7` of engine `0` is granted, and released in full. -/
def drainedRun : List LeaseEvent :=
  [.construct 0, .makeLease 0 0 7 .one 0, .step 0, .step 0, .step 0, .release 0 0, .step 0,
    .step 0, .step 0, .step 0, .step 0, .step 0, .step 0]

theorem drainedRun_unused : (run drainedRun).Unused 0 := by
  intro t stage p x tok hpc
  have howner : ∀ ev ∈ drainedRun, within (fun _ => 0) ev = true := by decide
  have hown := objects_owned howner t
  rw [hpc] at hown
  obtain rfl : 0 = t := hown x (List.mem_singleton_self x)
  have hidle : (run drainedRun).pc 0 = .idle := by decide
  rw [hidle] at hpc
  cases hpc

theorem orderly_of_no_destroy {evs : List LeaseEvent} (h : ∀ g, .destroy g ∉ evs) :
    Throughout Leases.next {} Orderly evs := by
  intro pre ev post hsplit
  cases ev with
  | destroy g => exact absurd (by simp [hsplit]) (h g)
  | _ => trivial

theorem release_finds_alive_drained : (run (drainedRun ++ [.destroy 0])).deadAccess = false := by
  refine release_finds_alive _ (exclusive_of_within (fun _ => 0) (by decide)) ?_
  refine throughout_concat.mpr ⟨orderly_of_no_destroy fun g => ?_, drainedRun_unused, by decide⟩
  simp [drainedRun]

/-- The lease is released after the engine is gone. -/
def outlivedRun : List LeaseEvent :=
  [.construct 0, .makeLease 0 0 7 .one 0, .step 0, .step 0, .step 0, .destroy 0,
    .release 0 0, .step 0, .step 0, .step 0, .step 0, .step 0]

theorem release_reaches_dead : Throughout Leases.next {} Exclusive outlivedRun ∧
    (run outlivedRun).deadAccess = true :=
  ⟨exclusive_of_within (fun _ => 0) (by decide), by decide⟩

end Leases

end GraphCache
