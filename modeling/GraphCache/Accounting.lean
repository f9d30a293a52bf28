import GraphCache.Leases
import Mathlib.Order.Interval.Finset.Nat

/-!
# Lease accounting

`lease_count` of an entry is the number of tokens that are counted there : a thread has counted the
token in, and none has taken it out (`leasesOf`); the same for `active_leases` of an engine that is
alive (`leasesOn`). The load before each decrement is a step of its own, so another thread may come
in between. It does not matter : the token of the releasing thread is still counted, so that both
what was loaded and what is decremented is positive (`leases_exact`).
-/

namespace GraphCache

namespace LeasePc

/-- The token that is not counted in `lease_count` : not yet, or no longer. -/
def offEntry : LeasePc → Option Address
  | .granting .countEntry p _ => some p
  | .releasing .loadEngine p _ _ | .releasing (.subEngine _) p _ _ | .releasing .reset p _ _ => some p
  | _ => none

/-- The token that is not counted in `active_leases`. -/
def offEngine : LeasePc → Option Address
  | .granting .countEntry p _ | .granting .countEngine p _ => some p
  | .releasing .reset p _ _ => some p
  | _ => none

theorem token_of_offEntry {pc : LeasePc} {p : Address} (h : pc.offEntry = some p) :
    pc.token = some p := by
  unfold offEntry at h
  split at h
  · exact h
  · exact h
  · exact h
  · exact h
  · cases h

theorem token_of_offEngine {pc : LeasePc} {p : Address} (h : pc.offEngine = some p) :
    pc.token = some p := by
  unfold offEngine at h
  split at h
  · exact h
  · exact h
  · exact h
  · cases h

end LeasePc

theorem address_toNat_inj {p q : Address} (h : p.1.toNat = q.1.toNat) : p = q :=
  Subtype.ext (UInt64.toNat_inj.mp h)

instance : Finite Address :=
  Finite.of_injective (fun p : Address => (⟨p.1.toNat, p.1.toNat_lt⟩ : Fin (2 ^ 64)))
    fun _ _ h => address_toNat_inj (Fin.mk.inj h)

/-- There are fewer objects than values of a counter. -/
theorem ncard_address_lt (S : Set Address) : S.ncard < 2 ^ 64 := by
  have hle : S.ncard ≤ ((Finset.Ico 1 (2 ^ 64) : Finset ℕ) : Set ℕ).ncard := by
    refine Set.ncard_le_ncard_of_injOn (fun p : Address => p.1.toNat) ?_ ?_ (Finset.finite_toSet _)
    · intro p _
      have hne : p.1.toNat ≠ 0 := fun h => p.2 (UInt64.toNat_inj.mp h)
      exact Finset.mem_coe.mpr (Finset.mem_Ico.mpr ⟨Nat.one_le_iff_ne_zero.mpr hne, p.1.toNat_lt⟩)
    · intro p _ q _ hpq
      exact address_toNat_inj hpq
  rw [Set.ncard_coe_finset, Nat.card_Ico] at hle
  omega

namespace Leases

open History

/-- A counter of tokens by what they name, and the token that a thread has out of the count. -/
structure Count where
  name : Token → ℕ
  off : LeasePc → Option Address
  token_of_off : ∀ pc p, off pc = some p → pc.token = some p

def entryCount : Count := ⟨Token.entry, LeasePc.offEntry, fun _ _ => LeasePc.token_of_offEntry⟩

def engineCount : Count := ⟨Token.engine, LeasePc.offEngine, fun _ _ => LeasePc.token_of_offEngine⟩

/-- The tokens that name `a` and are counted. -/
def counted (c : Count) (s : Leases) (a : ℕ) : Set Address :=
  { p | (s.token p).map c.name = some a ∧ ∀ t, c.off (s.pc t) ≠ some p }

/-- The leases on an entry that are granted and not yet released. -/
def leasesOf (s : Leases) (a : ℕ) : Set Address := s.counted entryCount a

/-- The leases of an engine that are granted and not yet released. -/
def leasesOn (s : Leases) (g : ℕ) : Set Address := s.counted engineCount g

section

variable (c : Count) {s s' : Leases} {t a : ℕ} {p q : Address} {pc : LeasePc}

/-- A step of thread `t` to `pc`, which has the token `p` in its hands and no other. -/
structure InHand (s s' : Leases) (t : ℕ) (p : Address) (pc : LeasePc) : Prop where
  goes : s'.pc = Function.update s.pc t pc
  sole : ∀ u, u ≠ t → (s.pc u).token ≠ some p
  before : ∀ q, (s.pc t).token = some q → q = p
  after : ∀ q, pc.token = some q → q = p
  token : ∀ q, q ≠ p → s'.token q = s.token q

theorem mem_counted_self (hsole : ∀ u, u ≠ t → (s.pc u).token ≠ some p) :
    p ∈ s.counted c a ↔ (s.token p).map c.name = some a ∧ c.off (s.pc t) ≠ some p := by
  refine and_congr_right fun _ => ⟨fun h => h t, fun h u => ?_⟩
  by_cases hu : u = t
  · rwa [hu]
  · exact fun hself => hsole u hu (c.token_of_off _ _ hself)

/-- A step changes the count by the token in hand at most. -/
theorem InHand.mem_counted (h : InHand s s' t p pc) : q ∈ s'.counted c a ↔
    if q = p then (s'.token p).map c.name = some a ∧ c.off pc ≠ some p else q ∈ s.counted c a := by
  have hsole : ∀ u, u ≠ t → (s'.pc u).token ≠ some p := by
    intro u hu
    rw [h.goes, Function.update_of_ne hu]
    exact h.sole u hu
  split_ifs with hq
  · rw [hq, mem_counted_self c hsole, h.goes, Function.update_self]
  · refine and_congr ?_ (forall_congr' fun u => ?_)
    · rw [h.token q hq]
    · rw [h.goes]
      by_cases hu : u = t
      · subst hu
        rw [Function.update_self]
        exact ⟨fun _ hself => hq (h.before q (c.token_of_off _ _ hself)),
          fun _ hself => hq (h.after q (c.token_of_off _ _ hself))⟩
      · rw [Function.update_of_ne hu]

theorem InHand.counted_same (h : InHand s s' t p pc)
    (hp : ((s'.token p).map c.name = some a ∧ c.off pc ≠ some p) ↔
      (s.token p).map c.name = some a ∧ c.off (s.pc t) ≠ some p) :
    s'.counted c a = s.counted c a := by
  ext q
  rw [h.mem_counted c]
  split_ifs with hq
  · rw [hq, mem_counted_self c h.sole, hp]
  · rfl

theorem InHand.counted_insert (h : InHand s s' t p pc)
    (hname : (s'.token p).map c.name = some a)
    (hout : c.off (s.pc t) = some p) (hin : c.off pc ≠ some p) :
    s'.counted c a = insert p (s.counted c a) ∧ p ∉ s.counted c a := by
  refine ⟨?_, fun hp => hp.2 t hout⟩
  ext q
  rw [h.mem_counted c, Set.mem_insert_iff]
  split_ifs with hq
  · exact ⟨fun _ => .inl hq, fun _ => ⟨hname, hin⟩⟩
  · exact ⟨.inr, fun hor => hor.resolve_left hq⟩

theorem InHand.counted_remove (h : InHand s s' t p pc)
    (hname : (s.token p).map c.name = some a)
    (hin : c.off (s.pc t) ≠ some p) (hout : c.off pc = some p) :
    s'.counted c a = s.counted c a \ {p} ∧ p ∈ s.counted c a := by
  refine ⟨?_, (mem_counted_self c h.sole).mpr ⟨hname, hin⟩⟩
  ext q
  rw [h.mem_counted c, Set.mem_sdiff, Set.mem_singleton_iff]
  split_ifs with hq
  · exact ⟨fun hp => absurd hout hp.2, fun hp => absurd hq hp.2⟩
  · exact ⟨fun hp => ⟨hp, hq⟩, fun hp => hp.1⟩

/-- Another name does not change. -/
theorem InHand.counted_other (h : InHand s s' t p pc)
    (hname : (s.token p).map c.name ≠ some a)
    (hname' : (s'.token p).map c.name ≠ some a) :
    s'.counted c a = s.counted c a :=
  h.counted_same c ⟨fun hp => absurd hp.1 hname', fun hp => absurd hp.1 hname⟩

/-- A step of a thread without a token in its hands. -/
theorem counted_handless (hgoes : s'.pc = Function.update s.pc t pc) (htoken : s'.token = s.token)
    (hbefore : (s.pc t).token = none) (hafter : pc.token = none) :
    s'.counted c a = s.counted c a := by
  ext q
  refine and_congr (by rw [htoken]) (forall_congr' fun u => ?_)
  rw [hgoes]
  by_cases hu : u = t
  · subst hu
    rw [Function.update_self]
    have hnone : ∀ pc : LeasePc, pc.token = none → c.off pc ≠ some q := by
      intro pc hpc hself
      rw [c.token_of_off _ _ hself] at hpc
      cases hpc
    exact ⟨fun _ => hnone _ hbefore, fun _ => hnone _ hafter⟩
  · rw [Function.update_of_ne hu]

/-! ## Counters -/

theorem counter_insert {n : UInt64} {S : Set Address} (h : n.toNat = S.ncard) (hp : p ∉ S) :
    (n + 1).toNat = (insert p S).ncard := by
  have hlt := ncard_address_lt (insert p S)
  rw [Set.ncard_insert_of_notMem hp] at hlt ⊢
  rw [UInt64.toNat_add, ← h]
  simp only [UInt64.toNat_one]
  omega

theorem counter_pos {n : UInt64} {S : Set Address} (h : n.toNat = S.ncard) (hp : p ∈ S) : 0 < n := by
  rw [UInt64.lt_iff_toNat_lt, h]
  exact (Set.ncard_pos).mpr ⟨p, hp⟩

theorem counter_remove {n : UInt64} {S : Set Address} (h : n.toNat = S.ncard) (hp : p ∈ S) :
    (n - 1).toNat = (S \ {p}).ncard := by
  have hpos := counter_pos h hp
  rw [UInt64.toNat_sub_of_le _ _ (UInt64.le_iff_toNat_le.mpr ?_), h,
    Set.ncard_sdiff_singleton_of_mem hp]
  · rfl
  · exact UInt64.lt_iff_toNat_lt.mp hpos

/-- A `fetch_add` that counts the token in hand in. -/
theorem InHand.fetchAdd (h : InHand s s' t p pc) {tok : Token} (htok : s.token p = some tok)
    (htok' : s'.token p = some tok) (hout : c.off (s.pc t) = some p) (hin : c.off pc ≠ some p)
    {n : UInt64} (hn : n.toNat = (s.counted c a).ncard) :
    (if a = c.name tok then n + 1 else n).toNat = (s'.counted c a).ncard := by
  split_ifs with hname
  · subst hname
    obtain ⟨hinsert, hnot⟩ := h.counted_insert c (by rw [htok', Option.map_some]) hout hin
    rw [hinsert]
    exact counter_insert hn hnot
  · have hne : ∀ o, o = some tok → Option.map c.name o ≠ some a := by
      rintro o rfl heq
      exact hname (Option.some.inj heq).symm
    rw [h.counted_other c (hne _ htok) (hne _ htok')]
    exact hn

/-- A `fetch_sub` that takes the token in hand out of the count. -/
theorem InHand.fetchSub (h : InHand s s' t p pc) {tok : Token} (htok : s.token p = some tok)
    (htok' : s'.token p = some tok) (hin : c.off (s.pc t) ≠ some p) (hout : c.off pc = some p)
    {n : UInt64} (hn : n.toNat = (s.counted c a).ncard) :
    (if a = c.name tok then n - 1 else n).toNat = (s'.counted c a).ncard := by
  split_ifs with hname
  · subst hname
    obtain ⟨hremove, hmem⟩ := h.counted_remove c (by rw [htok, Option.map_some]) hin hout
    rw [hremove]
    exact counter_remove hn hmem
  · have hne : ∀ o, o = some tok → Option.map c.name o ≠ some a := by
      rintro o rfl heq
      exact hname (Option.some.inj heq).symm
    rw [h.counted_other c (hne _ htok) (hne _ htok')]
    exact hn

/-! ## The invariant -/

/-- What a load returned before a decrement is positive, as long as the engine is alive. -/
def Loaded (s : Leases) : LeasePc → Prop
  | .releasing (.subEntry v) _ _ _ => 0 < v
  | .releasing (.subEngine v) p _ _ =>
    ∀ tok n, s.token p = some tok → s.engine tok.engine = some ⟨true, n⟩ → 0 < v
  | _ => True

/-- The counters count. -/
structure Accounted (s : Leases) : Prop where
  entry : ∀ a, (s.leaseCount a).toNat = (s.leasesOf a).ncard
  engine : ∀ g n, s.engine g = some ⟨true, n⟩ → n.toNat = (s.leasesOn g).ncard
  known : ∀ p tok, s.token p = some tok → s.engine tok.engine ≠ none
  loaded : ∀ t, s.Loaded (s.pc t)

theorem accounted_start : Accounted {} := by
  have hnone : ∀ c a, counted c {} a = ∅ := by
    intro c a
    exact Set.eq_empty_of_forall_notMem fun p hp => nomatch hp.1
  refine ⟨fun a => ?_, fun g n h => ?_, fun p tok h => ?_, fun t => trivial⟩
  · rw [leasesOf, hnone, Set.ncard_empty]
    rfl
  · cases h
  · cases h

/-- Nothing is loaded anew where engines and tokens stay. -/
theorem Loaded.mono (h : s.Loaded pc)
    (hengine : ∀ g n, s'.engine g = some ⟨true, n⟩ → s.engine g = none ∨
      ∃ m, s.engine g = some ⟨true, m⟩)
    (htoken : ∀ p, pc.token = some p → s'.token p = s.token p)
    (hknown : ∀ p tok, s.token p = some tok → s.engine tok.engine ≠ none) : s'.Loaded pc := by
  unfold Loaded at h ⊢
  split at h
  · exact h
  · intro tok n htok halive
    rw [htoken _ rfl] at htok
    rcases hengine _ n halive with hnone | ⟨m, hm⟩
    · exact absurd hnone (hknown _ tok htok)
    · exact h tok m htok hm
  · trivial

/-- A step that goes to no counter. -/
theorem Accounted.silent (ha : s.Accounted) (hcount : s'.leaseCount = s.leaseCount)
    (hengine : s'.engine = s.engine) (hof : ∀ a, s'.leasesOf a = s.leasesOf a)
    (hon : ∀ g, s'.leasesOn g = s.leasesOn g)
    (hknown : ∀ p tok, s'.token p = some tok → s.engine tok.engine ≠ none)
    (hloaded : ∀ t, s'.Loaded (s'.pc t)) : s'.Accounted := by
  refine ⟨fun a => ?_, fun g n hg => ?_, ?_, hloaded⟩
  · rw [hcount, hof]
    exact ha.entry a
  · rw [hon]
    exact ha.engine g n (hengine ▸ hg)
  · rw [hengine]
    exact hknown

/-- What the other threads loaded is not affected by a step. -/
theorem InHand.loaded (h : InHand s s' t p pc) (ha : s.Accounted)
    (hengine : ∀ g n, s'.engine g = some ⟨true, n⟩ → s.engine g = none ∨
      ∃ m, s.engine g = some ⟨true, m⟩)
    (hself : s'.Loaded pc) (u : ℕ) : s'.Loaded (s'.pc u) := by
  rw [h.goes]
  by_cases hu : u = t
  · subst hu
    rw [Function.update_self]
    exact hself
  · rw [Function.update_of_ne hu]
    refine (ha.loaded u).mono hengine (fun q hq => h.token q ?_) ha.known
    rintro rfl
    exact h.sole u hu hq

/-! ## Steps -/

/-- The token in the hands of a thread. -/
theorem Owned.inHand (h : s.Owned) (hp : (s.pc t).token = some p)
    (hgoes : s'.pc = Function.update s.pc t pc) (hafter : ∀ q, pc.token = some q → q = p)
    (htoken : ∀ q, q ≠ p → s'.token q = s.token q) : InHand s s' t p pc :=
  ⟨hgoes, h.sole hp, fun _ hq => Option.some.inj (hq.symm.trans hp), hafter, htoken⟩

/-- A step that goes to `lease_count`. -/
theorem Accounted.atEntry (ha : s.Accounted) {f : UInt64 → UInt64} (hs : s' = (s.onEntry p f).goto t pc)
    (hhand : InHand s s' t p pc) {tok : Token} (htok : s.token p = some tok)
    (hof : ∀ a, (if a = tok.entry then f (s.leaseCount a) else s.leaseCount a).toNat =
      (s'.leasesOf a).ncard) (hon : ∀ g, s'.leasesOn g = s.leasesOn g) (hself : s'.Loaded pc) :
    s'.Accounted := by
  have hframe : s'.engine = s.engine ∧ s'.token = s.token ∧ s'.leaseCount =
      Function.update s.leaseCount tok.entry (f (s.leaseCount tok.entry)) := by
    rw [hs, onEntry, htok]
    exact ⟨rfl, rfl, rfl⟩
  obtain ⟨hengine, htoken, hcount⟩ := hframe
  refine ⟨fun a => ?_, fun g n hg => ?_, ?_, hhand.loaded ha (fun g n hg => ?_) hself⟩
  · rw [← hof a, hcount, Function.update_apply]
    split_ifs with hname
    · rw [hname]
    · rfl
  · rw [hon]
    exact ha.engine g n (hengine ▸ hg)
  · rw [hengine, htoken]
    exact ha.known
  · exact .inr ⟨n, hengine ▸ hg⟩

/-- What an access to an engine does to the engines that are alive. -/
theorem onEngine_alive {f : UInt64 → UInt64} {tok : Token} (htok : s.token p = some tok) {g : ℕ}
    {n : UInt64} (h : (s.onEngine p f).engine g = some ⟨true, n⟩) :
    ∃ m, s.engine g = some ⟨true, m⟩ ∧ n = if g = tok.engine then f m else m := by
  unfold onEngine at h
  rw [htok] at h
  dsimp only at h
  split at h
  · rename_i m halive
    dsimp only at h
    by_cases hg : g = tok.engine
    · subst hg
      rw [Function.update_self] at h
      cases h
      exact ⟨m, halive, (if_pos rfl).symm⟩
    · rw [Function.update_of_ne hg] at h
      exact ⟨n, h, (if_neg hg).symm⟩
  · rename_i hdead
    have hg : g ≠ tok.engine := by
      rintro rfl
      exact hdead n h
    exact ⟨n, h, (if_neg hg).symm⟩

theorem onEngine_none {f : UInt64 → UInt64} {g : ℕ} (h : s.engine g ≠ none) :
    (s.onEngine p f).engine g ≠ none := by
  unfold onEngine
  split
  · exact h
  · rename_i tok _
    split
    · dsimp only
      by_cases hg : g = tok.engine
      · subst hg
        rw [Function.update_self]
        exact nofun
      · rw [Function.update_of_ne hg]
        exact h
    · exact h

/-- A step that goes to `active_leases`. -/
theorem Accounted.atEngine (ha : s.Accounted) {f : UInt64 → UInt64}
    (hs : s' = (s.onEngine p f).goto t pc) (hhand : InHand s s' t p pc) {tok : Token}
    (htok : s.token p = some tok) (hof : ∀ a, s'.leasesOf a = s.leasesOf a)
    (hon : ∀ g n, s.engine g = some ⟨true, n⟩ →
      (if g = tok.engine then f n else n).toNat = (s'.leasesOn g).ncard)
    (hself : s'.Loaded pc) : s'.Accounted := by
  have hengine : s'.engine = (s.onEngine p f).engine := by
    rw [hs]
    rfl
  have hcount : s'.leaseCount = s.leaseCount := by
    rw [hs]
    show (s.onEngine p f).leaseCount = s.leaseCount
    unfold onEngine
    split
    · rfl
    · split <;> rfl
  refine ⟨fun a => ?_, fun g n hg => ?_, fun q tok' hq => ?_, hhand.loaded ha (fun g n hg => ?_) hself⟩
  · rw [hcount, hof]
    exact ha.entry a
  · rw [hengine] at hg
    obtain ⟨m, hm, rfl⟩ := onEngine_alive htok hg
    exact hon g m hm
  · rw [hengine]
    have htoken : s'.token = s.token := by
      rw [hs]
      exact (onEngine_frame s p f).2.2
    exact onEngine_none (ha.known q tok' (htoken ▸ hq))
  · rw [hengine] at hg
    obtain ⟨m, hm, -⟩ := onEngine_alive htok hg
    exact .inr ⟨m, hm⟩

variable (pc) in
/-- A thread goes on with its token in its hands. -/
theorem Owned.goes (h : s.Owned) (hp : (s.pc t).token = some p) (hafter : pc.token = some p)
    {s₁ : Leases} (hgoes : s₁.pc = s.pc) (htoken : s₁.token = s.token) :
    InHand s (s₁.goto t pc) t p pc := by
  refine h.inHand hp (pc_goto hgoes) (fun q hq => ?_) fun q _ => congrFun htoken q
  exact Option.some.inj (hq.symm.trans hafter)

/-- Where the token keeps its names and its place, nothing is counted in or out. -/
theorem InHand.counted_keep (h : InHand s s' t p pc)
    (hname : (s'.token p).map c.name = (s.token p).map c.name) (hoff : c.off pc = c.off (s.pc t)) :
    s'.counted c a = s.counted c a := by
  refine h.counted_same c ?_
  rw [hname, hoff]

variable {pc₀ : LeasePc}

/-- A fetch on `lease_count`, from `pc₀` to `pc`. -/
theorem Accounted.fetchEntry (ha : s.Accounted) (h : s.Owned) {f : UInt64 → UInt64}
    (hpc : s.pc t = pc₀) (hp : pc₀.token = some p) (hafter : pc.token = some p)
    (hoff : pc.offEngine = pc₀.offEngine) (hself : ((s.onEntry p f).goto t pc).Loaded pc)
    (hcount : ∀ {tok a n} {s' : Leases}, InHand s s' t p pc → s.token p = some tok →
      s'.token p = some tok → n.toNat = (s.leasesOf a).ncard →
      (if a = tok.entry then f n else n).toNat = (s'.leasesOf a).ncard) :
    ((s.onEntry p f).goto t pc).Accounted := by
  subst hpc
  obtain ⟨tok, htok⟩ := h.live_token hp
  obtain ⟨hgoes, -, htoken⟩ := onEntry_frame s p f
  have hhand := h.goes pc hp hafter hgoes htoken
  refine ha.atEntry rfl hhand htok (fun a => ?_) (fun g => ?_) hself
  · exact hcount hhand htok ((congrFun htoken p).trans htok) (ha.entry a)
  · exact hhand.counted_keep engineCount (congrArg _ (congrFun htoken p)) hoff

/-- A fetch on `active_leases`. -/
theorem Accounted.fetchEngine (ha : s.Accounted) (h : s.Owned) {f : UInt64 → UInt64}
    (hpc : s.pc t = pc₀) (hp : pc₀.token = some p) (hafter : pc.token = some p)
    (hoff : pc.offEntry = pc₀.offEntry) (hself : ((s.onEngine p f).goto t pc).Loaded pc)
    (hcount : ∀ {tok g n} {s' : Leases}, InHand s s' t p pc → s.token p = some tok →
      s'.token p = some tok → n.toNat = (s.leasesOn g).ncard →
      (if g = tok.engine then f n else n).toNat = (s'.leasesOn g).ncard) :
    ((s.onEngine p f).goto t pc).Accounted := by
  subst hpc
  obtain ⟨tok, htok⟩ := h.live_token hp
  obtain ⟨hgoes, -, htoken⟩ := onEngine_frame s p f
  have hhand := h.goes pc hp hafter hgoes htoken
  refine ha.atEngine rfl hhand htok (fun a => ?_) (fun g n hg => ?_) hself
  · exact hhand.counted_keep entryCount (congrArg _ (congrFun htoken p)) hoff
  · exact hcount hhand htok ((congrFun htoken p).trans htok) (ha.engine g n hg)

/-- `lease_count.fetch_add(1)`. -/
theorem Accounted.countEntry (ha : s.Accounted) (h : s.Owned) {x : ℕ}
    (hpc : s.pc t = .granting .countEntry p x) :
    ((s.onEntry p (· + 1)).goto t (.granting .countEngine p x)).Accounted := by
  have hout : (s.pc t).offEntry = some p := congrArg LeasePc.offEntry hpc
  refine ha.fetchEntry h hpc rfl rfl rfl trivial fun hhand htok htok' hn => ?_
  exact hhand.fetchAdd entryCount htok htok' hout nofun hn

/-- `active_leases.fetch_add(1)`. -/
theorem Accounted.countEngine (ha : s.Accounted) (h : s.Owned) {x : ℕ}
    (hpc : s.pc t = .granting .countEngine p x) :
    ((s.onEngine p (· + 1)).goto t (.granting .build p x)).Accounted := by
  have hout : (s.pc t).offEngine = some p := congrArg LeasePc.offEngine hpc
  refine ha.fetchEngine h hpc rfl rfl rfl trivial fun hhand htok htok' hn => ?_
  exact hhand.fetchAdd engineCount htok htok' hout nofun hn

/-- `lease_count.fetch_sub(1)`. -/
theorem Accounted.subEntry (ha : s.Accounted) (h : s.Owned) {v : UInt64} {x : ℕ}
    {source : Option ℕ} (hpc : s.pc t = .releasing (.subEntry v) p x source) :
    ((s.onEntry p (· - 1)).goto t (.releasing .loadEngine p x source)).Accounted := by
  have hin : (s.pc t).offEntry ≠ some p := by
    rw [hpc]
    exact nofun
  refine ha.fetchEntry h hpc rfl rfl rfl trivial fun hhand htok htok' hn => ?_
  exact hhand.fetchSub entryCount htok htok' hin rfl hn

/-- `active_leases.fetch_sub(1)`. -/
theorem Accounted.subEngine (ha : s.Accounted) (h : s.Owned) {v : UInt64} {x : ℕ}
    {source : Option ℕ} (hpc : s.pc t = .releasing (.subEngine v) p x source) :
    ((s.onEngine p (· - 1)).goto t (.releasing .reset p x source)).Accounted := by
  have hin : (s.pc t).offEngine ≠ some p := by
    rw [hpc]
    exact nofun
  refine ha.fetchEngine h hpc rfl rfl rfl trivial fun hhand htok htok' hn => ?_
  exact hhand.fetchSub engineCount htok htok' hin rfl hn

/-- A step of a thread with a token that counts nothing in or out. -/
theorem Accounted.keep (ha : s.Accounted) (hhand : InHand s s' t p pc)
    (hcount : s'.leaseCount = s.leaseCount) (hengine : s'.engine = s.engine)
    (hof : ∀ a, s'.leasesOf a = s.leasesOf a) (hon : ∀ g, s'.leasesOn g = s.leasesOn g)
    (hknown : ∀ tok, s'.token p = some tok → s.engine tok.engine ≠ none) (hself : s'.Loaded pc) :
    s'.Accounted := by
  refine ha.silent hcount hengine hof hon ?_ (hhand.loaded ha (fun g n hg => ?_) hself)
  · intro q tok hq
    by_cases hqp : q = p
    · subst hqp
      exact hknown tok hq
    · rw [hhand.token q hqp] at hq
      exact ha.known q tok hq
  · exact .inr ⟨n, hengine ▸ hg⟩

/-- A thread that has its token in its hands loads, or gives the token away. -/
theorem Accounted.goes (ha : s.Accounted) (h : s.Owned) (hp : (s.pc t).token = some p)
    (hpc : s'.pc = Function.update s.pc t pc) (hafter : ∀ q, pc.token = some q → q = p)
    (htoken : s'.token = s.token) (hcount : s'.leaseCount = s.leaseCount)
    (hengine : s'.engine = s.engine) (hoff : pc.offEntry = (s.pc t).offEntry)
    (hoff' : pc.offEngine = (s.pc t).offEngine) (hself : s'.Loaded pc) : s'.Accounted := by
  have hhand : InHand s s' t p pc := h.inHand hp hpc hafter fun q _ => congrFun htoken q
  refine ha.keep hhand hcount hengine (fun a => ?_) (fun g => ?_) (fun tok hq => ?_) hself
  · exact hhand.counted_keep entryCount (congrArg _ (congrFun htoken p)) hoff
  · exact hhand.counted_keep engineCount (congrArg _ (congrFun htoken p)) hoff'
  · exact ha.known p tok (htoken ▸ hq)

/-- A step of a thread that has no token, nor gets one. -/
theorem Accounted.handless (ha : s.Accounted) (hbefore : (s.pc t).token = none)
    (hafter : pc.token = none) (hpc : s'.pc = Function.update s.pc t pc) (htoken : s'.token = s.token)
    (hcount : s'.leaseCount = s.leaseCount) (hengine : s'.engine = s.engine) : s'.Accounted := by
  refine ha.silent hcount hengine (fun a => ?_) (fun g => ?_) (fun q tok hq => ?_) (fun u => ?_)
  · exact counted_handless entryCount hpc htoken hbefore hafter
  · exact counted_handless engineCount hpc htoken hbefore hafter
  · exact ha.known q tok (htoken ▸ hq)
  · rw [hpc]
    by_cases hu : u = t
    · subst hu
      rw [Function.update_self]
      cases pc with
      | releasing => cases hafter
      | _ => trivial
    · rw [Function.update_of_ne hu]
      exact (ha.loaded u).mono (fun g n hg => .inr ⟨n, hengine ▸ hg⟩) (fun q _ => congrFun htoken q)
        ha.known

/-- A new token is not counted yet. -/
theorem Accounted.makeLease (ha : s.Accounted) (h : s.Owned) {g x : ℕ} (hidle : s.pc t = .idle)
    (halive : (s.engine g).any Impl.alive = true) (hp : s.token p = none) :
    ({ s with token := Function.update s.token p (some ⟨g, a, false⟩) }.goto t
      (.granting .countEntry p x)).Accounted := by
  have hhand : InHand s ({ s with token := Function.update s.token p (some ⟨g, a, false⟩) }.goto t
      (.granting .countEntry p x)) t p (.granting .countEntry p x) := by
    refine ⟨rfl, ?_, ?_, fun q hq => (Option.some.inj hq).symm, fun q hq => Function.update_of_ne hq _ _⟩
    · intro u _ hu
      obtain ⟨tok, htok⟩ := h.live_token hu
      rw [hp] at htok
      cases htok
    · intro q hq
      rw [hidle] at hq
      cases hq
  refine ha.keep hhand rfl rfl (fun b => ?_) (fun b => ?_) (fun tok htok => ?_) trivial
  · refine hhand.counted_same entryCount ⟨fun hself => absurd rfl hself.2, fun hself => ?_⟩
    rw [hp] at hself
    cases hself.1
  · refine hhand.counted_same engineCount ⟨fun hself => absurd rfl hself.2, fun hself => ?_⟩
    rw [hp] at hself
    cases hself.1
  · have htok' : Function.update s.token p (some ⟨g, a, false⟩) p = some tok := htok
    rw [Function.update_self] at htok'
    obtain rfl := Option.some.inj htok'
    intro hnone
    rw [show s.engine g = none from hnone] at halive
    cases halive

theorem Accounted.enter (ha : s.Accounted) (h : s.Owned) {x : ℕ} {source : Option ℕ}
    (hpc : s.pc t = .entering x source) : (s.advance t (.entering x source)).Accounted := by
  have hbefore : (s.pc t).token = none := by
    rw [hpc]
    rfl
  unfold Leases.advance
  dsimp only
  cases hx : s.held x with
  | none => exact ha.handless hbefore (by cases source <;> rfl) rfl rfl rfl rfl
  | some p =>
    dsimp only
    have hfree : s.Free t x := h.free (by simp [hpc, LeasePc.objects])
    have hhand : InHand s (s.goto t (.releasing .exchange p x source)) t p
        (.releasing .exchange p x source) := by
      refine ⟨rfl, h.sole_held hx hfree, fun q hq => ?_, fun q hq => (Option.some.inj hq).symm,
        fun _ _ => rfl⟩
      rw [hbefore] at hq
      cases hq
    refine ha.keep hhand rfl rfl (fun b => ?_) (fun b => ?_) (fun tok htok => ha.known p tok htok)
      trivial
    · refine hhand.counted_keep entryCount rfl ?_
      rw [hpc]
      rfl
    · refine hhand.counted_keep engineCount rfl ?_
      rw [hpc]
      rfl

/-- The exchange succeeds : nobody else releases the token. -/
theorem Owned.unmarked (h : s.Owned) {x : ℕ} {source : Option ℕ}
    (hpc : s.pc t = .releasing .exchange p x source) :
    ∃ g a, s.token p = some ⟨g, a, false⟩ := by
  have hfits := h.fits t
  rw [hpc] at hfits
  obtain ⟨tok, htok⟩ := h.live x p hfits.1
  refine ⟨tok.engine, tok.entry, ?_⟩
  rcases tok with ⟨g, a, marked⟩
  cases marked with
  | false => exact htok
  | true =>
    obtain ⟨u, stage, source', hu, hne⟩ := h.marked x p _ hfits.1 htok rfl
    obtain rfl := h.unique u t p (by rw [hu]; rfl) (by rw [hpc]; rfl)
    rw [hpc] at hu
    cases hu
    exact absurd rfl hne

theorem Accounted.exchange (ha : s.Accounted) (h : s.Owned) {x : ℕ} {source : Option ℕ}
    (hpc : s.pc t = .releasing .exchange p x source) :
    (s.advance t (.releasing .exchange p x source)).Accounted := by
  obtain ⟨g, a, htok⟩ := h.unmarked hpc
  have hp : (s.pc t).token = some p := congrArg LeasePc.token hpc
  have hgoes : s.advance t (.releasing .exchange p x source) =
      { s with token := Function.update s.token p (some ⟨g, a, true⟩) }.goto t
        (.releasing .loadEntry p x source) := by
    simp only [Leases.advance, htok]
  rw [hgoes]
  have hhand : InHand s ({ s with token := Function.update s.token p (some ⟨g, a, true⟩) }.goto t
      (.releasing .loadEntry p x source)) t p (.releasing .loadEntry p x source) :=
    h.inHand hp rfl (fun q hq => (Option.some.inj hq).symm) fun q hq => Function.update_of_ne hq _ _
  have hself : ∀ c : Count, (∀ b, c.name ⟨g, a, b⟩ = c.name ⟨g, a, false⟩) →
      (Function.update s.token p (some ⟨g, a, true⟩) p).map c.name = (s.token p).map c.name := by
    intro c hc
    rw [Function.update_self, htok, Option.map_some, Option.map_some, hc]
  refine ha.keep hhand rfl rfl (fun b => ?_) (fun b => ?_) (fun tok hq => ?_) trivial
  · refine hhand.counted_keep entryCount (hself _ fun _ => rfl) ?_
    rw [hpc]
    rfl
  · refine hhand.counted_keep engineCount (hself _ fun _ => rfl) ?_
    rw [hpc]
    rfl
  · have hq' : Function.update s.token p (some ⟨g, a, true⟩) p = some tok := hq
    rw [Function.update_self] at hq'
    obtain rfl := Option.some.inj hq'
    exact ha.known p ⟨g, a, false⟩ htok

/-- The token of a thread before its decrement is counted. -/
theorem Owned.positive (c : Count) (h : s.Owned) (hp : (s.pc t).token = some p)
    (hin : c.off (s.pc t) ≠ some p) {tok : Token} (htok : s.token p = some tok) {n : UInt64}
    (hn : n.toNat = (s.counted c (c.name tok)).ncard) : 0 < n := by
  refine counter_pos (p := p) hn ((mem_counted_self c (h.sole hp)).mpr ⟨?_, hin⟩)
  rw [htok]
  rfl

theorem Accounted.loadEntry (ha : s.Accounted) (h : s.Owned) {x : ℕ} {source : Option ℕ}
    (hpc : s.pc t = .releasing .loadEntry p x source) :
    (s.goto t (.releasing (.subEntry (s.loadEntry p)) p x source)).Accounted := by
  have hp : (s.pc t).token = some p := congrArg LeasePc.token hpc
  obtain ⟨tok, htok⟩ := h.live_token hp
  have hload : s.loadEntry p = s.leaseCount tok.entry := by
    rw [Leases.loadEntry, htok]
  refine ha.goes h hp rfl (fun q hq => (Option.some.inj hq).symm) rfl rfl rfl ?_ ?_ ?_
  · rw [hpc]
    rfl
  · rw [hpc]
    rfl
  · rw [Loaded, hload]
    exact h.positive entryCount hp (by rw [hpc]; nofun) htok (ha.entry tok.entry)

theorem Accounted.loadEngine (ha : s.Accounted) (h : s.Owned) {x : ℕ} {source : Option ℕ}
    (hpc : s.pc t = .releasing .loadEngine p x source) :
    ((s.onEngine p id).goto t (.releasing (.subEngine (s.loadEngine p)) p x source)).Accounted := by
  have hin : (s.pc t).offEngine ≠ some p := by
    rw [hpc]
    exact nofun
  refine ha.fetchEngine h hpc rfl rfl rfl ?_ fun {tok g n s'} hhand htok htok' hn => ?_
  · intro tok n htok' halive
    have htok : s.token p = some tok := (congrFun (onEngine_frame s p id).2.2 p).symm.trans htok'
    obtain ⟨m, hm, -⟩ := onEngine_alive htok halive
    have hload : s.loadEngine p = m := by
      rw [Leases.loadEngine, htok]
      dsimp only
      rw [hm]
      rfl
    rw [hload]
    exact h.positive engineCount (congrArg LeasePc.token hpc) hin htok (ha.engine tok.engine m hm)
  · have hkeep : s'.leasesOn g = s.leasesOn g :=
      hhand.counted_keep engineCount (congrArg _ (htok'.trans htok.symm))
        (congrArg LeasePc.offEngine hpc).symm
    rw [hkeep]
    split_ifs <;> exact hn

/-- Nothing is taken out of a count where the load returned zero, which only a dead engine gives. -/
theorem Accounted.skipEngine (ha : s.Accounted) (h : s.Owned) {v : UInt64} {x : ℕ}
    {source : Option ℕ} (hpc : s.pc t = .releasing (.subEngine v) p x source) (hv : ¬v > 0) :
    (s.goto t (.releasing .reset p x source)).Accounted := by
  have hp : (s.pc t).token = some p := congrArg LeasePc.token hpc
  obtain ⟨tok, htok⟩ := h.live_token hp
  have hhand : InHand s (s.goto t (.releasing .reset p x source)) t p (.releasing .reset p x source) :=
    h.goes _ hp rfl rfl rfl
  have hloaded := ha.loaded t
  rw [hpc] at hloaded
  refine ⟨fun a => ?_, fun g n hg => ?_, ha.known, hhand.loaded ha (fun g n hg => .inr ⟨n, hg⟩) trivial⟩
  · rw [leasesOf, hhand.counted_keep entryCount rfl (by rw [hpc]; rfl)]
    exact ha.entry a
  · have hother : g ≠ tok.engine := by
      rintro rfl
      exact hv (hloaded tok n htok hg)
    have hname : (s.token p).map engineCount.name ≠ some g := by
      rw [htok]
      exact fun heq => hother (Option.some.inj heq).symm
    rw [leasesOn, hhand.counted_other engineCount hname hname]
    exact ha.engine g n hg

/-- A token that is dropped is not counted any more. -/
theorem Accounted.reset (ha : s.Accounted) (h : s.Owned) {x : ℕ} {source : Option ℕ}
    (hpc : s.pc t = .releasing .reset p x source) :
    ({ s with
      token := Function.update s.token p none
      held := Function.update s.held x none }.goto t (.leave x source)).Accounted := by
  have hp : (s.pc t).token = some p := congrArg LeasePc.token hpc
  have hafter : ∀ q, (LeasePc.leave x source).token ≠ some q := by
    intro q hq
    cases source <;> cases hq
  have hhand : InHand s ({ s with
      token := Function.update s.token p none
      held := Function.update s.held x none }.goto t (.leave x source)) t p (.leave x source) :=
    h.inHand hp rfl (fun q hq => absurd hq (hafter q)) fun q hq => Function.update_of_ne hq _ _
  have hgone : Function.update s.token p none p = none := Function.update_self _ _ _
  have hsame : ∀ c : Count, c.off (s.pc t) = some p → ∀ a, Leases.counted c ({ s with
      token := Function.update s.token p none
      held := Function.update s.held x none }.goto t (.leave x source)) a = s.counted c a := by
    intro c hc a
    refine hhand.counted_same c ⟨fun hself => ?_, fun hself => absurd hc hself.2⟩
    rw [show Leases.token _ p = none from hgone] at hself
    cases hself.1
  refine ha.keep hhand rfl rfl (hsame entryCount ?_) (hsame engineCount ?_) (fun tok htok => ?_) ?_
  · rw [hpc]
    rfl
  · rw [hpc]
    rfl
  · rw [show Leases.token _ p = none from hgone] at htok
    cases htok
  · cases source <;> trivial

theorem Accounted.advance (ha : s.Accounted) (h : s.Owned) (t : ℕ) :
    (s.advance t (s.pc t)).Accounted := by
  rcases hpc : s.pc t with _ | ⟨stage, p, x⟩ | ⟨x, source⟩ | ⟨stage, p, x, source⟩ | ⟨x, y⟩
  · exact ha
  · cases stage with
    | countEntry => exact ha.countEntry h hpc
    | countEngine => exact ha.countEngine h hpc
    | build =>
      refine ha.goes h (p := p) (by rw [hpc]; rfl) rfl nofun rfl rfl rfl ?_ ?_ trivial
      · rw [hpc]
        rfl
      · rw [hpc]
        rfl
  · exact ha.enter h hpc
  · cases stage with
    | exchange => exact ha.exchange h hpc
    | loadEntry => exact ha.loadEntry h hpc
    | subEntry v =>
      have hv : v > 0 := by
        have hloaded := ha.loaded t
        rwa [hpc] at hloaded
      unfold Leases.advance
      dsimp only
      rw [if_pos hv]
      exact ha.subEntry h hpc
    | loadEngine => exact ha.loadEngine h hpc
    | subEngine v =>
      unfold Leases.advance
      dsimp only
      split_ifs with hv
      · exact ha.subEngine h hpc
      · exact ha.skipEngine h hpc hv
    | reset => exact ha.reset h hpc
  · exact ha.handless (by rw [hpc]; rfl) rfl rfl rfl rfl rfl

/-- Engines come and go. -/
theorem Accounted.engines (ha : s.Accounted) {f : ℕ → Option Impl}
    (hsame : ∀ g n, f g = some ⟨true, n⟩ → s.engine g = some ⟨true, n⟩ ∨ s.engine g = none ∧ n = 0)
    (hknown : ∀ g, s.engine g ≠ none → f g ≠ none) : Accounted { s with engine := f } := by
  refine ⟨ha.entry, fun g n hg => ?_, fun p tok hp => hknown _ (ha.known p tok hp), fun t => ?_⟩
  · rcases hsame g n hg with hn | ⟨hnone, rfl⟩
    · exact ha.engine g n hn
    · have hempty : s.leasesOn g = ∅ := by
        refine Set.eq_empty_of_forall_notMem fun p hp => ?_
        obtain ⟨tok, htok, hname⟩ := Option.map_eq_some_iff.mp hp.1
        refine ha.known p tok htok ?_
        rw [show tok.engine = g from hname]
        exact hnone
      show (0 : UInt64).toNat = (s.leasesOn g).ncard
      rw [hempty, Set.ncard_empty]
      rfl
  · refine (ha.loaded t).mono (fun g n hg => ?_) (fun _ _ => rfl) ha.known
    rcases hsame g n hg with hn | ⟨hnone, -⟩
    · exact .inr ⟨n, hn⟩
    · exact .inl hnone

theorem Accounted.next (ha : s.Accounted) (h : s.Owned) (ev : LeaseEvent) :
    (s.next ev).Accounted := by
  cases ev with
  | construct g =>
    unfold Leases.next
    dsimp only
    split_ifs with hnone
    · refine ha.engines (fun b n hb => ?_) fun b hb => ?_
      · by_cases hbg : b = g
        · subst hbg
          rw [Function.update_self] at hb
          cases hb
          exact .inr ⟨hnone, rfl⟩
        · rw [Function.update_of_ne hbg] at hb
          exact .inl hb
      · have hbg : b ≠ g := by
          rintro rfl
          exact hb hnone
        rw [Function.update_of_ne hbg]
        exact hb
    · exact ha
  | destroy g =>
    unfold Leases.next
    dsimp only
    split
    · refine ha.engines (fun b n hb => ?_) fun b hb => ?_
      · by_cases hbg : b = g
        · subst hbg
          rw [Function.update_self] at hb
          cases hb
        · rw [Function.update_of_ne hbg] at hb
          exact .inl hb
      · by_cases hbg : b = g
        · subst hbg
          rw [Function.update_self]
          exact nofun
        · rw [Function.update_of_ne hbg]
          exact hb
    · exact ha
  | makeLease t g a p x =>
    unfold Leases.next
    dsimp only
    split_ifs with hguard
    · exact ha.makeLease h hguard.1 hguard.2.1 hguard.2.2.1
    · exact ha
  | release t x =>
    unfold Leases.next
    dsimp only
    split_ifs with hguard
    · exact ha.handless (by rw [hguard]; rfl) rfl rfl rfl rfl rfl
    · exact ha
  | moveConstruct t x y =>
    unfold Leases.next
    dsimp only
    split_ifs with hguard
    · rw [← goto_self (s.move x y) (show (s.move x y).pc t = .idle from hguard.1)]
      exact ha.handless (by rw [hguard.1]; rfl) rfl rfl rfl rfl rfl
    · exact ha
  | moveAssign t x y =>
    unfold Leases.next
    dsimp only
    split_ifs with hguard
    · exact ha.handless (by rw [hguard.1]; rfl) rfl rfl rfl rfl rfl
    · exact ha
  | step t => exact ha.advance h t

theorem accounted_run {evs : List LeaseEvent} (he : Throughout Leases.next {} Exclusive evs) :
    (run evs).Accounted := by
  induction evs using List.reverseRecOn with
  | nil => exact accounted_start
  | append_singleton evs ev ih =>
    obtain ⟨hevs, -⟩ := throughout_concat.mp he
    rw [run, after_concat]
    exact (ih hevs).next (owned_run hevs) ev

end

/-! ## Exact accounting -/

/-- The counters are exact, no decrement underflows, and a release is only counted once. -/
structure Exact (s : Leases) : Prop where
  entry : ∀ a, (s.leaseCount a).toNat = (s.leasesOf a).ncard
  engine : ∀ g n, s.engine g = some ⟨true, n⟩ → n.toNat = (s.leasesOn g).ncard
  /-- The decrement of `lease_count` is made, of a positive value. -/
  subEntry : ∀ t v p x source tok, s.pc t = .releasing (.subEntry v) p x source →
    s.token p = some tok → 0 < v ∧ 0 < s.leaseCount tok.entry
  subEngine : ∀ t v p x source tok n, s.pc t = .releasing (.subEngine v) p x source →
    s.token p = some tok → s.engine tok.engine = some ⟨true, n⟩ → 0 < v ∧ 0 < n
  /-- A release leaves its lease object empty. -/
  released : ∀ t p x source, s.pc t = .releasing .reset p x source →
    (s.next (.step t)).held x = none
  /-- The release of an empty lease object does nothing. -/
  again : ∀ t x, s.pc t = .idle → s.held x = none → (s.next (.release t x)).next (.step t) = s
  /-- Between the calls, the leases are those in lease objects, none of them marked. -/
  settled : (∀ t, s.pc t = .idle) → ∀ (c : Count) (a : ℕ), s.counted c a =
    { p | ∃ x tok, s.held x = some p ∧ s.token p = some tok ∧ c.name tok = a ∧ tok.released = false }

theorem Owned.settled {s : Leases} (h : s.Owned) (hidle : ∀ t, s.pc t = .idle) (c : Count) (a : ℕ) :
    s.counted c a = { p | ∃ x tok, s.held x = some p ∧ s.token p = some tok ∧ c.name tok = a ∧
      tok.released = false } := by
  ext p
  constructor
  · rintro ⟨hname, -⟩
    obtain ⟨tok, htok, hname⟩ := Option.map_eq_some_iff.mp hname
    rcases h.covered p tok htok with ⟨x, hx⟩ | ⟨t, stage, x, hpc⟩
    · refine ⟨x, tok, hx, htok, hname, (Bool.not_eq_true _).mp fun hrel => ?_⟩
      obtain ⟨t, stage, source, hpc, -⟩ := h.marked x p tok hx htok hrel
      rw [hidle t] at hpc
      cases hpc
    · rw [hidle t] at hpc
      cases hpc
  · rintro ⟨x, tok, -, htok, hname, -⟩
    refine ⟨by rw [htok, Option.map_some, hname], fun t hoff => ?_⟩
    have htoken := c.token_of_off _ _ hoff
    rw [hidle t] at htoken
    cases htoken

theorem release_empty {s : Leases} {t x : ℕ} (hidle : s.pc t = .idle) (hx : s.held x = none) :
    (s.next (.release t x)).next (.step t) = s := by
  have hrelease : s.next (.release t x) = s.goto t (.entering x none) := if_pos hidle
  rw [hrelease]
  show (s.goto t (.entering x none)).advance t (Function.update s.pc t (.entering x none) t) = s
  rw [Function.update_self]
  unfold advance
  dsimp only
  rw [show (s.goto t (.entering x none)).held x = none from hx]
  dsimp only [LeasePc.leave]
  rw [Leases.goto, Leases.goto]
  dsimp only
  rw [Function.update_idem, ← hidle, Function.update_eq_self]

theorem reset_empties {s : Leases} {t x : ℕ} {p : Address} {source : Option ℕ}
    (hpc : s.pc t = .releasing .reset p x source) : (s.next (.step t)).held x = none := by
  show (s.advance t (s.pc t)).held x = none
  rw [hpc]
  exact Function.update_self _ _ _

/-- Lease accounting is exact under every interleaving in which a lease object is used by one thread
at a time. -/
theorem leases_exact (evs : List LeaseEvent) (he : Throughout Leases.next {} Exclusive evs) :
    (run evs).Exact := by
  have h := owned_run he
  have ha := accounted_run he
  generalize run evs = s at *
  refine ⟨ha.entry, ha.engine, ?_, ?_, ?_, ?_, h.settled⟩
  · intro t v p x source tok hpc htok
    have hloaded := ha.loaded t
    rw [hpc] at hloaded
    refine ⟨hloaded, ?_⟩
    exact h.positive (t := t) entryCount (by rw [hpc]; rfl) (by rw [hpc]; nofun) htok
      (ha.entry tok.entry)
  · intro t v p x source tok n hpc htok hg
    have hloaded := ha.loaded t
    rw [hpc] at hloaded
    refine ⟨hloaded tok n htok hg, ?_⟩
    exact h.positive (t := t) engineCount (by rw [hpc]; rfl) (by rw [hpc]; nofun) htok
      (ha.engine tok.engine n hg)
  · exact fun t p x source hpc => reset_empties hpc
  · exact fun t x hidle hx => release_empty hidle hx

/-! ## Threads with lease objects of their own -/

/-- Each thread keeps to the lease objects that it owns. -/
def within (owner : ℕ → ℕ) : LeaseEvent → Bool
  | .makeLease t _ _ _ x | .release t x => owner x = t
  | .moveConstruct t x y | .moveAssign t x y => owner x = t ∧ owner y = t
  | _ => true

theorem pc_advance (s : Leases) (t : ℕ) (pc : LeasePc) : (s.advance t pc).pc = s.pc ∨
    ∃ pc', (s.advance t pc).pc = Function.update s.pc t pc' ∧ pc'.objects ⊆ pc.objects := by
  have hleave : ∀ x source, (LeasePc.leave x source).objects ⊆ x :: source.toList := by
    intro x source
    cases source with
    | none => exact List.nil_subset _
    | some y => exact List.Subset.refl _
  rcases pc with _ | ⟨stage, p, x⟩ | ⟨x, source⟩ | ⟨stage, p, x, source⟩ | ⟨x, y⟩
  · exact .inl rfl
  · cases stage with
    | countEntry =>
      exact .inr ⟨_, pc_goto (onEntry_frame s p _).1, List.Subset.refl _⟩
    | countEngine =>
      exact .inr ⟨_, pc_goto (onEngine_frame s p _).1, List.Subset.refl _⟩
    | build => exact .inr ⟨_, rfl, List.nil_subset _⟩
  · unfold advance
    dsimp only
    split
    · exact .inr ⟨_, rfl, hleave x source⟩
    · exact .inr ⟨_, rfl, List.Subset.refl _⟩
  · cases stage with
    | exchange =>
      unfold advance
      dsimp only
      split <;> exact .inr ⟨_, rfl, List.Subset.refl _⟩
    | loadEntry => exact .inr ⟨_, rfl, List.Subset.refl _⟩
    | subEntry v =>
      unfold advance
      dsimp only
      split_ifs
      · exact .inr ⟨_, pc_goto (onEntry_frame s p _).1, List.Subset.refl _⟩
      · exact .inr ⟨_, rfl, List.Subset.refl _⟩
    | loadEngine =>
      exact .inr ⟨_, pc_goto (onEngine_frame s p _).1, List.Subset.refl _⟩
    | subEngine v =>
      unfold advance
      dsimp only
      split_ifs
      · exact .inr ⟨_, pc_goto (onEngine_frame s p _).1, List.Subset.refl _⟩
      · exact .inr ⟨_, rfl, List.Subset.refl _⟩
    | reset => exact .inr ⟨_, rfl, hleave x source⟩
  · exact .inr ⟨_, rfl, List.nil_subset _⟩

theorem objects_next {owner : ℕ → ℕ} {s : Leases} {ev : LeaseEvent} (hev : within owner ev = true)
    (hold : ∀ u, ∀ x ∈ (s.pc u).objects, owner x = u) :
    ∀ u, ∀ x ∈ ((s.next ev).pc u).objects, owner x = u := by
  have hgoto : ∀ {s' : Leases} {t : ℕ} {pc : LeasePc}, s'.pc = Function.update s.pc t pc →
      (∀ x ∈ pc.objects, owner x = t) → ∀ u, ∀ x ∈ (s'.pc u).objects, owner x = u := by
    intro s' t pc hpc hnew u x hx
    rw [hpc] at hx
    by_cases hu : u = t
    · subst hu
      rw [Function.update_self] at hx
      exact hnew x hx
    · rw [Function.update_of_ne hu] at hx
      exact hold u x hx
  cases ev with
  | construct g =>
    unfold Leases.next
    dsimp only
    split_ifs <;> exact hold
  | destroy g =>
    unfold Leases.next
    dsimp only
    split <;> exact hold
  | makeLease t g a p x =>
    unfold Leases.next
    dsimp only
    split_ifs
    · refine hgoto rfl fun y hy => ?_
      obtain rfl := List.mem_singleton.mp hy
      simpa [within] using hev
    · exact hold
  | release t x =>
    unfold Leases.next
    dsimp only
    split_ifs
    · refine hgoto rfl fun y hy => ?_
      obtain rfl : y = x := by simpa [LeasePc.objects] using hy
      simpa [within] using hev
    · exact hold
  | moveConstruct t x y =>
    unfold Leases.next
    dsimp only
    split_ifs <;> exact hold
  | moveAssign t x y =>
    unfold Leases.next
    dsimp only
    split_ifs
    · refine hgoto rfl fun z hz => ?_
      obtain ⟨hx, hy⟩ : owner x = t ∧ owner y = t := by simpa [within] using hev
      rcases List.mem_cons.mp hz with rfl | hz
      · exact hx
      · obtain rfl : z = y := by simpa using hz
        exact hy
    · exact hold
  | step t =>
    rcases pc_advance s t (s.pc t) with heq | ⟨pc, heq, hsub⟩
    · rw [show (s.next (.step t)).pc = s.pc from heq]
      exact hold
    · exact hgoto heq fun x hx => hold t x (hsub hx)

/-- A thread that keeps to its own lease objects uses no others. -/
theorem objects_owned {owner : ℕ → ℕ} {evs : List LeaseEvent}
    (h : ∀ ev ∈ evs, within owner ev = true) :
    ∀ u, ∀ x ∈ ((run evs).pc u).objects, owner x = u := by
  induction evs using List.reverseRecOn with
  | nil => exact fun u x hx => nomatch hx
  | append_singleton evs ev ih =>
    rw [run, after_concat]
    exact objects_next (h ev (by simp)) (ih fun e he => h e (by simp [he]))

theorem exclusive_of_within (owner : ℕ → ℕ) {evs : List LeaseEvent}
    (h : ∀ ev ∈ evs, within owner ev = true) : Throughout Leases.next {} Exclusive evs := by
  intro pre ev post hsplit
  have hold : ∀ u, ∀ x ∈ ((run pre).pc u).objects, owner x = u :=
    objects_owned fun e he => h e (by simp [hsplit, he])
  have hev := h ev (by simp [hsplit])
  have hfree : ∀ t x, owner x = t → (run pre).Free t x :=
    fun t x hx u hu hxu => hu ((hold u x hxu).symm.trans hx)
  cases ev with
  | makeLease t g a p x => exact hfree t x (by simpa [within] using hev)
  | release t x => exact hfree t x (by simpa [within] using hev)
  | moveConstruct t x y =>
    obtain ⟨hx, hy⟩ : owner x = t ∧ owner y = t := by simpa [within] using hev
    exact ⟨hfree t x hx, hfree t y hy⟩
  | moveAssign t x y =>
    obtain ⟨hx, hy⟩ : owner x = t ∧ owner y = t := by simpa [within] using hev
    exact ⟨hfree t x hx, hfree t y hy⟩
  | _ => trivial

/-- Two threads lease one entry at once; one moves its lease, and both release, out of step. -/
def leaseStorm : List LeaseEvent :=
  [.construct 0, .makeLease 0 0 7 .one 0, .makeLease 1 0 7 .two 1, .step 0, .step 1,
    .step 1, .step 0, .step 0, .step 1, .moveConstruct 0 2 0, .release 0 2, .release 1 1, .step 0,
    .step 1, .step 0, .step 1, .step 0, .step 1, .step 0]

theorem leases_exact_storm : (run leaseStorm).Exact :=
  leases_exact leaseStorm (exclusive_of_within (fun x => x % 2) (by decide))

end Leases

end GraphCache
