import GraphCache.History
import Mathlib.Data.Set.Card

/-!
# Leases as objects

`make_lease` and the class `GraphLease` of `cache.cpp`, one atomic step at a time, for any number of
threads, engines and lease objects. A lease object points to a token (`GraphLease::Entry`), which
keeps the cache entry alive and knows the engine by its address alone. A grant makes a token, counts
it in `lease_count` of the entry and in `active_leases` of the engine, and puts it into a new object.
A release marks the token, takes it out of both counts, each behind a load of its own, and drops it.
The destructor is a release; a move assignment releases its target and then takes the token of its
source over.

Tokens are told apart by their addresses. An engine that is destroyed leaves its tokens behind, and
`deadAccess` records that a step went to an engine that is no more.
-/

namespace GraphCache

/-- Where an object lies in memory. -/
def Address := { p : UInt64 // p ≠ 0 }
  deriving DecidableEq, Repr

def Address.one : Address := ⟨1, by decide⟩

def Address.two : Address := ⟨2, by decide⟩

/-- `GraphLease::Entry` : the engine in `release_fn`, and the entry in `keep_alive`. As long as the
token is there, `weak.lock()` finds the entry. -/
structure Token where
  engine : ℕ
  entry : ℕ
  released : Bool := false
  deriving DecidableEq, Repr

/-- What a lease reaches of a `GraphCache::Impl`. -/
structure Impl where
  alive : Bool := true
  activeLeases : UInt64 := 0
  deriving DecidableEq, Repr

/-- Where a thread is in `make_lease`, which made its token. -/
inductive GrantStage
  | countEntry
  | countEngine
  | build
  deriving DecidableEq, Repr

/-- Where a thread is in `release`, which found a token. A value is what the load before the
decrement returned. -/
inductive ReleaseStage
  | exchange
  | loadEntry
  | subEntry (loaded : UInt64)
  | loadEngine
  | subEngine (loaded : UInt64)
  | reset
  deriving DecidableEq, Repr

/-- What a thread is doing to the lease object `x`. A release in a move assignment has the source of
the move to come back to. -/
inductive LeasePc
  | idle
  | granting (stage : GrantStage) (p : Address) (x : ℕ)
  | entering (x : ℕ) (source : Option ℕ)
  | releasing (stage : ReleaseStage) (p : Address) (x : ℕ) (source : Option ℕ)
  | adopting (x y : ℕ)
  deriving DecidableEq, Repr

namespace LeasePc

/-- The lease objects that the thread uses. -/
def objects : LeasePc → List ℕ
  | .idle => []
  | .granting _ _ x => [x]
  | .entering x source | .releasing _ _ x source => x :: source.toList
  | .adopting x y => [x, y]

/-- The token that the thread works on. -/
def token : LeasePc → Option Address
  | .granting _ p _ | .releasing _ p _ _ => some p
  | _ => none

/-- The return from a release. -/
def leave (x : ℕ) : Option ℕ → LeasePc
  | none => .idle
  | some y => .adopting x y

end LeasePc

/-- Engines, the lease counts of the entries, tokens, the token of each lease object (`entry_`), and
threads. -/
structure Leases where
  engine : ℕ → Option Impl := fun _ => none
  leaseCount : ℕ → UInt64 := fun _ => 0
  token : Address → Option Token := fun _ => none
  held : ℕ → Option Address := fun _ => none
  pc : ℕ → LeasePc := fun _ => .idle
  deadAccess : Bool := false

/-- What happens : an engine is constructed or destroyed; thread `t` gets a lease on entry `a` of
engine `g`, in the new object `x`, with its token at `p`; it releases or destroys the object `x`, or
moves `y` to `x`; or it takes a step in what it does. -/
inductive LeaseEvent
  | construct (g : ℕ)
  | destroy (g : ℕ)
  | makeLease (t g a : ℕ) (p : Address) (x : ℕ)
  | release (t x : ℕ)
  | moveConstruct (t x y : ℕ)
  | moveAssign (t x y : ℕ)
  | step (t : ℕ)
  deriving DecidableEq, Repr

namespace Leases

open History

def goto (s : Leases) (t : ℕ) (pc : LeasePc) : Leases :=
  { s with pc := Function.update s.pc t pc }

/-- An access to `active_leases` of the engine that the token names. -/
def onEngine (s : Leases) (p : Address) (f : UInt64 → UInt64) : Leases :=
  match s.token p with
  | none => s
  | some tok =>
    match s.engine tok.engine with
    | some ⟨true, n⟩ => { s with engine := Function.update s.engine tok.engine (some ⟨true, f n⟩) }
    | _ => { s with deadAccess := true }

/-- An access to `lease_count` of the entry that the token keeps alive. -/
def onEntry (s : Leases) (p : Address) (f : UInt64 → UInt64) : Leases :=
  match s.token p with
  | none => s
  | some tok =>
    { s with leaseCount := Function.update s.leaseCount tok.entry (f (s.leaseCount tok.entry)) }

/-- What a load of `lease_count` returns. -/
def loadEntry (s : Leases) (p : Address) : UInt64 :=
  match s.token p with
  | none => 0
  | some tok => s.leaseCount tok.entry

/-- What a load of `active_leases` returns. -/
def loadEngine (s : Leases) (p : Address) : UInt64 :=
  match s.token p with
  | none => 0
  | some tok => ((s.engine tok.engine).map Impl.activeLeases).getD 0

/-- The token in `y` goes to `x`, and `y` is left empty. -/
def move (s : Leases) (x y : ℕ) : Leases :=
  { s with held := Function.update (Function.update s.held x (s.held y)) y none }

/-- The next atomic step of a thread. -/
def advance (s : Leases) (t : ℕ) : LeasePc → Leases
  | .idle => s
  | .granting .countEntry p x => (s.onEntry p (· + 1)).goto t (.granting .countEngine p x)
  | .granting .countEngine p x => (s.onEngine p (· + 1)).goto t (.granting .build p x)
  | .granting .build p x => { s with held := Function.update s.held x (some p) }.goto t .idle
  | .entering x source =>
    match s.held x with
    | none => s.goto t (.leave x source)
    | some p => s.goto t (.releasing .exchange p x source)
  | .releasing .exchange p x source =>
    match s.token p with
    | some ⟨g, a, false⟩ =>
      { s with token := Function.update s.token p (some ⟨g, a, true⟩) }.goto t
        (.releasing .loadEntry p x source)
    | _ => s.goto t (.releasing .reset p x source)
  | .releasing .loadEntry p x source => s.goto t (.releasing (.subEntry (s.loadEntry p)) p x source)
  | .releasing (.subEntry v) p x source =>
    (if v > 0 then s.onEntry p (· - 1) else s).goto t (.releasing .loadEngine p x source)
  | .releasing .loadEngine p x source =>
    (s.onEngine p id).goto t (.releasing (.subEngine (s.loadEngine p)) p x source)
  | .releasing (.subEngine v) p x source =>
    (if v > 0 then s.onEngine p (· - 1) else s).goto t (.releasing .reset p x source)
  | .releasing .reset p x source =>
    { s with
      token := Function.update s.token p none
      held := Function.update s.held x none }.goto t (.leave x source)
  | .adopting x y => (s.move x y).goto t .idle

/-- A thread starts something only when it is idle, and an engine grants leases only while it is
alive. An event that does not fit changes nothing. -/
def next (s : Leases) : LeaseEvent → Leases
  | .construct g =>
    if s.engine g = none then { s with engine := Function.update s.engine g (some {}) } else s
  | .destroy g =>
    match s.engine g with
    | some impl =>
      { s with engine := Function.update s.engine g (some { impl with alive := false }) }
    | none => s
  | .makeLease t g a p x =>
    if s.pc t = .idle ∧ (s.engine g).any Impl.alive ∧ s.token p = none ∧ s.held x = none then
      { s with token := Function.update s.token p (some ⟨g, a, false⟩) }.goto t
        (.granting .countEntry p x)
    else s
  | .release t x => if s.pc t = .idle then s.goto t (.entering x none) else s
  | .moveConstruct t x y =>
    if s.pc t = .idle ∧ x ≠ y ∧ s.held x = none then s.move x y else s
  | .moveAssign t x y =>
    if s.pc t = .idle ∧ x ≠ y then s.goto t (.entering x (some y)) else s
  | .step t => s.advance t (s.pc t)

abbrev run (evs : List LeaseEvent) : Leases :=
  after next {} evs

/-! ## Ownership -/

/-- No thread but `t` uses the lease object. -/
def Free (s : Leases) (t x : ℕ) : Prop := ∀ u, u ≠ t → x ∉ (s.pc u).objects

/-- A lease object is used by one thread at a time. -/
def Exclusive (s : Leases) : LeaseEvent → Prop
  | .makeLease t _ _ _ x | .release t x => s.Free t x
  | .moveConstruct t x y | .moveAssign t x y => s.Free t x ∧ s.Free t y
  | _ => True

/-- What a thread relies on. -/
def Fits (s : Leases) : LeasePc → Prop
  | .idle => True
  | .granting _ p x => (∃ tok, s.token p = some tok ∧ tok.released = false) ∧ s.held x = none ∧
      ∀ y, s.held y ≠ some p
  | .entering x source => source ≠ some x
  | .releasing _ p x source => s.held x = some p ∧ source ≠ some x
  | .adopting x y => x ≠ y ∧ s.held x = none

/-- A token is in one lease object, or in the hands of the thread that makes it. It is marked as
released only while a thread takes it out of its object. -/
structure Owned (s : Leases) : Prop where
  excl : ∀ t u x, x ∈ (s.pc t).objects → x ∈ (s.pc u).objects → t = u
  unique : ∀ t u p, (s.pc t).token = some p → (s.pc u).token = some p → t = u
  fits : ∀ t, s.Fits (s.pc t)
  inj : ∀ x y p, s.held x = some p → s.held y = some p → x = y
  live : ∀ x p, s.held x = some p → ∃ tok, s.token p = some tok
  marked : ∀ x p tok, s.held x = some p → s.token p = some tok → tok.released = true →
    ∃ t stage source, s.pc t = .releasing stage p x source ∧ stage ≠ .exchange
  covered : ∀ p tok, s.token p = some tok →
    (∃ x, s.held x = some p) ∨ ∃ t stage x, s.pc t = .granting stage p x

theorem owned_start : Owned {} := by
  constructor <;> simp [LeasePc.objects, LeasePc.token, Fits]

section

variable {s s' : Leases} {t u x y : ℕ} {p : Address} {pc : LeasePc}

theorem Owned.free (h : s.Owned) (hx : x ∈ (s.pc t).objects) : s.Free t x :=
  fun u hu hxu => hu (h.excl u t x hxu hx)

theorem Owned.sole (h : s.Owned) (hp : (s.pc t).token = some p) :
    ∀ u, u ≠ t → (s.pc u).token ≠ some p :=
  fun u hu hpu => hu (h.unique u t p hpu hp)

/-- A thread works on tokens that are there. -/
theorem Owned.live_token (h : s.Owned) (hp : (s.pc t).token = some p) :
    ∃ tok, s.token p = some tok := by
  have hfits := h.fits t
  cases hpc : s.pc t with
  | granting stage q x =>
    rw [hpc] at hp hfits
    obtain rfl := Option.some.inj hp
    obtain ⟨tok, htok, -⟩ := hfits.1
    exact ⟨tok, htok⟩
  | releasing stage q x source =>
    rw [hpc] at hp hfits
    obtain rfl := Option.some.inj hp
    exact h.live x q hfits.1
  | _ => simp [hpc, LeasePc.token] at hp

/-- The token of a lease object that no thread uses is in no thread's hands. -/
theorem Owned.sole_held (h : s.Owned) (hp : s.held x = some p) (hfree : s.Free t x) :
    ∀ u, u ≠ t → (s.pc u).token ≠ some p := by
  intro u hu hpu
  have hfits := h.fits u
  cases hpc : s.pc u with
  | granting stage q y =>
    rw [hpc] at hpu hfits
    obtain rfl := Option.some.inj hpu
    exact hfits.2.2 x hp
  | releasing stage q y source =>
    rw [hpc] at hpu hfits
    obtain rfl := Option.some.inj hpu
    obtain rfl := h.inj y x q hfits.1 hp
    exact hfree u hu (by simp [hpc, LeasePc.objects])
  | _ => simp [hpc, LeasePc.token] at hpu

/-- A thread relies on its objects and its token alone. -/
theorem Fits.frame (h : s.Fits pc) (hheld : ∀ x ∈ pc.objects, s'.held x = s.held x)
    (htoken : ∀ p, pc.token = some p → s'.token p = s.token p)
    (hnew : ∀ y p, s'.held y = some p → (∃ z, s.held z = some p) ∨ pc.token ≠ some p) :
    s'.Fits pc := by
  cases pc with
  | granting stage p x =>
    obtain ⟨htok, hx, hno⟩ := h
    refine ⟨?_, ?_, ?_⟩
    · rw [htoken p rfl]
      exact htok
    · rw [hheld x (by simp [LeasePc.objects])]
      exact hx
    · intro y hy
      rcases hnew y p hy with ⟨z, hz⟩ | hne
      · exact hno z hz
      · exact hne rfl
  | releasing stage p x source =>
    rw [Fits, hheld x (by simp [LeasePc.objects])]
    exact h
  | adopting x y =>
    rw [Fits, hheld x (by simp [LeasePc.objects])]
    exact h
  | _ => exact h

theorem sole_update {β γ : Type} {f : ℕ → β} {b : β} {R : β → γ → Prop}
    (h : ∀ t u c, R (f t) c → R (f u) c → t = u) (hb : ∀ c, R b c → ∀ u, u ≠ t → ¬R (f u) c)
    (u v : ℕ) (c : γ) (hu : R (Function.update f t b u) c) (hv : R (Function.update f t b v) c) :
    u = v := by
  by_contra hne
  by_cases hut : u = t
  · subst hut
    rw [Function.update_self] at hu
    rw [Function.update_of_ne (Ne.symm hne)] at hv
    exact hb c hu v (Ne.symm hne) hv
  · rw [Function.update_of_ne hut] at hu
    by_cases hvt : v = t
    · subst hvt
      rw [Function.update_self] at hv
      exact hb c hv u hut hu
    · rw [Function.update_of_ne hvt] at hv
      exact hne (h u v c hu hv)

/-- A step of thread `t` to `pc` keeps the ownership of the others, if it leaves their objects and
tokens alone. -/
structure Moves (s s' : Leases) (t : ℕ) (pc : LeasePc) : Prop where
  goes : s'.pc = Function.update s.pc t pc
  objects : ∀ x ∈ pc.objects, s.Free t x
  sole : ∀ p, pc.token = some p → ∀ u, u ≠ t → (s.pc u).token ≠ some p
  fits : s'.Fits pc
  held : ∀ x, s'.held x = s.held x ∨ s.Free t x
  token : ∀ p, s'.token p = s.token p ∨ ∀ u, u ≠ t → (s.pc u).token ≠ some p
  new : ∀ y p, s'.held y = some p →
    (∃ z, s.held z = some p) ∨ ∀ u, u ≠ t → (s.pc u).token ≠ some p

theorem Moves.fits_all (h : s.Owned) (hm : s.Moves s' t pc) (u : ℕ) : s'.Fits (s'.pc u) := by
  rw [hm.goes]
  by_cases hut : u = t
  · subst hut
    rw [Function.update_self]
    exact hm.fits
  · rw [Function.update_of_ne hut]
    refine (h.fits u).frame ?_ ?_ ?_
    · exact fun x hx => (hm.held x).resolve_right fun hfree => hfree u hut hx
    · exact fun p hp => (hm.token p).resolve_right fun hno => hno u hut hp
    · exact fun y p hy => (hm.new y p hy).imp_right fun hno => hno u hut

variable (pc) in
theorem Moves.owned (h : s.Owned) (hm : s.Moves s' t pc)
    (inj : ∀ x y p, s'.held x = some p → s'.held y = some p → x = y)
    (live : ∀ x p, s'.held x = some p → ∃ tok, s'.token p = some tok)
    (marked : ∀ x p tok, s'.held x = some p → s'.token p = some tok → tok.released = true →
      ∃ t stage source, s'.pc t = .releasing stage p x source ∧ stage ≠ .exchange)
    (covered : ∀ p tok, s'.token p = some tok →
      (∃ x, s'.held x = some p) ∨ ∃ t stage x, s'.pc t = .granting stage p x) : s'.Owned where
  excl := by
    rw [hm.goes]
    exact sole_update (R := fun (pc : LeasePc) x => x ∈ pc.objects) h.excl hm.objects
  unique := by
    rw [hm.goes]
    exact sole_update (R := fun (pc : LeasePc) p => pc.token = some p) h.unique hm.sole
  fits := hm.fits_all h
  inj := inj
  live := live
  marked := marked
  covered := covered

variable (pc) in
/-- A step that leaves tokens and lease objects where they are. -/
theorem Owned.goto (h : s.Owned) (hpc : s'.pc = Function.update s.pc t pc)
    (hheld : s'.held = s.held) (htoken : s'.token = s.token)
    (hobjects : ∀ x ∈ pc.objects, s.Free t x)
    (hsole : ∀ p, pc.token = some p → ∀ u, u ≠ t → (s.pc u).token ≠ some p) (hfits : s.Fits pc)
    (hgrants : ∀ stage p x, s.pc t = .granting stage p x → ∃ stage', pc = .granting stage' p x)
    (hreleases : ∀ stage p x source, s.pc t = .releasing stage p x source → stage ≠ .exchange →
      ∃ stage' source', pc = .releasing stage' p x source' ∧ stage' ≠ .exchange) : s'.Owned := by
  have hm : s.Moves s' t pc := by
    refine ⟨hpc, hobjects, hsole, ?_, ?_, ?_, ?_⟩
    · refine hfits.frame ?_ ?_ ?_
      · exact fun x _ => congrFun hheld x
      · exact fun p _ => congrFun htoken p
      · exact fun y p hy => .inl ⟨y, hheld ▸ hy⟩
    · exact fun x => .inl (congrFun hheld x)
    · exact fun p => .inl (congrFun htoken p)
    · exact fun y p hy => .inl ⟨y, hheld ▸ hy⟩
  refine hm.owned pc h ?_ ?_ ?_ ?_
  · rw [hheld]
    exact h.inj
  · rw [hheld, htoken]
    exact h.live
  · rw [hheld, htoken, hpc]
    intro x p tok hx hp hrel
    obtain ⟨u, stage, source, hu, hne⟩ := h.marked x p tok hx hp hrel
    by_cases hut : u = t
    · subst hut
      obtain ⟨stage', source', hpc', hne'⟩ := hreleases stage p x source hu hne
      exact ⟨u, stage', source', by rw [Function.update_self, hpc'], hne'⟩
    · exact ⟨u, stage, source, by rw [Function.update_of_ne hut, hu], hne⟩
  · rw [hheld, htoken, hpc]
    intro p tok hp
    refine (h.covered p tok hp).imp_right ?_
    rintro ⟨u, stage, x, hu⟩
    by_cases hut : u = t
    · subst hut
      obtain ⟨stage', hpc'⟩ := hgrants stage p x hu
      exact ⟨u, stage', x, by rw [Function.update_self, hpc']⟩
    · exact ⟨u, stage, x, by rw [Function.update_of_ne hut, hu]⟩

variable {g a : ℕ} {source : Option ℕ}

theorem pc_goto (h : s'.pc = s.pc) : (s'.goto t pc).pc = Function.update s.pc t pc := by
  rw [← h]
  rfl

theorem pc_goto_of_ne {pc' : LeasePc} (hu : s.pc u = pc') (hne : s.pc t ≠ pc') :
    Function.update s.pc t pc u = pc' := by
  rw [Function.update_of_ne, hu]
  rintro rfl
  exact hne hu

theorem Owned.makeLease (h : s.Owned) (hidle : s.pc t = .idle) (hp : s.token p = none)
    (hx : s.held x = none) (hfree : s.Free t x) :
    ({ s with token := Function.update s.token p (some ⟨g, a, false⟩) }.goto t
      (.granting .countEntry p x)).Owned := by
  have hno : ∀ y, s.held y ≠ some p := by
    intro y hy
    obtain ⟨tok, htok⟩ := h.live y p hy
    rw [hp] at htok
    cases htok
  have hsole : ∀ u, u ≠ t → (s.pc u).token ≠ some p := by
    intro u _ hu
    obtain ⟨tok, htok⟩ := h.live_token hu
    rw [hp] at htok
    cases htok
  have hother : ∀ q, q ≠ p → Function.update s.token p (some ⟨g, a, false⟩) q = s.token q :=
    fun q hq => Function.update_of_ne hq _ _
  refine Moves.owned (.granting .countEntry p x) h (t := t) ⟨rfl, ?_, ?_, ?_, ?_, ?_, ?_⟩
    h.inj ?_ ?_ ?_
  · intro y hy
    obtain rfl := List.mem_singleton.mp hy
    exact hfree
  · intro q hq
    obtain rfl := Option.some.inj hq
    exact hsole
  · exact ⟨⟨_, Function.update_self _ _ _, rfl⟩, hx, hno⟩
  · exact fun y => .inl rfl
  · intro q
    by_cases hq : q = p
    · subst hq
      exact .inr hsole
    · exact .inl (hother q hq)
  · exact fun y q hy => .inl ⟨y, hy⟩
  · intro y q hy
    obtain ⟨tok, htok⟩ := h.live y q hy
    refine ⟨tok, ?_⟩
    rw [← htok]
    exact hother q fun hq => hno y (hq ▸ hy)
  · intro y q tok hy htok hrel
    have hq : q ≠ p := fun hq => hno y (hq ▸ hy)
    obtain ⟨u, stage, source, hu, hne⟩ := h.marked y q tok hy ((hother q hq).symm.trans htok) hrel
    exact ⟨u, stage, source, pc_goto_of_ne hu (by simp [hidle]), hne⟩
  · intro q tok htok
    by_cases hq : q = p
    · subst hq
      exact .inr ⟨t, .countEntry, x, Function.update_self _ _ _⟩
    · refine (h.covered q tok ((hother q hq).symm.trans htok)).imp_right ?_
      rintro ⟨u, stage, y, hu⟩
      exact ⟨u, stage, y, pc_goto_of_ne hu (by simp [hidle])⟩

theorem Owned.build (h : s.Owned) (hpc : s.pc t = .granting .build p x) :
    ({ s with held := Function.update s.held x (some p) }.goto t .idle).Owned := by
  obtain ⟨⟨tok, htok, hnew⟩, hx, hno⟩ : s.Fits (.granting .build p x) := hpc ▸ h.fits t
  have hfree : s.Free t x := h.free (by simp [hpc, LeasePc.objects])
  have hsole := h.sole (p := p) (by rw [hpc]; rfl)
  have hheld : ∀ y q, Function.update s.held x (some p) y = some q →
      (y = x ∧ q = p) ∨ (y ≠ x ∧ q ≠ p ∧ s.held y = some q) := by
    intro y q hy
    by_cases hyx : y = x
    · subst hyx
      rw [Function.update_self] at hy
      exact .inl ⟨rfl, (Option.some.inj hy).symm⟩
    · rw [Function.update_of_ne hyx] at hy
      exact .inr ⟨hyx, fun hq => hno y (hq ▸ hy), hy⟩
  refine Moves.owned (.idle) h (t := t) ⟨rfl, ?_, ?_, trivial, ?_, ?_, ?_⟩ ?_ ?_ ?_ ?_
  · simp [LeasePc.objects]
  · simp [LeasePc.token]
  · intro y
    by_cases hyx : y = x
    · subst hyx
      exact .inr hfree
    · exact .inl (Function.update_of_ne hyx _ _)
  · exact fun q => .inl rfl
  · intro y q hy
    rcases hheld y q hy with ⟨-, rfl⟩ | ⟨-, -, hyq⟩
    · exact .inr hsole
    · exact .inl ⟨y, hyq⟩
  · intro y z q hy hz
    rcases hheld y q hy with ⟨rfl, rfl⟩ | ⟨-, hqp, hyq⟩
    · rcases hheld z q hz with ⟨rfl, -⟩ | ⟨-, hqp, -⟩
      · rfl
      · exact absurd rfl hqp
    · rcases hheld z q hz with ⟨-, rfl⟩ | ⟨-, -, hzq⟩
      · exact absurd rfl hqp
      · exact h.inj y z q hyq hzq
  · intro y q hy
    rcases hheld y q hy with ⟨-, rfl⟩ | ⟨-, -, hyq⟩
    · exact ⟨tok, htok⟩
    · exact h.live y q hyq
  · intro y q tok' hy hq hrel
    rcases hheld y q hy with ⟨-, rfl⟩ | ⟨-, -, hyq⟩
    · obtain rfl : tok' = tok := Option.some.inj (Eq.trans (Eq.symm hq) htok)
      rw [hnew] at hrel
      cases hrel
    · obtain ⟨u, stage, source, hu, hne⟩ := h.marked y q tok' hyq hq hrel
      exact ⟨u, stage, source, pc_goto_of_ne hu (by simp [hpc]), hne⟩
  · intro q tok' hq
    by_cases hqp : q = p
    · subst hqp
      exact .inl ⟨x, Function.update_self _ _ _⟩
    · rcases h.covered q tok' hq with ⟨y, hy⟩ | ⟨u, stage, y, hu⟩
      · have hyx : y ≠ x := by
          rintro rfl
          rw [hx] at hy
          cases hy
        exact .inl ⟨y, (Function.update_of_ne hyx _ _).trans hy⟩
      · have hstays : s.pc t ≠ .granting stage q y := by
          rw [hpc]
          rintro ⟨⟩
          exact hqp rfl
        exact .inr ⟨u, stage, y, pc_goto_of_ne hu hstays⟩

theorem Owned.exchange (h : s.Owned) (hpc : s.pc t = .releasing .exchange p x source) :
    ({ s with token := Function.update s.token p (some ⟨g, a, true⟩) }.goto t
      (.releasing .loadEntry p x source)).Owned := by
  obtain ⟨hx, hne⟩ : s.Fits (.releasing .exchange p x source) := hpc ▸ h.fits t
  have hsole := h.sole (p := p) (by rw [hpc]; rfl)
  have hother : ∀ q, q ≠ p → Function.update s.token p (some ⟨g, a, true⟩) q = s.token q :=
    fun q hq => Function.update_of_ne hq _ _
  refine Moves.owned (.releasing .loadEntry p x source) h (t := t)
    ⟨rfl, ?_, ?_, ⟨hx, hne⟩, ?_, ?_, ?_⟩ h.inj ?_ ?_ ?_
  · exact fun y hy => h.free (by simpa [hpc, LeasePc.objects] using hy)
  · intro q hq
    obtain rfl := Option.some.inj hq
    exact hsole
  · exact fun y => .inl rfl
  · intro q
    by_cases hq : q = p
    · subst hq
      exact .inr hsole
    · exact .inl (hother q hq)
  · exact fun y q hy => .inl ⟨y, hy⟩
  · intro y q hy
    by_cases hq : q = p
    · subst hq
      exact ⟨_, Function.update_self _ _ _⟩
    · obtain ⟨tok, htok⟩ := h.live y q hy
      exact ⟨tok, (hother q hq).trans htok⟩
  · intro y q tok hy htok hrel
    by_cases hq : q = p
    · subst hq
      obtain rfl := h.inj x y q hx hy
      exact ⟨t, .loadEntry, source, Function.update_self _ _ _, by decide⟩
    · obtain ⟨u, stage, source, hu, hne⟩ := h.marked y q tok hy ((hother q hq).symm.trans htok) hrel
      have hstays : s.pc t ≠ .releasing stage q y source := by
        rw [hpc]
        rintro ⟨⟩
        exact hq rfl
      exact ⟨u, stage, source, pc_goto_of_ne hu hstays, hne⟩
  · intro q tok htok
    by_cases hq : q = p
    · subst hq
      exact .inl ⟨x, hx⟩
    · refine (h.covered q tok ((hother q hq).symm.trans htok)).imp_right ?_
      rintro ⟨u, stage, y, hu⟩
      exact ⟨u, stage, y, pc_goto_of_ne hu (by simp [hpc])⟩

theorem Owned.reset (h : s.Owned) (hpc : s.pc t = .releasing .reset p x source) :
    ({ s with
      token := Function.update s.token p none
      held := Function.update s.held x none }.goto t (.leave x source)).Owned := by
  obtain ⟨hx, hne⟩ : s.Fits (.releasing .reset p x source) := hpc ▸ h.fits t
  have hfree : s.Free t x := h.free (by simp [hpc, LeasePc.objects])
  have hsole := h.sole (p := p) (by rw [hpc]; rfl)
  have hheld : ∀ y q, Function.update s.held x none y = some q → q ≠ p ∧ s.held y = some q := by
    intro y q hy
    by_cases hyx : y = x
    · subst hyx
      rw [Function.update_self] at hy
      cases hy
    · rw [Function.update_of_ne hyx] at hy
      exact ⟨fun hq => hyx (h.inj y x p (hq ▸ hy) hx), hy⟩
  have htoken : ∀ q tok, Function.update s.token p none q = some tok →
      q ≠ p ∧ s.token q = some tok := by
    intro q tok hq
    by_cases hqp : q = p
    · subst hqp
      rw [Function.update_self] at hq
      cases hq
    · rw [Function.update_of_ne hqp] at hq
      exact ⟨hqp, hq⟩
  refine Moves.owned (.leave x source) h (t := t) ⟨rfl, ?_, ?_, ?_, ?_, ?_, ?_⟩ ?_ ?_ ?_ ?_
  · intro y hy
    refine h.free ?_
    rw [hpc]
    cases source with
    | none => simp [LeasePc.leave, LeasePc.objects] at hy
    | some z => simpa [LeasePc.leave, LeasePc.objects] using hy
  · cases source <;> simp [LeasePc.leave, LeasePc.token]
  · cases source with
    | none => trivial
    | some z => exact ⟨fun hxz => hne (hxz ▸ rfl), Function.update_self _ _ _⟩
  · intro y
    by_cases hyx : y = x
    · subst hyx
      exact .inr hfree
    · exact .inl (Function.update_of_ne hyx _ _)
  · intro q
    by_cases hqp : q = p
    · subst hqp
      exact .inr hsole
    · exact .inl (Function.update_of_ne hqp _ _)
  · exact fun y q hy => .inl ⟨y, (hheld y q hy).2⟩
  · exact fun y z q hy hz => h.inj y z q (hheld y q hy).2 (hheld z q hz).2
  · intro y q hy
    obtain ⟨hqp, hyq⟩ := hheld y q hy
    obtain ⟨tok, htok⟩ := h.live y q hyq
    exact ⟨tok, (Function.update_of_ne hqp _ _).trans htok⟩
  · intro y q tok hy hq hrel
    obtain ⟨hqp, hyq⟩ := hheld y q hy
    obtain ⟨u, stage, source, hu, hne⟩ := h.marked y q tok hyq (htoken q tok hq).2 hrel
    have hstays : s.pc t ≠ .releasing stage q y source := by
      rw [hpc]
      rintro ⟨⟩
      exact hqp rfl
    exact ⟨u, stage, source, pc_goto_of_ne hu hstays, hne⟩
  · intro q tok hq
    obtain ⟨hqp, hq⟩ := htoken q tok hq
    rcases h.covered q tok hq with ⟨y, hy⟩ | ⟨u, stage, y, hu⟩
    · have hyx : y ≠ x := by
        rintro rfl
        exact hqp (Option.some.inj (hy.symm.trans hx))
      exact .inl ⟨y, (Function.update_of_ne hyx _ _).trans hy⟩
    ·      exact .inr ⟨u, stage, y, pc_goto_of_ne hu (by simp [hpc])⟩

/-- A token goes from one lease object to another, by a thread without a token in its hands. -/
theorem Owned.move (h : s.Owned) (hpc : (s.pc t).token = none) (hne : x ≠ y) (hx : s.held x = none)
    (hfree : s.Free t x) (hfree' : s.Free t y) : ((s.move x y).goto t .idle).Owned := by
  have hheld : ∀ z q, Function.update (Function.update s.held x (s.held y)) y none z = some q →
      z ≠ y ∧ ((z = x ∧ s.held y = some q) ∨ z ≠ x ∧ s.held z = some q) := by
    intro z q hz
    by_cases hzy : z = y
    · subst hzy
      rw [Function.update_self] at hz
      cases hz
    · rw [Function.update_of_ne hzy] at hz
      refine ⟨hzy, ?_⟩
      by_cases hzx : z = x
      · subst hzx
        rw [Function.update_self] at hz
        exact .inl ⟨rfl, hz⟩
      · rw [Function.update_of_ne hzx] at hz
        exact .inr ⟨hzx, hz⟩
  refine Moves.owned (.idle) h (t := t) ⟨rfl, ?_, ?_, trivial, ?_, ?_, ?_⟩ ?_ ?_ ?_ ?_
  · simp [LeasePc.objects]
  · simp [LeasePc.token]
  · intro z
    by_cases hzy : z = y
    · subst hzy
      exact .inr hfree'
    · by_cases hzx : z = x
      · subst hzx
        exact .inr hfree
      · exact .inl ((Function.update_of_ne hzy _ _).trans (Function.update_of_ne hzx _ _))
  · exact fun q => .inl rfl
  · intro z q hz
    rcases (hheld z q hz).2 with ⟨-, hyq⟩ | ⟨-, hzq⟩
    · exact .inl ⟨y, hyq⟩
    · exact .inl ⟨z, hzq⟩
  · intro z w q hz hw
    obtain ⟨hzy, hz⟩ := hheld z q hz
    obtain ⟨hwy, hw⟩ := hheld w q hw
    rcases hz with ⟨rfl, hyq⟩ | ⟨-, hzq⟩
    · rcases hw with ⟨rfl, -⟩ | ⟨-, hwq⟩
      · rfl
      · exact absurd (h.inj w y q hwq hyq) hwy
    · rcases hw with ⟨rfl, hyq⟩ | ⟨-, hwq⟩
      · exact absurd (h.inj z y q hzq hyq) hzy
      · exact h.inj z w q hzq hwq
  · intro z q hz
    rcases (hheld z q hz).2 with ⟨-, hyq⟩ | ⟨-, hzq⟩
    · exact h.live y q hyq
    · exact h.live z q hzq
  · intro z q tok hz hq hrel
    rcases (hheld z q hz).2 with ⟨rfl, hyq⟩ | ⟨-, hzq⟩
    · obtain ⟨u, stage, source, hu, -⟩ := h.marked y q tok hyq hq hrel
      have hut : u ≠ t := by
        rintro rfl
        rw [hu] at hpc
        cases hpc
      exact absurd (by simp [hu, LeasePc.objects]) (hfree' u hut)
    · obtain ⟨u, stage, source, hu, hstage⟩ := h.marked z q tok hzq hq hrel
      refine ⟨u, stage, source, pc_goto_of_ne hu ?_, hstage⟩
      intro heq
      rw [show s.pc t = _ from heq] at hpc
      cases hpc
  · intro q tok hq
    rcases h.covered q tok hq with ⟨z, hz⟩ | ⟨u, stage, z, hu⟩
    · by_cases hzy : z = y
      · subst hzy
        refine .inl ⟨x, (Function.update_of_ne hne _ _).trans ?_⟩
        rw [Function.update_self, hz]
      · have hzx : z ≠ x := by
          rintro rfl
          rw [hx] at hz
          cases hz
        exact .inl ⟨z, (Function.update_of_ne hzy _ _).trans ((Function.update_of_ne hzx _ _).trans hz)⟩
    · refine .inr ⟨u, stage, z, pc_goto_of_ne hu ?_⟩
      intro heq
      rw [show s.pc t = _ from heq] at hpc
      cases hpc

/-- What the counters do to tokens, lease objects and threads : nothing. -/
theorem onEntry_frame (s : Leases) (p : Address) (f : UInt64 → UInt64) :
    (s.onEntry p f).pc = s.pc ∧ (s.onEntry p f).held = s.held ∧ (s.onEntry p f).token = s.token := by
  unfold onEntry
  split <;> exact ⟨rfl, rfl, rfl⟩

theorem onEngine_frame (s : Leases) (p : Address) (f : UInt64 → UInt64) :
    (s.onEngine p f).pc = s.pc ∧ (s.onEngine p f).held = s.held ∧
      (s.onEngine p f).token = s.token := by
  unfold onEngine
  split
  · exact ⟨rfl, rfl, rfl⟩
  · split <;> exact ⟨rfl, rfl, rfl⟩

/-- A step within a grant. -/
theorem Owned.grants (h : s.Owned) {stage stage' : GrantStage} (hpc : s.pc t = .granting stage p x)
    (hgoes : s'.pc = s.pc) (hheld : s'.held = s.held) (htoken : s'.token = s.token) :
    (s'.goto t (.granting stage' p x)).Owned := by
  have hsole := h.sole (p := p) (by rw [hpc]; rfl)
  refine h.goto (.granting stage' p x) (pc_goto hgoes) hheld htoken ?_ ?_ ?_ ?_ ?_
  · exact fun y hy => h.free (by simpa [hpc, LeasePc.objects] using hy)
  · intro q hq
    obtain rfl := Option.some.inj hq
    exact hsole
  · have hfits := h.fits t
    rw [hpc] at hfits
    exact hfits
  · intro stage₁ q y hq
    rw [hpc] at hq
    cases hq
    exact ⟨stage', rfl⟩
  · intro stage₁ q y source hq
    rw [hpc] at hq
    cases hq

/-- A step within a release, once the token is marked. -/
theorem Owned.releases (h : s.Owned) {stage stage' : ReleaseStage}
    (hpc : s.pc t = .releasing stage p x source) (hstage : stage' ≠ .exchange)
    (hgoes : s'.pc = s.pc) (hheld : s'.held = s.held) (htoken : s'.token = s.token) :
    (s'.goto t (.releasing stage' p x source)).Owned := by
  have hsole := h.sole (p := p) (by rw [hpc]; rfl)
  refine h.goto (.releasing stage' p x source) (pc_goto hgoes) hheld htoken
    ?_ ?_ ?_ ?_ ?_
  · exact fun y hy => h.free (by simpa [hpc, LeasePc.objects] using hy)
  · intro q hq
    obtain rfl := Option.some.inj hq
    exact hsole
  · have hfits := h.fits t
    rw [hpc] at hfits
    exact hfits
  · intro stage₁ q y hq
    rw [hpc] at hq
    cases hq
  · intro stage₁ q y source' hq _
    rw [hpc] at hq
    cases hq
    exact ⟨stage', source, rfl, hstage⟩

/-- A step of a thread that has no token, nor gets one. -/
theorem Owned.handless (h : s.Owned) (hpc : (s.pc t).token = none) (hnone : pc.token = none)
    (hobjects : ∀ x ∈ pc.objects, s.Free t x) (hfits : s.Fits pc) : (s.goto t pc).Owned := by
  refine h.goto pc rfl rfl rfl hobjects ?_ hfits ?_ ?_
  · intro q hq
    rw [hnone] at hq
    cases hq
  · intro stage q y hq
    rw [hq] at hpc
    cases hpc
  · intro stage q y source hq
    rw [hq] at hpc
    cases hpc

theorem Owned.enter (h : s.Owned) (hpc : s.pc t = .entering x source) :
    (s.advance t (.entering x source)).Owned := by
  have hne : source ≠ some x := by
    have hfits := h.fits t
    rw [hpc] at hfits
    exact hfits
  have hobjects : ∀ y ∈ x :: source.toList, s.Free t y :=
    fun y hy => h.free (by rw [hpc]; exact hy)
  unfold Leases.advance
  dsimp only
  cases hx : s.held x with
  | none =>
    dsimp only
    refine h.handless (by rw [hpc]; rfl) ?_ ?_ ?_
    · cases source <;> rfl
    · cases source with
      | none => simp [LeasePc.leave, LeasePc.objects]
      | some z => exact hobjects
    · cases source with
      | none => trivial
      | some z => exact ⟨fun hxz => hne (hxz ▸ rfl), hx⟩
  | some p =>
    dsimp only
    have hfree := hobjects x (by simp)
    refine h.goto (.releasing .exchange p x source) rfl rfl rfl hobjects ?_ ⟨hx, hne⟩ ?_ ?_
    · intro q hq
      obtain rfl := Option.some.inj hq
      exact h.sole_held hx hfree
    · intro stage q y hq
      rw [hpc] at hq
      cases hq
    · intro stage q y source' hq
      rw [hpc] at hq
      cases hq

theorem Owned.advance (h : s.Owned) (t : ℕ) : (s.advance t (s.pc t)).Owned := by
  rcases hpc : s.pc t with _ | ⟨stage, p, x⟩ | ⟨x, source⟩ | ⟨stage, p, x, source⟩ | ⟨x, y⟩
  · exact h
  · cases stage with
    | countEntry =>
      obtain ⟨hgoes, hheld, htoken⟩ := onEntry_frame s p (· + 1)
      exact h.grants hpc hgoes hheld htoken
    | countEngine =>
      obtain ⟨hgoes, hheld, htoken⟩ := onEngine_frame s p (· + 1)
      exact h.grants hpc hgoes hheld htoken
    | build => exact h.build hpc
  · exact h.enter hpc
  · cases stage with
    | exchange =>
      unfold Leases.advance
      dsimp only
      split
      · exact h.exchange hpc
      · exact h.releases hpc (by decide) rfl rfl rfl
    | loadEntry => exact h.releases hpc nofun rfl rfl rfl
    | subEntry v =>
      obtain ⟨hgoes, hheld, htoken⟩ := onEntry_frame s p (· - 1)
      unfold Leases.advance
      dsimp only
      split_ifs
      · exact h.releases hpc nofun hgoes hheld htoken
      · exact h.releases hpc nofun rfl rfl rfl
    | loadEngine =>
      obtain ⟨hgoes, hheld, htoken⟩ := onEngine_frame s p id
      exact h.releases hpc nofun hgoes hheld htoken
    | subEngine v =>
      obtain ⟨hgoes, hheld, htoken⟩ := onEngine_frame s p (· - 1)
      unfold Leases.advance
      dsimp only
      split_ifs
      · exact h.releases hpc nofun hgoes hheld htoken
      · exact h.releases hpc nofun rfl rfl rfl
    | reset => exact h.reset hpc
  · obtain ⟨hne, hx⟩ : s.Fits (.adopting x y) := hpc ▸ h.fits t
    refine h.move (by rw [hpc]; rfl) hne hx ?_ ?_
    · exact h.free (by simp [hpc, LeasePc.objects])
    · exact h.free (by simp [hpc, LeasePc.objects])

theorem goto_self (s : Leases) (hidle : s.pc t = pc) : s.goto t pc = s := by
  rw [← hidle, Leases.goto, Function.update_eq_self]

/-- One event keeps the ownership, where no lease object is used by two threads. -/
theorem Owned.next (h : s.Owned) {ev : LeaseEvent} (he : s.Exclusive ev) : (s.next ev).Owned := by
  cases ev with
  | construct g =>
    unfold Leases.next
    dsimp only
    split_ifs
    · exact ⟨h.1, h.2, h.3, h.4, h.5, h.6, h.7⟩
    · exact h
  | destroy g =>
    unfold Leases.next
    dsimp only
    split
    · exact ⟨h.1, h.2, h.3, h.4, h.5, h.6, h.7⟩
    · exact h
  | makeLease t g a p x =>
    unfold Leases.next
    dsimp only
    split_ifs with hguard
    · exact h.makeLease hguard.1 hguard.2.2.1 hguard.2.2.2 he
    · exact h
  | release t x =>
    unfold Leases.next
    dsimp only
    split_ifs with hguard
    · refine h.handless (by rw [hguard]; rfl) rfl ?_ nofun
      intro y hy
      obtain rfl : y = x := by simpa [LeasePc.objects] using hy
      exact he
    · exact h
  | moveConstruct t x y =>
    unfold Leases.next
    dsimp only
    split_ifs with hguard
    · obtain ⟨hidle, hne, hx⟩ := hguard
      rw [← goto_self (s.move x y) (show (s.move x y).pc t = .idle from hidle)]
      exact h.move (by rw [hidle]; rfl) hne hx he.1 he.2
    · exact h
  | moveAssign t x y =>
    unfold Leases.next
    dsimp only
    split_ifs with hguard
    · refine h.handless (by rw [hguard.1]; rfl) rfl ?_ ?_
      · intro z hz
        rcases List.mem_cons.mp hz with rfl | hz
        · exact he.1
        · obtain rfl : z = y := by simpa using hz
          exact he.2
      · exact fun heq => hguard.2 (Option.some.inj heq).symm
    · exact h
  | step t => exact h.advance t

/-- Ownership holds throughout a run. -/
theorem owned_run {evs : List LeaseEvent} (he : Throughout next {} Exclusive evs) :
    (run evs).Owned := by
  induction evs using List.reverseRecOn with
  | nil => exact owned_start
  | append_singleton evs ev ih =>
    obtain ⟨hevs, hev⟩ := throughout_concat.mp he
    rw [run, after_concat]
    exact (ih hevs).next hev

end

end Leases

end GraphCache
