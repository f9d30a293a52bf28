import GraphCache.Eviction
import GraphCache.Revocation

/-!
# The books of leases

What the engine counts of its leases : the tokens given out and taken back, the leases on each entry
and those of the whole cache (`LeaseBooks`). Only a lookup that hits and a release write to them
(`step_leaseBooks`).

A caller has no other leases than those it was granted, and releases no others (`Returns`). Then the
counters are exact in every state of a run : each is the number of leases that are out
(`leases_counted`), so what is leased is neither evicted nor unloaded, and nothing else holds an
unload back. What a lease replays is settled when it is granted : no later operation, whatever it does
to the entry or to its key, changes the answer (`lease_snapshot`).
-/

namespace GraphCache

open History

variable {Exec : Type} {cfg : Config Exec}

/-! ## The books -/

/-- The counters of leases. -/
@[ext] structure LeaseBooks where
  nextLease : ℕ
  released : List ℕ
  activeLeases : UInt64
  leaseCount : ℕ → UInt64

/-- The leases on the entry at `a`; there are none where no entry is yet. -/
def Registry.leases (r : Registry Exec) (a : ℕ) : UInt64 :=
  if a < r.next then (r.heap a).leaseCount else 0

def State.leaseBooks (s : State Exec) : LeaseBooks where
  nextLease := s.nextLease
  released := s.released
  activeLeases := s.activeLeases
  leaseCount := s.toRegistry.leases

/-- The books after a lease on the entry at `a`. -/
def LeaseBooks.grant (b : LeaseBooks) (a : ℕ) : LeaseBooks where
  nextLease := b.nextLease + 1
  released := b.released
  activeLeases := b.activeLeases + 1
  leaseCount := Function.update b.leaseCount a (b.leaseCount a + 1)

/-- The books after the release of a lease on the entry at `a`. -/
def LeaseBooks.take (b : LeaseBooks) (token a : ℕ) : LeaseBooks where
  nextLease := b.nextLease
  released := token :: b.released
  activeLeases := if b.activeLeases > 0 then b.activeLeases - 1 else b.activeLeases
  leaseCount := Function.update b.leaseCount a
    (if b.leaseCount a > 0 then b.leaseCount a - 1 else b.leaseCount a)

theorem leases_of_lt {r : Registry Exec} {a : ℕ} (h : a < r.next) :
    r.leases a = (r.heap a).leaseCount := if_pos h

theorem leases_of_le {r : Registry Exec} {a : ℕ} (h : r.next ≤ a) : r.leases a = 0 :=
  if_neg (by omega)

/-- An edit of one entry moves its own count alone. -/
theorem set_leases {r : Registry Exec} {a : ℕ} (h : a < r.next) (e : CacheEntry Exec) :
    (r.set a e).leases = Function.update r.leases a e.leaseCount := by
  funext b
  by_cases hb : b = a
  · subst hb
    rw [leases_of_lt (by exact h), set_heap_self, Function.update_self]
  · rw [Function.update_of_ne hb, Registry.leases, set_heap_of_ne r e hb]
    rfl

theorem set_leases_same {r : Registry Exec} {a : ℕ} {e : CacheEntry Exec}
    (h : e.leaseCount = (r.heap a).leaseCount) : (r.set a e).leases = r.leases := by
  funext b
  rw [Registry.leases, Registry.leases]
  by_cases hb : b = a
  · subst hb
    rw [set_heap_self, h]
    rfl
  · rw [set_heap_of_ne r e hb]
    rfl

theorem register_leases {r : Registry Exec} {e : CacheEntry Exec} (h : e.leaseCount = 0) :
    (r.register e).leases = r.leases := by
  funext b
  rcases Nat.lt_trichotomy b r.next with hb | rfl | hb
  · rw [leases_of_lt hb, leases_of_lt (by rw [register_next]; omega), register_heap_of_lt r e hb]
  · rw [leases_of_le le_rfl, leases_of_lt (by rw [register_next]; omega), register_heap_self, h]
  · rw [leases_of_le hb.le, leases_of_le (by rw [register_next]; omega)]

/-- The books after a lookup with this answer. -/
def LeaseBooks.answer (b : LeaseBooks) : Option (Lease Exec) → LeaseBooks
  | none => b
  | some l => b.grant l.entry

/-- The lease of an answer is the next one, on an entry that is there, and it is in the books. -/
structure Answers (s : State Exec) (p : State Exec × GraphLookupResult Exec) : Prop where
  books : p.1.leaseBooks = s.leaseBooks.answer p.2.lease
  lease : ∀ l, p.2.lease = some l → l.token = s.nextLease ∧ l.entry < p.1.next

theorem Answers.nothing {s : State Exec} {p : State Exec × GraphLookupResult Exec}
    (hlease : p.2.lease = none) (hbooks : p.1.leaseBooks = s.leaseBooks) : Answers s p := by
  refine ⟨?_, fun l hl => ?_⟩
  · rw [hlease]
    exact hbooks
  · rw [hlease] at hl
    cases hl

section

variable {s s' : State Exec} {a : ℕ}

theorem set_leaseBooks {e : CacheEntry Exec} (h : e.leaseCount = (s.heap a).leaseCount) :
    (s.set a e).leaseBooks = s.leaseBooks :=
  LeaseBooks.ext rfl rfl rfl (set_leases_same h)

theorem dropResidency_leaseCount (e : CacheEntry Exec) :
    (dropResidency cfg e).leaseCount = e.leaseCount := by
  unfold dropResidency
  split_ifs
  · split <;> rfl
  · rfl

variable (cfg s) in
theorem materializeExec_leaseBooks (a : ℕ) :
    (materializeExec cfg s a).1.leaseBooks = s.leaseBooks := by
  unfold materializeExec
  dsimp only
  split_ifs
  · rfl
  · split
    · rfl
    · split
      · rfl
      · exact set_leaseBooks (s := s) rfl

/-- A search gives out the lease that it answers with. -/
theorem searchCandidates_answers (hi : s.toRegistry.Indexed) (facts : CompatibilityFacts)
    (policy : GraphCompatibilityPolicy) : Answers s (searchCandidates cfg s facts policy) := by
  unfold searchCandidates
  dsimp only
  split
  · split
    · exact .nothing rfl rfl
    · exact .nothing rfl rfl
  · rename_i a dec hchosen
    have hlt : a < s.next := (hi.bucket _ a (scan_chosen hchosen).1.mem).1
    have hbooks := materializeExec_leaseBooks cfg s a
    have hnext := ((materializeExec_spec cfg s a).2.1.same 0).2
    split
    · rename_i s₁ e h
      rw [h] at hbooks
      exact .nothing rfl hbooks
    · rename_i s₁ h
      rw [h] at hbooks hnext
      split_ifs
      · exact .nothing rfl hbooks
      · have hlt₁ : a < s₁.next := by
          rw [show s₁.next = s.next from hnext]
          exact hlt
        refine ⟨?_, fun l hl => ?_⟩
        · rw [← hbooks]
          refine LeaseBooks.ext rfl rfl rfl ((set_leases hlt₁ _).trans ?_)
          dsimp only [LeaseBooks.answer, LeaseBooks.grant, State.leaseBooks, makeLease]
          rw [leases_of_lt hlt₁]
        · obtain rfl := Option.some.inj hl
          exact ⟨congrArg LeaseBooks.nextLease hbooks, hlt₁⟩

theorem captureGraph_leaseBooks (req : GraphLookupRequest) (attempt : CaptureAttemptId)
    (env : LookupEnv) : (captureGraph cfg s req attempt env).1.leaseBooks = s.leaseBooks := by
  unfold captureGraph
  split
  · unfold captureFailureMetric
    split
    · rfl
    · split
      · rfl
      · split <;> rfl
  · rename_i e he
    obtain ⟨g, exec, -, -, rfl⟩ := captureEntry_ok he
    dsimp only [State.touchMetric]
    rw [persistEntry_eq]
    exact LeaseBooks.ext rfl rfl rfl (register_leases rfl)

theorem Answers.of_books {s₁ : State Exec} {p : State Exec × GraphLookupResult Exec}
    (h : Answers s₁ p) (hbooks : s₁.leaseBooks = s.leaseBooks) : Answers s p := by
  refine ⟨by rw [h.books, hbooks], fun l hl => ?_⟩
  obtain ⟨htoken, hentry⟩ := h.lease l hl
  exact ⟨htoken.trans (congrArg LeaseBooks.nextLease hbooks), hentry⟩

variable (cfg s) in
theorem lookup_answers (hi : s.toRegistry.Indexed) (req : GraphLookupRequest) (env : LookupEnv) :
    Answers s (lookup cfg s req env) := by
  have hpath := lookup_path cfg s req env
  have hfirst : ∀ {s₁ : State Exec} {res : GraphLookupResult Exec},
      searchCandidates cfg (s.lookedUp req) (makeFacts req) req.policy = (s₁, res) →
        Answers s (s₁, res) := by
    intro s₁ res hs
    rw [← hs]
    exact (searchCandidates_answers (s := s.lookedUp req) hi _ _).of_books rfl
  have hmissed : ∀ {s₁ : State Exec} {res : GraphLookupResult Exec},
      Answers s (s₁, res) → res.lease = none → s₁.leaseBooks = s.leaseBooks := by
    intro s₁ res h hnone
    have hbooks := h.books
    dsimp only at hbooks
    rwa [hnone] at hbooks
  -- a lookup captures after a search without a lease, and the capture leaves the books alone
  have hcapture : ∀ {s₁ s₂ : State Exec} {res : GraphLookupResult Exec} {r : Result GraphArtifactId},
      searchCandidates cfg (s.lookedUp req) (makeFacts req) req.policy = (s₁, res) →
      res.outcome = .missCaptureRequired →
      captureGraph cfg (s₁.capturing req) req (s₁.captureCounter + 1) env = (s₂, r) →
        res.lease = none ∧ s₂.leaseBooks = s.leaseBooks := by
    intro s₁ s₂ res r hs hout hg
    have hspec := (searchCandidates_spec cfg (s.lookedUp req) (makeFacts req) req.policy).2.2.2
    rw [hs] at hspec
    have hnone := (hspec hout).1
    have hbooks : (captureGraph cfg (s₁.capturing req) req (s₁.captureCounter + 1) env).1.leaseBooks =
        (s₁.capturing req).leaseBooks := captureGraph_leaseBooks req _ env
    rw [hg] at hbooks
    have hsearched := hmissed (hfirst hs) hnone
    exact ⟨hnone, hbooks.trans hsearched⟩
  have hagain : ∀ {s₁ s₂ s₃ : State Exec} {res again : GraphLookupResult Exec}
      {id : GraphArtifactId},
      searchCandidates cfg (s.lookedUp req) (makeFacts req) req.policy = (s₁, res) →
      res.outcome = .missCaptureRequired →
      captureGraph cfg (s₁.capturing req) req (s₁.captureCounter + 1) env = (s₂, .ok id) →
      searchCandidates cfg s₂ (makeFacts req) req.policy = (s₃, again) →
        res.lease = none ∧ Answers s (s₃, again) := by
    intro s₁ s₂ s₃ res again id hs hout hg ha
    obtain ⟨hnone, hbooks⟩ := hcapture hs hout hg
    rcases capture_spec hs hout hg with ⟨err, herr, -⟩ | ⟨e, -, -, hreg, -⟩
    · cases herr
    · refine ⟨hnone, ?_⟩
      rw [← ha]
      refine (searchCandidates_answers ?_ _ _).of_books hbooks
      rw [hreg]
      exact hi.register e
  generalize lookup cfg s req env = p at hpath ⊢
  obtain ⟨s', res'⟩ := p
  dsimp only at hpath
  cases hpath with
  | found hs _ => exact ⟨(hfirst hs).books, (hfirst hs).lease⟩
  | missed hs hmiss _ =>
    have hnone := Option.isNone_iff_eq_none.mp (Option.isSome_eq_false_iff.mp hmiss)
    have hsearched := hmissed (hfirst hs) hnone
    exact .nothing hnone hsearched
  | failed hs hmay hg => exact .nothing (hcapture hs hmay.2.2 hg).1 (hcapture hs hmay.2.2 hg).2
  | captured hs hmay hg ha _ =>
    exact ⟨(hagain hs hmay.2.2 hg ha).2.books, (hagain hs hmay.2.2 hg ha).2.lease⟩
  | unusable hs hmay hg ha hmiss =>
    have hnone := Option.isNone_iff_eq_none.mp (Option.isSome_eq_false_iff.mp hmiss)
    exact .nothing (hagain hs hmay.2.2 hg ha).1 (hmissed (hagain hs hmay.2.2 hg ha).2 hnone)

/-! ## One step -/

/-- The books after an operation that gives this lease back, if any. -/
def LeaseBooks.giveBack (b : LeaseBooks) : Option (Lease Exec) → LeaseBooks
  | none => b
  | some l => if l.token ∈ b.released then b else b.take l.token l.entry

theorem release_leaseBooks {l : Lease Exec} (hl : l.entry < s.next) :
    (release s l).leaseBooks = s.leaseBooks.giveBack (some l) := by
  by_cases h : l.token ∈ s.released
  · rw [release, if_pos h]
    exact (if_pos h).symm
  · rw [release, if_neg h]
    refine Eq.trans ?_ (if_neg h).symm
    refine LeaseBooks.ext rfl rfl rfl ((set_leases hl _).trans ?_)
    simp only [LeaseBooks.take, State.leaseBooks, leases_of_lt hl]

theorem invalidate_leaseBooks (req : InvalidationRequest) :
    (invalidate cfg s req).1.leaseBooks = s.leaseBooks := by
  have hmark : ∀ (strong : Bool) (e : CacheEntry Exec),
      (markInvalidated cfg strong e).leaseCount = e.leaseCount := by
    intro strong e
    unfold markInvalidated
    dsimp only
    split_ifs
    · exact dropResidency_leaseCount _
    · rfl
  have hfold : ∀ (l : List ℕ) (acc : State Exec × InvalidationResult),
      (l.foldl (invalidateEntry cfg req.strong) acc).1.leaseBooks = acc.1.leaseBooks := by
    intro l
    induction l with
    | nil => exact fun _ => rfl
    | cons a l ih =>
      intro acc
      rw [List.foldl_cons, ih]
      unfold invalidateEntry
      dsimp only
      by_cases hinv : (acc.1.heap a).invalidated = true
      · rw [if_pos hinv]
      · rw [if_neg hinv]
        exact set_leaseBooks (s := acc.1) (hmark _ _)
  exact hfold _ _

theorem persistLoop_leaseBooks (putOk : GraphArtifactId → Bool) :
    ∀ (l : List ℕ) (s : State Exec), (persistLoop putOk l s).1.leaseBooks = s.leaseBooks
  | [], _ => rfl
  | a :: l, s => by
    have hentry : (persistEntry s a (putOk (s.heap a).artifactId)).1.leaseBooks = s.leaseBooks := by
      rw [persistEntry_eq]
      rfl
    unfold persistLoop
    split
    · rename_i hp
      rw [persistLoop_leaseBooks putOk l, ← hentry, hp]
    · rename_i hp
      rw [← hentry, hp]

theorem recover_leaseBooks (listing : IterationOrder GraphArtifactId) :
    (recover s listing).1.leaseBooks = s.leaseBooks := by
  have hfold : ∀ (store : Store) (ids : List GraphArtifactId) (s : State Exec),
      (ids.foldl (recoverEntry store) s).leaseBooks = s.leaseBooks := by
    intro store ids
    induction ids with
    | nil => exact fun _ => rfl
    | cons id ids ih =>
      intro s
      rw [List.foldl_cons, ih]
      unfold recoverEntry
      split
      · rfl
      · rename_i e he
        obtain ⟨g, md, rfl⟩ := loadEntry_some he
        exact LeaseBooks.ext rfl rfl rfl (register_leases rfl)
  unfold recover
  split
  · rfl
  · exact hfold _ _ s

/-- The lease that an operation gives out. -/
def grantedBy (cfg : Config Exec) (s : State Exec) : Op Exec → Option (Lease Exec)
  | .lookup req env => (lookup cfg s req env).2.lease
  | _ => none

/-- The lease that an operation takes back. -/
def returnedBy : Op Exec → Option (Lease Exec)
  | .release l => some l
  | _ => none

/-- Only a lookup that hits and a release write to the books. -/
theorem step_leaseBooks (hi : s.toRegistry.Indexed) (op : Op Exec)
    (hrel : ∀ l, op = .release l → l.entry < s.next) : (step cfg s op).leaseBooks =
      (s.leaseBooks.answer (grantedBy cfg s op)).giveBack (returnedBy op) := by
  cases op with
  | lookup req env => exact (lookup_answers cfg s hi req env).books
  | release l => exact release_leaseBooks (hrel l rfl)
  | replay l expected b rd mem =>
    simp only [step, replay]
    split_ifs
    · rfl
    · rfl
    · split
      · rfl
      · split <;> rfl
  | invalidate req => exact invalidate_leaseBooks req
  | pin id =>
    simp only [step, pin]
    split
    · rfl
    · exact set_leaseBooks rfl
  | unpin id =>
    simp only [step, unpin]
    split
    · rfl
    · split_ifs
      · rfl
      · exact set_leaseBooks rfl
  | evict id =>
    simp only [step, evict]
    split
    · rfl
    · split_ifs
      · rfl
      · exact set_leaseBooks (s := s) (dropResidency_leaseCount _)
  | unload id =>
    simp only [step, unload]
    split
    · rfl
    · split_ifs
      · rfl
      · exact set_leaseBooks (dropResidency_leaseCount _)
  | persistAll order putOk =>
    simp only [step, persistAll]
    split
    · rfl
    · exact persistLoop_leaseBooks putOk _ s
  | recover listing => exact recover_leaseBooks listing

end

/-! ## Runs -/

/-- The leases that a run gave out, in order. -/
def grantedLeases (cfg : Config Exec) : State Exec → List (Op Exec) → List (Lease Exec)
  | _, [] => []
  | s, op :: ops => (grantedBy cfg s op).toList ++ grantedLeases cfg (step cfg s op) ops

/-- The lease is out. -/
def Lease.out (released : List ℕ) (l : Lease Exec) : Bool := l.token ∉ released

/-- The lease is out, and on the entry at `a`. -/
def Lease.outOn (released : List ℕ) (a : ℕ) (l : Lease Exec) : Bool := l.out released && l.entry = a

/-- The leases of a run that are not released. -/
def heldLeases (cfg : Config Exec) (s : State Exec) (ops : List (Op Exec)) : List (Lease Exec) :=
  (grantedLeases cfg s ops).filter (Lease.out (run cfg s ops).released)

/-- What is released was granted before. -/
def Returns (cfg : Config Exec) (s : State Exec) (ops : List (Op Exec)) : Prop :=
  ∀ pre l post, ops = pre ++ .release l :: post → l ∈ grantedLeases cfg s pre

theorem grantedLeases_concat (op : Op Exec) : ∀ (ops : List (Op Exec)) (s : State Exec),
    grantedLeases cfg s (ops ++ [op]) =
      grantedLeases cfg s ops ++ (grantedBy cfg (run cfg s ops) op).toList
  | [], s => by simp [grantedLeases, run]
  | op' :: ops, s => by
    rw [List.cons_append, grantedLeases, grantedLeases_concat op ops, grantedLeases,
      List.append_assoc]
    rfl

theorem Returns.of_concat {s : State Exec} {ops : List (Op Exec)} {op : Op Exec}
    (h : Returns cfg s (ops ++ [op])) : Returns cfg s ops ∧
      ∀ l, op = .release l → l ∈ grantedLeases cfg s ops := by
  refine ⟨fun pre l post hsplit => h pre l (post ++ [op]) (by simp [hsplit]), ?_⟩
  rintro l rfl
  exact h ops l [] rfl

/-- One of a list with distinct tokens less. -/
theorem countP_ne {G : List (Lease Exec)} (hnd : (G.map Lease.token).Nodup) {l : Lease Exec}
    (hl : l ∈ G) (p : Lease Exec → Bool) (hp : p l = true) :
    G.countP (fun x => p x && decide (x.token ≠ l.token)) + 1 = G.countP p := by
  obtain ⟨pre, post, rfl⟩ := List.append_of_mem hl
  rw [List.map_append, List.map_cons] at hnd
  have hdisj := List.nodup_append.mp hnd
  have hpre : pre.countP (fun x => p x && decide (x.token ≠ l.token)) = pre.countP p := by
    refine List.countP_congr fun x hx => ?_
    have hne : x.token ≠ l.token :=
      hdisj.2.2 x.token (List.mem_map_of_mem hx) l.token List.mem_cons_self
    simp [hne]
  have hpost : post.countP (fun x => p x && decide (x.token ≠ l.token)) = post.countP p := by
    refine List.countP_congr fun x hx => ?_
    have hne : x.token ≠ l.token := fun heq =>
      (List.nodup_cons.mp hdisj.2.1).1 (heq ▸ List.mem_map_of_mem hx)
    simp [hne]
  rw [List.countP_append, List.countP_append, List.countP_cons, List.countP_cons, hpre, hpost]
  simp [hp]
  omega

/-- The books say what the leases of the run are : tokens in order, on entries that are there, and
as many as are not released. -/
structure Booked (b : LeaseBooks) (next : ℕ) (G : List (Lease Exec)) : Prop where
  tokens : G.map Lease.token = List.range b.nextLease
  released : ∀ t ∈ b.released, t < b.nextLease
  entries : ∀ l ∈ G, l.entry < next
  active : b.activeLeases.toNat = G.countP (Lease.out b.released)
  count : ∀ a, (b.leaseCount a).toNat = G.countP (Lease.outOn b.released a)

namespace Booked

variable {b : LeaseBooks} {next next' : ℕ} {G : List (Lease Exec)} {l : Lease Exec}

theorem nodup (h : Booked b next G) : (G.map Lease.token).Nodup := by
  rw [h.tokens]
  exact List.nodup_range

theorem length (h : Booked b next G) : G.length = b.nextLease := by
  have hlength := congrArg List.length h.tokens
  simpa using hlength

theorem mono (h : Booked b next G) (hnext : next ≤ next') : Booked b next' G :=
  ⟨h.tokens, h.released, fun l hl => (h.entries l hl).trans_le hnext, h.active, h.count⟩

/-- A counter of leases does not wrap. -/
theorem toNat_succ {n : UInt64} {k m : ℕ} (h : n.toNat = k) (hk : k ≤ m) (hm : m + 1 < 2 ^ 64) :
    (n + 1).toNat = k + 1 := by
  rw [UInt64.toNat_add, h]
  exact Nat.mod_eq_of_lt (by simp; omega)

theorem toNat_pred {n : UInt64} {k : ℕ} (h : n.toNat = k + 1) :
    (if n > 0 then n - 1 else n).toNat = k := by
  have hpos : n > 0 := UInt64.lt_iff_toNat_lt.mpr (by rw [h]; exact Nat.succ_pos k)
  rw [if_pos hpos, UInt64.toNat_sub_of_le _ _ (by rw [UInt64.le_iff_toNat_le, h]; simp), h]
  simp

theorem grant (h : Booked b next G) (hnext : next ≤ next') (htoken : l.token = b.nextLease)
    (hentry : l.entry < next') (hlt : b.nextLease + 1 < 2 ^ 64) :
    Booked (b.grant l.entry) next' (G ++ [l]) := by
  have hfresh : l.out b.released = true := by
    refine decide_eq_true fun hmem => ?_
    have hold := h.released _ hmem
    omega
  have hle : ∀ p : Lease Exec → Bool, G.countP p ≤ b.nextLease := by
    intro p
    rw [← h.length]
    exact List.countP_le_length
  refine ⟨?_, fun t ht => (h.released t ht).trans (Nat.lt_succ_self _), ?_, ?_, fun a => ?_⟩
  · simp [LeaseBooks.grant, h.tokens, htoken, List.range_succ]
  · intro x hx
    rcases List.mem_append.mp hx with hx | hx
    · exact (h.entries x hx).trans_le hnext
    · rw [List.mem_singleton.mp hx]
      exact hentry
  · change (b.activeLeases + 1).toNat = (G ++ [l]).countP (Lease.out b.released)
    rw [List.countP_append, List.countP_singleton, if_pos hfresh]
    exact toNat_succ h.active (hle _) hlt
  · change (Function.update b.leaseCount l.entry (b.leaseCount l.entry + 1) a).toNat =
      (G ++ [l]).countP (Lease.outOn b.released a)
    rw [List.countP_append, List.countP_singleton]
    by_cases ha : a = l.entry
    · subst ha
      rw [Function.update_self, if_pos (by simp [Lease.outOn, hfresh])]
      exact toNat_succ (h.count l.entry) (hle _) hlt
    · rw [Function.update_of_ne ha, if_neg (by simp [Lease.outOn, Ne.symm ha])]
      exact h.count a

theorem take (h : Booked b next G) (hl : l ∈ G) (hout : l.token ∉ b.released) :
    Booked (b.take l.token l.entry) next G := by
  have htoken : l.token < b.nextLease := by
    have hmem : l.token ∈ G.map Lease.token := List.mem_map_of_mem hl
    rw [h.tokens] at hmem
    exact List.mem_range.mp hmem
  have hrest : (Lease.out (l.token :: b.released) : Lease Exec → Bool) =
      fun x => x.out b.released && decide (x.token ≠ l.token) := by
    funext x
    simp [Lease.out, Bool.and_comm]
  have hrestOn : ∀ a, (Lease.outOn (l.token :: b.released) a : Lease Exec → Bool) =
      fun x => x.outOn b.released a && decide (x.token ≠ l.token) := by
    intro a
    funext x
    have hx : x.out (l.token :: b.released) = _ := congrFun hrest x
    rw [Lease.outOn, hx, Lease.outOn]
    exact Bool.and_right_comm _ _ _
  refine ⟨h.tokens, ?_, h.entries, ?_, fun a => ?_⟩
  · intro t ht
    rcases List.mem_cons.mp ht with rfl | ht
    · exact htoken
    · exact h.released t ht
  · refine toNat_pred (h.active.trans ?_)
    rw [show (b.take l.token l.entry).released = l.token :: b.released from rfl, hrest]
    exact (countP_ne h.nodup hl _ (decide_eq_true hout)).symm
  · change (Function.update b.leaseCount l.entry _ a).toNat =
      G.countP (Lease.outOn (l.token :: b.released) a)
    rw [hrestOn]
    by_cases ha : a = l.entry
    · subst ha
      rw [Function.update_self]
      refine toNat_pred ((h.count l.entry).trans ?_)
      exact (countP_ne h.nodup hl _ (by simp [Lease.outOn, Lease.out, hout])).symm
    · rw [Function.update_of_ne ha, h.count a]
      refine List.countP_congr fun x hx => ?_
      -- another lease on `a` has another token
      by_cases hon : x.outOn b.released a = true
      · have hne : x.token ≠ l.token := by
          intro heq
          have hsame : x = l := List.inj_on_of_nodup_map h.nodup hx hl heq
          rw [Lease.outOn, Bool.and_eq_true, decide_eq_true_eq, hsame] at hon
          exact ha hon.2.symm
        simp [hon, hne]
      · simp [hon]

theorem answer (h : Booked b next G) (hnext : next ≤ next') {o : Option (Lease Exec)}
    (ho : ∀ l, o = some l → l.token = b.nextLease ∧ l.entry < next') (hlt : b.nextLease + 1 < 2 ^ 64) :
    Booked (b.answer o) next' (G ++ o.toList) := by
  cases o with
  | none =>
    rw [Option.toList_none, List.append_nil]
    exact h.mono hnext
  | some l => exact h.grant hnext (ho l rfl).1 (ho l rfl).2 hlt

theorem giveBack (h : Booked b next G) {o : Option (Lease Exec)} (ho : ∀ l, o = some l → l ∈ G) :
    Booked (b.giveBack o) next G := by
  cases o with
  | none => exact h
  | some l =>
    rw [LeaseBooks.giveBack]
    split_ifs with hreleased
    · exact h
    · exact h.take (ho l rfl) hreleased

end Booked

theorem nextLease_answer (b : LeaseBooks) (o o' : Option (Lease Exec)) :
    ((b.answer o).giveBack o').nextLease ≤ b.nextLease + 1 := by
  have hback : ((b.answer o).giveBack o').nextLease = (b.answer o).nextLease := by
    cases o' with
    | none => rfl
    | some l =>
      rw [LeaseBooks.giveBack]
      split_ifs <;> rfl
  rw [hback]
  cases o with
  | none => exact Nat.le_succ _
  | some l => exact le_rfl

/-- A lease that is granted is the next one, on an entry that is there. -/
theorem spec_of_granted {s : State Exec} (hi : s.toRegistry.Indexed) {op : Op Exec} {l : Lease Exec}
    (h : grantedBy cfg s op = some l) : l.token = s.nextLease ∧ l.entry < (step cfg s op).next := by
  cases op with
  | lookup req env => exact (lookup_answers cfg s hi req env).lease l h
  | _ => cases h

/-- The books are kept all along a run. -/
theorem booked_run (store : Option Store) (ops : List (Op Exec))
    (hreturns : Returns cfg (.fresh store) ops) (hlen : ops.length < 2 ^ 64) :
    Booked (run cfg (.fresh store) ops).leaseBooks (run cfg (.fresh store) ops).next
        (grantedLeases cfg (.fresh store) ops) ∧
      (run cfg (.fresh store) ops).leaseBooks.nextLease ≤ ops.length := by
  induction ops using List.reverseRecOn with
  | nil =>
    refine ⟨⟨rfl, ?_, ?_, rfl, ?_⟩, le_rfl⟩
    · intro t ht
      cases ht
    · intro l hl
      cases hl
    · intro a
      rfl
  | append_singleton ops op ih =>
    rw [List.length_append, List.length_singleton] at hlen ⊢
    obtain ⟨hreturned, hrelease⟩ := hreturns.of_concat
    obtain ⟨hbooked, hnext⟩ := ih hreturned (by omega)
    have hi : (run cfg (.fresh store) ops).toRegistry.Indexed := indexed_run _ (indexed_fresh store) ops
    rw [run_concat, grantedLeases_concat,
      step_leaseBooks hi op fun l hl => hbooked.entries l (hrelease l hl)]
    refine ⟨?_, (nextLease_answer _ _ _).trans (by omega)⟩
    refine (hbooked.answer (step_next cfg _ op) (fun l hl => spec_of_granted hi hl)
      (by omega)).giveBack fun l hl => List.mem_append_left _ (hrelease l ?_)
    cases op <;> cases hl
    rfl

/-! ## What is leased stays -/

/-- The counters are those of the leases that are out, and these are what holds back an unload, and
with the pins an eviction. -/
structure LeasesCounted (cfg : Config Exec) (store : Option Store) (ops : List (Op Exec)) : Prop where
  active : (run cfg (.fresh store) ops).activeLeases.toNat =
    (heldLeases cfg (.fresh store) ops).length
  count : ∀ a < (run cfg (.fresh store) ops).next,
    ((run cfg (.fresh store) ops).heap a).leaseCount.toNat =
      (heldLeases cfg (.fresh store) ops).countP fun l => l.entry = a
  unload : ∀ id, (unload cfg (run cfg (.fresh store) ops) id).2 = .ok () ↔
    ∃ a, (run cfg (.fresh store) ops).artifact id = some a ∧
      ∀ l ∈ heldLeases cfg (.fresh store) ops, l.entry ≠ a
  evict : ∀ id, (evict cfg (run cfg (.fresh store) ops) id).2 = .ok () ↔
    ∃ a, (run cfg (.fresh store) ops).artifact id = some a ∧
      ((run cfg (.fresh store) ops).heap a).pinCount = 0 ∧
      ∀ l ∈ heldLeases cfg (.fresh store) ops, l.entry ≠ a

theorem leaseCount_eq_zero {s : State Exec} {held : List (Lease Exec)} {a : ℕ}
    (h : (s.heap a).leaseCount.toNat = held.countP fun l => l.entry = a) :
    ¬(s.heap a).leaseCount > 0 ↔ ∀ l ∈ held, l.entry ≠ a := by
  have hpos : (s.heap a).leaseCount > 0 ↔ 0 < (s.heap a).leaseCount.toNat :=
    UInt64.lt_iff_toNat_lt
  rw [hpos, h, List.countP_pos_iff]
  simp

/-- The counters of leases are exact where a caller returns what it was granted, and they alone
guard an unload. -/
theorem leases_counted (cfg : Config Exec) (store : Option Store) (ops : List (Op Exec))
    (hreturns : Returns cfg (.fresh store) ops) (hlen : ops.length < 2 ^ 64) :
    LeasesCounted cfg store ops := by
  have hbooked := (booked_run store ops hreturns hlen).1
  have hi : (run cfg (.fresh store) ops).toRegistry.Indexed := indexed_run _ (indexed_fresh store) ops
  have hcount : ∀ a < (run cfg (.fresh store) ops).next,
      ((run cfg (.fresh store) ops).heap a).leaseCount.toNat =
        (heldLeases cfg (.fresh store) ops).countP fun l => l.entry = a := by
    intro a ha
    have hat := hbooked.count a
    rw [show (run cfg (.fresh store) ops).leaseBooks.leaseCount a = _ from leases_of_lt ha] at hat
    rw [hat, heldLeases, List.countP_filter]
    refine List.countP_congr fun l _ => ?_
    rw [Lease.outOn, Bool.and_comm]
    rfl
  have hfree : ∀ id a, (run cfg (.fresh store) ops).artifact id = some a →
      (¬((run cfg (.fresh store) ops).heap a).leaseCount > 0 ↔
        ∀ l ∈ heldLeases cfg (.fresh store) ops, l.entry ≠ a) := fun id a ha =>
    leaseCount_eq_zero (hcount a (hi.artifact id a ha).1)
  refine ⟨?_, hcount, fun id => ?_, fun id => ?_⟩
  · rw [heldLeases, ← List.countP_eq_length_filter]
    exact hbooked.active
  · have hok : (unload cfg (run cfg (.fresh store) ops) id).2 = .ok () ↔
        ∃ a, (run cfg (.fresh store) ops).artifact id = some a ∧
          ¬((run cfg (.fresh store) ops).heap a).leaseCount > 0 := Removal.call_ok_iff .unload
    rw [hok]
    exact exists_congr fun a => and_congr_right fun ha => hfree id a ha
  · have hok : (evict cfg (run cfg (.fresh store) ops) id).2 = .ok () ↔
        ∃ a, (run cfg (.fresh store) ops).artifact id = some a ∧
          ¬(((run cfg (.fresh store) ops).heap a).pinCount > 0 ∨
            ((run cfg (.fresh store) ops).heap a).leaseCount > 0) := Removal.call_ok_iff .evict
    rw [hok]
    refine exists_congr fun a => and_congr_right fun ha => ?_
    rw [not_or, gt_iff_lt, UInt64.not_lt, UInt64.le_zero_iff]
    exact and_congr_right fun _ => hfree id a ha

theorem first_granted : grantedLeases (.cpu (.insertion _) .unit) (.fresh none)
    [.lookup (blankRequest "a" true) {}] = [firstLease] := by
  simp only [grantedLeases, grantedBy, firstLease_granted]
  rfl

/-- A graph is captured, leased and released : it may be evicted again. -/
theorem leases_counted_first : LeasesCounted (.cpu (.insertion _) .unit) none
    [.lookup (blankRequest "a" true) {}, .release firstLease] := by
  refine leases_counted _ _ _ ?_ (by decide)
  intro pre l post hsplit
  rcases pre with - | ⟨x, pre⟩
  · cases (List.cons.inj hsplit).1
  · obtain ⟨rfl, hrest⟩ := List.cons.inj hsplit
    rcases pre with - | ⟨y, pre⟩
    · obtain ⟨hl, -⟩ := List.cons.inj hrest
      rw [← Op.release.inj hl, first_granted]
      exact List.mem_singleton_self _
    · simp at hrest

/-! ## What a lease replays -/

theorem granted_entry {s : State Exec} (hi : s.toRegistry.Indexed) {l : Lease Exec} :
    ∀ ops : List (Op Exec), l ∈ grantedLeases cfg s ops → l.entry < (run cfg s ops).next := by
  intro ops
  induction ops using List.reverseRecOn with
  | nil =>
    intro h
    cases h
  | append_singleton ops op ih =>
    intro h
    rw [grantedLeases_concat] at h
    rw [run_concat]
    rcases List.mem_append.mp h with h | h
    · exact (ih h).trans_le (step_next cfg _ op)
    · exact (spec_of_granted (indexed_run s hi ops) (Option.mem_toList.mp h)).2

/-- An entry that is there keeps its identity. -/
theorem same_run {s : State Exec} {a : ℕ} (ha : a < s.next) (ops : List (Op Exec)) :
    (s.heap a).Same ((run cfg s ops).heap a) := by
  refine (run_invariant (I := fun r => a < r.next ∧ (s.heap a).Same (r.heap a)) ?_ ?_ ops s
    ⟨ha, .refl _⟩).2
  · intro M r b e hr he
    exact ⟨hr.1, hr.2.trans (he.set_spec a).1⟩
  · intro _ _ r e hr _
    rw [register_heap_of_lt r e hr.1]
    exact ⟨Nat.lt_succ_of_lt hr.1, hr.2⟩

/-- A replay answers by what the lease carries and the graph of its entry. -/
theorem replay_congr {s s' : State Exec} {l : Lease Exec}
    (hreleased : l.token ∈ s'.released ↔ l.token ∈ s.released)
    (hgraph : (s'.heap l.entry).descriptor = (s.heap l.entry).descriptor)
    (expected : GraphGeneration) (b : ReplayBuffers) (rd : ReplayDescriptor) (mem : Memory) :
    (replay cfg s' l expected b rd mem).2 = (replay cfg s l expected b rd mem).2 := by
  unfold replay
  by_cases h : l.token ∈ s.released
  · rw [if_pos h, if_pos (hreleased.mpr h)]
  · rw [if_neg h, if_neg (mt hreleased.mp h)]
    split_ifs
    · rfl
    · split
      · rfl
      · rename_i exec hexec
        dsimp only
        rw [hgraph]
        split <;> rfl

/-- As long as a lease is not released, it replays what it replayed when it was granted, whatever
is done to the cache in between. -/
theorem lease_snapshot (cfg : Config Exec) (store : Option Store) (ops₁ ops₂ : List (Op Exec))
    (l : Lease Exec) (hgranted : l ∈ grantedLeases cfg (.fresh store) ops₁)
    (hheld : l.token ∉ (run cfg (.fresh store) (ops₁ ++ ops₂)).released)
    (expected : GraphGeneration) (b : ReplayBuffers) (rd : ReplayDescriptor) (mem : Memory) :
    (replay cfg (run cfg (.fresh store) (ops₁ ++ ops₂)) l expected b rd mem).2 =
      (replay cfg (run cfg (.fresh store) ops₁) l expected b rd mem).2 := by
  have hrun : run cfg (.fresh store) (ops₁ ++ ops₂) = run cfg (run cfg (.fresh store) ops₁) ops₂ :=
    List.foldl_append
  rw [hrun] at hheld ⊢
  refine replay_congr ⟨fun h => absurd h hheld, fun h => absurd (released_run cfg ops₂ h) hheld⟩
    (same_run (granted_entry (indexed_fresh store) ops₁ hgranted) ops₂).descriptor expected b rd mem

/-- The lease of a first lookup replays after a strong invalidation of everything as before it. -/
theorem lease_snapshot_invalidated :
    (replay (.cpu (.insertion _) .unit) (run (.cpu (.insertion _) .unit) (.fresh none)
        ([.lookup (blankRequest "a" true) {}] ++ [.invalidate strongAll])) firstLease 0
        ⟨[], [], [], []⟩ {} []).2 =
      (replay (.cpu (.insertion _) .unit) (run (.cpu (.insertion _) .unit) (.fresh none)
        [.lookup (blankRequest "a" true) {}]) firstLease 0 ⟨[], [], [], []⟩ {} []).2 := by
  refine lease_snapshot _ none [.lookup (blankRequest "a" true) {}] [.invalidate strongAll] firstLease
    ?_ ?_ 0 ⟨[], [], [], []⟩ {} []
  · rw [first_granted]
    exact List.mem_singleton_self _
  · rw [run_concat, step, invalidate_released, ← List.nil_append [Op.lookup _ _], run_concat, step,
      lookup_released]
    exact List.not_mem_nil

end GraphCache
