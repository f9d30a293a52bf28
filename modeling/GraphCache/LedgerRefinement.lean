import GraphCache.Ledger

/-!
# The engine refines the ledger

The registry of the engine is what the ledger says (`Registry.Keeps`) : its entries are the records,
in the order in which they were added, its four indices are read off the list, and no entry is on
the backend or in a state that its flag does not say. Every operation moves the ledger as its
abstract counterpart does (`refines_step`), so what the engine finds, revokes, writes and recovers is
what the ledger does, in every state of every run (`engine_refines_ledger`).

Leases, pins, replays, evictions and unloads have no counterpart. So they can be struck out of a run,
and no lookup after it finds otherwise, nor does an invalidation revoke otherwise
(`holding_invisible`). Only the calls that count leases can tell : `evict`, `unload`, and the
`still_leasing` of an invalidation.
-/

namespace GraphCache

open Journal

variable {Exec : Type}

/-! ## The registry -/

/-- What the indices see of a record. -/
structure GraphRecord.Title where
  artifactId : GraphArtifactId
  keyHex : Str
  workload : Str
  stillborn : Bool
  generation : GraphGeneration

def GraphRecord.title (r : GraphRecord) : GraphRecord.Title :=
  ⟨r.artifactId, r.keyHex, workloadKey r.metadata.workload, r.stillborn, r.metadata.generation⟩

/-- An entry off the backend, in the state that its flag says, with this record. -/
structure CacheEntry.Holds (e : CacheEntry Exec) (r : GraphRecord) : Prop where
  record : e.record r.stillborn = r
  off_backend : e.residency ≠ .backendResident
  lifecycle : e.lifecycle = if e.invalidated then .invalidated else .valid

/-- The registry holds these records, and its indices are theirs. -/
structure Registry.Keeps (r : Registry Exec) (l : List GraphRecord) : Prop where
  next : r.next = l.length
  entry : ∀ i rec, l[i]? = some rec → (r.heap i).Holds rec
  byWorkload : ∀ k, r.byWorkload k = positions (fun rec => rec.title.workload = k) l
  byKey : ∀ k, r.byKey k = positions (fun rec => rec.title.keyHex = k) l
  artifact : ∀ id, r.artifact id = latest (fun rec => rec.title.artifactId = id) l
  artifacts : r.artifacts = heads (fun rec => rec.title.artifactId) l
  authority : ∀ k, r.keyCurrentGen k =
    (last (fun t : GraphRecord.Title => t.keyHex = k ∧ t.stillborn = false)
      (l.map GraphRecord.title)).map fun t => t.generation

theorem kerase_eq_filter {α : Type*} {β : α → Type*} [DecidableEq α] (a : α) :
    ∀ {l : List (Sigma β)}, l.NodupKeys → l.kerase a = l.filter fun p => p.1 ≠ a
  | [], _ => rfl
  | p :: l, h => by
    obtain ⟨hp, hl⟩ := List.nodupKeys_cons.mp h
    by_cases ha : a = p.1
    · rw [List.kerase_cons_eq ha, List.filter_cons_of_neg (by simp [ha]), eq_comm,
        List.filter_eq_self]
      intro q hq
      have hne : q.1 ≠ p.1 := fun heq => hp (heq ▸ List.mem_keys_of_mem hq)
      simp [ha, hne]
    · rw [List.kerase_cons_ne ha, kerase_eq_filter a hl, List.filter_cons_of_pos (by simp [Ne.symm ha])]

theorem update_concat (f : Str → List ℕ) (k k' : Str) (n : ℕ) :
    Function.update f k (f k ++ [n]) k' = if k = k' then f k' ++ [n] else f k' := by
  by_cases h : k = k'
  · subst h
    rw [Function.update_self, if_pos rfl]
  · rw [Function.update_of_ne (Ne.symm h), if_neg h]

namespace Registry.Keeps

variable {r : Registry Exec} {l : List GraphRecord} {e : CacheEntry Exec}

theorem holds_born (hres : e.residency ≠ .backendResident)
    (hlife : e.lifecycle = if e.invalidated then .invalidated else .valid) : e.Holds e.born :=
  ⟨rfl, hres, hlife⟩

theorem register (h : r.Keeps l) (hres : e.residency ≠ .backendResident)
    (hlife : e.lifecycle = if e.invalidated then .invalidated else .valid) :
    (r.register e).Keeps (l ++ [e.born]) where
  next := by rw [register_next, h.next, List.length_append, List.length_singleton]
  entry := by
    intro i rec hi
    by_cases hlt : i < l.length
    · rw [List.getElem?_append_left hlt] at hi
      rw [register_heap_of_lt r e (h.next ▸ hlt)]
      exact h.entry i rec hi
    · have hi' : i = l.length := by
        have hlt' := (List.getElem?_eq_some_iff.mp hi).1
        rw [List.length_append, List.length_singleton] at hlt'
        omega
      subst hi'
      rw [List.getElem?_concat_length] at hi
      obtain rfl := Option.some.inj hi
      rw [← h.next, register_heap_self]
      exact holds_born hres hlife
  byWorkload := by
    intro k
    rw [positions_concat, ← h.byWorkload, ← h.next]
    simp only [decide_eq_true_eq]
    exact update_concat r.byWorkload (workloadKey e.workload) k r.next
  byKey := by
    intro k
    rw [positions_concat, ← h.byKey, ← h.next]
    simp only [decide_eq_true_eq]
    exact update_concat r.byKey e.keyHex k r.next
  artifact := by
    intro id
    rw [latest_concat, ← h.artifact, ← h.next]
    simp only [decide_eq_true_eq]
    by_cases hid : e.artifactId = id
    · subst hid
      exact (register_artifact_self r e).trans (if_pos rfl).symm
    · exact (register_artifact_of_ne r e (Ne.symm hid)).trans (if_neg hid).symm
  artifacts := by
    rw [heads_concat, ← h.artifacts, ← h.next]
    rw [Registry.artifacts, Registry.register, AList.entries_insert, List.map_cons,
      kerase_eq_filter _ r.byArtifact.nodupKeys, Registry.artifacts, List.filter_map]
    rw [List.filter_congr]
    intro p hp
    have hat : r.artifact p.1 = some p.2 := AList.mem_lookup_iff.mpr hp
    rw [h.artifact] at hat
    obtain ⟨rec, hrec, hid⟩ := latest_spec hat
    rw [decide_eq_true_eq] at hid
    rw [Function.comp_apply, hrec, Option.map_some, hid]
    simp only [ne_eq, Option.some.injEq]
    rfl
  authority := by
    intro k
    rw [List.map_append, List.map_singleton, last_concat]
    simp only [decide_eq_true_eq]
    by_cases hborn : e.invalidated = true
    · have hstill : e.born.title.stillborn = true := hborn
      rw [if_neg (by simp [hstill]), ← h.authority]
      simp [Registry.register, hborn]
    · rw [Bool.not_eq_true] at hborn
      by_cases hk : e.keyHex = k
      · rw [if_pos ⟨hk, hborn⟩]
        simp [Registry.register, hborn, hk]
        rfl
      · have hkey : e.born.title.keyHex ≠ k := hk
        rw [if_neg (by simp [hkey]), ← h.authority]
        simp [Registry.register, hborn, Function.update_of_ne (Ne.symm hk)]

/-- An edit that leaves what the indices see alone. -/
theorem edit (h : r.Keeps l) {a : ℕ} {rec' : GraphRecord}
    (hnew : ∀ rec, l[a]? = some rec → e.Holds rec' ∧ rec'.title = rec.title) :
    (r.set a e).Keeps (l.set a rec') := by
  have htitles : (l.set a rec').map GraphRecord.title = l.map GraphRecord.title := by
    refine List.ext_getElem? fun i => ?_
    rw [List.getElem?_map, List.getElem?_map, List.getElem?_set]
    split_ifs with hi hlt
    · subst hi
      rw [List.getElem?_eq_getElem hlt, Option.map_some, Option.map_some,
        (hnew _ (List.getElem?_eq_getElem hlt)).2]
    · rw [← hi, List.getElem?_eq_none (by omega)]
    · rfl
  refine ⟨?_, fun i rec hi => ?_, fun k => ?_, fun k => ?_, fun id => ?_, ?_, fun k => ?_⟩
  · rw [set_next, h.next, List.length_set]
  · by_cases ha : i = a
    · subst ha
      rw [set_heap_self]
      have hlt : i < l.length := by
        have hlt' := (List.getElem?_eq_some_iff.mp hi).1
        rwa [List.length_set] at hlt'
      rw [List.getElem?_set_self hlt] at hi
      obtain rfl := Option.some.inj hi
      exact (hnew _ (List.getElem?_eq_getElem hlt)).1
    · rw [set_heap_of_ne r e ha]
      rw [List.getElem?_set_ne (Ne.symm ha)] at hi
      exact h.entry i rec hi
  · exact (h.byWorkload k).trans (positions_congr (fun t => t.workload = k) htitles).symm
  · exact (h.byKey k).trans (positions_congr (fun t => t.keyHex = k) htitles).symm
  · exact (h.artifact id).trans (latest_congr (fun t => t.artifactId = id) htitles).symm
  · refine h.artifacts.trans (heads_congr ?_).symm
    have hids := congrArg (List.map GraphRecord.Title.artifactId) htitles
    rwa [List.map_map, List.map_map] at hids
  · rw [htitles]
    exact h.authority k

/-- An edit that leaves the record alone. -/
theorem touch (h : r.Keeps l) {a : ℕ} (hsame : ∀ rec, l[a]? = some rec → e.Holds rec) :
    (r.set a e).Keeps l := by
  rcases ha : l[a]? with _ | rec
  · have hset : (r.set a e).Keeps (l.set a e.born) := h.edit fun rec hrec => by
      rw [ha] at hrec
      cases hrec
    rwa [List.set_eq_of_length_le (List.getElem?_eq_none_iff.mp ha)] at hset
  · have hset : (r.set a e).Keeps (l.set a rec) := h.edit fun rec' hrec => by
      obtain rfl := Option.some.inj (ha.symm.trans hrec)
      exact ⟨hsame _ ha, rfl⟩
    obtain ⟨hlt, hget⟩ := List.getElem?_eq_some_iff.mp ha
    rwa [← hget, List.set_getElem_self] at hset

end Registry.Keeps

/-! ## The state -/

/-- The state is that of the ledger, but for what the ledger does not know of. -/
structure State.Refines (s : State Exec) (L : Ledger) : Prop where
  registry : s.toRegistry.Keeps L.records
  captureCounter : s.captureCounter = L.captureCounter
  graphGenerationCounter : s.graphGenerationCounter = L.graphGenerationCounter
  cacheGeneration : s.cacheGeneration = L.cacheGeneration
  store : s.store = L.store

section

variable {s : State Exec} {L : Ledger}

theorem Registry.Keeps.authority_eq {r : Registry Exec} (h : r.Keeps L.records) (k : Str) :
    r.keyCurrentGen k = L.authority k := by
  rw [h.authority, last_map (fun t : GraphRecord.Title => t.keyHex = k ∧ t.stillborn = false),
    Option.map_map]
  rfl

theorem CacheEntry.Holds.invalidated {e : CacheEntry Exec} {rec : GraphRecord} (h : e.Holds rec) :
    e.invalidated = rec.metadata.invalidated := by
  rw [← h.record]
  rfl

theorem Registry.Keeps.selectable_iff {r : Registry Exec} (h : r.Keeps L.records) {a : ℕ}
    {rec : GraphRecord} (ha : L.records[a]? = some rec) : r.Selectable a ↔ L.live rec = true := by
  have hholds := h.entry a rec ha
  have hkey : (r.heap a).keyHex = rec.keyHex := by
    rw [← hholds.record]
    rfl
  have hgen : (r.heap a).generation = rec.metadata.generation := by
    rw [← hholds.record]
    rfl
  rw [Registry.Selectable, hholds.lifecycle, h.authority_eq, hkey, hgen, hholds.invalidated,
    Ledger.live, decide_eq_true_eq]
  cases rec.metadata.invalidated <;> simp [GraphLifecycle.isReplayEligible]

/-- The candidates among some records, with the decisions on them. -/
def Ledger.sift (L : Ledger) (facts : CompatibilityFacts) (policy : GraphCompatibilityPolicy)
    (cs : List (GraphRecord × ℕ)) : List Appraisal :=
  ((cs.filter fun c => L.live c.1).filter (Ledger.fresh facts)).map (Ledger.appraise facts policy)

/-- What a walk over some records has found. -/
structure Ledger.Walked (L : Ledger) (facts : CompatibilityFacts)
    (policy : GraphCompatibilityPolicy) (cs : List (GraphRecord × ℕ)) (sc : Scan) : Prop where
  chosen : sc.chosen = (pick (fun v : Appraisal => v.decision.klass = .exactCompatible)
    ((L.sift facts policy cs).filter fun v => v.decision.compatible)).map
      fun v => (v.position, v.decision)
  bestIncompat : sc.bestIncompat =
    ((L.sift facts policy cs).filter fun v => !v.decision.compatible).getLast?.map
      Appraisal.decision
  outcome : sc.outcome = if (cs.filter fun c => L.live c.1).all (Ledger.fresh facts)
    then .missCaptureRequired else .missStaleDependency

theorem ite_chosen (sc : Scan) (p : Prop) [Decidable p] (x : ℕ × GraphCompatibilityDecision) :
    (if p then { sc with chosen := some x } else sc) =
      { sc with chosen := if p then some x else sc.chosen } := by
  split_ifs <;> rfl

theorem Ledger.Walked.concat {facts : CompatibilityFacts} {policy : GraphCompatibilityPolicy}
    {cs : List (GraphRecord × ℕ)} {sc : Scan} (h : L.Walked facts policy cs sc)
    (hkeeps : s.toRegistry.Keeps L.records) {c : GraphRecord × ℕ}
    (hc : L.records[c.2]? = some c.1) :
    L.Walked facts policy (cs ++ [c]) (scanEntry s.toRegistry facts policy sc c.2) := by
  have hsel := hkeeps.selectable_iff hc
  have hfacts : (s.heap c.2).facts = c.1.facts := by
    rw [← (hkeeps.entry c.2 c.1 hc).record]
    rfl
  unfold scanEntry
  rw [hfacts]
  by_cases hlive : L.live c.1 = true
  · rw [if_neg (by rw [not_not]; exact hsel.mpr hlive)]
    by_cases hfresh : Ledger.fresh facts c = true
    · have hfresh' : isDependencyFresh c.1.facts.dependencies facts = true := hfresh
      rw [if_neg (by rw [hfresh']; simp)]
      have hsift : L.sift facts policy (cs ++ [c]) =
          L.sift facts policy cs ++ [Ledger.appraise facts policy c] := by
        simp [Ledger.sift, List.filter_append, hlive, hfresh]
      have hout : ((cs ++ [c]).filter fun c => L.live c.1).all (Ledger.fresh facts) =
          (cs.filter fun c => L.live c.1).all (Ledger.fresh facts) := by
        simp [List.filter_append, hlive, hfresh]
      by_cases hcomp : (decideCompatibility facts c.1.facts policy).compatible = true
      · have hcomp' : (Ledger.appraise facts policy c).decision.compatible = true := hcomp
        rw [if_pos hcomp]
        rw [ite_chosen]
        refine ⟨?_, ?_, ?_⟩
        · rw [hsift, List.filter_append, List.filter_singleton, hcomp', cond_true, pick_concat,
            apply_ite (Option.map _), ← h.chosen]
          refine if_congr ?_ rfl rfl
          rw [h.chosen, Option.map_eq_none_iff, decide_eq_true_eq]
          rfl
        · rw [hsift, List.filter_append, List.filter_singleton, hcomp', Bool.not_true, cond_false,
            List.append_nil]
          exact h.bestIncompat
        · rw [hout]
          exact h.outcome
      · have hcomp' : (Ledger.appraise facts policy c).decision.compatible = false := by
          exact (Bool.not_eq_true _).mp hcomp
        rw [if_neg hcomp]
        refine ⟨?_, ?_, ?_⟩
        · rw [hsift, List.filter_append, List.filter_singleton, hcomp', cond_false, List.append_nil]
          exact h.chosen
        · rw [hsift, List.filter_append, List.filter_singleton, hcomp', Bool.not_false, cond_true,
            List.getLast?_concat]
          rfl
        · rw [hout]
          exact h.outcome
    · have hfresh' : isDependencyFresh c.1.facts.dependencies facts = false :=
        (Bool.not_eq_true _).mp hfresh
      have hsift : L.sift facts policy (cs ++ [c]) = L.sift facts policy cs := by
        simp [Ledger.sift, List.filter_append, hlive, hfresh]
      rw [if_pos hfresh']
      refine ⟨by rw [hsift]; exact h.chosen, by rw [hsift]; exact h.bestIncompat, ?_⟩
      rw [if_neg]
      simp [List.filter_append, hlive, hfresh]
  · have hsift : L.sift facts policy (cs ++ [c]) = L.sift facts policy cs := by
      simp [Ledger.sift, List.filter_append, hlive]
    rw [if_pos (by rw [hsel]; exact hlive)]
    refine ⟨by rw [hsift]; exact h.chosen, by rw [hsift]; exact h.bestIncompat, ?_⟩
    rw [h.outcome, List.filter_append, List.filter_singleton, (Bool.not_eq_true _).mp hlive, cond_false,
      List.append_nil]

/-- A scan finds what the whole list holds. -/
theorem Registry.Keeps.walked (h : s.toRegistry.Keeps L.records) (facts : CompatibilityFacts)
    (policy : GraphCompatibilityPolicy) :
    L.Walked facts policy (L.records.zipIdx.filter fun c =>
      workloadKey c.1.metadata.workload = workloadKey facts.workload)
      (scan s.toRegistry facts policy) := by
  have hscan : scan s.toRegistry facts policy = (L.records.zipIdx.filter fun c =>
      workloadKey c.1.metadata.workload = workloadKey facts.workload).foldl
        (fun acc c => scanEntry s.toRegistry facts policy acc c.2) {} := by
    rw [scan, h.byWorkload, positions, List.foldl_map]
    rfl
  have hmem : ∀ c ∈ L.records.zipIdx.filter fun c =>
      workloadKey c.1.metadata.workload = workloadKey facts.workload, L.records[c.2]? = some c.1 :=
    fun c hc => List.mem_zipIdx_iff_getElem?.mp (List.mem_filter.mp hc).1
  rw [hscan]
  generalize (L.records.zipIdx.filter fun c =>
    workloadKey c.1.metadata.workload = workloadKey facts.workload) = cs at hmem
  induction cs using List.reverseRecOn with
  | nil => exact ⟨rfl, rfl, rfl⟩
  | append_singleton cs c ih =>
    rw [List.foldl_append, List.foldl_cons, List.foldl_nil]
    refine (ih fun c' hc' => hmem c' (List.mem_append_left _ hc')).concat h (hmem c ?_)
    exact List.mem_append_right _ (List.mem_singleton_self c)

theorem Ledger.candidates_eq (facts : CompatibilityFacts) : L.candidates facts =
    (L.records.zipIdx.filter fun c =>
      workloadKey c.1.metadata.workload = workloadKey facts.workload).filter
        fun c => L.live c.1 := by
  rw [Ledger.candidates, List.filter_filter]
  refine List.filter_congr fun c _ => ?_
  rw [Bool.decide_and, Bool.and_comm, Bool.decide_eq_true]

/-! ## Lookups -/

/-- What is chosen is a live record of the ledger. -/
theorem Ledger.choose_spec {facts : CompatibilityFacts} {policy : GraphCompatibilityPolicy}
    {v : Appraisal} (h : L.choose facts policy = some v) :
    L.records[v.position]? = some v.record ∧ L.live v.record = true := by
  have hmem := (List.mem_filter.mp (mem_of_pick h)).1
  obtain ⟨c, hc, rfl⟩ := List.mem_map.mp hmem
  have hcand := (List.mem_filter.mp hc).1
  rw [Ledger.candidates, List.mem_filter, decide_eq_true_eq] at hcand
  exact ⟨List.mem_zipIdx_iff_getElem?.mp hcand.1, hcand.2.2⟩

variable {cfg : Config Exec}

theorem State.Refines.touchMetric (h : State.Refines s L) (f : Metrics → Metrics) :
    State.Refines (s.touchMetric f) L :=
  ⟨h.1, h.2, h.3, h.4, h.5⟩

variable (cfg) in
/-- What the search leaves of the record that it loads. -/
theorem State.Refines.load (h : State.Refines s L) {v : Appraisal}
    (hv : L.records[v.position]? = some v.record) :
    State.Refines (materializeExec cfg s v.position).1 (L.load cfg v).1 ∧
      (materializeExec cfg s v.position).2 = (L.load cfg v).2 ∧
      ∃ b, (L.load cfg v).1.records[v.position]? = some { v.record with loaded := b } := by
  have hholds := h.registry.entry _ _ hv
  have hloaded : (s.heap v.position).exec.isSome = v.record.loaded := by
    rw [← hholds.record]
    rfl
  have hdesc : (s.heap v.position).descriptor = v.record.descriptor := by
    rw [← hholds.record]
    rfl
  unfold materializeExec Ledger.load
  rw [hloaded]
  split_ifs
  · exact ⟨h, rfl, _, hv⟩
  · dsimp only
    rw [hdesc, h.captureCounter]
    rcases cfg.backend.capture v.record.descriptor (L.captureCounter + 1) with err | exec
    · exact ⟨⟨h.1, rfl, h.3, h.4, h.5⟩, rfl, _, hv⟩
    · dsimp only
      rcases cfg.backend.validate v.record.descriptor exec with err | u
      · exact ⟨⟨h.1, rfl, h.3, h.4, h.5⟩, rfl, _, hv⟩
      · have hlt := (List.getElem?_eq_some_iff.mp hv).1
        refine ⟨⟨h.registry.edit fun rec hrec => ?_, rfl, h.3, h.4, h.5⟩, rfl, true,
          List.getElem?_set_self hlt⟩
        obtain rfl := Option.some.inj (hv.symm.trans hrec)
        refine ⟨⟨?_, by simp, hholds.lifecycle⟩, rfl⟩
        rw [← hholds.record]
        rfl

theorem hitOutcome_eq {residency : ResidencyTier} (h : residency ≠ .backendResident)
    (klass : GraphCompatibilityClass) :
    hitOutcome klass residency = hitOutcome klass .hostResident := by
  unfold hitOutcome
  split
  · rw [if_neg h, if_neg (by simp)]
  all_goals rfl

/-- A search of the engine finds what the ledger holds. -/
theorem State.Refines.search (h : State.Refines s L) (facts : CompatibilityFacts)
    (policy : GraphCompatibilityPolicy) :
    State.Refines (searchCandidates cfg s facts policy).1 (L.search cfg facts policy).1 ∧
      (searchCandidates cfg s facts policy).2.finding = (L.search cfg facts policy).2 := by
  obtain ⟨hchosen, hincompat, hout⟩ := h.registry.walked facts policy
  rw [Ledger.sift, ← L.candidates_eq] at hchosen hincompat
  rw [← L.candidates_eq] at hout
  change _ = (L.choose facts policy).map _ at hchosen
  unfold searchCandidates Ledger.search
  dsimp only
  rcases hv : L.choose facts policy with _ | v
  · rw [hv] at hchosen
    rw [hchosen]
    dsimp only [Option.map_none]
    rw [hincompat, Ledger.refusal, hout, Ledger.appraisals]
    rcases hlast : ((((L.candidates facts).filter (Ledger.fresh facts)).map
      (Ledger.appraise facts policy)).filter fun v => !v.decision.compatible).getLast? with _ | v
    · rw [hlast]
      refine ⟨h, ?_⟩
      dsimp only [Option.map_none]
      split_ifs <;> rfl
    · rw [hlast]
      exact ⟨h, rfl⟩
  · rw [hv] at hchosen
    obtain ⟨hat, hlive⟩ := Ledger.choose_spec hv
    obtain ⟨hload, hres, b, hrec⟩ := h.load cfg hat
    rw [hchosen]
    dsimp only [Option.map_some]
    generalize materializeExec cfg s v.position = p at hload hres
    generalize L.load cfg v = q at hload hres hrec
    obtain ⟨s', r⟩ := p
    obtain ⟨L', r'⟩ := q
    obtain rfl : r = r' := hres
    rcases r with err | u
    · exact ⟨hload, rfl⟩
    · -- what was live before is live after it is loaded
      have hholds := hload.registry.entry _ _ hrec
      have hvalid : (s'.heap v.position).invalidated = false := by
        rw [hholds.invalidated]
        rw [Ledger.live, decide_eq_true_eq] at hlive
        exact hlive.1
      have hlife : (s'.heap v.position).lifecycle = .valid := by
        rw [hholds.lifecycle, hvalid]
        rfl
      have hid : (s'.heap v.position).artifactId = v.record.metadata.artifactId := by
        have hrecord := congrArg (fun rec => rec.metadata.artifactId) hholds.record
        exact hrecord
      have hgen : (s'.heap v.position).generation = v.record.metadata.generation := by
        have hrecord := congrArg (fun rec => rec.metadata.generation) hholds.record
        exact hrecord
      dsimp only
      rw [if_neg (by rw [hvalid, hlife]; decide)]
      refine ⟨⟨hload.registry.touch fun rec hrec' => ?_, hload.2, hload.3, hload.4, hload.5⟩, ?_⟩
      · have hsame := hload.registry.entry _ _ hrec'
        exact ⟨hsame.record, hsame.off_backend, hsame.lifecycle⟩
      · refine Finding.ext ?_ hid hgen rfl rfl rfl rfl rfl rfl
        exact hitOutcome_eq hholds.off_backend _

variable (cfg) in
theorem captureGraph_captureCounter (req : GraphLookupRequest) (attempt : CaptureAttemptId)
    (env : LookupEnv) :
    (captureGraph cfg s req attempt env).1.captureCounter = s.captureCounter := by
  unfold captureGraph
  split
  · unfold captureFailureMetric
    split
    · rfl
    · split
      · rfl
      · split <;> rfl
  · dsimp only
    rw [persistEntry_eq]
    rfl

/-- A capture of the engine adds what the ledger adds. -/
theorem State.Refines.capture (h : State.Refines s L) (req : GraphLookupRequest) (attempt : CaptureAttemptId)
    (env : LookupEnv) :
    State.Refines (captureGraph cfg s req attempt env).1 (L.capture cfg req attempt env).1 ∧
      (captureGraph cfg s req attempt env).2 = (L.capture cfg req attempt env).2 := by
  have hcounter := (captureGraph_captureCounter cfg req attempt env).trans h.captureCounter
  have hspec := captureGraph_spec cfg s req attempt env
  rw [h.graphGenerationCounter, h.cacheGeneration] at hspec
  generalize captureGraph cfg s req attempt env = p at hspec hcounter
  unfold Ledger.capture
  rcases hspec with ⟨err, he, hres, hreg, hkeeps⟩ | ⟨e, he, hres, hreg, hgraph, hcache, hstore⟩
  · rw [he]
    exact ⟨⟨hreg ▸ h.1, hcounter, hkeeps.graphGen.trans h.3, hkeeps.cacheGen.trans h.4,
      hkeeps.store.trans h.5⟩, hres⟩
  · have hadded : p.1.toRegistry.Keeps (L.records ++ [e.born]) := by
      obtain ⟨g, exec, -, -, rfl⟩ := captureEntry_ok he
      rw [hreg]
      exact h.registry.register (by simp [capturedEntry]) rfl
    rw [he]
    dsimp only
    rw [State.written, h.store] at hstore
    rcases hput : env.putOk with _ | _
    · rw [hput] at hstore
      exact ⟨⟨hadded, hcounter, hgraph, hcache, hstore⟩, hres⟩
    · rw [hput] at hstore
      exact ⟨⟨hadded, hcounter, hgraph, hcache, hstore⟩, hres⟩

theorem finding_hit (res : GraphLookupResult Exec) : res.finding.graph.isSome = res.hit := by
  rw [GraphLookupResult.finding, GraphLookupResult.hit, Option.isSome_map]

/-- A lookup of the engine answers as the ledger does. -/
theorem State.Refines.lookup (h : State.Refines s L) (req : GraphLookupRequest) (env : LookupEnv) :
    State.Refines (lookup cfg s req env).1 (L.lookup cfg req env).1 ∧
      (lookup cfg s req env).2.finding = (L.lookup cfg req env).2 := by
  rcases hl : L.search cfg (makeFacts req) req.policy with ⟨L₁, found⟩
  have hsearched : ∀ {s s₁ : State Exec} {L : Ledger} {res : GraphLookupResult Exec}, State.Refines s L →
      searchCandidates cfg s (makeFacts req) req.policy = (s₁, res) →
        State.Refines s₁ (L.search cfg (makeFacts req) req.policy).1 ∧
          res.finding = (L.search cfg (makeFacts req) req.policy).2 ∧
          (L.search cfg (makeFacts req) req.policy).2.graph.isSome = res.hit := by
    intro s s₁ L res h hs
    have hsearch : State.Refines (searchCandidates cfg s (makeFacts req) req.policy).1 _ ∧ _ :=
      h.search (makeFacts req) req.policy
    rw [hs] at hsearch
    refine ⟨hsearch.1, hsearch.2, ?_⟩
    rw [← finding_hit]
    exact congrArg (fun f : Finding => f.graph.isSome) hsearch.2.symm
  have hfirst : ∀ {s₁ : State Exec} {res : GraphLookupResult Exec},
      searchCandidates cfg (s.lookedUp req) (makeFacts req) req.policy = (s₁, res) →
        State.Refines s₁ L₁ ∧ res.finding = found ∧ found.graph.isSome = res.hit := by
    intro s₁ res hs
    have hfound := hsearched (s := s.lookedUp req) (h.touchMetric _) hs
    rwa [hl] at hfound
  have hmissed : ∀ {s₁ : State Exec} {res : GraphLookupResult Exec},
      searchCandidates cfg (s.lookedUp req) (makeFacts req) req.policy = (s₁, res) →
      res.outcome = .missCaptureRequired → res.hit = false := by
    intro s₁ res hs hout
    obtain ⟨rfl, -, -⟩ := search_lookedUp hs
    exact not_hit_of_required hout
  -- the ledger captures under the attempt that the engine draws
  have hcapture : ∀ {s₁ s₂ : State Exec} {res : GraphLookupResult Exec} {r : Result GraphArtifactId},
      searchCandidates cfg (s.lookedUp req) (makeFacts req) req.policy = (s₁, res) →
      captureGraph cfg (s₁.capturing req) req (s₁.captureCounter + 1) env = (s₂, r) →
        ∃ L₂, { L₁ with captureCounter := L₁.captureCounter + 1 }.capture cfg req
          (L₁.captureCounter + 1) env = (L₂, r) ∧ State.Refines s₂ L₂ := by
    intro s₁ s₂ res r hs hg
    have hrefines := (hfirst hs).1
    have hcapturing : State.Refines (s₁.capturing req) { L₁ with captureCounter := L₁.captureCounter + 1 } :=
      ⟨hrefines.1, by rw [← hrefines.captureCounter]; rfl, hrefines.3, hrefines.4, hrefines.5⟩
    obtain ⟨hcaptured, hres⟩ := hcapturing.capture req (s₁.captureCounter + 1) env
    rw [hg, hrefines.captureCounter] at hcaptured hres
    exact ⟨_, Prod.ext rfl hres.symm, hcaptured⟩
  have hpath := lookup_path cfg s req env
  generalize GraphCache.lookup cfg s req env = p at hpath ⊢
  obtain ⟨s', res'⟩ := p
  dsimp only at hpath ⊢
  unfold Ledger.lookup
  simp only [hl]
  cases hpath with
  | found hs hhit =>
    obtain ⟨hrefines, hfound, hsome⟩ := hfirst hs
    rw [if_pos (hsome.trans hhit)]
    exact ⟨hrefines.touchMetric _, hfound⟩
  | missed hs hmiss hno =>
    obtain ⟨hrefines, rfl, hsome⟩ := hfirst hs
    rw [if_neg (by rw [hsome, hmiss]; decide), if_neg (by exact hno)]
    exact ⟨hrefines.touchMetric _, rfl⟩
  | failed hs hmay hg =>
    obtain ⟨-, rfl, hsome⟩ := hfirst hs
    obtain ⟨L₂, hL₂, hcaptured⟩ := hcapture hs hg
    rw [if_neg (by rw [hsome, hmissed hs hmay.2.2]; decide), if_pos (by exact hmay), hL₂]
    exact ⟨hcaptured.touchMetric _, rfl⟩
  | captured hs hmay hg ha hhit =>
    obtain ⟨-, rfl, hsome⟩ := hfirst hs
    obtain ⟨L₂, hL₂, hcaptured⟩ := hcapture hs hg
    obtain ⟨hagain, hfound, hsome'⟩ := hsearched hcaptured ha
    rw [if_neg (by rw [hsome, hmissed hs hmay.2.2]; decide), if_pos (by exact hmay), hL₂]
    dsimp only
    rw [Ledger.afterCapture, if_pos (hsome'.trans hhit), ← hfound]
    exact ⟨hagain.touchMetric _, rfl⟩
  | unusable hs hmay hg ha hmiss =>
    obtain ⟨-, rfl, hsome⟩ := hfirst hs
    obtain ⟨L₂, hL₂, hcaptured⟩ := hcapture hs hg
    obtain ⟨hagain, hfound, hsome'⟩ := hsearched hcaptured ha
    rw [if_neg (by rw [hsome, hmissed hs hmay.2.2]; decide), if_pos (by exact hmay), hL₂]
    dsimp only
    rw [Ledger.afterCapture, if_neg (by rw [hsome', hmiss]; decide)]
    exact ⟨hagain, rfl⟩

/-! ## Invalidations -/

theorem markInvalidated_eq {e : CacheEntry Exec} (h : e.residency ≠ .backendResident) (strong : Bool) :
    markInvalidated cfg strong e = { e with invalidated := true, lifecycle := .invalidated } := by
  unfold markInvalidated
  dsimp only
  split_ifs
  · exact dropResidency_eq h
  · rfl

/-- A graph is revoked, and then others. -/
theorem Ledger.revoke_cons {a : ℕ} {as : List ℕ} (hnew : a ∉ as) {rec : GraphRecord}
    (ha : L.records[a]? = some rec) (hvalid : rec.metadata.invalidated = false) :
    L.valid (a :: as) = a :: L.valid as ∧
      L.revoke (a :: as) = { L with
        records := L.records.set a rec.revoked
        graphGenerationCounter := L.graphGenerationCounter + 1 }.revoke as ∧
      { L with
        records := L.records.set a rec.revoked
        graphGenerationCounter := L.graphGenerationCounter + 1 }.valid as = L.valid as := by
  have hcons : L.valid (a :: as) = a :: L.valid as := by
    rw [Ledger.valid, List.filter_cons_of_pos (by rw [ha, Option.any_some, hvalid]; rfl)]
    rfl
  have hrest : { L with
      records := L.records.set a rec.revoked
      graphGenerationCounter := L.graphGenerationCounter + 1 }.valid as = L.valid as := by
    refine List.filter_congr fun i hi => ?_
    dsimp only
    rw [List.getElem?_set_ne (by rintro rfl; exact hnew hi)]
  refine ⟨hcons, Ledger.ext ?_ rfl ?_ rfl rfl, hrest⟩
  · rw [Ledger.revoke, Ledger.revoke, hrest, hcons]
    refine List.ext_getElem? fun i => ?_
    rw [List.getElem?_mapIdx, List.getElem?_mapIdx]
    by_cases hi : i = a
    · subst hi
      have hout : i ∉ L.valid as := fun hi => hnew (List.mem_filter.mp hi).1
      rw [List.getElem?_set_self (List.getElem?_eq_some_iff.mp ha).1, ha]
      simp [hout]
    · rw [List.getElem?_set_ne (Ne.symm hi)]
      simp [hi]
  · rw [Ledger.revoke, Ledger.revoke, hrest, hcons]
    dsimp only
    rw [List.length_cons, UInt64.ofNat_add, UInt64.add_comm (UInt64.ofNat _), ← UInt64.add_assoc]
    rfl

variable (cfg) in
/-- The marking loop revokes what the ledger does. -/
theorem State.Refines.revoke (strong : Bool) : ∀ (as : List ℕ) {s : State Exec} {L : Ledger}
    (res : InvalidationResult), State.Refines s L → as.Nodup → (∀ a ∈ as, a < L.records.length) →
      State.Refines (as.foldl (invalidateEntry cfg strong) (s, res)).1 (L.revoke as) ∧
        (as.foldl (invalidateEntry cfg strong) (s, res)).2.invalidated =
          res.invalidated + (L.valid as).length
  | [], s, L, res, h, _, _ => by
    have hnothing : L.revoke [] = L := by
      refine Ledger.ext ?_ rfl (UInt64.add_zero _) rfl rfl
      exact List.ext_getElem? fun i => by simp [Ledger.revoke, Ledger.valid]
    rw [hnothing]
    exact ⟨h, rfl⟩
  | a :: as, s, L, res, h, hnodup, hlt => by
    obtain ⟨hnew, hrest⟩ := List.nodup_cons.mp hnodup
    obtain ⟨rec, ha⟩ : ∃ rec, L.records[a]? = some rec :=
      ⟨_, List.getElem?_eq_getElem (hlt a List.mem_cons_self)⟩
    have hholds := h.registry.entry a rec ha
    have hinv := hholds.invalidated
    have hlt' : ∀ b ∈ as, b < L.records.length := fun b hb => hlt b (List.mem_cons_of_mem a hb)
    rw [List.foldl_cons]
    rcases hvalid : rec.metadata.invalidated with _ | _
    · obtain ⟨hcons, hrevoke, hkept⟩ := Ledger.revoke_cons hnew ha hvalid
      rw [hvalid] at hinv
      rw [hcons, hrevoke, List.length_cons, ← hkept, invalidateEntry, hinv, if_neg Bool.false_ne_true,
        markInvalidated_eq hholds.off_backend]
      have hset : State.Refines { s.set a { s.heap a with invalidated := true, lifecycle := .invalidated } with
          graphGenerationCounter := s.graphGenerationCounter + 1
          metrics := s.metrics.bumpScopes (s.heap a).workload.logicalName
            (s.heap a).descriptor.device.scope (s.heap a).workload.namespaceName
            fun p => { p with invalidations := p.invalidations + 1 } }
          { L with
            records := L.records.set a rec.revoked
            graphGenerationCounter := L.graphGenerationCounter + 1 } := by
        refine ⟨h.registry.edit fun rec' hrec => ?_, h.2, congrArg (· + 1) h.3, h.4, h.5⟩
        obtain rfl := Option.some.inj (ha.symm.trans hrec)
        refine ⟨⟨?_, hholds.off_backend, rfl⟩, rfl⟩
        rw [← hholds.record]
        rfl
      obtain ⟨hrefines, hcount⟩ := State.Refines.revoke strong as _ hset hrest fun b hb => by
        rw [List.length_set]
        exact hlt' b hb
      refine ⟨hrefines, hcount.trans ?_⟩
      dsimp only
      omega
    · have hskip : invalidateEntry cfg strong (s, res) a = (s, res) := by
        rw [invalidateEntry, hinv, hvalid, if_pos rfl]
      have hgone : L.valid (a :: as) = L.valid as := by
        rw [Ledger.valid, List.filter_cons_of_neg (by rw [ha, Option.any_some, hvalid]; decide)]
        rfl
      have hsame : L.revoke (a :: as) = L.revoke as := by
        rw [Ledger.revoke, hgone]
        rfl
      rw [hskip, hgone, hsame]
      exact State.Refines.revoke strong as res h hrest hlt'

theorem covers_entry (req : InvalidationRequest) (e : CacheEntry Exec) (b : Bool) :
    req.covers (e.record b).entry = req.covers e := by
  unfold InvalidationRequest.covers
  cases req.scope <;> rfl

theorem CacheEntry.Holds.covers {e : CacheEntry Exec} {rec : GraphRecord} (h : e.Holds rec)
    (req : InvalidationRequest) : req.covers rec.entry = req.covers e := by
  rw [← h.record]
  exact covers_entry req e _

/-- An invalidation collects what the ledger covers. -/
theorem State.Refines.targets (h : State.Refines s L) (req : InvalidationRequest) :
    invalidationTargets s.toRegistry req = L.covered req := by
  unfold invalidationTargets Ledger.covered
  split_ifs with hscope
  · rw [h.registry.artifact]
    refine (filter_heads (fun rec => rec.title.artifactId) L.records req.artifactId).symm.trans ?_
    refine List.filter_congr fun i hi => ?_
    obtain ⟨rec, hrec, -⟩ := mem_heads.mp hi
    rw [hrec, Option.map_some, Option.any_some, InvalidationRequest.covers, hscope]
    simp only [Option.some.injEq]
    rfl
  · rw [h.registry.artifacts]
    refine List.filter_congr fun i hi => ?_
    obtain ⟨rec, hrec, -⟩ := mem_heads.mp hi
    rw [hrec, Option.any_some, (h.registry.entry i rec hrec).covers]

theorem Ledger.covered_spec (req : InvalidationRequest) :
    (L.covered req).Nodup ∧ ∀ i ∈ L.covered req, i < L.records.length := by
  refine ⟨(nodup_heads _ _).filter _, fun i hi => ?_⟩
  obtain ⟨rec, hrec, -⟩ := mem_heads.mp (List.mem_filter.mp hi).1
  exact (List.getElem?_eq_some_iff.mp hrec).1

theorem State.Refines.invalidate (h : State.Refines s L) (req : InvalidationRequest) :
    State.Refines (invalidate cfg s req).1 (L.invalidate req).1 ∧
      (invalidate cfg s req).2.invalidated = (L.invalidate req).2 ∧
      (invalidate cfg s req).2.newCacheGeneration = (L.invalidate req).1.cacheGeneration := by
  have hrolled : State.Refines { s with cacheGeneration := s.cacheGeneration + 1 }
      { L with cacheGeneration := L.cacheGeneration + 1 } :=
    ⟨h.1, h.2, h.3, congrArg (· + 1) h.4, h.5⟩
  obtain ⟨hnodup, hlt⟩ := L.covered_spec req
  obtain ⟨hrefines, hcount⟩ := State.Refines.revoke cfg req.strong (L.covered req) {} hrolled
    hnodup hlt
  rw [← h.targets] at hrefines hcount
  rw [Ledger.invalidate, ← h.targets, GraphCache.invalidate]
  dsimp only
  generalize (invalidationTargets s.toRegistry req).foldl (invalidateEntry cfg req.strong)
    ({ s with cacheGeneration := s.cacheGeneration + 1 }, {}) = p at hrefines hcount ⊢
  obtain ⟨s', res⟩ := p
  exact ⟨State.Refines.touchMetric hrefines _, hcount.trans (Nat.zero_add _), congrArg (· + 1) h.4⟩

/-! ## The directory -/

/-- A graph of the engine is written as the ledger writes it. -/
theorem State.Refines.persist (h : State.Refines s L) {a : ℕ} {rec : GraphRecord} (ha : L.records[a]? = some rec) :
    State.Refines (persistEntry s a true).1 (L.persist rec) := by
  rw [persistEntry_eq]
  refine ⟨h.1, h.2, h.3, h.4, ?_⟩
  dsimp only [State.written, Ledger.persist]
  rw [if_pos rfl, h.store, ← (h.registry.entry a rec ha).record]
  rfl

theorem persistEntry_false (s : State Exec) (a : ℕ) (hs : s.store.isSome = true) :
    persistEntry s a false = (s, fail .persistenceIoError "cannot write entry") := by
  rw [persistEntry]
  split
  · rename_i hnone
    rw [hnone] at hs
    cases hs
  · rfl

theorem persistEntry_true (s : State Exec) (a : ℕ) : (persistEntry s a true).2 = .ok () := by
  rw [persistEntry]
  split <;> rfl

/-- The loop of `persist_all` writes what the ledger does. -/
theorem State.Refines.persistLoop (putOk : GraphArtifactId → Bool) : ∀ (as : List ℕ) {s : State Exec}
    {L : Ledger}, State.Refines s L → s.store.isSome = true → (∀ a ∈ as, a < L.records.length) →
      State.Refines (persistLoop putOk as s).1 (((as.filterMap (L.records[·]?)).takeWhile
        fun r => putOk r.artifactId).foldl Ledger.persist L) ∧
      (persistLoop putOk as s).2 = if (as.filterMap (L.records[·]?)).all fun r => putOk r.artifactId
        then .ok () else fail .persistenceIoError "cannot write entry"
  | [], _, _, h, _, _ => ⟨h, rfl⟩
  | a :: as, s, L, h, hs, hlt => by
    obtain ⟨rec, ha⟩ : ∃ rec, L.records[a]? = some rec :=
      ⟨_, List.getElem?_eq_getElem (hlt a List.mem_cons_self)⟩
    have hid : (s.heap a).artifactId = rec.artifactId := by
      rw [← (h.registry.entry a rec ha).record]
      rfl
    rw [List.filterMap_cons_some ha, GraphCache.persistLoop, hid, List.all_cons]
    rcases hput : putOk rec.artifactId with _ | _
    · rw [persistEntry_false s a hs, List.takeWhile_cons_of_neg (p := fun r : GraphRecord =>
        putOk r.artifactId) (by rw [hput]; decide)]
      exact ⟨h, rfl⟩
    · rw [List.takeWhile_cons_of_pos (p := fun r : GraphRecord => putOk r.artifactId) hput,
        List.foldl_cons, Bool.true_and]
      have hwritten := h.persist ha
      have hok := persistEntry_true s a
      have hstore : (persistEntry s a true).1.store.isSome = true := by
        rw [hwritten.store, Ledger.persist, Option.isSome_map, ← h.store]
        exact hs
      generalize persistEntry s a true = p at hwritten hok hstore
      obtain ⟨s', r⟩ := p
      obtain rfl : r = .ok () := hok
      exact State.Refines.persistLoop putOk as hwritten hstore fun b hb => hlt b (List.mem_cons_of_mem a hb)

theorem State.Refines.persistAll (h : State.Refines s L) (order : IterationOrder ℕ)
    (putOk : GraphArtifactId → Bool) :
    State.Refines (persistAll s order putOk).1 (L.persistAll order putOk).1 ∧
      (persistAll s order putOk).2 = (L.persistAll order putOk).2 := by
  unfold GraphCache.persistAll Ledger.persistAll
  rw [← h.store]
  rcases hs : s.store with _ | store
  · exact ⟨h, rfl⟩
  · rw [if_neg (by simp)]
    dsimp only
    rw [h.registry.artifacts]
    refine h.persistLoop putOk _ (by rw [hs]; rfl) fun a ha => ?_
    obtain ⟨rec, hrec, -⟩ := mem_heads.mp ((order.perm _).mem_iff.mp ha)
    exact (List.getElem?_eq_some_iff.mp hrec).1

/-- What is loaded does not depend on what backends execute. -/
theorem loadEntry_born (Exec : Type) (store : Store) (id : GraphArtifactId) :
    (loadEntry store id).map (fun e : CacheEntry Exec => e.born) = Ledger.stored store id := by
  unfold Ledger.stored loadEntry
  rcases store.get id with _ | payload
  · rfl
  · simp only [Option.bind_some, decodeEntryPayload]
    split <;> rfl

/-- The loop of `recover` adds what the ledger adds. -/
theorem State.Refines.recoverLoop (store : Store) : ∀ (ids : List GraphArtifactId) {s : State Exec}
    {L : Ledger}, State.Refines s L →
      State.Refines (ids.foldl (recoverEntry store) s) { L with
        records := L.records ++ ids.filterMap (Ledger.stored store) }
  | [], s, L, h => by
    rw [List.filterMap_nil, List.append_nil]
    exact h
  | id :: ids, s, L, h => by
    have hborn := loadEntry_born Exec store id
    rw [List.foldl_cons, recoverEntry]
    rcases hload : loadEntry store id with _ | e
    · rw [hload, Option.map_none] at hborn
      rw [List.filterMap_cons_none hborn.symm]
      exact State.Refines.recoverLoop store ids (h.touchMetric _)
    · rw [hload, Option.map_some] at hborn
      rw [List.filterMap_cons_some hborn.symm, ← List.singleton_append, ← List.append_assoc]
      obtain ⟨g, md, rfl⟩ := loadEntry_some hload
      have hadded : State.Refines (s.register (recoveredEntry g md)) { L with
          records := L.records ++ [(recoveredEntry g md : CacheEntry Exec).born] } := by
        refine ⟨h.registry.register (by simp [recoveredEntry]) ?_, h.2, h.3, h.4, h.5⟩
        rfl
      exact State.Refines.recoverLoop store ids hadded

theorem Registry.Keeps.foldl_max {r : Registry Exec} {l : List GraphRecord} (h : r.Keeps l)
    {f : CacheEntry Exec → UInt64} {g : GraphRecord → UInt64}
    (hfg : ∀ e rec, CacheEntry.Holds e rec → f e = g rec) : ∀ (as : List ℕ) (m : UInt64),
    (∀ a ∈ as, a < l.length) →
      as.foldl (fun m a => if f (r.heap a) > m then f (r.heap a) else m) m =
        (as.filterMap (l[·]?)).foldl (fun m rec => max m (g rec)) m
  | [], _, _ => rfl
  | a :: as, m, hlt => by
    obtain ⟨rec, ha⟩ : ∃ rec, l[a]? = some rec :=
      ⟨_, List.getElem?_eq_getElem (hlt a List.mem_cons_self)⟩
    have hmax : (if g rec > m then g rec else m) = max m (g rec) := by
      change _ = if m ≤ g rec then g rec else m
      split_ifs with hgt hle hle
      · rfl
      · exact absurd (UInt64.le_of_lt hgt) hle
      · exact UInt64.le_antisymm hle (UInt64.not_lt.mp hgt)
      · rfl
    rw [List.filterMap_cons_some ha, List.foldl_cons, List.foldl_cons,
      hfg _ _ (h.entry a rec ha), hmax]
    exact foldl_max h hfg as _ fun b hb => hlt b (List.mem_cons_of_mem a hb)

theorem State.Refines.top (h : State.Refines s L) {f : CacheEntry Exec → UInt64} {g : GraphRecord → UInt64}
    (hfg : ∀ e rec, CacheEntry.Holds e rec → f e = g rec) :
    s.artifacts.foldl (fun m a => if f (s.heap a) > m then f (s.heap a) else m) 0 = L.top g := by
  rw [h.registry.artifacts]
  refine h.registry.foldl_max hfg _ 0 fun a ha => ?_
  obtain ⟨rec, hrec, -⟩ := mem_heads.mp ha
  exact (List.getElem?_eq_some_iff.mp hrec).1

theorem State.Refines.recover (h : State.Refines s L) (listing : IterationOrder GraphArtifactId) :
    State.Refines (recover s listing).1 (L.recover listing).1 ∧
      (recover s listing).2 = (L.recover listing).2 := by
  unfold GraphCache.recover Ledger.recover
  rcases hs : s.store with _ | store
  · rw [h.store.symm.trans hs]
    exact ⟨h, rfl⟩
  · rw [h.store.symm.trans hs]
    dsimp only
    have hadded := h.recoverLoop store (listing.arrange store.keys)
    generalize (listing.arrange store.keys).foldl (recoverEntry store) s = s' at hadded ⊢
    have hgen : s'.artifacts.foldl (fun m a => if (s'.heap a).generation > m
        then (s'.heap a).generation else m) 0 = _ :=
      hadded.top (f := CacheEntry.generation) (g := fun rec => rec.metadata.generation)
        fun e rec he => congrArg (fun rec => rec.metadata.generation) he.record
    have hcache : s'.artifacts.foldl (fun m a => if (s'.heap a).cacheGeneration > m
        then (s'.heap a).cacheGeneration else m) 0 = _ :=
      hadded.top (f := CacheEntry.cacheGeneration) (g := fun rec => rec.metadata.cacheGeneration)
        fun e rec he => congrArg (fun rec => rec.metadata.cacheGeneration) he.record
    rw [hgen, hcache, hadded.graphGenerationCounter, hadded.cacheGeneration]
    exact ⟨⟨hadded.1, hadded.2, rfl, rfl, hadded.5.trans (h.store.symm.trans hs)⟩, rfl⟩

/-! ## Steps -/

/-- The calls that the ledger does not know of. -/
def Op.holding : Op Exec → Bool
  | .release _ | .replay .. | .pin _ | .unpin _ | .evict _ | .unload _ => true
  | .lookup .. | .invalidate _ | .persistAll .. | .recover _ => false

theorem State.Refines.set (h : State.Refines s L) {a : ℕ} {e : CacheEntry Exec}
    (hsame : ∀ rec, (s.heap a).Holds rec → e.Holds rec) : State.Refines (s.set a e) L :=
  ⟨h.registry.touch fun rec hrec => hsame rec (h.registry.entry a rec hrec), h.2, h.3, h.4, h.5⟩

theorem CacheEntry.Holds.drop {e : CacheEntry Exec} {rec : GraphRecord} (h : e.Holds rec) :
    (dropResidency cfg e).Holds rec := by
  rwa [dropResidency_eq h.off_backend]

/-- Leases, pins, replays, evictions and unloads leave the ledger alone. -/
theorem State.Refines.hold (h : State.Refines s L) {op : Op Exec} (hop : op.holding = true) :
    State.Refines (GraphCache.step cfg s op) L := by
  have hcounts : ∀ (a : ℕ) (pins leases : UInt64),
      State.Refines (s.set a { s.heap a with pinCount := pins, leaseCount := leases }) L :=
    fun a pins leases => h.set fun rec he => ⟨he.1, he.2, he.3⟩
  have hdrop : ∀ a, State.Refines (s.set a (dropResidency cfg (s.heap a))) L :=
    fun a => h.set fun rec he => he.drop
  cases op with
  | release l =>
    rw [GraphCache.step, release]
    by_cases hreleased : l.token ∈ s.released
    · rw [if_pos hreleased]
      exact h
    · rw [if_neg hreleased]
      have hset := hcounts l.entry (s.heap l.entry).pinCount (if (s.heap l.entry).leaseCount > 0
        then (s.heap l.entry).leaseCount - 1 else (s.heap l.entry).leaseCount)
      exact ⟨hset.1, hset.2, hset.3, hset.4, hset.5⟩
  | replay l expected b rd mem =>
    rw [GraphCache.step, replay]
    split_ifs
    · exact h
    · exact h
    · split
      · exact h
      · dsimp only
        split
        · exact h
        · dsimp only
          exact h.touchMetric _
        · dsimp only
          exact h.touchMetric _
  | pin id =>
    rw [GraphCache.step, pin]
    split
    · exact h
    · exact hcounts _ _ _
  | unpin id =>
    rw [GraphCache.step, unpin]
    split
    · exact h
    · split_ifs
      · exact h
      · exact hcounts _ _ _
  | evict id =>
    rw [GraphCache.step, evict]
    split
    · exact h
    · split_ifs
      · exact h
      · dsimp only
        exact (hdrop _).touchMetric _
  | unload id =>
    rw [GraphCache.step, unload]
    split
    · exact h
    · split_ifs
      · exact h
      · exact hdrop _
  | _ => cases hop

/-- Every step of the engine is a step of the ledger. -/
theorem State.Refines.step (h : State.Refines s L) (op : Op Exec) :
    State.Refines (GraphCache.step cfg s op) (L.step cfg op) := by
  cases op with
  | lookup req env => exact (h.lookup req env).1
  | invalidate req => exact (h.invalidate req).1
  | persistAll order putOk => exact (h.persistAll order putOk).1
  | recover listing => exact (h.recover listing).1
  | _ => exact h.hold rfl

variable (cfg) in
theorem State.Refines.run (h : State.Refines s L) (ops : List (Op Exec)) :
    State.Refines (GraphCache.run cfg s ops) (L.run cfg ops) := by
  induction ops generalizing s L with
  | nil => exact h
  | cons op ops ih => exact ih (h.step op)

variable (Exec) in
theorem refines_opened (store : Option Store) :
    State.Refines (.fresh store : State Exec) (.opened store) where
  registry := {
    next := rfl
    entry := fun i rec hi => by cases hi
    byWorkload := fun _ => rfl
    byKey := fun _ => rfl
    artifact := fun _ => rfl
    artifacts := rfl
    authority := fun _ => rfl }
  captureCounter := rfl
  graphGenerationCounter := rfl
  cacheGeneration := rfl
  store := rfl

/-- The engine in `s` finds, revokes, writes and recovers what the ledger does. -/
structure AnswersAs (cfg : Config Exec) (s : State Exec) (L : Ledger) : Prop where
  lookup : ∀ req env, (lookup cfg s req env).2.finding = (L.lookup cfg req env).2
  invalidate : ∀ req, (invalidate cfg s req).2.invalidated = (L.invalidate req).2 ∧
    (invalidate cfg s req).2.newCacheGeneration = (L.invalidate req).1.cacheGeneration
  persistAll : ∀ order putOk, (persistAll s order putOk).2 = (L.persistAll order putOk).2
  recover : ∀ listing, (recover s listing).2 = (L.recover listing).2
  graphCount : graphCount s = L.heads.length

theorem State.Refines.answers (h : State.Refines s L) : AnswersAs cfg s L where
  lookup := fun req env => (h.lookup req env).2
  invalidate := fun req => (h.invalidate req).2
  persistAll := fun order putOk => (h.persistAll order putOk).2
  recover := fun listing => (h.recover listing).2
  graphCount := by
    have hlength := congrArg List.length h.registry.artifacts
    rw [Registry.artifacts, List.length_map] at hlength
    rw [GraphCache.graphCount, AList.keys, List.keys, List.length_map]
    exact hlength

/-- For what is found, revoked, written and recovered, the four indices, the tiers and the lifecycle
states carry nothing that a flat list of the graphs does not : along every run the engine answers as
the ledger. -/
theorem engine_refines_ledger (cfg : Config Exec) (store : Option Store) (ops : List (Op Exec)) :
    State.Refines (GraphCache.run cfg (.fresh store) ops) ((Ledger.opened store).run cfg ops) ∧
      AnswersAs cfg (GraphCache.run cfg (.fresh store) ops) ((Ledger.opened store).run cfg ops) :=
  ⟨(refines_opened Exec store).run cfg ops, ((refines_opened Exec store).run cfg ops).answers⟩

theorem Ledger.run_filter (cfg : Config Exec) (L : Ledger) (ops : List (Op Exec)) :
    L.run cfg (ops.filter fun op => !op.holding) = L.run cfg ops := by
  induction ops generalizing L with
  | nil => rfl
  | cons op ops ih =>
    rcases hop : op.holding with _ | _
    · rw [List.filter_cons_of_pos (by rw [hop]; rfl)]
      exact ih _
    · have hskip : L.step cfg op = L := by
        cases op <;> first | rfl | cases hop
      rw [List.filter_cons_of_neg (by rw [hop]; decide), ih, Ledger.run, Ledger.run, List.foldl_cons,
        hskip]

/-- In the two states a lookup finds the same, an invalidation revokes as many graphs, and as much is
written and recovered. Leases that are still out are not compared. -/
structure AnswerAlike (cfg : Config Exec) (s s' : State Exec) : Prop where
  lookup : ∀ req env, (lookup cfg s req env).2.finding = (lookup cfg s' req env).2.finding
  invalidate : ∀ req, (invalidate cfg s req).2.invalidated = (invalidate cfg s' req).2.invalidated ∧
    (invalidate cfg s req).2.newCacheGeneration = (invalidate cfg s' req).2.newCacheGeneration
  persistAll : ∀ order putOk, (persistAll s order putOk).2 = (persistAll s' order putOk).2
  recover : ∀ listing, (recover s listing).2 = (recover s' listing).2
  graphCount : graphCount s = graphCount s'

theorem AnswersAs.alike {s' : State Exec} (h : AnswersAs cfg s L) (h' : AnswersAs cfg s' L) :
    AnswerAlike cfg s s' where
  lookup := fun req env => (h.lookup req env).trans (h'.lookup req env).symm
  invalidate := fun req => ⟨(h.invalidate req).1.trans (h'.invalidate req).1.symm,
    (h.invalidate req).2.trans (h'.invalidate req).2.symm⟩
  persistAll := fun order putOk => (h.persistAll order putOk).trans (h'.persistAll order putOk).symm
  recover := fun listing => (h.recover listing).trans (h'.recover listing).symm
  graphCount := h.graphCount.trans h'.graphCount.symm

/-- What was leased, replayed, pinned, evicted and unloaded before makes no difference to what a
lookup answers, to what an invalidation revokes, or to what is written and recovered. -/
theorem holding_invisible (cfg : Config Exec) (store : Option Store) (ops : List (Op Exec)) :
    AnswerAlike cfg (GraphCache.run cfg (.fresh store) ops)
      (GraphCache.run cfg (.fresh store) (ops.filter fun op => !op.holding)) := by
  have hfiltered := (refines_opened Exec store).run cfg (ops.filter fun op => !op.holding)
  rw [Ledger.run_filter] at hfiltered
  exact ((refines_opened Exec store).run cfg ops).answers.alike hfiltered.answers

end

end GraphCache
