import GraphCache.Journal
import GraphCache.Lookups

/-!
# The ledger

What the cache is for, without how it is kept : a ledger, the list of the graphs that were captured
or recovered, to which graphs are only added, and the counters that generations are drawn from
(`Ledger`). There are no indices, no leases, pins or tiers, and no lifecycle states. A lookup reads
the whole list : of the graphs of the workload that are valid and hold the authority over their key,
it takes the last exact one, or else the first compatible one (`Ledger.lookup`). An invalidation
revokes the graphs it covers among those that are the latest of their artifact
(`Ledger.invalidate`).

`LedgerRefinement` connects the engine to it.
-/

namespace GraphCache

open Journal

variable {Exec : Type}

/-! ## Records -/

/-- What is kept of a graph : what was captured or recovered, with the metadata that is persisted;
whether it was invalid when it was added, and whether there is an executable. -/
structure GraphRecord where
  descriptor : GraphDescriptor
  facts : CompatibilityFacts
  key : GraphCompatibilityKey
  graphId : GraphId
  metadata : PersistedMetadata
  stillborn : Bool
  loaded : Bool

def CacheEntry.record (e : CacheEntry Exec) (stillborn : Bool) : GraphRecord where
  descriptor := e.descriptor
  facts := e.facts
  key := e.key
  graphId := e.graphId
  metadata := e.metadata
  stillborn := stillborn
  loaded := e.exec.isSome

/-- The record of an entry that is added. -/
def CacheEntry.born (e : CacheEntry Exec) : GraphRecord := e.record e.invalidated

namespace GraphRecord

variable (r : GraphRecord)

def artifactId : GraphArtifactId := r.metadata.artifactId

def keyHex : Str := r.key.digestHex

/-- The record as an entry that nobody holds. -/
def entry : CacheEntry Unit where
  artifactId := r.metadata.artifactId
  graphId := r.graphId
  generation := r.metadata.generation
  cacheGeneration := r.metadata.cacheGeneration
  descriptor := r.descriptor
  facts := r.facts
  key := r.key
  workload := r.metadata.workload
  captureCostUs := r.metadata.captureCostUs
  instantiateCostUs := r.metadata.instantiateCostUs
  artifactSize := r.metadata.artifactSize
  dependencyGeneration := r.metadata.dependencyGeneration
  invalidated := r.metadata.invalidated

def revoked : GraphRecord := { r with metadata := { r.metadata with invalidated := true } }

end GraphRecord

/-! ## The ledger -/

@[ext] structure Ledger where
  records : List GraphRecord := []
  captureCounter : UInt64 := 0
  graphGenerationCounter : UInt64 := 1
  cacheGeneration : UInt64 := 1
  store : Option Store := none

/-- What a lookup says, with the graph that it leases. -/
@[ext] structure Finding where
  outcome : LookupOutcome := .missCaptureRequired
  artifactId : GraphArtifactId := {}
  generation : GraphGeneration := 0
  decision : GraphCompatibilityDecision := {}
  graph : Option ℕ := none
  needsRebinding : Bool := false
  reasons : List CompatibilityReason := []
  reasonText : Str := []
  captureStarted : Bool := false

def GraphLookupResult.finding (res : GraphLookupResult Exec) : Finding where
  outcome := res.outcome
  artifactId := res.artifactId
  generation := res.generation
  decision := res.decision
  graph := res.lease.map Lease.entry
  needsRebinding := (res.lease.map Lease.needsRebinding).getD false
  reasons := res.reasons
  reasonText := res.reasonText
  captureStarted := res.captureStarted

/-- A graph that a lookup may take, and the decision on it. -/
structure Appraisal where
  record : GraphRecord
  position : ℕ
  decision : GraphCompatibilityDecision

namespace Ledger

variable (cfg : Config Exec) (L : Ledger) (facts : CompatibilityFacts)
  (policy : GraphCompatibilityPolicy)

/-- The latest graphs of their artifacts. -/
def heads : List ℕ := Journal.heads GraphRecord.artifactId L.records

/-- The generation that is current for a key : that of the last graph that was added valid. -/
def authority (k : Str) : Option GraphGeneration :=
  (last (fun r => r.keyHex = k ∧ r.stillborn = false) L.records).map fun r => r.metadata.generation

def live (r : GraphRecord) : Bool :=
  r.metadata.invalidated = false ∧ L.authority r.keyHex = some r.metadata.generation

/-- The live graphs of the workload. -/
def candidates : List (GraphRecord × ℕ) :=
  L.records.zipIdx.filter fun c =>
    workloadKey c.1.metadata.workload = workloadKey facts.workload ∧ L.live c.1

def fresh (c : GraphRecord × ℕ) : Bool := isDependencyFresh c.1.facts.dependencies facts

def appraise (c : GraphRecord × ℕ) : Appraisal :=
  ⟨c.1, c.2, decideCompatibility facts c.1.facts policy⟩

def appraisals : List Appraisal :=
  ((L.candidates facts).filter (fresh facts)).map (appraise facts policy)

/-- The last exact graph, or else the first compatible one. -/
def choose : Option Appraisal :=
  pick (fun v => v.decision.klass = .exactCompatible)
    ((L.appraisals facts policy).filter fun v => v.decision.compatible)

/-- What is said where there is no compatible graph. -/
def refusal : Finding :=
  match ((L.appraisals facts policy).filter fun v => !v.decision.compatible).getLast? with
  | some v => { outcome := .missIncompatible, decision := v.decision }
  | none =>
    if (L.candidates facts).all (fresh facts) then { outcome := .missCaptureRequired }
    else { outcome := .missStaleDependency }

/-- A graph without an executable is captured again. -/
def load (v : Appraisal) : Ledger × Result Unit :=
  if v.record.loaded then (L, .ok ())
  else
    let attempt := L.captureCounter + 1
    let L := { L with captureCounter := attempt }
    match cfg.backend.capture v.record.descriptor attempt with
    | .error e => (L, .error e)
    | .ok exec =>
      match cfg.backend.validate v.record.descriptor exec with
      | .error e => (L, .error ⟨.validationFailed, e.message⟩)
      | .ok () =>
        ({ L with records := L.records.set v.position { v.record with loaded := true } }, .ok ())

def search : Ledger × Finding :=
  match L.choose facts policy with
  | none => (L, L.refusal facts policy)
  | some v =>
    match L.load cfg v with
    | (L, .error e) => (L, {
        decision := v.decision
        reasonText := str "cannot materialize graph executable: " ++ e.message })
    | (L, .ok ()) => (L, {
        outcome := hitOutcome v.decision.klass .hostResident
        artifactId := v.record.metadata.artifactId
        generation := v.record.metadata.generation
        decision := v.decision
        graph := some v.position
        needsRebinding := v.decision.needsRebinding
        reasons := v.decision.reasons })

/-- A graph written to the directory. -/
def persist (r : GraphRecord) : Ledger :=
  { L with store := L.store.map fun store => store.insert r.artifactId (encodeEntryPayload r.entry) }

def capture (req : GraphLookupRequest) (attempt : CaptureAttemptId) (env : LookupEnv) :
    Ledger × Result GraphArtifactId :=
  match captureEntry cfg L.graphGenerationCounter L.cacheGeneration req attempt
    env.captureCostUs with
  | .error e => (L, .error e)
  | .ok e =>
    let L := { L with
      records := L.records ++ [e.born]
      graphGenerationCounter := L.graphGenerationCounter + 1 }
    (if env.putOk then L.persist e.born else L, .ok e.artifactId)

/-- What is said where a lookup captures, and what is found afterwards. -/
def afterCapture (missed : Finding) : Result GraphArtifactId → Finding → Finding
  | .error e, _ => { missed with
      captureStarted := true
      outcome := .missCaptureRequired
      reasonText := str "capture failed: " ++ e.message }
  | .ok _, again =>
    if again.graph.isSome then { again with
      captureStarted := true
      reasonText := str "captured and replayed-compatible; hit" }
    else { missed with
      captureStarted := true
      outcome := .missIncompatible
      reasonText := str "capture completed but no compatible candidate is replay-eligible" }

def lookup (req : GraphLookupRequest) (env : LookupEnv) : Ledger × Finding :=
  let (L, found) := L.search cfg (makeFacts req) req.policy
  if found.graph.isSome then (L, found)
  else
    let missed := { found with reasonText := missReason found.outcome }
    if req.allowCapture ∧ cfg.allowCapture ∧ missed.outcome = .missCaptureRequired then
      let attempt := L.captureCounter + 1
      match { L with captureCounter := attempt }.capture cfg req attempt env with
      | (L, .error e) => (L, afterCapture missed (.error e) {})
      | (L, .ok id) =>
        let (L, again) := L.search cfg (makeFacts req) req.policy
        (L, afterCapture missed (.ok id) again)
    else (L, missed)

/-- The graphs that an invalidation covers. -/
def covered (req : InvalidationRequest) : List ℕ :=
  L.heads.filter fun i => L.records[i]?.any fun r => req.covers r.entry

/-- Those of them that are not invalidated yet. -/
def valid (graphs : List ℕ) : List ℕ :=
  graphs.filter fun i => L.records[i]?.any fun r => !r.metadata.invalidated

/-- The valid ones of some graphs revoked; each draws a generation. -/
def revoke (graphs : List ℕ) : Ledger :=
  { L with
    records := L.records.mapIdx fun i r => if i ∈ L.valid graphs then r.revoked else r
    graphGenerationCounter := L.graphGenerationCounter + UInt64.ofNat (L.valid graphs).length }

def invalidate (req : InvalidationRequest) : Ledger × ℕ :=
  ({ L.revoke (L.covered req) with cacheGeneration := L.cacheGeneration + 1 },
    (L.valid (L.covered req)).length)

/-- The latest graphs, in the order in which they are written. -/
def snapshot (order : IterationOrder ℕ) : List GraphRecord :=
  (order.arrange L.heads).filterMap (L.records[·]?)

/-- The latest graphs are written until a write fails. -/
def persistAll (order : IterationOrder ℕ) (putOk : GraphArtifactId → Bool) : Ledger × Result Unit :=
  if L.store.isNone then (L, fail .operationNotSupported "persistence disabled")
  else
    (((L.snapshot order).takeWhile fun r => putOk r.artifactId).foldl persist L,
      if (L.snapshot order).all fun r => putOk r.artifactId then .ok ()
      else fail .persistenceIoError "cannot write entry")

/-- The largest of the numbers that the latest graphs carry. -/
def top (f : GraphRecord → UInt64) : UInt64 :=
  (L.heads.filterMap (L.records[·]?)).foldl (fun m r => max m (f r)) 0

/-- A counter beyond the largest number. -/
def raise (top counter : UInt64) : UInt64 := if top + 1 > counter then top + 1 else counter

/-- The graph that is stored under an id, if it can be read. -/
def stored (store : Store) (id : GraphArtifactId) : Option GraphRecord :=
  (loadEntry store id).map fun e : CacheEntry Unit => e.born

def recover (listing : IterationOrder GraphArtifactId) : Ledger × Result Unit :=
  match L.store with
  | none => (L, fail .operationNotSupported "persistence disabled")
  | some store =>
    let L := { L with records := L.records ++ (listing.arrange store.keys).filterMap (stored store) }
    ({ L with
        graphGenerationCounter := raise (L.top fun r => r.metadata.generation) L.graphGenerationCounter
        cacheGeneration := raise (L.top fun r => r.metadata.cacheGeneration) L.cacheGeneration }, .ok ())

/-! ## Runs -/

/-- What a call of the interface does to the ledger. -/
def step : Op Exec → Ledger
  | .lookup req env => (L.lookup cfg req env).1
  | .invalidate req => (L.invalidate req).1
  | .persistAll order putOk => (L.persistAll order putOk).1
  | .recover listing => (L.recover listing).1
  | .release _ | .replay .. | .pin _ | .unpin _ | .evict _ | .unload _ => L

def run (ops : List (Op Exec)) : Ledger := ops.foldl (step cfg) L

/-- The ledger of a cache just constructed. -/
def opened (store : Option Store) : Ledger := { store }

end Ledger

end GraphCache
