import GraphCache.CpuBackend
import GraphCache.Facts
import GraphCache.Serialization
import Mathlib.Data.List.AList

/-!
# The cache engine

`GraphCache` of `cache.cpp`, one operation at a time. Entries are shared objects : the registry
holds pointers to them, so here they live in a heap and the indices hold addresses. `by_artifact`
names one entry for each artifact id; `by_workload` and `by_key` list, for each workload and each
key, every entry ever registered under it; `key_current_gen` holds the generation that is current
for each key. A lookup walks the bucket of its workload, an invalidation walks `by_artifact`.

The store is a durable map from artifact id to payload; a write that fails leaves it unchanged.
What an operation does not control comes with it : the outcome of a write, the cost measured for
a capture, the order in which a directory or a table is listed.
-/

namespace GraphCache

/-! ## Entries and results -/

inductive GraphLifecycle
  | discovered
  | capturing
  | captured
  | validating
  | valid
  | persisting
  | persisted
  | loading
  | residentHost
  | residentBackend
  | leasing
  | replaying
  | invalidationPending
  | evictionPending
  | evictedBackend
  | evictedHost
  | invalidated
  | corrupt
  | failed
  | retired
  | terminal
  deriving DecidableEq, Repr

/-- `lifecycle_is_replay_eligible`. -/
def GraphLifecycle.isReplayEligible (s : GraphLifecycle) : Bool :=
  s = .valid ∨ s = .persisted ∨ s = .residentHost ∨ s = .residentBackend ∨ s = .leasing

inductive ResidencyTier
  | metadataOnly
  | persistentStorage
  | hostResident
  | backendResident
  deriving DecidableEq, Repr

structure CacheEntry (Exec : Type) where
  artifactId : GraphArtifactId := {}
  graphId : GraphId := {}
  generation : GraphGeneration := 0
  cacheGeneration : CacheGeneration := 0
  descriptor : GraphDescriptor := {}
  facts : CompatibilityFacts := {}
  key : GraphCompatibilityKey := ⟨{}, [], []⟩
  workload : WorkloadIdentity := {}
  lifecycle : GraphLifecycle := .valid
  residency : ResidencyTier := .metadataOnly
  exec : Option Exec := none
  pinCount : UInt64 := 0
  leaseCount : UInt64 := 0
  captureCostUs : UInt64 := 0
  instantiateCostUs : UInt64 := 0
  artifactSize : UInt64 := 0
  dependencyGeneration : UInt64 := 0
  invalidated : Bool := false

/-- The key under which an entry's generation is current. -/
def CacheEntry.keyHex {Exec : Type} (e : CacheEntry Exec) : Str := e.key.digestHex

inductive LookupOutcome
  | exactBackendResidentHit
  | exactHostHit
  | compatibleHitRebinding
  | compatibleDynamicShapeHit
  | missCaptureRequired
  | missIncompatible
  | missInvalidated
  | missStaleDependency
  deriving DecidableEq, Repr

/-- A lease : its token, and what it copied of the entry at address `entry`. -/
structure Lease (Exec : Type) where
  token : ℕ
  entry : ℕ
  artifactId : GraphArtifactId
  generation : GraphGeneration
  executable : Option Exec
  needsRebinding : Bool

structure GraphLookupResult (Exec : Type) where
  outcome : LookupOutcome := .missCaptureRequired
  artifactId : GraphArtifactId := {}
  generation : GraphGeneration := 0
  decision : GraphCompatibilityDecision := {}
  lease : Option (Lease Exec) := none
  reasons : List CompatibilityReason := []
  reasonText : Str := []
  captureStarted : Bool := false
  waitedOnCapture : Bool := false

def GraphLookupResult.hit {Exec : Type} (r : GraphLookupResult Exec) : Bool := r.lease.isSome

inductive InvalidationScope
  | byGraphId
  | byArtifactId
  | byCompatibilityKey
  | byWorkload
  | byTopology
  | byBackend
  | byDependencyGeneration
  | byModelRevision
  | byNamespace
  | byAll
  deriving DecidableEq, Repr

structure InvalidationRequest where
  scope : InvalidationScope := .byArtifactId
  graphId : GraphId := {}
  artifactId : GraphArtifactId := {}
  dependencyGeneration : GraphGeneration := 0
  workload : WorkloadIdentity := {}
  backend : BackendIdentity := {}
  namespaceName : Str := []
  modelRevision : Str := []
  strong : Bool := false
  deriving DecidableEq, Repr

structure InvalidationResult where
  invalidated : ℕ := 0
  stillLeasing : ℕ := 0
  newCacheGeneration : CacheGeneration := 0
  deriving DecidableEq, Repr

structure PerScopeMetrics where
  lookups : UInt64 := 0
  hits : UInt64 := 0
  misses : UInt64 := 0
  replays : UInt64 := 0
  captures : UInt64 := 0
  invalidations : UInt64 := 0

/-- The counters that the engine moves. -/
structure Metrics where
  lookups : UInt64 := 0
  exactHits : UInt64 := 0
  compatibleHits : UInt64 := 0
  hostHits : UInt64 := 0
  backendResidentHits : UInt64 := 0
  misses : UInt64 := 0
  captures : UInt64 := 0
  captureFailures : UInt64 := 0
  validationFailures : UInt64 := 0
  recaptures : UInt64 := 0
  instantiations : UInt64 := 0
  replays : UInt64 := 0
  replayFailures : UInt64 := 0
  invalidations : UInt64 := 0
  evictions : UInt64 := 0
  corruptionCount : UInt64 := 0
  perWorkload : Str → PerScopeMetrics := fun _ => {}
  perDevice : Str → PerScopeMetrics := fun _ => {}
  perNamespace : Str → PerScopeMetrics := fun _ => {}

/-- `bump_scopes`, `bump_scope_raw`. -/
def Metrics.bumpScopes (m : Metrics) (workload device ns : Str)
    (f : PerScopeMetrics → PerScopeMetrics) : Metrics :=
  { m with
    perWorkload := Function.update m.perWorkload workload (f (m.perWorkload workload))
    perDevice := Function.update m.perDevice device (f (m.perDevice device))
    perNamespace := Function.update m.perNamespace ns (f (m.perNamespace ns)) }

/-- `architecture + "@" + std::to_string(device_index)`. -/
def DeviceDescriptor.scope (d : DeviceDescriptor) : Str :=
  d.architecture ++ str "@" ++ decimal d.deviceIndex.toUInt64

/-! ## State -/

/-- The durable map of `PersistenceStore`. -/
abbrev Store := AList fun _ : GraphArtifactId => Bytes

/-- The size check of `parse_envelope` on what `put` wrote : the length in the envelope is a 32-bit
word, and so is its sum with the sizes of the header; the checksum has 32 bytes. -/
def envelopeFits (payload : Bytes) : Bool :=
  (12 + UInt32.ofNat payload.length + 4).toNat + 32 = 4 + 4 + 4 + payload.length + 4 + 32

/-- `PersistenceStore::get`. -/
def Store.get (store : Store) (id : GraphArtifactId) : Option Bytes :=
  (store.lookup id).filter envelopeFits

/-- The entries and their indices : what `registry_mutex` guards. -/
structure Registry (Exec : Type) where
  heap : ℕ → CacheEntry Exec := fun _ => {}
  next : ℕ := 0
  byArtifact : AList fun _ : GraphArtifactId => ℕ := ∅
  byKey : Str → List ℕ := fun _ => []
  byWorkload : Str → List ℕ := fun _ => []
  keyCurrentGen : Str → Option GraphGeneration := fun _ => none

structure State (Exec : Type) extends Registry Exec where
  captureCounter : UInt64 := 0
  graphGenerationCounter : UInt64 := 1
  cacheGeneration : UInt64 := 1
  activeLeases : UInt64 := 0
  nextLease : ℕ := 0
  released : List ℕ := []
  store : Option Store := none
  metrics : Metrics := {}

/-- The configuration, the backend it selects, and how hash tables of node ids are iterated. -/
structure Config (Exec : Type) where
  backend : GraphBackend Exec
  nodeOrder : IterationOrder GraphNodeId
  allowCapture : Bool := true

/-- A cache over the CPU backend. -/
def Config.cpu (o : IterationOrder GraphNodeId) (ops : FloatOps) : Config CpuGraph where
  backend := cpuBackend o ops
  nodeOrder := o

/-- What a lookup does not control : the cost measured if it captures, and whether the write of
the captured entry succeeds. -/
structure LookupEnv where
  captureCostUs : UInt64 := 0
  putOk : Bool := true

section

variable {Exec : Type}

namespace Registry

/-- `by_artifact[id]`, the address. -/
def artifact (r : Registry Exec) (id : GraphArtifactId) : Option ℕ := r.byArtifact.lookup id

/-- The entries of `by_artifact`. -/
def artifacts (r : Registry Exec) : List ℕ := r.byArtifact.entries.map Sigma.snd

/-- The entry at `a` overwritten. -/
def set (r : Registry Exec) (a : ℕ) (e : CacheEntry Exec) : Registry Exec :=
  { r with heap := Function.update r.heap a e }

/-- The insert of a capture or a recovery. Both set the current generation of the key, except for
a recovered entry that is invalidated. -/
def register (r : Registry Exec) (e : CacheEntry Exec) : Registry Exec where
  heap := Function.update r.heap r.next e
  next := r.next + 1
  byArtifact := r.byArtifact.insert e.artifactId r.next
  byKey := Function.update r.byKey e.keyHex (r.byKey e.keyHex ++ [r.next])
  byWorkload := Function.update r.byWorkload (workloadKey e.workload)
    (r.byWorkload (workloadKey e.workload) ++ [r.next])
  keyCurrentGen := if e.invalidated then r.keyCurrentGen
    else Function.update r.keyCurrentGen e.keyHex (some e.generation)

end Registry

namespace State

def set (s : State Exec) (a : ℕ) (e : CacheEntry Exec) : State Exec :=
  { s with toRegistry := s.toRegistry.set a e }

def register (s : State Exec) (e : CacheEntry Exec) : State Exec :=
  { s with toRegistry := s.toRegistry.register e }

def touchMetric (s : State Exec) (f : Metrics → Metrics) : State Exec :=
  { s with metrics := f s.metrics }

end State

/-! ## Persistence of one entry -/

def CacheEntry.metadata (e : CacheEntry Exec) : PersistedMetadata where
  artifactId := e.artifactId
  generation := e.generation
  cacheGeneration := e.cacheGeneration
  workload := e.workload
  artifactSize := e.artifactSize
  captureCostUs := e.captureCostUs
  instantiateCostUs := e.instantiateCostUs
  dependencyGeneration := e.dependencyGeneration
  invalidated := e.invalidated

def encodeEntryPayload (e : CacheEntry Exec) : Bytes :=
  CanonicalWriter.take
    [putBytes 1 (serializeDescriptor e.descriptor), putBytes 2 (serializeMetadata e.metadata)]

/-- One field of a payload : the descriptor or the metadata. -/
def decodePayloadField (acc : Option GraphDescriptor × Option PersistedMetadata) (f : Field) :
    Option (Option GraphDescriptor × Option PersistedMetadata) :=
  match f.tag.toNat with
  | 1 => (deserializeDescriptor f.payload).toOption.map fun g => (some g, acc.2)
  | 2 => (deserializeMetadata f.payload).toOption.map fun m => (acc.1, some m)
  | _ => none

/-- The entry that a stored descriptor and its metadata stand for. -/
def recoveredEntry (g : GraphDescriptor) (md : PersistedMetadata) : CacheEntry Exec :=
  let facts := factsFromDescriptorAndWorkload g md.workload
  let key := GraphCompatibilityKey.build facts
  { artifactId := md.artifactId
    generation := md.generation
    cacheGeneration := md.cacheGeneration
    workload := md.workload
    descriptor := g
    facts
    key
    graphId := deriveGraphId g md.workload key
    artifactSize := md.artifactSize
    captureCostUs := md.captureCostUs
    instantiateCostUs := md.instantiateCostUs
    dependencyGeneration := md.dependencyGeneration
    invalidated := md.invalidated
    lifecycle := if md.invalidated then .invalidated else .valid
    residency := .metadataOnly
    exec := none }

def decodeEntryPayload (payload : Bytes) : Option (CacheEntry Exec) :=
  match CanonicalReader.forEach decodePayloadField payload (none, none) with
  | some (some g, some md) => some (recoveredEntry g md)
  | _ => none

/-- `persist_entry`, with the outcome of the write. -/
def persistEntry (s : State Exec) (a : ℕ) (putOk : Bool) : State Exec × Result Unit :=
  match s.store with
  | none => (s, .ok ())
  | some store =>
    let e := s.heap a
    if putOk then
      ({ s with store := some (store.insert e.artifactId (encodeEntryPayload e)) }, .ok ())
    else (s, fail .persistenceIoError "cannot write entry")

def graphCount (s : State Exec) : ℕ := s.byArtifact.keys.length

/-! ## Lookup -/

section

variable (cfg : Config Exec)

/-- The walk over a bucket : the miss outcome so far, the best compatible entry with its decision,
and the last incompatible decision. -/
structure Scan where
  outcome : LookupOutcome := .missCaptureRequired
  chosen : Option (ℕ × GraphCompatibilityDecision) := none
  bestIncompat : Option GraphCompatibilityDecision := none

/-- An entry that a lookup may consider : not invalidated, of the current generation of its key,
and in an eligible state. -/
def Registry.Selectable (r : Registry Exec) (a : ℕ) : Prop :=
  (r.heap a).invalidated = false ∧
    r.keyCurrentGen (r.heap a).keyHex = some (r.heap a).generation ∧
    (r.heap a).lifecycle.isReplayEligible = true

instance (r : Registry Exec) (a : ℕ) : Decidable (r.Selectable a) :=
  inferInstanceAs (Decidable (_ ∧ _ ∧ _))

/-- One entry of the bucket. -/
def scanEntry (r : Registry Exec) (facts : CompatibilityFacts) (policy : GraphCompatibilityPolicy)
    (acc : Scan) (a : ℕ) : Scan :=
  if ¬r.Selectable a then acc
  else if isDependencyFresh (r.heap a).facts.dependencies facts = false then
    { acc with outcome := .missStaleDependency }
  else
    let dec := decideCompatibility facts (r.heap a).facts policy
    if dec.compatible then
      if acc.chosen = none ∨ dec.klass = .exactCompatible then { acc with chosen := some (a, dec) }
      else acc
    else { acc with bestIncompat := some dec }

def scan (r : Registry Exec) (facts : CompatibilityFacts) (policy : GraphCompatibilityPolicy) :
    Scan :=
  (r.byWorkload (workloadKey facts.workload)).foldl (scanEntry r facts policy) {}

/-- `materialize_exec` : an entry without an executable is captured again. -/
def materializeExec (s : State Exec) (a : ℕ) : State Exec × Result Unit :=
  if (s.heap a).exec.isSome then (s, .ok ())
  else
    let g := (s.heap a).descriptor
    let attempt := s.captureCounter + 1
    let s := { s with captureCounter := attempt }
    match cfg.backend.capture g attempt with
    | .error e => (s, .error e)
    | .ok exec =>
      match cfg.backend.validate g exec with
      | .error e => (s, .error ⟨.validationFailed, e.message⟩)
      | .ok () =>
        ((s.set a { s.heap a with exec := some exec, residency := .hostResident }).touchMetric
          fun m => { m with recaptures := m.recaptures + 1, instantiations := m.instantiations + 1 },
          .ok ())

def makeLease (s : State Exec) (a : ℕ) (needsRebind : Bool) : State Exec × Lease Exec :=
  let e := s.heap a
  ({ s.set a { e with leaseCount := e.leaseCount + 1 } with
      activeLeases := s.activeLeases + 1
      nextLease := s.nextLease + 1 },
    ⟨s.nextLease, a, e.artifactId, e.generation, e.exec, needsRebind⟩)

/-- The outcome of a hit. -/
def hitOutcome (klass : GraphCompatibilityClass) (residency : ResidencyTier) : LookupOutcome :=
  match klass with
  | .exactCompatible =>
    if residency = .backendResident then .exactBackendResidentHit else .exactHostHit
  | .compatibleWithRebinding => .compatibleHitRebinding
  | .compatibleWithDynamicShapeConstraint => .compatibleDynamicShapeHit
  | _ => .exactHostHit

def searchCandidates (s : State Exec) (facts : CompatibilityFacts)
    (policy : GraphCompatibilityPolicy) : State Exec × GraphLookupResult Exec :=
  let sc := scan s.toRegistry facts policy
  match sc.chosen with
  | none =>
    match sc.bestIncompat with
    | some dec => (s, { outcome := .missIncompatible, decision := dec })
    | none => (s, { outcome := sc.outcome })
  | some (a, dec) =>
    match materializeExec cfg s a with
    | (s, .error e) => (s, {
        decision := dec
        outcome := .missCaptureRequired
        reasonText := str "cannot materialize graph executable: " ++ e.message })
    | (s, .ok ()) =>
      if (s.heap a).invalidated ∨ (s.heap a).lifecycle.isReplayEligible = false then
        (s, { decision := dec, outcome := .missInvalidated })
      else
        let (s', lease) := makeLease s a dec.needsRebinding
        (s', {
          decision := dec
          artifactId := (s.heap a).artifactId
          generation := (s.heap a).generation
          lease := some lease
          outcome := hitOutcome dec.klass (s.heap a).residency
          reasons := dec.reasons })

/-- `finish_hit` : the counters of a hit. -/
def finishHit (s : State Exec) (req : GraphLookupRequest) (outcome : LookupOutcome) : State Exec :=
  s.touchMetric fun m =>
    let m := m.bumpScopes req.workload.logicalName req.device.scope req.workload.namespaceName
      fun p => { p with hits := p.hits + 1 }
    match outcome with
    | .exactBackendResidentHit =>
      { m with exactHits := m.exactHits + 1, backendResidentHits := m.backendResidentHits + 1 }
    | .exactHostHit => { m with exactHits := m.exactHits + 1, hostHits := m.hostHits + 1 }
    | .compatibleHitRebinding | .compatibleDynamicShapeHit =>
      { m with compatibleHits := m.compatibleHits + 1 }
    | _ => m

def missReason : LookupOutcome → Str
  | .missCaptureRequired => str "no replay-eligible candidate; capture required"
  | .missIncompatible => str "candidate exists but is incompatible"
  | .missStaleDependency => str "candidate dependency generation is stale"
  | .missInvalidated => str "candidate was invalidated"
  | _ => str "miss"

/-- The entry that `capture_graph` builds from a finalized descriptor and its executable, under
the generations it draws. -/
def capturedEntry (generation : GraphGeneration) (cacheGeneration : CacheGeneration)
    (req : GraphLookupRequest) (g : GraphDescriptor) (exec : Exec) (costUs : UInt64) :
    CacheEntry Exec :=
  let facts := makeFacts req
  let key := GraphCompatibilityKey.build facts
  { artifactId := g.artifactId
    descriptor := g
    facts
    workload := req.workload
    key
    graphId := deriveGraphId g req.workload key
    generation
    cacheGeneration
    lifecycle := .valid
    residency := .hostResident
    exec := some exec
    captureCostUs := costUs
    artifactSize := UInt64.ofNat g.semanticCanonical.length + 256
    dependencyGeneration := g.dependencies.foldl
      (fun dg d => if d.generation > dg then d.generation else dg) 0 }

/-- What `capture_graph` publishes, or why it does not. With one operation at a time the cache
generation cannot roll during a capture. -/
def captureEntry (generation : GraphGeneration) (cacheGeneration : CacheGeneration)
    (req : GraphLookupRequest) (attempt : CaptureAttemptId) (costUs : UInt64) :
    Result (CacheEntry Exec) :=
  match req.descriptor.finalize cfg.nodeOrder with
  | .error _ => fail .invalidArgument "descriptor finalize failed"
  | .ok g => do
    validateTopology cfg.nodeOrder g.nodes g.edges
    let exec ← cfg.backend.capture g attempt
    match cfg.backend.validate g exec with
    | .error e => .error ⟨.validationFailed, e.message⟩
    | .ok () => .ok (capturedEntry generation cacheGeneration req g exec costUs)

/-- The failure counter that `capture_graph` moves. -/
def captureFailureMetric (s : State Exec) (req : GraphLookupRequest) (attempt : CaptureAttemptId) :
    State Exec :=
  match req.descriptor.finalize cfg.nodeOrder with
  | .error _ => s
  | .ok g =>
    match validateTopology cfg.nodeOrder g.nodes g.edges with
    | .error _ => s
    | .ok () =>
      match cfg.backend.capture g attempt with
      | .error _ => s.touchMetric fun m => { m with captureFailures := m.captureFailures + 1 }
      | .ok _ => s.touchMetric fun m => { m with validationFailures := m.validationFailures + 1 }

def captureGraph (s : State Exec) (req : GraphLookupRequest) (attempt : CaptureAttemptId)
    (env : LookupEnv) : State Exec × Result GraphArtifactId :=
  match captureEntry cfg s.graphGenerationCounter s.cacheGeneration req attempt
    env.captureCostUs with
  | .error e => (captureFailureMetric cfg s req attempt, .error e)
  | .ok e =>
    let a := s.next
    let s := { s.register e with graphGenerationCounter := s.graphGenerationCounter + 1 }
    let s := (persistEntry s a env.putOk).1
    (s.touchMetric fun m => { m.bumpScopes e.workload.logicalName e.descriptor.device.scope
        e.workload.namespaceName (fun p => { p with captures := p.captures + 1 }) with
        captures := m.captures + 1 },
      .ok e.artifactId)

def lookup (s : State Exec) (req : GraphLookupRequest) (env : LookupEnv) :
    State Exec × GraphLookupResult Exec :=
  let facts := makeFacts req
  let s := s.touchMetric fun m => { m.bumpScopes facts.workload.logicalName facts.device.scope
    facts.workload.namespaceName (fun p => { p with lookups := p.lookups + 1 }) with
    lookups := m.lookups + 1 }
  let (s, cand) := searchCandidates cfg s facts req.policy
  if cand.hit then (finishHit s req cand.outcome, cand)
  else
    let s := s.touchMetric fun m => m.bumpScopes facts.workload.logicalName facts.device.scope
      facts.workload.namespaceName fun p => { p with misses := p.misses + 1 }
    let res := { cand with reasonText := missReason cand.outcome }
    if req.allowCapture ∧ cfg.allowCapture ∧ res.outcome = .missCaptureRequired then
      let attempt := s.captureCounter + 1
      let s := { s with captureCounter := attempt }
      match captureGraph cfg s req attempt env with
      | (s, .error e) =>
        (s.touchMetric fun m => { m with captureFailures := m.captureFailures + 1 },
          { res with
            captureStarted := true
            outcome := .missCaptureRequired
            reasonText := str "capture failed: " ++ e.message })
      | (s, .ok _) =>
        let (s, again) := searchCandidates cfg s facts req.policy
        if again.hit then
          (finishHit s req again.outcome, { again with
            captureStarted := true
            reasonText := str "captured and replayed-compatible; hit" })
        else
          (s, { res with
            captureStarted := true
            outcome := .missIncompatible
            reasonText := str "capture completed but no compatible candidate is replay-eligible" })
    else (s, res)

/-! ## Leases and replay -/

/-- `GraphLease::release`. -/
def release (s : State Exec) (l : Lease Exec) : State Exec :=
  if l.token ∈ s.released then s
  else
    let e := s.heap l.entry
    { s.set l.entry
        { e with leaseCount := if e.leaseCount > 0 then e.leaseCount - 1 else e.leaseCount } with
      released := l.token :: s.released
      activeLeases := if s.activeLeases > 0 then s.activeLeases - 1 else s.activeLeases }

/-- `GraphCache::replay`, over the memory of the caller. -/
def replay (s : State Exec) (l : Lease Exec) (expected : GraphGeneration) (b : ReplayBuffers)
    (rd : ReplayDescriptor) (mem : Memory) :
    State Exec × Option (Memory × Result GraphReplayResult) :=
  if l.token ∈ s.released then (s, some (mem, fail .leaseNotHeld "replay called with no valid lease"))
  else if expected ≠ 0 ∧ l.generation ≠ expected then
    (s, some (mem, fail .generationMismatch "lease generation != expected generation"))
  else
    match l.executable with
    | none => (s, some (mem, fail .notResident "lease executable not backend-resident"))
    | some exec =>
      let e := s.heap l.entry
      match cfg.backend.replay e.descriptor exec b rd mem with
      | none => (s, none)
      | some (mem, .error err) =>
        (s.touchMetric fun m => { m with replayFailures := m.replayFailures + 1 },
          some (mem, .error err))
      | some (mem, .ok r) =>
        (s.touchMetric fun m => { m.bumpScopes e.workload.logicalName e.descriptor.device.scope
          e.workload.namespaceName (fun p => { p with replays := p.replays + 1 }) with
          replays := m.replays + 1 }, some (mem, .ok r))

/-! ## Invalidation and residency -/

/-- The field test of a scope. -/
def InvalidationRequest.covers (req : InvalidationRequest) (e : CacheEntry Exec) : Bool :=
  match req.scope with
  | .byAll => true
  | .byArtifactId => e.artifactId = req.artifactId
  | .byGraphId => e.graphId = req.graphId
  | .byNamespace => e.workload.namespaceName = req.namespaceName
  | .byWorkload => e.workload.logicalName = req.workload.logicalName ∧
      (req.namespaceName = [] ∨ e.workload.namespaceName = req.namespaceName)
  | .byCompatibilityKey | .byTopology => e.workload.logicalName = req.workload.logicalName
  | .byModelRevision => e.workload.modelOperatorRevision ≠ [] ∧
      e.workload.modelOperatorRevision = req.modelRevision
  | .byBackend => e.descriptor.backend.kind = req.backend.kind ∧
      (req.backend.backendName = [] ∨ e.descriptor.backend.backendName = req.backend.backendName)
  | .byDependencyGeneration => req.dependencyGeneration ≠ 0 ∧
      e.dependencyGeneration ≠ req.dependencyGeneration

/-- The entries that `invalidate` collects : one found by its artifact id, or all that pass the
test of the scope. -/
def invalidationTargets (r : Registry Exec) (req : InvalidationRequest) : List ℕ :=
  if req.scope = .byArtifactId then (r.artifact req.artifactId).toList
  else r.artifacts.filter fun a => req.covers (r.heap a)

/-- The unload of `evict`, `unload` and a strong `invalidate` : only backend-resident executables
go. -/
def dropResidency (e : CacheEntry Exec) : CacheEntry Exec :=
  if e.residency = .backendResident then
    match cfg.backend.unload e.descriptor e.exec with
    | (.ok (), exec) => { e with exec, residency := .persistentStorage }
    | (.error _, exec) => { e with exec }
  else e

/-- An entry as `invalidate` leaves it. -/
def markInvalidated (strong : Bool) (e : CacheEntry Exec) : CacheEntry Exec :=
  let e := { e with invalidated := true, lifecycle := .invalidated }
  if strong ∧ e.leaseCount = 0 then dropResidency cfg e else e

/-- One target of the marking loop. -/
def invalidateEntry (strong : Bool) (acc : State Exec × InvalidationResult) (a : ℕ) :
    State Exec × InvalidationResult :=
  let (s, res) := acc
  if (s.heap a).invalidated then (s, res)
  else
    let e := markInvalidated cfg strong (s.heap a)
    ({ s.set a e with
        graphGenerationCounter := s.graphGenerationCounter + 1
        metrics := s.metrics.bumpScopes e.workload.logicalName e.descriptor.device.scope
          e.workload.namespaceName fun p => { p with invalidations := p.invalidations + 1 } },
      { res with
        stillLeasing := if e.leaseCount > 0 then res.stillLeasing + 1 else res.stillLeasing
        invalidated := res.invalidated + 1 })

def invalidate (s : State Exec) (req : InvalidationRequest) : State Exec × InvalidationResult :=
  let newGen := s.cacheGeneration + 1
  let targets := invalidationTargets s.toRegistry req
  let (s, res) := targets.foldl (invalidateEntry cfg req.strong)
    ({ s with cacheGeneration := newGen }, {})
  (s.touchMetric fun m =>
      { m with invalidations := m.invalidations + UInt64.ofNat res.invalidated },
    { res with newCacheGeneration := newGen })

def pin (s : State Exec) (id : GraphArtifactId) : State Exec × Result Unit :=
  match s.artifact id with
  | none => (s, fail .noSuchArtifact "no such artifact")
  | some a => (s.set a { s.heap a with pinCount := (s.heap a).pinCount + 1 }, .ok ())

def unpin (s : State Exec) (id : GraphArtifactId) : State Exec × Result Unit :=
  match s.artifact id with
  | none => (s, fail .noSuchArtifact "no such artifact")
  | some a =>
    if (s.heap a).pinCount = 0 then (s, fail .leaseUnderflow "unpin underflow")
    else (s.set a { s.heap a with pinCount := (s.heap a).pinCount - 1 }, .ok ())

def evict (s : State Exec) (id : GraphArtifactId) : State Exec × Result Unit :=
  match s.artifact id with
  | none => (s, fail .noSuchArtifact "no such artifact")
  | some a =>
    if (s.heap a).pinCount > 0 ∨ (s.heap a).leaseCount > 0 then
      (s, fail .evictionImpossible "graph is pinned or leased")
    else
      ((s.set a (dropResidency cfg (s.heap a))).touchMetric fun m =>
        { m with evictions := m.evictions + 1 }, .ok ())

def unload (s : State Exec) (id : GraphArtifactId) : State Exec × Result Unit :=
  match s.artifact id with
  | none => (s, fail .noSuchArtifact "no such artifact")
  | some a =>
    if (s.heap a).leaseCount > 0 then (s, fail .notResident "cannot unload while leased")
    else (s.set a (dropResidency cfg (s.heap a)), .ok ())

end

/-! ## Persistence -/

/-- The loop of `persist_all`, which stops at the first write that fails. -/
def persistLoop (putOk : GraphArtifactId → Bool) :
    List ℕ → State Exec → State Exec × Result Unit
  | [], s => (s, .ok ())
  | a :: rest, s =>
    match persistEntry s a (putOk (s.heap a).artifactId) with
    | (s, .ok ()) => persistLoop putOk rest s
    | (s, .error e) => (s, .error e)

def persistAll (s : State Exec) (order : IterationOrder ℕ) (putOk : GraphArtifactId → Bool) :
    State Exec × Result Unit :=
  match s.store with
  | none => (s, fail .operationNotSupported "persistence disabled")
  | some _ => persistLoop putOk (order.arrange s.artifacts) s

/-- `load_entry`. -/
def loadEntry (store : Store) (id : GraphArtifactId) : Option (CacheEntry Exec) :=
  (store.get id).bind decodeEntryPayload

/-- One id of the listing. A payload that is rejected is counted in `load_entry` and again here. -/
def recoverEntry (store : Store) (s : State Exec) (id : GraphArtifactId) : State Exec :=
  match loadEntry store id with
  | none => s.touchMetric fun m => { m with corruptionCount :=
      m.corruptionCount + if (store.get id).isSome then 2 else 1 }
  | some e => s.register e

def recover (s : State Exec) (listing : IterationOrder GraphArtifactId) :
    State Exec × Result Unit :=
  match s.store with
  | none => (s, fail .operationNotSupported "persistence disabled")
  | some store =>
    let s := (listing.arrange store.keys).foldl (recoverEntry store) s
    let maxGraphGen := s.artifacts.foldl
      (fun m a => if (s.heap a).generation > m then (s.heap a).generation else m) 0
    let maxCacheGen := s.artifacts.foldl
      (fun m a => if (s.heap a).cacheGeneration > m then (s.heap a).cacheGeneration else m) 0
    ({ s with
        graphGenerationCounter := if maxGraphGen + 1 > s.graphGenerationCounter
          then maxGraphGen + 1 else s.graphGenerationCounter
        cacheGeneration := if maxCacheGen + 1 > s.cacheGeneration
          then maxCacheGen + 1 else s.cacheGeneration }, .ok ())

/-! ## Runs -/

/-- A call of the interface, with what it does not control. -/
inductive Op (Exec : Type)
  | lookup (req : GraphLookupRequest) (env : LookupEnv)
  | release (lease : Lease Exec)
  | replay (lease : Lease Exec) (expected : GraphGeneration) (buffers : ReplayBuffers)
      (descriptor : ReplayDescriptor) (mem : Memory)
  | invalidate (req : InvalidationRequest)
  | pin (id : GraphArtifactId)
  | unpin (id : GraphArtifactId)
  | evict (id : GraphArtifactId)
  | unload (id : GraphArtifactId)
  | persistAll (order : IterationOrder ℕ) (putOk : GraphArtifactId → Bool)
  | recover (listing : IterationOrder GraphArtifactId)

def step (cfg : Config Exec) (s : State Exec) : Op Exec → State Exec
  | .lookup req env => (lookup cfg s req env).1
  | .release l => release s l
  | .replay l expected b rd mem => (replay cfg s l expected b rd mem).1
  | .invalidate req => (invalidate cfg s req).1
  | .pin id => (pin s id).1
  | .unpin id => (unpin s id).1
  | .evict id => (evict cfg s id).1
  | .unload id => (unload cfg s id).1
  | .persistAll order putOk => (persistAll s order putOk).1
  | .recover listing => (recover s listing).1

def run (cfg : Config Exec) (s : State Exec) (ops : List (Op Exec)) : State Exec :=
  ops.foldl (step cfg) s

/-- A cache just constructed over a directory, or without persistence. -/
def State.fresh (store : Option Store) : State Exec := { store }

end

end GraphCache
