import GraphCache.Compatibility

/-!
# Facts of a request and of an entry

The helpers at the head of `cache.cpp`. A captured entry takes its facts from the request
(`makeFacts`) : backend, runtime and device as the request states them, and the nodes in the order
listed there. A recovered entry derives them from the stored descriptor
(`factsFromDescriptorAndWorkload`). Both collect the nodes in the same way.
-/

namespace GraphCache

structure GraphLookupRequest where
  workload : WorkloadIdentity := {}
  backend : BackendIdentity := {}
  runtime : RuntimeDescriptor := {}
  device : DeviceDescriptor := {}
  descriptor : GraphDescriptor := {}
  policy : GraphCompatibilityPolicy := {}
  allowCapture : Bool := true
  deriving DecidableEq, Repr

/-- A request for the empty graph. -/
def blankRequest (workload : String) (allowCapture : Bool) : GraphLookupRequest where
  workload := { logicalName := str workload }
  allowCapture

/-- The facts so far, with `align` in `requiredAlignment`, and the flag `have_align`. -/
structure FactsAcc where
  facts : CompatibilityFacts
  haveAlign : Bool := false
  deriving DecidableEq, Repr

/-- One node of the loop. -/
def FactsAcc.addNode (a : FactsAcc) (n : GraphNodeDescriptor) : FactsAcc :=
  let a := if n.datatype ≠ .none then
      { facts := { a.facts with
          datatypes := a.facts.datatypes ++ [n.datatype]
          layouts := a.facts.layouts ++ [n.layout]
          inputShapes := a.facts.inputShapes ++ [n.shape]
          scalar := if n.scalar.specialized then n.scalar else a.facts.scalar
          requiredAlignment :=
            if !a.haveAlign || n.requiredAlignment > a.facts.requiredAlignment
            then n.requiredAlignment else a.facts.requiredAlignment
          memoryBindingSchema := n.binding.memoryBindingSchema
          binding := n.binding }
        haveAlign := true }
    else a
  if n.quantization.mode ≠ .none then
    { a with facts := { a.facts with quantization := n.quantization } }
  else a

/-- The facts of a descriptor under a workload, backend, runtime and device. -/
def collectFacts (workload : WorkloadIdentity) (backend : BackendIdentity)
    (runtime : RuntimeDescriptor) (device : DeviceDescriptor) (g : GraphDescriptor) :
    CompatibilityFacts :=
  (g.nodes.foldl FactsAcc.addNode ⟨{
    workload, backend, runtime, device
    captureMode := g.sync.captureMode
    streamSemantics := g.sync.streamSemantics
    topologyCanonical := canonicalTopology g.nodes g.edges
    requiredAlignment := 128
    dependencies := g.dependencies
    modelOperatorRevision := workload.modelOperatorRevision
    policyGeneration := workload.policyGeneration }, false⟩).facts

def makeFacts (req : GraphLookupRequest) : CompatibilityFacts :=
  collectFacts req.workload req.backend req.runtime req.device req.descriptor

def factsFromDescriptorAndWorkload (g : GraphDescriptor) (wl : WorkloadIdentity) :
    CompatibilityFacts :=
  collectFacts wl g.backend g.runtime g.device g

def workloadKey (wl : WorkloadIdentity) : Str :=
  wl.logicalName ++ str "|" ++ wl.namespaceName

def deriveGraphId (g : GraphDescriptor) (wl : WorkloadIdentity) (key : GraphCompatibilityKey) :
    GraphId :=
  .ofDigest ((((((Sha256.reset.update wl.logicalName).update (str "|")).update
    g.artifactId.toStr).update (str "|")).update key.digestHex).final)

/-- Every correctness-contributing dependency of the request agrees with the captured ones of the
same name. -/
def isDependencyFresh (captured : List KernelIdentityRef) (request : CompatibilityFacts) : Bool :=
  request.dependencies.all fun dep => !dep.contributesToCorrectness ||
    captured.all fun cd => !(cd.name == dep.name && cd.contributesToCorrectness) ||
      (cd.generation == dep.generation && cd.contentDigest == dep.contentDigest &&
        cd.abi == dep.abi)

/-- The fields that a node of the loop does not touch. -/
structure CompatibilityFacts.SameHeader (f f' : CompatibilityFacts) : Prop where
  workload : f'.workload = f.workload
  backend : f'.backend = f.backend
  runtime : f'.runtime = f.runtime
  device : f'.device = f.device
  captureMode : f'.captureMode = f.captureMode
  streamSemantics : f'.streamSemantics = f.streamSemantics
  topologyCanonical : f'.topologyCanonical = f.topologyCanonical
  dependencies : f'.dependencies = f.dependencies
  modelOperatorRevision : f'.modelOperatorRevision = f.modelOperatorRevision
  policyGeneration : f'.policyGeneration = f.policyGeneration

theorem FactsAcc.sameHeader_addNode (a : FactsAcc) (n : GraphNodeDescriptor) :
    a.facts.SameHeader (a.addNode n).facts := by
  unfold FactsAcc.addNode
  dsimp only
  split_ifs <;> exact ⟨rfl, rfl, rfl, rfl, rfl, rfl, rfl, rfl, rfl, rfl⟩

theorem FactsAcc.sameHeader_foldl : ∀ (ns : List GraphNodeDescriptor) (a : FactsAcc),
    a.facts.SameHeader (ns.foldl FactsAcc.addNode a).facts
  | [], _ => ⟨rfl, rfl, rfl, rfl, rfl, rfl, rfl, rfl, rfl, rfl⟩
  | n :: ns, a => by
    have h := a.sameHeader_addNode n
    have h' := FactsAcc.sameHeader_foldl ns (a.addNode n)
    exact ⟨h'.1.trans h.1, h'.2.trans h.2, h'.3.trans h.3, h'.4.trans h.4, h'.5.trans h.5,
      h'.6.trans h.6, h'.7.trans h.7, h'.8.trans h.8, h'.9.trans h.9, h'.10.trans h.10⟩

section

variable (wl : WorkloadIdentity) (b : BackendIdentity) (rt : RuntimeDescriptor)
  (dv : DeviceDescriptor) (g : GraphDescriptor)

@[simp] theorem collectFacts_topologyCanonical :
    (collectFacts wl b rt dv g).topologyCanonical = canonicalTopology g.nodes g.edges :=
  (FactsAcc.sameHeader_foldl g.nodes _).topologyCanonical

@[simp] theorem collectFacts_workload : (collectFacts wl b rt dv g).workload = wl :=
  (FactsAcc.sameHeader_foldl g.nodes _).workload

@[simp] theorem collectFacts_backend : (collectFacts wl b rt dv g).backend = b :=
  (FactsAcc.sameHeader_foldl g.nodes _).backend

@[simp] theorem collectFacts_device : (collectFacts wl b rt dv g).device = dv :=
  (FactsAcc.sameHeader_foldl g.nodes _).device

@[simp] theorem collectFacts_captureMode :
    (collectFacts wl b rt dv g).captureMode = g.sync.captureMode :=
  (FactsAcc.sameHeader_foldl g.nodes _).captureMode

@[simp] theorem collectFacts_streamSemantics :
    (collectFacts wl b rt dv g).streamSemantics = g.sync.streamSemantics :=
  (FactsAcc.sameHeader_foldl g.nodes _).streamSemantics

@[simp] theorem collectFacts_dependencies :
    (collectFacts wl b rt dv g).dependencies = g.dependencies :=
  (FactsAcc.sameHeader_foldl g.nodes _).dependencies

@[simp] theorem collectFacts_modelOperatorRevision :
    (collectFacts wl b rt dv g).modelOperatorRevision = wl.modelOperatorRevision :=
  (FactsAcc.sameHeader_foldl g.nodes _).modelOperatorRevision

@[simp] theorem collectFacts_policyGeneration :
    (collectFacts wl b rt dv g).policyGeneration = wl.policyGeneration :=
  (FactsAcc.sameHeader_foldl g.nodes _).policyGeneration

@[simp] theorem makeFacts_workload (req : GraphLookupRequest) :
    (makeFacts req).workload = req.workload := by
  simp [makeFacts]

end

end GraphCache
