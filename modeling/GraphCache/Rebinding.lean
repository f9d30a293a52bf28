import GraphCache.Candidates
import GraphCache.ExactKeys
import GraphCache.FixedBindings
import GraphCache.Recovery

/-!
# Rebinding and dynamic shapes through a lookup

`decide_compatibility` accepts a binding that differs where it may be replaced at replay, and
dimensions that differ within a dynamic constraint. But `encode_node` writes bindings and dimensions
into the topology, which the default policy compares as a whole. Nodes that differ in either have
another topology, and a graph of the same topology has the nodes of the request, at most in another
order of listing : this changes what the facts take from the last typed node, and the order of the
shapes.

`soft_hit_iff` : a request that differs from the one of a captured graph in what may be rebound, or
in dynamic dimensions, is never served by that graph on these terms. It is served so exactly when
another entry of its bucket was taken from such a listing of the request's own nodes, where the
last binding, or the shapes, differ and may.
-/

namespace GraphCache

/-! ## What the topology tells -/

section

variable {ns ns' : List GraphNodeDescriptor}

/-- A filter and a readout that do not see what is reset give the same on nodes that agree in the
rest. -/
theorem readout_congr {β : Type} {p : GraphNodeDescriptor → Bool} {f : GraphNodeDescriptor → β}
    (hp : ∀ n, p n.normalize = p n) (hf : ∀ n, p n = true → f n.normalize = f n)
    (h : ns.map (·.normalize) = ns'.map (·.normalize)) :
    (ns.filter p).map f = (ns'.filter p).map f := by
  have hreset : ∀ ms : List GraphNodeDescriptor,
      (ms.filter p).map f = ((ms.map (·.normalize)).filter p).map f := by
    intro ms
    have hcomp : (p ∘ fun n => n.normalize) = p := funext hp
    rw [List.filter_map, List.map_map, hcomp]
    exact List.map_congr_left fun n hn => (hf n (List.mem_filter.mp hn).2).symm
  rw [hreset ns, h, ← hreset ns']

theorem typed_congr {β : Type} {f : GraphNodeDescriptor → β}
    (hf : ∀ n, n.datatype ≠ .none → f n.normalize = f n)
    (h : ns.map (·.normalize) = ns'.map (·.normalize)) :
    (typedNodes ns).map f = (typedNodes ns').map f :=
  readout_congr (fun _ => rfl) (fun n hn => hf n (of_decide_eq_true hn)) h

theorem shapes_congr (h : ns.map (·.normalize) = ns'.map (·.normalize)) :
    (typedNodes ns).map (·.shape) = (typedNodes ns').map (·.shape) :=
  typed_congr (fun n hn => by simp [GraphNodeDescriptor.normalize, hn]) h

theorem lastBinding_congr (h : ns.map (·.normalize) = ns'.map (·.normalize)) :
    lastBinding ns = lastBinding ns' := by
  rw [lastBinding, lastBinding, ← List.getLast?_map, typed_congr (fun _ _ => rfl) h,
    List.getLast?_map]

theorem greatestAlignment_congr (h : ns.map (·.normalize) = ns'.map (·.normalize)) :
    greatestAlignment ns = greatestAlignment ns' := by
  rw [greatestAlignment, greatestAlignment, typed_congr (fun _ _ => rfl) h]

theorem sameShown_of_normalize (h : ns.map (·.normalize) = ns'.map (·.normalize)) :
    SameShown ns ns' := by
  have hbinding := lastBinding_congr h
  exact ⟨greatestAlignment_congr h, by rw [hbinding], by rw [hbinding], by rw [hbinding]⟩

/-- What is collected from nodes does not depend on what the topology leaves out of them. -/
theorem collectFacts_congr (wl : WorkloadIdentity) (b : BackendIdentity) (rt : RuntimeDescriptor)
    (dv : DeviceDescriptor) {g : GraphDescriptor}
    (h : ns.map (·.normalize) = g.nodes.map (·.normalize))
    (htop : canonicalTopology ns g.edges = canonicalTopology g.nodes g.edges) :
    collectFacts wl b rt dv { g with nodes := ns } = collectFacts wl b rt dv g := by
  have hspecialized : (specializedNodes ns).map (·.scalar) =
      (specializedNodes g.nodes).map (·.scalar) := by
    simp only [specializedNodes, typedNodes, List.filter_filter]
    refine readout_congr (fun n => ?_) (fun n hn => ?_) h
    · cases hs : n.scalar.specialized <;> simp [GraphNodeDescriptor.normalize, hs]
    · simp [GraphNodeDescriptor.normalize, ((Bool.and_eq_true _ _).mp hn).1]
  have hquantized : (quantizedNodes ns).map (·.quantization) =
      (quantizedNodes g.nodes).map (·.quantization) := by
    refine readout_congr (fun n => ?_) (fun n hn => ?_) h
    · by_cases hq : n.quantization.mode = .none <;> simp [GraphNodeDescriptor.normalize, hq]
    · simp [GraphNodeDescriptor.normalize, of_decide_eq_true hn]
  have hscalar : lastScalar ns = lastScalar g.nodes := by
    rw [lastScalar_eq, lastScalar_eq, ← List.getLast?_map, hspecialized, List.getLast?_map]
  have hquant : lastQuantization ns = lastQuantization g.nodes := by
    rw [lastQuantization_eq, lastQuantization_eq, ← List.getLast?_map, hquantized,
      List.getLast?_map]
  have hlayout : (typedNodes ns).map (·.layout) = (typedNodes g.nodes).map (·.layout) :=
    typed_congr (fun n hn => by simp [GraphNodeDescriptor.normalize, hn]) h
  have hdatatype : (typedNodes ns).map (·.datatype) = (typedNodes g.nodes).map (·.datatype) :=
    typed_congr (fun _ _ => rfl) h
  rw [collectFacts_eq, collectFacts_eq]
  simp only [htop, shapes_congr h, hlayout, hdatatype, hscalar, hquant, lastBinding_congr h,
    greatestAlignment_congr h]

/-- Nodes with the same ids, in the same order, and the same topology agree in all that is written
of them. -/
theorem normalize_of_topology {es : List GraphEdgeDescriptor}
    (hids : ns'.map (·.nodeId) = ns.map (·.nodeId)) (hnodup : (ns.map (·.nodeId)).Nodup)
    (henc : Encodable ns es) (henc' : Encodable ns' es)
    (htop : canonicalTopology ns' es = canonicalTopology ns es) :
    ns'.map (·.normalize) = ns.map (·.normalize) := by
  obtain ⟨hperm, -⟩ := perm_of_topology henc' henc htop
  have hlength : ns'.length = ns.length := by simpa using congrArg List.length hids
  refine List.ext_getElem (by simp [hlength]) fun i hi hi' => ?_
  simp only [List.length_map] at hi hi'
  rw [List.getElem_map, List.getElem_map]
  obtain ⟨m, hm, hnormalize⟩ :=
    List.mem_map.mp (hperm.subset (List.mem_map_of_mem (List.getElem_mem hi)))
  have hid : m.nodeId = ns[i].nodeId := by
    have hsame : m.normalize.nodeId = ns'[i].normalize.nodeId := by rw [hnormalize]
    have hget := congrArg (·[i]?) hids
    simp only [List.getElem?_map, List.getElem?_eq_getElem hi, List.getElem?_eq_getElem hi',
      Option.map_some, Option.some.injEq] at hget
    exact hsame.trans hget
  rw [← List.inj_on_of_nodup_map hnodup hm (List.getElem_mem hi') hid]
  exact hnormalize.symm

end

/-! ## What the default policy takes for a request -/

/-- The facts that do not come from nodes and edges. -/
def CompatibilityFacts.header (f : CompatibilityFacts) : CompatibilityFacts :=
  { f with
    topologyCanonical := []
    inputShapes := []
    outputShapes := []
    datatypes := []
    layouts := []
    scalar := {}
    quantization := {}
    binding := {}
    requiredAlignment := 0
    memoryBindingSchema := [] }

/-- Both lists show the same shapes. -/
def SameShapes (ns ns' : List GraphNodeDescriptor) : Prop :=
  (typedNodes ns).map (·.shape) = (typedNodes ns').map (·.shape)

/-- `g` as it is listed will do for `d` under the default policy : the topology bytes are the same,
and so is what is collected from the nodes, but for a last binding that may be replaced and shapes
within a dynamic constraint. -/
structure GraphDescriptor.Suits (g d : GraphDescriptor) : Prop where
  topology : canonicalTopology d.nodes d.edges = canonicalTopology g.nodes g.edges
  datatypes : (typedNodes d.nodes).map (·.datatype) = (typedNodes g.nodes).map (·.datatype)
  layouts : (typedNodes d.nodes).map (·.layout) = (typedNodes g.nodes).map (·.layout)
  specialized : (lastScalar d.nodes).specialized = (lastScalar g.nodes).specialized
  scalar : (lastScalar d.nodes).specialized = true →
    (lastScalar d.nodes).intValue = (lastScalar g.nodes).intValue ∧
      (lastScalar d.nodes).floatValue.eq (lastScalar g.nodes).floatValue = true
  quantization : lastQuantization d.nodes = lastQuantization g.nodes
  binding : SameShown d.nodes g.nodes ∨ (lastBinding g.nodes).Rebindable
  shapes : SameShapes d.nodes g.nodes ∨
    DynamicShapes ((typedNodes d.nodes).map (·.shape)) ((typedNodes g.nodes).map (·.shape))

/-- `g` lists the nodes and edges of `d`, as they are written, and the nodes in another order. -/
structure GraphDescriptor.Relists (g d : GraphDescriptor) : Prop where
  nodes : (g.nodes.map (·.normalize)).Perm (d.nodes.map (·.normalize))
  edges : g.edges.Perm d.edges
  order : g.nodes.map (·.normalize) ≠ d.nodes.map (·.normalize)

/-- No field of either topology reaches 4 GiB. -/
def Sized (d d' : GraphDescriptor) : Prop :=
  Encodable d.nodes d.edges ∧ Encodable d'.nodes d'.edges

section

variable {g d : GraphDescriptor}

/-- A graph that suits another, but not exactly, lists its nodes in another order. -/
theorem GraphDescriptor.Suits.relists (h : g.Suits d) (hsize : Sized g d)
    (hne : ¬(SameShown d.nodes g.nodes ∧ SameShapes d.nodes g.nodes)) : g.Relists d := by
  obtain ⟨hnodes, hedges⟩ := perm_of_topology hsize.1 hsize.2 h.topology.symm
  refine ⟨hnodes, hedges, fun heq => hne ?_⟩
  exact ⟨sameShown_of_normalize heq.symm, shapes_congr heq.symm⟩

/-- The default policy accepts a graph that suits the request under the same header. -/
theorem accepts_iff_suits (req : GraphLookupRequest) (wl : WorkloadIdentity) (b : BackendIdentity)
    (rt : RuntimeDescriptor) (dv : DeviceDescriptor) :
    Accepts (makeFacts req) (collectFacts wl b rt dv g) {} ↔
      Accepts (makeFacts req).header (collectFacts wl b rt dv g).header {} ∧
        g.Suits req.descriptor := by
  rw [makeFacts, collectFacts_eq, collectFacts_eq]
  constructor
  · intro h
    refine ⟨{ h with
      topologyCanonical := fun _ => rfl
      datatypes := rfl
      layouts := rfl
      specialized := rfl
      scalar := fun hs => absurd hs Bool.false_ne_true
      quantization := rfl
      binding := .inl ⟨rfl, rfl, rfl, rfl⟩
      shapes := .inl ⟨rfl, rfl⟩ }, ?_⟩
    exact ⟨h.topologyCanonical rfl, h.datatypes, h.layouts, h.specialized, h.scalar,
      h.quantization, h.binding.imp_right And.right, h.shapes.imp And.left And.right⟩
  · rintro ⟨h, hsuits⟩
    exact { h with
      topologyCanonical := fun _ => hsuits.topology
      datatypes := hsuits.datatypes
      layouts := hsuits.layouts
      specialized := hsuits.specialized
      scalar := hsuits.scalar
      quantization := hsuits.quantization
      binding := hsuits.binding.imp_right fun hr => ⟨rfl, hr⟩
      shapes := hsuits.shapes.imp (fun hs => ⟨hs, rfl⟩) fun hd => ⟨rfl, hd⟩ }

end

/-! ## Entries -/

section

variable {Exec : Type} {cfg : Config Exec}

/-- The facts of the entry were collected from `g`. -/
def CacheEntry.TakenFrom (e : CacheEntry Exec) (g : GraphDescriptor) : Prop :=
  ∃ wl b rt dv, e.facts = collectFacts wl b rt dv g

/-- The entry at `c`, whose facts were collected from `g`, may be looked up and will do for the
request. -/
structure Registry.Admits (r : Registry Exec) (req : GraphLookupRequest) (c : ℕ)
    (g : GraphDescriptor) : Prop where
  selectable : r.Selectable c
  taken : (r.heap c).TakenFrom g
  fresh : isDependencyFresh g.dependencies (makeFacts req) = true
  header : Accepts (makeFacts req).header (r.heap c).facts.header {}
  suits : g.Suits req.descriptor

/-- The entry at `b`, whose facts were collected from `g`, is the first of the bucket that will do
for the request; none there does so exactly; and its executable is there or can be captured. -/
structure Lends (cfg : Config Exec) (s : State Exec) (req : GraphLookupRequest) (b : ℕ)
    (g : GraphDescriptor) : Prop where
  admits : s.toRegistry.Admits req b g
  first : ∃ pre post, s.byWorkload (workloadKey req.workload) = pre ++ b :: post ∧
    ∀ c ∈ pre, ∀ g', ¬s.toRegistry.Admits req c g'
  inexact : ∀ c ∈ s.byWorkload (workloadKey req.workload), ∀ g', s.toRegistry.Admits req c g' →
    ¬(SameShown req.descriptor.nodes g'.nodes ∧ SameShapes req.descriptor.nodes g'.nodes)
  usable : s.Usable cfg b

variable {r : Registry Exec} {s : State Exec} {req : GraphLookupRequest} {c b : ℕ}
  {g : GraphDescriptor}

/-- The candidates under the default policy are the entries that admit the request. -/
theorem candidate_iff_admits (h : (r.heap c).TakenFrom g) :
    r.Candidate (makeFacts req) {} c ↔ r.Admits req c g := by
  obtain ⟨wl, bk, rt, dv, hfacts⟩ := id h
  have hdeps : (r.heap c).facts.dependencies = g.dependencies := by rw [hfacts, collectFacts_eq]
  have hcompatible : (r.decision (makeFacts req) {} c).compatible = true ↔
      Accepts (makeFacts req).header (r.heap c).facts.header {} ∧ g.Suits req.descriptor := by
    rw [Registry.decision, decideCompatibility_compatible, hfacts, accepts_iff_suits]
  constructor
  · rintro ⟨hsel, hfresh, hcomp⟩
    obtain ⟨hheader, hsuits⟩ := hcompatible.mp hcomp
    exact ⟨hsel, h, hdeps ▸ hfresh, hheader, hsuits⟩
  · rintro ⟨hsel, -, hfresh, hheader, hsuits⟩
    exact ⟨hsel, hdeps ▸ hfresh, hcompatible.mpr ⟨hheader, hsuits⟩⟩

/-- The class of an entry that admits the request. -/
theorem klass_of_admits (h : r.Admits req c g) :
    ((r.decision (makeFacts req) {} c).klass = .exactCompatible ↔
      SameShown req.descriptor.nodes g.nodes ∧ SameShapes req.descriptor.nodes g.nodes) ∧
    ((r.decision (makeFacts req) {} c).klass = .compatibleWithRebinding ↔
      ¬SameShown req.descriptor.nodes g.nodes) ∧
    ((r.decision (makeFacts req) {} c).klass = .compatibleWithDynamicShapeConstraint ↔
      SameShown req.descriptor.nodes g.nodes ∧ ¬SameShapes req.descriptor.nodes g.nodes) := by
  have hcomp := ((candidate_iff_admits h.taken).mpr h).compatible
  obtain ⟨wl, bk, rt, dv, hfacts⟩ := h.taken
  have hshapes : SameShapes req.descriptor.nodes g.nodes ↔
      (makeFacts req).inputShapes = (collectFacts wl bk rt dv g).inputShapes ∧
        (makeFacts req).outputShapes = (collectFacts wl bk rt dv g).outputShapes := by
    rw [makeFacts, collectFacts_eq, collectFacts_eq]
    exact (and_iff_left rfl).symm
  rw [Registry.decision, hfacts] at hcomp ⊢
  rw [decideCompatibility_klass hcomp, hshapes, ← sameBinding_iff_sameShown req wl bk rt dv g,
    acceptedClass]
  split_ifs <;> simp_all

/-- The facts of every entry were collected from a graph. -/
def Registry.Collected (r : Registry Exec) : Prop :=
  ∀ a < r.next, ∃ g, (r.heap a).TakenFrom g

theorem takenFrom_of_registers {s : State Exec} {op : Op Exec} {r : Registry Exec}
    {e : CacheEntry Exec} (h : Registers cfg s op r e) : ∃ g, e.TakenFrom g := by
  cases op with
  | lookup req env =>
    obtain ⟨-, -, -, -, hcap⟩ := h
    obtain ⟨g, x, -, -, rfl⟩ := captureEntry_ok hcap
    exact ⟨req.descriptor, _, _, _, _, rfl⟩
  | recover listing =>
    obtain ⟨store, pre, id, post, -, -, -, hload⟩ := h
    obtain ⟨g, md, rfl⟩ := loadEntry_some hload
    exact ⟨g, _, _, _, _, rfl⟩
  | _ => exact h.elim

variable (cfg) in
theorem collected_run (store : Option Store) (ops : List (Op Exec)) :
    (run cfg (.fresh store) ops).toRegistry.Collected := by
  refine run_invariant (I := Registry.Collected) ?_ ?_ ops _ ?_
  · intro M r a e h he b hb
    obtain ⟨g, hg⟩ := h b hb
    refine ⟨g, ?_⟩
    rwa [CacheEntry.TakenFrom, (he.set_spec b).1.facts]
  · intro s op r e h hreg b hb
    rcases Nat.lt_succ_iff_lt_or_eq.mp hb with hb | rfl
    · rw [register_heap_of_lt r e hb]
      exact h b hb
    · rw [register_heap_self]
      exact takenFrom_of_registers hreg
  · intro a ha
    simp [State.fresh] at ha

/-- What serves a request on the terms of a class under the default policy, in terms of the graphs
that the entries were taken from. -/
theorem serves_iff_lends (hpolicy : req.policy = {})
    (hbucket : ∀ c ∈ s.byWorkload (workloadKey req.workload), ∃ g, (s.heap c).TakenFrom g)
    {k : GraphCompatibilityClass} : Serves cfg s req k b ↔
      (s.toRegistry.decision (makeFacts req) {} b).klass = k ∧ ∃ g, Lends cfg s req b g := by
  have hworkload : (makeFacts req).workload = req.workload := by rw [makeFacts, collectFacts_eq]
  constructor
  · rintro ⟨⟨hfind, hinexact⟩, hklass, husable⟩
    rw [hpolicy] at hfind hinexact hklass
    rw [hworkload] at hfind hinexact
    obtain ⟨hcand, pre, post, hsplit, hpre⟩ := List.find?_eq_some_iff_append.mp hfind
    have hmem : b ∈ s.byWorkload (workloadKey req.workload) := by simp [hsplit]
    obtain ⟨g, hg⟩ := hbucket b hmem
    refine ⟨hklass, g, (candidate_iff_admits hg).mp (of_decide_eq_true hcand),
      ⟨pre, post, hsplit, fun c hc g' hadmits => ?_⟩, fun c hc g' hadmits hexact => ?_, husable⟩
    · exact absurd ((candidate_iff_admits hadmits.taken).mpr hadmits) (by simpa using hpre c hc)
    · refine hinexact c hc ((candidate_iff_admits hadmits.taken).mpr hadmits) ?_
      exact (klass_of_admits hadmits).1.mpr hexact
  · rintro ⟨hklass, g, hadmits, ⟨pre, post, hsplit, hpre⟩, hinexact, husable⟩
    refine ⟨⟨?_, fun c hc hcand hexact => ?_⟩, by rwa [hpolicy], husable⟩
    · rw [hworkload, hpolicy]
      refine List.find?_eq_some_iff_append.mpr
        ⟨decide_eq_true ((candidate_iff_admits hadmits.taken).mpr hadmits), pre, post, hsplit,
          fun c hc => ?_⟩
      obtain ⟨g', hg'⟩ := hbucket c (by simp [hsplit, hc])
      simpa using fun hcand => hpre c hc g' ((candidate_iff_admits hg').mp hcand)
    · rw [hworkload] at hc
      rw [hpolicy] at hcand hexact
      obtain ⟨g', hg'⟩ := hbucket c hc
      have hadmits' := (candidate_iff_admits hg').mp hcand
      exact hinexact c hc g' hadmits' ((klass_of_admits hadmits').1.mp hexact)

end

/-! ## Requests that vary -/

/-- The node with another schema, where that is a binding that replay may replace. -/
def Rebound (n n' : GraphNodeDescriptor) : Prop :=
  ∃ schema, n' = { n with binding := { n.binding with memoryBindingSchema := schema } } ∧
    (n' ≠ n → n.binding.bindingClass = .replayMutableBinding ∧ n.binding.rebindingEligible = true)

/-- The node with other dimensions, where its dynamic constraint allows their number. -/
def Reshaped (n n' : GraphNodeDescriptor) : Prop :=
  ∃ dims, n' = { n with shape := { n.shape with dims } } ∧
    (n' ≠ n → n.shape.dynamic = true ∧ dims.length ≤ n.shape.maxRank.toNat)

/-- The request as another one that may not capture, under the default policy, but for nodes that
differ as `R` says. -/
structure Varies (R : GraphNodeDescriptor → GraphNodeDescriptor → Prop)
    (req req' : GraphLookupRequest) : Prop where
  nodes : List.Forall₂ R req.descriptor.nodes req'.descriptor.nodes
  differs : req'.descriptor.nodes ≠ req.descriptor.nodes
  rest : req' = { req with
    policy := {}
    allowCapture := false
    descriptor := { req.descriptor with nodes := req'.descriptor.nodes } }

section

variable {R : GraphNodeDescriptor → GraphNodeDescriptor → Prop} {req req' : GraphLookupRequest}

theorem Varies.ids (h : Varies R req req') (hR : ∀ n n', R n n' → n'.nodeId = n.nodeId) :
    req'.descriptor.nodes.map (·.nodeId) = req.descriptor.nodes.map (·.nodeId) := by
  have hforall := h.nodes
  generalize req.descriptor.nodes = ns at hforall
  generalize req'.descriptor.nodes = ns' at hforall
  induction hforall with
  | nil => rfl
  | cons hhead _ ih => rw [List.map_cons, List.map_cons, hR _ _ hhead, ih]

/-- Facts that the default policy accepts for a request that varies are those of the request. -/
theorem exact_of_varies (h : Varies R req req') (hR : ∀ n n', R n n' → n'.nodeId = n.nodeId)
    (hnodup : (req.descriptor.nodes.map (·.nodeId)).Nodup)
    (hsize : Sized req.descriptor req'.descriptor)
    (hcomp : (decideCompatibility (makeFacts req') (makeFacts req) {}).compatible = true) :
    (decideCompatibility (makeFacts req') (makeFacts req) {}).klass = .exactCompatible := by
  have haccepts := (decideCompatibility_compatible _ _ _).mp hcomp
  have hedges : req'.descriptor.edges = req.descriptor.edges := by rw [h.rest]
  have htop : canonicalTopology req'.descriptor.nodes req.descriptor.edges =
      canonicalTopology req.descriptor.nodes req.descriptor.edges := by
    have heq := haccepts.topologyCanonical rfl
    simpa [makeFacts, hedges] using heq
  have hsame : makeFacts req' = makeFacts req := by
    have hnormalize := normalize_of_topology (h.ids hR) hnodup hsize.1 (hedges ▸ hsize.2) htop
    have hfacts := collectFacts_congr req.workload req.backend req.runtime req.device
      hnormalize htop
    rw [h.rest]
    exact hfacts
  rw [hsame] at haccepts ⊢
  exact (decideCompatibility_exact _ _ _).mpr ⟨haccepts, ⟨rfl, rfl, rfl, rfl⟩, rfl, rfl⟩

end

/-! ## Runs -/

section

variable {Exec : Type} {cfg : Config Exec}

/-- The run captured the entry at `a` for the request. -/
def CapturedBy (cfg : Config Exec) (store : Option Store) (history : List (Op Exec)) (a : ℕ)
    (req : GraphLookupRequest) : Prop :=
  ∃ pre env post e, history = pre ++ .lookup req env :: post ∧
    Captures cfg (run cfg (.fresh store) pre) req env e ∧ a = (run cfg (.fresh store) pre).next

/-- A captured entry has the facts of its request, whose nodes have distinct ids. -/
theorem CapturedBy.facts {store : Option Store} {history : List (Op Exec)} {a : ℕ}
    {req : GraphLookupRequest} (h : CapturedBy cfg store history a req) :
    ((run cfg (.fresh store) history).heap a).facts = makeFacts req ∧
      (req.descriptor.nodes.map (·.nodeId)).Nodup := by
  obtain ⟨pre, env, post, e, rfl, hcap, rfl⟩ := h
  obtain ⟨g, x, hg, -, he⟩ := captureEntry_ok hcap.2.2.2
  refine ⟨?_, (validateTopology_ok_iff.mp (finalize_ok hg).1).nodeIds⟩
  set s := run cfg (.fresh store) pre with hs
  have hstep : s.next < (lookup cfg s req env).1.next ∧
      ((lookup cfg s req env).1.heap s.next).facts = makeFacts req := by
    obtain ⟨hsame, hnext⟩ := (lookup_of_captures hcap).2.same s.next
    rw [hnext, hsame.facts, register_next, register_heap_self, he]
    exact ⟨Nat.lt_succ_self _, rfl⟩
  rw [run, List.foldl_append, List.foldl_cons, ← run, ← run, ← hs]
  exact (run_invariant (I := fun r => s.next < r.next ∧ (r.heap s.next).facts = makeFacts req)
    (fun M r b e hI he => ⟨hI.1, (he.set_spec s.next).1.facts.trans hI.2⟩)
    (fun _ _ r e hI _ => ⟨Nat.lt_succ_of_lt hI.1, by
      rw [register_heap_of_lt r e hI.1]
      exact hI.2⟩) post _ hstep).2

/-- The lookup answers with a hit on terms of a rebinding, and says so. -/
def RebindingHit (cfg : Config Exec) (s : State Exec) (req : GraphLookupRequest)
    (env : LookupEnv) : Prop :=
  (lookup cfg s req env).2.outcome = .compatibleHitRebinding ∧
    ∃ l, (lookup cfg s req env).2.lease = some l ∧ l.needsRebinding = true

/-- A captured graph does not serve, on terms, a request that varies from its own. -/
theorem CapturedBy.not_serves {store : Option Store} {history : List (Op Exec)} {a : ℕ}
    {req req' : GraphLookupRequest} (hcap : CapturedBy cfg store history a req)
    {R : GraphNodeDescriptor → GraphNodeDescriptor → Prop} (hv : Varies R req req')
    (hR : ∀ n n', R n n' → n'.nodeId = n.nodeId) (hsize : Sized req.descriptor req'.descriptor)
    {k : GraphCompatibilityClass} (hk : k ≠ .exactCompatible) :
    ¬Serves cfg (run cfg (.fresh store) history) req' k a := by
  rintro ⟨⟨hfirst, -⟩, hklass, -⟩
  obtain ⟨hfacts, hnodup⟩ := hcap.facts
  have hpolicy : req'.policy = {} := by rw [hv.rest]
  have hcand : (run cfg (.fresh store) history).Candidate (makeFacts req') req'.policy a := by
    simpa using List.find?_some hfirst
  have hcomp := hcand.compatible
  rw [Registry.decision, hfacts, hpolicy] at hcomp hklass
  exact hk (hklass ▸ exact_of_varies hv hR hnodup hsize hcomp)

/-- What serves a request that varies from that of a captured graph, on the terms of a class : an
entry that lends its graph, which is another one and lists the nodes of the request in another
order, unless a field of the topologies reaches 4 GiB. -/
theorem CapturedBy.serves_iff {store : Option Store} {history : List (Op Exec)} {a : ℕ}
    {req req' : GraphLookupRequest} (hcap : CapturedBy cfg store history a req)
    {R : GraphNodeDescriptor → GraphNodeDescriptor → Prop} (hv : Varies R req req')
    (hR : ∀ n n', R n n' → n'.nodeId = n.nodeId) {k : GraphCompatibilityClass}
    {differs : GraphDescriptor → Prop} (hk : k ≠ .exactCompatible)
    (hne : ∀ g, differs g → ¬(SameShown req'.descriptor.nodes g.nodes ∧
      SameShapes req'.descriptor.nodes g.nodes))
    (hdiffers : ∀ {c g}, (run cfg (.fresh store) history).Admits req' c g →
      (((run cfg (.fresh store) history).decision (makeFacts req') {} c).klass = k ↔ differs g)) :
    (∃ b, Serves cfg (run cfg (.fresh store) history) req' k b) ↔
      ∃ b g, Lends cfg (run cfg (.fresh store) history) req' b g ∧ differs g ∧
        (Sized req.descriptor req'.descriptor → b ≠ a) ∧
        (Sized g req'.descriptor → g.Relists req'.descriptor) := by
  have hindexed : (run cfg (.fresh store) history).toRegistry.Indexed :=
    indexed_run _ (indexed_fresh _) _
  have hbucket : ∀ c ∈ (run cfg (.fresh store) history).byWorkload (workloadKey req'.workload),
      ∃ g, ((run cfg (.fresh store) history).heap c).TakenFrom g :=
    fun c hc => collected_run cfg store history c (hindexed.bucket _ c hc).1
  have hserves {b : ℕ} := @serves_iff_lends _ cfg (run cfg (.fresh store) history) req' b
    (by rw [hv.rest]) hbucket k
  constructor
  · rintro ⟨b, hb⟩
    obtain ⟨hklass, g, hlends⟩ := hserves.mp hb
    have hdiff := (hdiffers hlends.admits).mp hklass
    refine ⟨b, g, hlends, hdiff, fun hsize hba => ?_, fun hsize => ?_⟩
    · exact hcap.not_serves hv hR hsize hk (hba ▸ hb)
    · exact hlends.admits.suits.relists hsize (hne g hdiff)
  · rintro ⟨b, g, hlends, hdiff, -⟩
    exact ⟨b, hserves.mpr ⟨(hdiffers hlends.admits).mpr hdiff, g, hlends⟩⟩

/-- A request that varies from that of a captured graph in schemas that may be rebound, or in
dynamic dimensions, is answered on these terms exactly when another entry of its bucket lends a
graph whose last binding, or whose shapes, differ : its own nodes, listed in another order. -/
theorem soft_hit_iff (cfg : Config Exec) (store : Option Store) (history : List (Op Exec)) (a : ℕ)
    (req req' : GraphLookupRequest) (env : LookupEnv) (hcap : CapturedBy cfg store history a req) :
    (Varies Rebound req req' →
      (RebindingHit cfg (run cfg (.fresh store) history) req' env ↔
        ∃ b g, Lends cfg (run cfg (.fresh store) history) req' b g ∧
          ¬SameShown req'.descriptor.nodes g.nodes ∧
          (Sized req.descriptor req'.descriptor → b ≠ a) ∧
          (Sized g req'.descriptor → g.Relists req'.descriptor))) ∧
    (Varies Reshaped req req' →
      ((lookup cfg (run cfg (.fresh store) history) req' env).2.outcome =
          .compatibleDynamicShapeHit ↔
        ∃ b g, Lends cfg (run cfg (.fresh store) history) req' b g ∧
          (SameShown req'.descriptor.nodes g.nodes ∧ ¬SameShapes req'.descriptor.nodes g.nodes) ∧
          (Sized req.descriptor req'.descriptor → b ≠ a) ∧
          (Sized g req'.descriptor → g.Relists req'.descriptor))) := by
  constructor
  · intro hv
    obtain ⟨hiff, hlease⟩ := outcome_iff_serves cfg (run cfg (.fresh store) history) env
      (by decide) hitOutcome_rebinding (by decide) (show req'.allowCapture = false by rw [hv.rest])
    have hserves := hcap.serves_iff hv (by rintro n _ ⟨schema, rfl, -⟩; rfl) (by decide)
      (fun g hdiff hsame => hdiff hsame.1) fun hadmits => (klass_of_admits hadmits).2.1
    rw [← hserves, ← hiff]
    exact ⟨And.left, fun hout => ⟨hout, hlease hout⟩⟩
  · intro hv
    obtain ⟨hiff, -⟩ := outcome_iff_serves cfg (run cfg (.fresh store) history) env
      (by decide) hitOutcome_dynamic (by decide) (show req'.allowCapture = false by rw [hv.rest])
    exact hiff.trans (hcap.serves_iff hv (by rintro n _ ⟨dims, rfl, -⟩; rfl) (by decide)
      (fun g hdiff hsame => hdiff.2 hsame.2) fun hadmits => (klass_of_admits hadmits).2.2)

end

/-! ## A mutable tensor -/

/-- A dynamic tensor to scale, bound mutably under a schema. -/
def mutableTensor (id : UInt64) (schema : String) (dims : List Int64) : GraphNodeDescriptor where
  nodeId := ⟨0, id⟩
  kernel := { name := str "scale" }
  memoryBytes := 4
  datatype := .f32
  shape := ⟨dims, true, 2⟩
  binding := {
    bindingClass := .replayMutableBinding
    memoryBindingSchema := str schema
    rebindingEligible := true }
  reactiveInputIndices := [0]
  reactiveOutputIndices := [0]

def tensorRequest (nodes : List GraphNodeDescriptor) (allowCapture : Bool) :
    GraphLookupRequest where
  workload := { logicalName := str "w" }
  descriptor := { nodes }
  allowCapture

/-- Two tensors, the second one listed before the first. -/
def pairRequest (second : GraphNodeDescriptor) (allowCapture : Bool) : GraphLookupRequest :=
  tensorRequest [second, mutableTensor 1 "a" [4]] allowCapture

/-- The tensors listed in the order of their ids. -/
def relistedRequest (second : GraphNodeDescriptor) : GraphLookupRequest :=
  tensorRequest [mutableTensor 1 "a" [4], second] true

/-- The directory of a run that captured them in this order. -/
def relistedDirectory (second : GraphNodeDescriptor) : Store :=
  (run (.cpu (.insertion _) .unit) (.fresh (some ∅))
    [.lookup (relistedRequest second) {}]).store.getD ∅

/-- Two tensors are captured, and the directory of the other run is recovered. -/
def relistedHistory : List (Op CpuGraph) :=
  [.lookup (pairRequest (mutableTensor 2 "a" [4]) true) { putOk := false }, .recover (.insertion _)]

/-- A record of the bucket of a captured entry is recovered beside it, and may be looked up. -/
theorem recovered_beside {Exec : Type} {cfg : Config Exec} {store : Store}
    {req : GraphLookupRequest} {env : LookupEnv} {e e₀ : CacheEntry Exec}
    (hstore : store = AList.insert e.artifactId (encodeEntryPayload e) ∅) (hw : e.Writable)
    (hl : CodecLimits e.descriptor) (hvalid : e.invalidated = false)
    (hcap : Captures cfg (.fresh (some store)) req env e₀) (hput : env.putOk = false)
    (hworkload : e₀.workload = e.workload) (listing : IterationOrder GraphArtifactId)
    {s : State Exec} (hs : s = run cfg (.fresh (some store)) [.lookup req env, .recover listing]) :
    s.byWorkload (workloadKey e.workload) = [0, 1] ∧ s.heap 1 = e.recovered ∧ s.Selectable 1 := by
  obtain ⟨hwritten, hedits⟩ := lookup_of_captures hcap
  obtain ⟨hindex, -, -⟩ := hedits.index
  have hnext := (hedits.same 0).2
  set s₁ := (lookup cfg (.fresh (some store)) req env).1 with hs₁
  have hkept : s₁.store = some (AList.insert e.artifactId (encodeEntryPayload e) ∅) := by
    rw [hwritten, State.written, hput, ← hstore]
    rfl
  have hregistry : s.toRegistry = s₁.toRegistry.register e.recovered := by
    rw [hs]
    exact recover_single hkept hw hl listing
  have hone : s₁.next = 1 := hnext
  have hself : s.heap 1 = e.recovered := by
    rw [hregistry, ← hone]
    exact register_heap_self _ _
  have hbucket : s₁.byWorkload (workloadKey e.workload) = [0] := by
    rw [hindex, ← hworkload]
    simp [Registry.register, State.fresh]
  refine ⟨?_, hself, ?_⟩
  · rw [hregistry]
    simp [Registry.register, CacheEntry.recovered, recoveredEntry, CacheEntry.metadata, hbucket,
      hone]
  · unfold Registry.Selectable
    rw [hself, hregistry]
    simp [Registry.register, CacheEntry.recovered, recoveredEntry, CacheEntry.metadata, hvalid,
      GraphLifecycle.isReplayEligible]

section

variable {second : GraphNodeDescriptor} {k : GraphCompatibilityClass}

/-- The entry of the run that captured the relisted tensors is written, and read back with the facts
of its request. -/
def Relisted (second : GraphNodeDescriptor) (e : CacheEntry CpuGraph) : Prop :=
  e.Writable ∧ e.descriptor.nodes = (relistedRequest second).descriptor.nodes ∧
    e.descriptor.edges = [] ∧ e.descriptor.dependencies = [] ∧
    (∀ f ∈ descriptorFields e.descriptor, f.payload.length < 2 ^ 32) ∧
    e.recovered.facts = makeFacts (relistedRequest second) ∧
    (cpuCapture (.insertion _) e.recovered.descriptor).toOption.isSome = true

instance (second : GraphNodeDescriptor) (e : CacheEntry CpuGraph) : Decidable (Relisted second e) :=
  inferInstanceAs (Decidable (_ ∧ _))

theorem captures_pair : ∃ e, Captures (.cpu (.insertion _) .unit)
    (.fresh (some (relistedDirectory second))) (pairRequest (mutableTensor 2 "a" [4]) true)
    { putOk := false } e ∧ e.workload = (pairRequest second false).workload := by
  have hok : (captureEntry (.cpu (.insertion _) .unit) 1 1 (pairRequest (mutableTensor 2 "a" [4])
      true) 1 0).toOption.isSome = true := by
    decide +kernel
  obtain ⟨e, he⟩ := Option.isSome_iff_exists.mp hok
  have hcap := toOption_eq_some.mp he
  obtain ⟨g, x, -, -, rfl⟩ := captureEntry_ok hcap
  exact ⟨_, ⟨rfl, rfl, rfl, hcap⟩, rfl⟩

theorem captured_pair : CapturedBy (.cpu (.insertion _) .unit) (some (relistedDirectory second))
    relistedHistory 0 (pairRequest (mutableTensor 2 "a" [4]) true) := by
  obtain ⟨e, hcap, -⟩ := @captures_pair second
  exact ⟨[], _, _, e, rfl, hcap, rfl⟩

/-- Of two entries in a bucket the second lends its graph, if the first will not do and the second
does, but not exactly. -/
theorem lends_second {Exec : Type} {cfg : Config Exec} {s : State Exec} {req : GraphLookupRequest}
    {a b : ℕ} {g : GraphDescriptor} (hbucket : s.byWorkload (workloadKey req.workload) = [a, b])
    (hmissed : (s.decision (makeFacts req) {} a).compatible = false)
    (hcand : s.Candidate (makeFacts req) {} b) (htaken : (s.heap b).TakenFrom g)
    (hk : (s.decision (makeFacts req) {} b).klass ≠ .exactCompatible) (hu : s.Usable cfg b) :
    Lends cfg s req b g := by
  have hnever : ∀ g', ¬s.toRegistry.Admits req a g' := by
    intro g' hadmits
    have hcomp := ((candidate_iff_admits hadmits.taken).mpr hadmits).compatible
    rw [hmissed] at hcomp
    cases hcomp
  refine ⟨(candidate_iff_admits htaken).mp hcand, ⟨[a], [], hbucket, by simpa using hnever⟩,
    fun c hc g' hadmits hexact => ?_, hu⟩
  obtain rfl | rfl : c = a ∨ c = b := by simpa [hbucket] using hc
  · exact hnever g' hadmits
  · exact hk ((klass_of_admits hadmits).1.mpr hexact)

/-- The entry that captured the relisted tensors is all that is in its directory. -/
theorem relistedDirectory_eq {e : CacheEntry CpuGraph}
    (hcap : captureEntry (.cpu (.insertion _) .unit) 1 1 (relistedRequest second) 1 0 = .ok e) :
    relistedDirectory second = AList.insert e.artifactId (encodeEntryPayload e) ∅ := by
  have hcaptures : Captures (.cpu (.insertion _) .unit) (.fresh (some ∅)) (relistedRequest second) {}
      e := ⟨rfl, rfl, rfl, hcap⟩
  rw [relistedDirectory, run, List.foldl_cons, List.foldl_nil, step,
    (lookup_of_captures hcaptures).1]
  rfl

theorem Relisted.codecLimits {e : CacheEntry CpuGraph} (h : Relisted second e)
    (hlimits : NodeLimits second) : CodecLimits e.descriptor := by
  obtain ⟨-, hnodes, hedges, hdeps, hsize, -, -⟩ := h
  refine ⟨by rw [hnodes]; exact Nat.le_of_ble_eq_true rfl, by simp [hedges], by simp [hdeps],
    fun n hn => ?_, hsize⟩
  rw [hnodes] at hn
  rcases List.mem_cons.mp hn with rfl | hn
  · exact ⟨fun _ => Nat.le_of_ble_eq_true rfl, Nat.le_of_ble_eq_true rfl,
      Nat.le_of_ble_eq_true rfl⟩
  · exact List.mem_singleton.mp hn ▸ hlimits

/-- The relisted tensors are recovered beside the captured ones, and lend the request their
executable if they do not suit it exactly, and the captured ones do not. -/
theorem lends_relisted
    (hentry : ((captureEntry (.cpu (.insertion _) .unit) 1 1 (relistedRequest second) 1
      0).toOption.map fun e => decide (Relisted second e)) = some true)
    (hlimits : NodeLimits second)
    (hclass : (decideCompatibility (makeFacts (pairRequest second false))
      (makeFacts (relistedRequest second)) {}).klass = k) (hk : k ≠ .exactCompatible)
    (hcomp : (decideCompatibility (makeFacts (pairRequest second false))
      (makeFacts (relistedRequest second)) {}).compatible = true)
    (hmissed : (decideCompatibility (makeFacts (pairRequest second false))
      (makeFacts (pairRequest (mutableTensor 2 "a" [4]) true)) {}).compatible = false)
    {s : State CpuGraph} (hs : s = run (.cpu (.insertion _) .unit)
      (.fresh (some (relistedDirectory second))) relistedHistory) :
    Lends (.cpu (.insertion _) .unit) s (pairRequest second false) 1
        (relistedRequest second).descriptor ∧
      (s.decision (makeFacts (pairRequest second false)) {} 1).klass = k := by
  obtain ⟨e, he, hentry⟩ := Option.map_eq_some_iff.mp hentry
  have hrelisted : Relisted second e := of_decide_eq_true hentry
  have hcodec := hrelisted.codecLimits hlimits
  obtain ⟨hw, -, -, -, -, hfacts, hcapture⟩ := hrelisted
  have hcap := toOption_eq_some.mp he
  have hplain : e.invalidated = false ∧ e.workload = (pairRequest second false).workload := by
    obtain ⟨g, y, -, -, rfl⟩ := captureEntry_ok hcap
    exact ⟨rfl, rfl⟩
  obtain ⟨e₀, hcap₀, hworkload₀⟩ := @captures_pair second
  obtain ⟨hbucket, hself, hselect⟩ := recovered_beside (relistedDirectory_eq hcap) hw hcodec hplain.1
    hcap₀ rfl (hworkload₀.trans hplain.2.symm) (.insertion _) hs
  rw [hplain.2] at hbucket
  have hfirst : (s.heap 0).facts = makeFacts (pairRequest (mutableTensor 2 "a" [4]) true) :=
    hs ▸ captured_pair.facts.1
  have hsecond : (s.heap 1).facts = makeFacts (relistedRequest second) := by rw [hself, hfacts]
  have hklass : (s.decision (makeFacts (pairRequest second false)) {} 1).klass = k := by
    rw [Registry.decision, hsecond, hclass]
  have hcand : s.Candidate (makeFacts (pairRequest second false)) {} 1 := by
    refine ⟨hselect, ?_, ?_⟩
    · rw [makeFacts, collectFacts_eq]
      rfl
    · rw [Registry.decision, hsecond, hcomp]
  have husable : s.Usable (.cpu (.insertion _) .unit) 1 := by
    obtain ⟨x, hx⟩ := Option.isSome_iff_exists.mp hcapture
    refine materializeExec_ok_iff.mp (materializeExec_cpu .unit (x := x) ?_)
    rw [hself]
    exact toOption_eq_some.mp hx
  refine ⟨lends_second hbucket ?_ hcand ⟨_, _, _, _, hsecond⟩ (hklass ▸ hk) husable, hklass⟩
  rw [Registry.decision, hfirst, hmissed]

end

/-- The tensors that were captured in the order of their ids serve the requests that list them in
the other order, with another schema or with other dimensions. -/
theorem soft_hit_iff_relisted :
    RebindingHit (.cpu (.insertion _) .unit) (run (.cpu (.insertion _) .unit)
      (.fresh (some (relistedDirectory (mutableTensor 2 "b" [4])))) relistedHistory)
      (pairRequest (mutableTensor 2 "b" [4]) false) {} ∧
    (lookup (.cpu (.insertion _) .unit) (run (.cpu (.insertion _) .unit)
      (.fresh (some (relistedDirectory (mutableTensor 2 "a" [8])))) relistedHistory)
      (pairRequest (mutableTensor 2 "a" [8]) false) {}).2.outcome = .compatibleDynamicShapeHit := by
  have hlimits (schema : String) (d : Int64) : NodeLimits (mutableTensor 2 schema [d]) :=
    ⟨fun _ => Nat.le_of_ble_eq_true rfl, Nat.le_of_ble_eq_true rfl, Nat.le_of_ble_eq_true rfl⟩
  constructor
  · obtain ⟨hlends, hklass⟩ := @lends_relisted (mutableTensor 2 "b" [4]) .compatibleWithRebinding
      (by decide +kernel) (hlimits _ _) (by decide +kernel) (by decide) (by decide +kernel)
      (by decide +kernel) _ rfl
    have hdiff := (klass_of_admits hlends.admits).2.1.mp hklass
    have hvaries : Varies Rebound (pairRequest (mutableTensor 2 "a" [4]) true)
        (pairRequest (mutableTensor 2 "b" [4]) false) :=
      ⟨.cons ⟨str "b", rfl, fun _ => ⟨rfl, rfl⟩⟩ (.cons ⟨str "a", rfl, fun h => absurd rfl h⟩ .nil),
        by decide, rfl⟩
    exact ((soft_hit_iff (.cpu (.insertion _) .unit) _ relistedHistory 0 _ _ {} captured_pair).1
      hvaries).mpr ⟨1, _, hlends, hdiff, fun _ => one_ne_zero, fun hsize =>
        hlends.admits.suits.relists hsize fun hsame => hdiff hsame.1⟩
  · obtain ⟨hlends, hklass⟩ := @lends_relisted (mutableTensor 2 "a" [8])
      .compatibleWithDynamicShapeConstraint (by decide +kernel) (hlimits _ _) (by decide +kernel)
      (by decide) (by decide +kernel) (by decide +kernel) _ rfl
    have hdiff := (klass_of_admits hlends.admits).2.2.mp hklass
    have hvaries : Varies Reshaped (pairRequest (mutableTensor 2 "a" [4]) true)
        (pairRequest (mutableTensor 2 "a" [8]) false) :=
      ⟨.cons ⟨[8], rfl, fun _ => ⟨rfl, by decide⟩⟩ (.cons ⟨[4], rfl, fun h => absurd rfl h⟩ .nil),
        by decide, rfl⟩
    exact ((soft_hit_iff (.cpu (.insertion _) .unit) _ relistedHistory 0 _ _ {} captured_pair).2
      hvaries).mpr ⟨1, _, hlends, hdiff, fun _ => one_ne_zero, fun hsize =>
        hlends.admits.suits.relists hsize fun hsame => hdiff.2 hsame.2⟩

/-- One mutable tensor. -/
def mutableRequest (schema : String) (dims : List Int64) (allowCapture : Bool) :
    GraphLookupRequest :=
  tensorRequest [mutableTensor 1 schema dims] allowCapture

/-- The tensor is captured under schema `a`. -/
def mutableHistory : List (Op CpuGraph) := [.lookup (mutableRequest "a" [4] true) {}]

set_option maxRecDepth 100000 in
theorem captured_mutable :
    CapturedBy (.cpu (.insertion _) .unit) none mutableHistory 0 (mutableRequest "a" [4] true) := by
  have hok : (captureEntry (.cpu (.insertion _) .unit) 1 1 (mutableRequest "a" [4] true) 1
      0).toOption.isSome = true := by
    decide +kernel
  obtain ⟨e, he⟩ := Option.isSome_iff_exists.mp hok
  exact ⟨[], {}, [], e, rfl, ⟨rfl, rfl, rfl, toOption_eq_some.mp he⟩, rfl⟩

theorem rebound_mutable :
    Varies Rebound (mutableRequest "a" [4] true) (mutableRequest "b" [4] false) where
  nodes := .cons ⟨str "b", rfl, fun _ => ⟨rfl, rfl⟩⟩ .nil
  differs := by decide
  rest := rfl

theorem reshaped_mutable :
    Varies Reshaped (mutableRequest "a" [4] true) (mutableRequest "a" [8] false) where
  nodes := .cons ⟨[8], rfl, fun _ => ⟨rfl, by decide⟩⟩ .nil
  differs := by decide
  rest := rfl

set_option maxRecDepth 100000 in
/-- Another schema, and other dimensions, miss the graph that was captured. -/
theorem soft_hit_missed :
    CapturedBy (.cpu (.insertion _) .unit) none mutableHistory 0 (mutableRequest "a" [4] true) ∧
    (run (.cpu (.insertion _) .unit) (.fresh none) mutableHistory).Selectable 0 ∧
    Varies Rebound (mutableRequest "a" [4] true) (mutableRequest "b" [4] false) ∧
    (lookup (.cpu (.insertion _) .unit)
      (run (.cpu (.insertion _) .unit) (.fresh none) mutableHistory)
      (mutableRequest "b" [4] false) {}).2.outcome = .missIncompatible ∧
    Varies Reshaped (mutableRequest "a" [4] true) (mutableRequest "a" [8] false) ∧
    (lookup (.cpu (.insertion _) .unit)
      (run (.cpu (.insertion _) .unit) (.fresh none) mutableHistory)
      (mutableRequest "a" [8] false) {}).2.outcome = .missIncompatible :=
  have hmissed :
      (run (.cpu (.insertion _) .unit) (.fresh none) mutableHistory).Selectable 0 ∧
      (lookup (.cpu (.insertion _) .unit)
        (run (.cpu (.insertion _) .unit) (.fresh none) mutableHistory)
        (mutableRequest "b" [4] false) {}).2.outcome = .missIncompatible ∧
      (lookup (.cpu (.insertion _) .unit)
        (run (.cpu (.insertion _) .unit) (.fresh none) mutableHistory)
        (mutableRequest "a" [8] false) {}).2.outcome = .missIncompatible := by
    decide +kernel
  ⟨captured_mutable, hmissed.1, rebound_mutable, hmissed.2.1, reshaped_mutable, hmissed.2.2⟩

end GraphCache
