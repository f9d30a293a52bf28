import GraphCache.Evolution

/-!
# Exact hits on the CPU

An exact decision requires equal canonical topologies, and the canonical topology determines each
node up to what `encode_node` leaves out. The executor reads one thing that is left out : the
values of a scalar that is not marked as specialized.

`exact_hit_faithful` : where those values agree, the executable of an exact hit replays as a
capture of the request itself. `exact_hit_unfaithful` : a hit that scales by two for a request to
scale by three.
-/

namespace GraphCache

/-! ## Graphs with one canonical topology -/

/-- Kernels of the same id read the same scalars, or scalars that are specialized. -/
def ScalarsAgree (d g : GraphDescriptor) : Prop :=
  ∀ n ∈ d.nodes, ∀ n' ∈ g.nodes, n.nodeId = n'.nodeId → n.category = .kernel →
    n.scalar.specialized = false → (classifyKernel n).SameScalars n.scalar n'.scalar

theorem CpuKernel.SameScalars.refl (k : CpuKernel) (s : ScalarSpecialization) : k.SameScalars s s := by
  cases k <;> simp [CpuKernel.SameScalars]

/-- What the executor reads of a node : the encoding leaves out only unspecialized scalars. -/
theorem cpuNode_sameEffect {n n' : GraphNodeDescriptor} (h : n.normalize = n'.normalize)
    (hs : n.category = .kernel → n.scalar.specialized = false →
      (classifyKernel n).SameScalars n.scalar n'.scalar) : (cpuNode n).SameEffect (cpuNode n') := by
  have hcat : n.category = n'.category := (congrArg GraphNodeDescriptor.category h :)
  have hspec : n.scalar.specialized = n'.scalar.specialized := by
    rw [← specialized_normalize n, h, specialized_normalize]
  constructor
  · exact (congrArg GraphNodeDescriptor.nodeId h :)
  · exact hcat
  · exact congrArg (fun n => n.reactiveInputIndices.headD 0) h
  · exact congrArg (fun n => n.reactiveOutputIndices.headD 0) h
  · exact (congrArg GraphNodeDescriptor.memoryBytes h :)
  · intro hset
    have hset : n.category = .memorySet := hset
    have hval := congrArg GraphNodeDescriptor.memsetValue h
    simpa [GraphNodeDescriptor.normalize, hset, ← hcat, cpuNode] using hval
  · intro hker
    have hker : n.category = .kernel := hker
    have hname := congrArg (fun n => n.kernel.name) h
    simp only [GraphNodeDescriptor.normalize, hker, ← hcat, if_true] at hname
    simp [cpuNode, classifyKernel, hname]
  · intro hker
    by_cases hsp : n.scalar.specialized = true
    · have hval := congrArg GraphNodeDescriptor.scalar h
      simp only [GraphNodeDescriptor.normalize, hsp, ← hspec, if_true] at hval
      change (classifyKernel n).SameScalars n.scalar n'.scalar
      rw [← hval]
      exact .refl _ _
    · exact hs hker ((Bool.not_eq_true _).mp hsp)

theorem forall₂_of_map_eq {α β : Type} {f : α → β} {R : α → α → Prop} : ∀ {l l' : List α},
    l.map f = l'.map f → (∀ a ∈ l, ∀ b ∈ l', f a = f b → R a b) → List.Forall₂ R l l'
  | [], [], _, _ => .nil
  | a :: l, b :: l', h, hr => by
    simp only [List.map_cons, List.cons.injEq] at h
    exact .cons (hr a (by simp) b (by simp) h.1)
      (forall₂_of_map_eq h.2 fun x hx y hy => hr x (by simp [hx]) y (by simp [hy]))

/-- Captures of graphs with one canonical topology, whose scalars agree, replay alike. -/
theorem replay_eq_of_canonicalTopology {o : IterationOrder GraphNodeId} (ops : FloatOps)
    {d g₀ g : GraphDescriptor} {x : CpuGraph} (hx : cpuCapture o d = .ok x)
    (hg : g₀.finalize o = .ok g) (hd : Encodable d.nodes d.edges)
    (hg₀ : Encodable g₀.nodes g₀.edges)
    (ht : canonicalTopology d.nodes d.edges = canonicalTopology g₀.nodes g₀.edges)
    (hs : ScalarsAgree d g₀) :
    ∃ x', cpuCapture o g = .ok x' ∧ ∀ b rd mem, cpuReplay ops x b rd mem = cpuReplay ops x' b rd mem := by
  obtain ⟨hwf, rfl⟩ := cpuCapture_ok_iff.mp hx
  obtain ⟨hv, hnodes, hedges, -⟩ := finalize_ok hg
  obtain ⟨hpay, hsort⟩ := canonicalTopology_inj hd hg₀ ht
  have hpg := sortById_perm (·.nodeId) g₀.nodes
  have hpd := sortById_perm (·.nodeId) d.nodes
  have hwg : WellFormed g.nodes g.edges := by
    rw [hnodes, hedges]
    exact (validateTopology_ok_iff.mp hv).perm (hpg.map _).symm (sortById_perm _ _).symm
  refine ⟨_, cpuCapture_ok_iff.mpr ⟨hwg, rfl⟩, fun b rd mem => cpuReplay_congr ?_ ?_ b rd mem⟩
  · have heff : List.Forall₂ (fun n n' => (cpuNode n).SameEffect (cpuNode n'))
        (sortById (·.nodeId) d.nodes) g.nodes := by
      rw [hnodes]
      refine forall₂_of_map_eq hpay fun n hn n' hn' hpay => ?_
      have hnorm := nodePayloads_inj hpay
      exact cpuNode_sameEffect hnorm (hs n (hpd.subset hn) n' (hpg.subset hn')
        (congrArg GraphNodeDescriptor.nodeId hnorm :))
    have hlook := SameLookups.of_forall₂
      (List.forall₂_map_left_iff.mpr (List.forall₂_map_right_iff.mpr heff))
    intro nid
    rw [find_eq_of_perm (hpd.map cpuNode).symm (by simpa [Function.comp_def, cpuNode] using hwf.nodeIds)]
    exact hlook nid
  · have hids : (sortById (·.nodeId) d.nodes).map (·.nodeId) = g.nodes.map (·.nodeId) := by
      rw [hnodes, ← List.forall₂_eq_eq_eq]
      refine List.forall₂_map_left_iff.mpr (List.forall₂_map_right_iff.mpr ?_)
      exact forall₂_of_map_eq hpay fun n _ n' _ hpay =>
        (congrArg GraphNodeDescriptor.nodeId (nodePayloads_inj hpay) :)
    refine executionOrder_eq o o ?_ ?_
    · exact hids ▸ (hpd.map _).symm
    · rw [hedges, ← hsort]
      exact (sortById_perm _ _).symm.map _

/-! ## Entries of a CPU cache -/

section

variable {o : IterationOrder GraphNodeId} {ops : FloatOps}

/-- The executable is a capture of the descriptor, and the facts hold its canonical topology. -/
structure CacheEntry.Faithful (o : IterationOrder GraphNodeId) (e : CacheEntry CpuGraph) : Prop where
  exec : ∀ x, e.exec = some x → cpuCapture o e.descriptor = .ok x
  topology : e.facts.topologyCanonical = canonicalTopology e.descriptor.nodes e.descriptor.edges

/-- Every registered entry is faithful. -/
def Registry.Faithful (o : IterationOrder GraphNodeId) (r : Registry CpuGraph) : Prop :=
  ∀ a < r.next, (r.heap a).Faithful o

theorem CacheEntry.Faithful.dropResidency {e : CacheEntry CpuGraph} (h : e.Faithful o) :
    (dropResidency (.cpu o ops) e).Faithful o := by
  unfold GraphCache.dropResidency
  split_ifs
  · exact ⟨by simp [Config.cpu, cpuBackend], h.topology⟩
  · exact h

theorem CacheEntry.Faithful.edit {marks : Prop} {e e' : CacheEntry CpuGraph} (h : e.Faithful o)
    (he : Edit (.cpu o ops) marks e e') : e'.Faithful o := by
  cases he with
  | counts => exact ⟨h.exec, h.topology⟩
  | materialize attempt exec hcap =>
    refine ⟨?_, h.topology⟩
    rintro x hx
    obtain rfl : exec = x := by simpa using hx
    exact hcap
  | drop => exact h.dropResidency
  | invalidate strong hm =>
    unfold markInvalidated
    have hmark : ({ e with invalidated := true, lifecycle := .invalidated } :
        CacheEntry CpuGraph).Faithful o := ⟨h.exec, h.topology⟩
    dsimp only
    split_ifs
    · exact hmark.dropResidency
    · exact hmark

theorem Registry.Faithful.set {marks : Prop} {r : Registry CpuGraph} (h : r.Faithful o) (a : ℕ)
    {e : CacheEntry CpuGraph} (he : Edit (.cpu o ops) marks (r.heap a) e) : (r.set a e).Faithful o := by
  intro b hb
  by_cases hba : b = a
  · subst hba
    rw [set_heap_self]
    exact (h b hb).edit he
  · rw [set_heap_of_ne r e hba]
    exact h b hb

theorem Registry.Faithful.register {r : Registry CpuGraph} (h : r.Faithful o)
    {e : CacheEntry CpuGraph} (he : e.Faithful o) : (r.register e).Faithful o := by
  intro b hb
  rcases Nat.lt_succ_iff_lt_or_eq.mp hb with hb | rfl
  · rw [register_heap_of_lt r e hb]
    exact h b hb
  · rwa [register_heap_self]

theorem faithful_recoveredEntry (g : GraphDescriptor) (md : PersistedMetadata) :
    (recoveredEntry g md).Faithful o :=
  ⟨by simp [recoveredEntry], by simp [recoveredEntry, factsFromDescriptorAndWorkload]⟩

theorem faithful_of_registers {s : State CpuGraph} {op : Op CpuGraph} {r : Registry CpuGraph}
    {e : CacheEntry CpuGraph} (h : Registers (.cpu o ops) s op r e) : e.Faithful o := by
  cases op with
  | lookup req env =>
    obtain ⟨-, -, -, -, hcap⟩ := h
    obtain ⟨g, x, hg, hx, rfl⟩ := captureEntry_ok hcap
    obtain ⟨-, hnodes, hedges, -⟩ := finalize_ok hg
    refine ⟨?_, ?_⟩
    · rintro x' hx'
      obtain rfl : x = x' := by simpa [capturedEntry] using hx'
      exact hx
    · simp [capturedEntry, makeFacts, hnodes, hedges]
  | recover listing =>
    obtain ⟨store, pre, id, post, -, -, -, hload⟩ := h
    obtain ⟨g, md, rfl⟩ := loadEntry_some hload
    exact faithful_recoveredEntry g md
  | _ => exact h.elim

theorem Registry.Faithful.run {s : State CpuGraph} (h : s.toRegistry.Faithful o)
    (history : List (Op CpuGraph)) : (run (.cpu o ops) s history).toRegistry.Faithful o :=
  run_invariant (I := Registry.Faithful o) (fun _ _ a _ h he => h.set a he)
    (fun _ _ _ _ h he => h.register (faithful_of_registers he)) history s h

theorem faithful_fresh (store : Option Store) :
    (State.fresh store : State CpuGraph).toRegistry.Faithful o :=
  fun _ ha => absurd ha (Nat.not_lt_zero _)

theorem faithful_run (store : Option Store) (history : List (Op CpuGraph)) :
    (run (.cpu o ops) (.fresh store) history).toRegistry.Faithful o :=
  (faithful_fresh store).run history

/-! ## Exact hits -/

/-- What an exact hit leases replays as a capture of the request's own graph : on all buffers the
same success or failure, the same bytes and the same digest. -/
def ExactHitFaithful (o : IterationOrder GraphNodeId) (ops : FloatOps) (s : State CpuGraph)
    (req : GraphLookupRequest) (env : LookupEnv) : Prop :=
  ∀ g l, req.descriptor.finalize o = .ok g → (lookup (.cpu o ops) s req env).2.lease = some l →
    (lookup (.cpu o ops) s req env).2.decision.klass = .exactCompatible →
    ∃ x x', l.executable = some x ∧ cpuCapture o g = .ok x' ∧
      ∀ b rd mem, cpuReplay ops x b rd mem = cpuReplay ops x' b rd mem

/-- The entries that the request could hit exactly agree with it on the scalars that their kernels
read and the encoding leaves out. Lengths fit the 32-bit lengths of the encoding. -/
structure ExactHitSafe (s : State CpuGraph) (req : GraphLookupRequest) : Prop where
  request : Encodable req.descriptor.nodes req.descriptor.edges
  entries : ∀ a ∈ s.byWorkload (workloadKey req.workload), (s.heap a).invalidated = false →
    (s.heap a).facts.topologyCanonical = (makeFacts req).topologyCanonical →
    Encodable (s.heap a).descriptor.nodes (s.heap a).descriptor.edges ∧
      ScalarsAgree (s.heap a).descriptor req.descriptor

theorem encodable_sortById {ns : List GraphNodeDescriptor} {es : List GraphEdgeDescriptor}
    (h : Encodable ns es) : Encodable (sortById (·.nodeId) ns) (sortById (·.edgeId) es) := by
  simpa [Encodable, canonicalFields] using h

/-- A finalized descriptor agrees with the one it comes from. -/
theorem scalarsAgree_finalize {g₀ g : GraphDescriptor} (h : g₀.finalize o = .ok g) :
    ScalarsAgree g g₀ := by
  obtain ⟨hv, hnodes, -⟩ := finalize_ok h
  intro n hn n' hn' hid _ _
  rw [hnodes] at hn
  have hnd := (validateTopology_ok_iff.mp hv).nodeIds
  rw [List.inj_on_of_nodup_map hnd ((sortById_perm _ _).subset hn) hn' hid]
  exact .refl _ _

/-- In the state a lookup answers from, an entry of the bucket with the topology of the request
is safe to hit. -/
theorem ExactHitSafe.base {s s₁ : State CpuGraph} {req : GraphLookupRequest} {env : LookupEnv}
    (hs : ExactHitSafe s req) (hi : s.toRegistry.Indexed)
    (hbase : LookupBase (.cpu o ops) s req env s₁) {a : ℕ}
    (ha : a ∈ s₁.byWorkload (workloadKey req.workload)) (hinv : (s₁.heap a).invalidated = false)
    (ht : (s₁.heap a).facts.topologyCanonical = (makeFacts req).topologyCanonical) :
    Encodable (s₁.heap a).descriptor.nodes (s₁.heap a).descriptor.edges ∧
      ScalarsAgree (s₁.heap a).descriptor req.descriptor := by
  cases hbase with
  | found hn hr hk =>
    rw [hr] at ha hinv ht ⊢
    exact hs.entries a ha hinv ht
  | captured e hc hr =>
    obtain ⟨-, -, -, hcap⟩ := hc
    obtain ⟨g, x, hg, -, rfl⟩ := captureEntry_ok hcap
    rw [hr] at ha hinv ht ⊢
    have hmem : a ∈ s.byWorkload (workloadKey req.workload) ∨ a = s.next := by
      simpa [Registry.register, capturedEntry] using ha
    rcases hmem with hmem | rfl
    · have hlt := (hi.bucket _ _ hmem).1
      rw [register_heap_of_lt _ _ hlt] at hinv ht ⊢
      exact hs.entries a hmem hinv ht
    · rw [register_heap_self]
      obtain ⟨-, hnodes, hedges, -⟩ := finalize_ok hg
      refine ⟨?_, scalarsAgree_finalize hg⟩
      simpa [capturedEntry, hnodes, hedges] using encodable_sortById hs.request

/-- An exact hit under the default policy computes what the request asked for, where the scalars
left out of the encoding agree. -/
theorem exact_hit_faithful (o : IterationOrder GraphNodeId) (ops : FloatOps) (store : Option Store)
    (history : List (Op CpuGraph)) (req : GraphLookupRequest) (env : LookupEnv)
    (hp : req.policy = {})
    (hs : ExactHitSafe (run (.cpu o ops) (.fresh store) history) req) :
    ExactHitFaithful o ops (run (.cpu o ops) (.fresh store) history) req env := by
  intro g l hg hl hexact
  set s := run (.cpu o ops) (.fresh store) history with hrun
  obtain ⟨s₁, hbase, -, -, hlease⟩ := lookup_spec (.cpu o ops) s req env
  obtain ⟨r', hhit⟩ := hlease l hl
  obtain ⟨⟨hmem, hcand, -⟩, hdec⟩ := scan_chosen hhit.chosen
  have hi : s.toRegistry.Indexed := indexed_run _ (indexed_fresh store) history
  have hmem : l.entry ∈ s₁.byWorkload (workloadKey req.workload) := by
    simpa [makeFacts] using hmem
  have hlt : l.entry < s₁.next := by
    have hi₁ := hbase.evolves.invariant hi (fun _ _ _ h he => h.set he) (fun _ e h _ => h.register e)
    exact (hi₁.bucket _ _ hmem).1
  have hf₁ : s₁.toRegistry.Faithful o := hbase.evolves.invariant (faithful_run store history)
    (fun _ a _ h he => h.set a he) (fun _ _ h he => h.register (faithful_of_registers he))
  have hf : (r'.heap l.entry).Faithful o := by
    have hr' := hhit.edits.invariant hf₁ (fun _ a _ h he => h.set a he) (fun _ _ _ h => h.elim)
    exact hr' l.entry ((hhit.edits.same l.entry).2 ▸ hlt)
  have ht : (makeFacts req).topologyCanonical = (s₁.heap l.entry).facts.topologyCanonical := by
    refine topology_of_exact req.policy (by rw [hp]) ?_
    rw [hdec] at hexact
    exact hexact
  obtain ⟨henc, hagree⟩ := hs.base hi hbase hmem hcand.selectable.1 ht.symm
  obtain ⟨x, hx⟩ := Option.isSome_iff_exists.mp hhit.materialized
  have hcap := hf.exec x (hhit.executable ▸ hx)
  rw [(hhit.edits.same l.entry).1.descriptor] at hcap
  have htop : canonicalTopology (s₁.heap l.entry).descriptor.nodes
      (s₁.heap l.entry).descriptor.edges =
        canonicalTopology req.descriptor.nodes req.descriptor.edges := by
    rw [← (hf₁ l.entry hlt).topology, ← ht]
    simp [makeFacts]
  obtain ⟨x', hx', hreplay⟩ :=
    replay_eq_of_canonicalTopology ops hcap hg henc hs.request htop hagree
  exact ⟨x, x', hx, hx', hreplay⟩

end

/-- A request to scale one float by an unspecialized factor. -/
def scaleRequest (factor : UInt64) (allowCapture : Bool) : GraphLookupRequest where
  workload := { logicalName := str "w" }
  descriptor := { nodes := [{
    nodeId := ⟨0, 1⟩
    kernel := { name := str "scale" }
    memoryBytes := 4
    scalar := { floatValue := ⟨factor⟩ }
    reactiveInputIndices := [0]
    reactiveOutputIndices := [0] }] }
  allowCapture

theorem exact_hit_faithful_first :
    ExactHitFaithful (.insertion _) .unit (run (.cpu (.insertion _) .unit) (.fresh none) [])
      (scaleRequest 0x4000000000000000 true) {} := by
  refine exact_hit_faithful _ _ none [] _ _ rfl ⟨?_, ?_⟩
  · unfold Encodable
    decide
  · intro a ha
    simp [run, State.fresh] at ha

/-- A replay that refutes faithfulness. -/
theorem not_exactHitFaithful {o : IterationOrder GraphNodeId} {ops : FloatOps} {s : State CpuGraph}
    {req : GraphLookupRequest} {env : LookupEnv} (b : ReplayBuffers) (mem out out' : Memory)
    (hne : out ≠ out')
    (h : (lookup (.cpu o ops) s req env).2.decision.klass = .exactCompatible ∧
      ((lookup (.cpu o ops) s req env).2.lease.bind fun l => l.executable.bind fun x =>
        (cpuReplay ops x b {} mem).map Prod.fst) = some out ∧
      ((req.descriptor.finalize o).toOption.bind fun g => (cpuCapture o g).toOption.bind fun x =>
        (cpuReplay ops x b {} mem).map Prod.fst) = some out') : ¬ExactHitFaithful o ops s req env := by
  intro hf
  obtain ⟨hexact, hlease, hown⟩ := h
  obtain ⟨l, hl, hlease⟩ := Option.bind_eq_some_iff.mp hlease
  obtain ⟨x, hx, hlease⟩ := Option.bind_eq_some_iff.mp hlease
  obtain ⟨g, hg, hown⟩ := Option.bind_eq_some_iff.mp hown
  obtain ⟨x', hx', hown⟩ := Option.bind_eq_some_iff.mp hown
  obtain ⟨y, y', hy, hy', hreplay⟩ := hf g l (toOption_eq_some.mp hg) hl hexact
  obtain rfl : x = y := Option.some.inj (hx.symm.trans hy)
  obtain rfl : x' = y' := Except.ok.inj ((toOption_eq_some.mp hx').symm.trans hy')
  rw [hreplay, hown] at hlease
  exact hne (Option.some.inj hlease).symm

set_option maxRecDepth 100000 in
/-- A graph that scales by two, captured first, is an exact hit for a request to scale by three. -/
theorem exact_hit_unfaithful :
    ¬ExactHitFaithful (.insertion _) .unit
      (run (.cpu (.insertion _) .unit) (.fresh none)
        [.lookup (scaleRequest 0x4000000000000000 true) {}])
      (scaleRequest 0x4008000000000000 true) {} :=
  not_exactHitFaithful ⟨[⟨0, 0⟩], [⟨1, 0⟩], [4], [4]⟩ [[0, 0, 0x80, 0x3F], [0, 0, 0, 0]]
    [[0, 0, 0x80, 0x3F], [0, 0, 0, 0x40]] [[0, 0, 0x80, 0x3F], [0, 0, 0x40, 0x40]] (by decide)
    (by decide +kernel)

end GraphCache
