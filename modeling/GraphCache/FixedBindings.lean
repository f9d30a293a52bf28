import GraphCache.KeyOrder

/-!
# Bindings that may not be replaced

An immutable binding, or one that asks for a recapture, must not be replaced at replay. But facts
keep one binding for the whole graph, that of the last typed node listed, with the greatest
alignment, and `decide_compatibility` holds the classes against these alone, and does not compare
whether they are eligible. Any other change of a node shows in the topology bytes or not at all.

`fixed_bindings_iff` : a change of a fixed node is refused by a policy that asks for the exact
topology, or because the facts show a change of their one binding that must not be made, or by
another domain, and never otherwise. That an exact topology is enough rests on what the topology
bytes tell of the nodes, which no field of 4 GiB may blur.
-/

namespace GraphCache

/-- The classes that must not be replaced. -/
def GraphNodeDescriptor.Fixed (n : GraphNodeDescriptor) : Prop :=
  n.binding.bindingClass = .immutableBinding ∨
    n.binding.bindingClass = .recaptureRequiredBinding

/-- The request is for the workload of `g` and over its nodes, and binds a fixed one differently. -/
structure ChangesFixed (req : GraphLookupRequest) (wl : WorkloadIdentity) (g : GraphDescriptor) :
    Prop where
  workload : req.workload = wl
  ids : ∀ id, id ∈ req.descriptor.nodes.map (·.nodeId) ↔ id ∈ g.nodes.map (·.nodeId)
  changed : ∃ n ∈ g.nodes, n.Fixed ∧ ∃ m ∈ req.descriptor.nodes, m.nodeId = n.nodeId ∧
    (m.binding ≠ n.binding ∨ m.requiredAlignment ≠ n.requiredAlignment)

/-- What the facts of the two lists show of a binding. -/
def SameShown (ns ns' : List GraphNodeDescriptor) : Prop :=
  greatestAlignment ns = greatestAlignment ns' ∧
    (lastBinding ns).memoryBindingSchema = (lastBinding ns').memoryBindingSchema ∧
    (lastBinding ns).bindingClass = (lastBinding ns').bindingClass ∧
    (lastBinding ns).alignment = (lastBinding ns').alignment

/-- The facts without topology, binding and alignment. -/
def CompatibilityFacts.unbound (f : CompatibilityFacts) : CompatibilityFacts :=
  { f with topologyCanonical := [], binding := {}, requiredAlignment := 0 }

section

variable {req cand : CompatibilityFacts} {policy : GraphCompatibilityPolicy}

/-- Topology, binding and every other domain. -/
theorem accepts_unbound : Accepts req cand policy ↔
    (policy.requireExactTopology = true → req.topologyCanonical = cand.topologyCanonical) ∧
      (SameBinding req cand ∨ policy.allowRebinding = true ∧ cand.binding.Rebindable) ∧
      Accepts req.unbound cand.unbound policy := by
  constructor
  · intro h
    exact ⟨h.topologyCanonical, h.binding,
      { h with topologyCanonical := fun _ => rfl, binding := .inl ⟨rfl, rfl, rfl, rfl⟩ }⟩
  · rintro ⟨htopology, hbinding, h⟩
    exact { h with topologyCanonical := htopology, binding := hbinding }

end

section

variable (req : GraphLookupRequest) (wl : WorkloadIdentity) (b : BackendIdentity)
  (rt : RuntimeDescriptor) (dv : DeviceDescriptor) (g : GraphDescriptor)

theorem sameBinding_iff_sameShown : SameBinding (makeFacts req) (collectFacts wl b rt dv g) ↔
    SameShown req.descriptor.nodes g.nodes := by
  rw [makeFacts, collectFacts_eq, collectFacts_eq]
  rfl

end

/-! ## Exact topologies -/

/-- The topology bytes tell the nodes of one id apart by their bindings. -/
theorem topology_ne_of_changed {ns ns' : List GraphNodeDescriptor}
    {es es' : List GraphEdgeDescriptor} {n m : GraphNodeDescriptor} (hs : Encodable ns es)
    (hs' : Encodable ns' es') (hnodup : (ns.map (·.nodeId)).Nodup) (hn : n ∈ ns) (hm : m ∈ ns')
    (hid : m.nodeId = n.nodeId)
    (hne : m.binding ≠ n.binding ∨ m.requiredAlignment ≠ n.requiredAlignment) :
    canonicalTopology ns' es' ≠ canonicalTopology ns es := by
  intro heq
  obtain ⟨hperm, -⟩ := perm_of_topology hs' hs heq
  obtain ⟨k, hk, hnormalize⟩ := List.mem_map.mp (hperm.subset (List.mem_map_of_mem hm))
  have hkid : k.nodeId = m.nodeId := congrArg (·.nodeId) hnormalize
  have hkn : k = n := List.inj_on_of_nodup_map hnodup hk hn (hkid.trans hid)
  subst hkn
  have hbinding : k.binding = m.binding := congrArg (·.binding) hnormalize
  have halign : k.requiredAlignment = m.requiredAlignment :=
    congrArg (·.requiredAlignment) hnormalize
  exact hne.elim (absurd hbinding.symm) (absurd halign.symm)

section

variable {req : GraphLookupRequest} {wl : WorkloadIdentity} {g : GraphDescriptor}

theorem ChangesFixed.topology_ne (h : ChangesFixed req wl g) (hs : Encodable g.nodes g.edges)
    (hs' : Encodable req.descriptor.nodes req.descriptor.edges)
    (hnodup : (g.nodes.map (·.nodeId)).Nodup) :
    canonicalTopology req.descriptor.nodes req.descriptor.edges ≠
      canonicalTopology g.nodes g.edges := by
  obtain ⟨n, hn, -, m, hm, hid, hne⟩ := h.changed
  exact topology_ne_of_changed hs hs' hnodup hn hm hid hne

/-- A change of a fixed node is refused exactly if the exact topology is required, or the facts show
a change that must not be made to their binding, or another domain does not accept the request. -/
theorem fixed_bindings_iff (b : BackendIdentity) (rt : RuntimeDescriptor) (dv : DeviceDescriptor)
    (policy : GraphCompatibilityPolicy) (hs : Encodable g.nodes g.edges)
    (hs' : Encodable req.descriptor.nodes req.descriptor.edges)
    (hnodup : (g.nodes.map (·.nodeId)).Nodup) (h : ChangesFixed req wl g) :
    (decideCompatibility (makeFacts req) (collectFacts wl b rt dv g) policy).compatible = false ↔
      policy.requireExactTopology = true ∨
      ¬SameShown req.descriptor.nodes g.nodes ∧
        ¬(policy.allowRebinding = true ∧ (lastBinding g.nodes).Rebindable) ∨
      ¬Accepts (makeFacts req).unbound (collectFacts wl b rt dv g).unbound policy := by
  have hbinding : (collectFacts wl b rt dv g).binding = lastBinding g.nodes := by
    rw [collectFacts_eq]
  have htopology : (makeFacts req).topologyCanonical ≠
      (collectFacts wl b rt dv g).topologyCanonical := by
    rw [makeFacts, collectFacts_topologyCanonical, collectFacts_topologyCanonical]
    exact h.topology_ne hs hs' hnodup
  rw [← Bool.not_eq_true, decideCompatibility_compatible, accepts_unbound,
    sameBinding_iff_sameShown, hbinding, imp_iff_not htopology, not_and_or, not_and_or, not_not,
    not_or]

end

/-- Two tensors, the first with a binding that must not be replaced. -/
def boundGraph (schema : String) : GraphDescriptor where
  nodes := [
    { nodeId := ⟨0, 1⟩, datatype := .f32
      binding := { bindingClass := .immutableBinding, memoryBindingSchema := str schema } },
    { nodeId := ⟨0, 2⟩, datatype := .f32 }]

theorem changesFixed_bound : ChangesFixed { descriptor := boundGraph "b" } {} (boundGraph "a") where
  workload := rfl
  ids := by simp [boundGraph]
  changed := ⟨_, .head _, .inl rfl, _, .head _, rfl, .inl (by decide)⟩

/-- With the exact topology, another schema of an immutable binding is refused. -/
theorem fixed_bindings_iff_exact :
    (decideCompatibility (makeFacts { descriptor := boundGraph "b" })
      (collectFacts {} {} {} {} (boundGraph "a")) {}).compatible = false :=
  (fixed_bindings_iff {} {} {} {} (by unfold Encodable; decide) (by unfold Encodable; decide)
    (by decide) changesFixed_bound).mpr (.inl rfl)

/-- Without it, the binding is replaced. -/
theorem fixed_binding_replaced :
    ChangesFixed { descriptor := boundGraph "b" } {} (boundGraph "a") ∧
      (decideCompatibility (makeFacts { descriptor := boundGraph "b" })
        (collectFacts {} {} {} {} (boundGraph "a"))
        { requireExactTopology := false }).compatible = true :=
  ⟨changesFixed_bound, by decide +kernel⟩

end GraphCache
