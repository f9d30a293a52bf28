import GraphCache.Lookups
import Mathlib.Data.Set.Image

/-!
# Dependencies of hits

Two checks compare the dependencies of a request with those of an entry. `is_dependency_fresh`
joins them by name : contributing dependencies of one name agree in generation, ABI and digest.
`decide_compatibility` looks up what the entry depends on among the request's, as joined strings.
Neither looks at the stable ids, and neither asks of the entry what only the request depends on.

`hit_dependencies` : what a lookup hits depends on the same as the request when the two agree on
names and ids, and only then.
-/

namespace GraphCache

/-! ## Joins -/

/-- Two sets whose elements agree in `f` as soon as they agree in `g` have the same image under
`f` when they have the same image under `g`, and only then, if `f` determines `g`. -/
theorem image_eq_iff_of_join {α β γ : Type} {f : α → β} {g : α → γ} {s t : Set α}
    (hdet : ∀ a b, f a = f b → g a = g b) (hjoin : ∀ a ∈ s, ∀ b ∈ t, g a = g b → f a = f b) :
    f '' s = f '' t ↔ g '' s = g '' t := by
  constructor
  · intro h
    have hsub : ∀ {u v : Set α}, f '' u ⊆ f '' v → g '' u ⊆ g '' v := by
      rintro u v huv _ ⟨a, ha, rfl⟩
      obtain ⟨b, hb, hab⟩ := huv ⟨a, ha, rfl⟩
      exact ⟨b, hb, hdet b a hab⟩
    exact (hsub h.subset).antisymm (hsub h.superset)
  · intro h
    refine Set.Subset.antisymm ?_ ?_
    · rintro _ ⟨a, ha, rfl⟩
      obtain ⟨b, hb, hab⟩ := h.subset ⟨a, ha, rfl⟩
      exact ⟨b, hb, (hjoin a ha b hb hab.symm).symm⟩
    · rintro _ ⟨b, hb, rfl⟩
      obtain ⟨a, ha, hab⟩ := h.superset ⟨b, hb, rfl⟩
      exact ⟨a, ha, hjoin a ha b hb hab⟩

/-! ## What contributes -/

/-- The dependencies that contribute to correctness. -/
def contributing (deps : List KernelIdentityRef) : Set KernelIdentityRef :=
  {d | d ∈ deps ∧ d.contributesToCorrectness = true}

namespace KernelIdentityRef

/-- The name and the stable id. -/
def named (d : KernelIdentityRef) : Str × UInt64 × UInt64 :=
  (d.name, d.idHi, d.idLo)

/-- All that says which dependency it is, and which version of it. -/
def identity (d : KernelIdentityRef) : Str × UInt64 × UInt64 × GraphGeneration × UInt32 × Str :=
  (d.name, d.idHi, d.idLo, d.generation, d.abi, d.contentDigest)

theorem named_of_identity {d d' : KernelIdentityRef} (h : d.identity = d'.identity) :
    d.named = d'.named := by
  simp only [identity, Prod.mk.injEq] at h
  simp only [named, h]

end KernelIdentityRef

/-- Lists that agree, as sets, in what contributes. -/
def SameDependencies (deps deps' : List KernelIdentityRef) : Prop :=
  KernelIdentityRef.identity '' contributing deps = KernelIdentityRef.identity '' contributing deps'

/-- Lists that agree, as sets, in the names and ids of what contributes. -/
def SameNames (deps deps' : List KernelIdentityRef) : Prop :=
  KernelIdentityRef.named '' contributing deps = KernelIdentityRef.named '' contributing deps'

/-- In fresh facts, contributing dependencies of one name are of one version. -/
theorem isDependencyFresh_iff {captured : List KernelIdentityRef} {request : CompatibilityFacts} :
    isDependencyFresh captured request = true ↔ ∀ d ∈ contributing request.dependencies,
      ∀ c ∈ contributing captured, c.name = d.name →
        c.generation = d.generation ∧ c.contentDigest = d.contentDigest ∧ c.abi = d.abi := by
  simp only [isDependencyFresh, contributing, List.all_eq_true, Bool.or_eq_true, Bool.not_eq_true',
    Bool.and_eq_false_iff, Bool.and_eq_true, beq_iff_eq, Set.mem_ofPred_eq]
  constructor
  · rintro h d ⟨hd, hcd⟩ c ⟨hc, hcc⟩ hname
    rcases h d hd with hno | hall
    · rw [hcd] at hno
      cases hno
    · rcases hall c hc with (hno | hno) | ⟨⟨hgen, hdigest⟩, habi⟩
      · simp [hname] at hno
      · rw [hcc] at hno
        cases hno
      · exact ⟨hgen, hdigest, habi⟩
  · intro h d hd
    by_cases hcd : d.contributesToCorrectness = true
    · refine .inr fun c hc => ?_
      by_cases hcc : c.name = d.name ∧ c.contributesToCorrectness = true
      · obtain ⟨hgen, hdigest, habi⟩ := h d ⟨hd, hcd⟩ c ⟨hc, hcc.2⟩ hcc.1
        exact .inr ⟨⟨hgen, hdigest⟩, habi⟩
      · rw [not_and_or, Bool.not_eq_true] at hcc
        exact .inl (hcc.imp_left fun hne => by simpa using hne)
    · exact .inl ((Bool.not_eq_true _).mp hcd)

/-- Fresh dependencies are the same when they have the same names and ids. -/
theorem sameDependencies_iff {captured : List KernelIdentityRef} {request : CompatibilityFacts}
    (h : isDependencyFresh captured request = true) :
    SameDependencies request.dependencies captured ↔ SameNames request.dependencies captured := by
  refine image_eq_iff_of_join (fun d d' => KernelIdentityRef.named_of_identity) ?_
  intro d hd c hc hnamed
  simp only [KernelIdentityRef.named, Prod.mk.injEq] at hnamed
  obtain ⟨hname, hhi, hlo⟩ := hnamed
  obtain ⟨hgen, hdigest, habi⟩ := isDependencyFresh_iff.mp h d hd c hc hname.symm
  simp only [KernelIdentityRef.identity, hname, hhi, hlo, hgen, hdigest, habi]

/-! ## Hits -/

section

variable {Exec : Type} {cfg : Config Exec}

/-- The facts of a leased entry : they were there before, or are those of the request, and they are
fresh for it and accepted. -/
theorem leased_facts {s : State Exec} (hi : s.toRegistry.Indexed) {req : GraphLookupRequest}
    {env : LookupEnv} {l : Lease Exec} (hl : (lookup cfg s req env).2.lease = some l) :
    ∃ facts, ((lookup cfg s req env).1.heap l.entry).facts = facts ∧
      isDependencyFresh facts.dependencies (makeFacts req) = true ∧
      Accepts (makeFacts req) facts req.policy ∧
      (l.entry < s.next ∧ (s.heap l.entry).facts = facts ∨
        ¬l.entry < s.next ∧ facts = makeFacts req) := by
  obtain ⟨s₁, hbase, -, hedits, hlease⟩ := lookup_spec cfg s req env
  obtain ⟨r', hhit⟩ := hlease l hl
  obtain ⟨⟨hmem, hcand, -⟩, -⟩ := scan_chosen hhit.chosen
  refine ⟨(s₁.heap l.entry).facts, (hedits.same l.entry).1.facts, hcand.fresh,
    (decideCompatibility_compatible _ _ _).mp hcand.compatible, ?_⟩
  cases hbase with
  | found hn hr hk =>
    rw [hr] at hmem ⊢
    exact .inl ⟨(hi.bucket _ _ hmem).1, rfl⟩
  | captured e hc hr =>
    obtain ⟨g, x, -, -, rfl⟩ := captureEntry_ok hc.2.2.2
    rw [hr] at hmem ⊢
    have hold : l.entry ∈ s.byWorkload (workloadKey req.workload) ∨ l.entry = s.next := by
      simpa [Registry.register, capturedEntry] using hmem
    rcases hold with hold | hnew
    · have hlt := (hi.bucket _ _ hold).1
      exact .inl ⟨hlt, by rw [register_heap_of_lt _ _ hlt]⟩
    · rw [hnew, register_heap_self]
      exact .inr ⟨lt_irrefl _, rfl⟩

/-- In every run, what a lookup hits depends on the same as its request exactly when the entry,
if it was there before, has the names and ids of the request. -/
theorem hit_dependencies (cfg : Config Exec) (store : Option Store) (history : List (Op Exec))
    (req : GraphLookupRequest) (env : LookupEnv) (l : Lease Exec)
    (hl : (lookup cfg (run cfg (.fresh store) history) req env).2.lease = some l) :
    SameDependencies req.descriptor.dependencies
        ((lookup cfg (run cfg (.fresh store) history) req env).1.heap l.entry).facts.dependencies ↔
      (l.entry < (run cfg (.fresh store) history).next → SameNames req.descriptor.dependencies
        ((run cfg (.fresh store) history).heap l.entry).facts.dependencies) := by
  have hi : (run cfg (.fresh store) history).toRegistry.Indexed :=
    indexed_run _ (indexed_fresh store) history
  obtain ⟨facts, hfacts, hfresh, -, hwhere⟩ := leased_facts hi hl
  have hdeps : (makeFacts req).dependencies = req.descriptor.dependencies := by simp [makeFacts]
  rw [hfacts, ← hdeps, sameDependencies_iff hfresh]
  rcases hwhere with ⟨hlt, hbefore⟩ | ⟨hnew, rfl⟩
  · rw [hbefore]
    exact ⟨fun h _ => h, fun h => h hlt⟩
  · exact ⟨fun _ h => absurd h hnew, fun _ => rfl⟩

end

/-- A request to scale one float, with dependencies. -/
def kernelRequest (dependencies : List KernelIdentityRef) : GraphLookupRequest where
  workload := { logicalName := str "w" }
  descriptor := {
    nodes := [{
      nodeId := ⟨0, 1⟩
      kernel := { name := str "scale" }
      memoryBytes := 4
      reactiveInputIndices := [0]
      reactiveOutputIndices := [0] }]
    dependencies }

/-- A kernel that contributes to correctness. -/
def gemm : KernelIdentityRef := { name := str "gemm", generation := 2 }

/-- The cache that captured the graph with these dependencies. -/
def capturedState (dependencies : List KernelIdentityRef) : State CpuGraph :=
  run (.cpu (.insertion _) .unit) (.fresh none) [.lookup (kernelRequest dependencies) {}]

set_option maxRecDepth 100000 in
/-- A graph that was captured with a kernel it depends on is hit by a request that does too. -/
theorem hit_dependencies_gemm :
    ∃ l, (lookup (.cpu (.insertion _) .unit) (capturedState [gemm]) (kernelRequest [gemm])
        {}).2.lease = some l ∧
      SameDependencies [gemm] ((lookup (.cpu (.insertion _) .unit) (capturedState [gemm])
        (kernelRequest [gemm]) {}).1.heap l.entry).facts.dependencies := by
  have hhit : ((lookup (.cpu (.insertion _) .unit) (capturedState [gemm]) (kernelRequest [gemm])
      {}).2.lease.map fun l => ((capturedState [gemm]).heap l.entry).facts.dependencies) =
        some [gemm] := by
    decide +kernel
  obtain ⟨l, hl, hdeps⟩ := Option.map_eq_some_iff.mp hhit
  have hnames : SameNames [gemm] ((capturedState [gemm]).heap l.entry).facts.dependencies := by
    rw [hdeps, SameNames]
  exact ⟨l, hl, (hit_dependencies (.cpu (.insertion _) .unit) none [.lookup (kernelRequest [gemm])
    {}] (kernelRequest [gemm]) {} l hl).mpr fun _ => hnames⟩

set_option maxRecDepth 100000 in
/-- A graph that was captured without dependencies is hit by a request that depends on a kernel. -/
theorem hit_dependencies_differ :
    ¬∀ l, (lookup (.cpu (.insertion _) .unit) (capturedState []) (kernelRequest [gemm])
        {}).2.lease = some l →
      SameDependencies [gemm] ((lookup (.cpu (.insertion _) .unit) (capturedState [])
        (kernelRequest [gemm]) {}).1.heap l.entry).facts.dependencies := by
  intro hsound
  have hhit : ((lookup (.cpu (.insertion _) .unit) (capturedState []) (kernelRequest [gemm])
      {}).2.lease.map fun l => ((lookup (.cpu (.insertion _) .unit) (capturedState [])
        (kernelRequest [gemm]) {}).1.heap l.entry).facts.dependencies) = some [] := by
    decide +kernel
  obtain ⟨l, hl, hdeps⟩ := Option.map_eq_some_iff.mp hhit
  have hsame := hsound l hl
  rw [hdeps] at hsame
  obtain ⟨d, ⟨hd, -⟩, -⟩ := hsame.subset ⟨_, ⟨List.mem_singleton_self _, rfl⟩, rfl⟩
  exact absurd hd List.not_mem_nil

end GraphCache
