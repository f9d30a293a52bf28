import GraphCache.Evolution
import GraphCache.History

/-!
# Tenants

A lookup walks the bucket of `name + "|" + namespace`, a concatenation that two pairs of strings
may share. The decision compares the names, and where the names agree the bucket tells the
namespaces apart : so a hit is on an entry that was captured, or recovered, under both strings of
the request (`tenant_isolation`).
-/

namespace GraphCache

open History

variable {Exec : Type} {cfg : Config Exec}

/-- The operation registers an entry at address `a`, under workload `wl` : a lookup under that of
its request, a recovery under that of the record. -/
def FiledUnder (cfg : Config Exec) (a : ℕ) (wl : WorkloadIdentity) (s : State Exec) :
    Op Exec → Prop
  | .lookup req env => a = s.next ∧ wl = req.workload ∧ ∃ e, Captures cfg s req env e
  | .recover listing => ∃ store pre id post, ∃ e : CacheEntry Exec, s.store = some store ∧
      listing.arrange store.keys = pre ++ id :: post ∧
      a = (pre.foldl (recoverEntry store) s).next ∧ loadEntry store id = some e ∧ wl = e.workload
  | _ => False

theorem filedUnder_of_registers {s : State Exec} {op : Op Exec} {r : Registry Exec}
    {e : CacheEntry Exec} (h : Registers cfg s op r e) : FiledUnder cfg r.next e.workload s op := by
  cases op with
  | lookup req env =>
    obtain ⟨rfl, hcaptures⟩ := h
    obtain ⟨-, -, -, hcap⟩ := id hcaptures
    obtain ⟨g, x, -, -, rfl⟩ := captureEntry_ok hcap
    exact ⟨rfl, rfl, _, hcaptures⟩
  | recover listing =>
    obtain ⟨store, pre, id, post, hs, hlist, rfl, hload⟩ := h
    exact ⟨store, pre, id, post, e, hs, hlist, rfl, hload, rfl⟩
  | _ => exact h.elim

/-- The facts of an entry are about its workload. -/
def Registry.OwnFacts (r : Registry Exec) : Prop :=
  ∀ a < r.next, (r.heap a).facts.workload = (r.heap a).workload

theorem ownFacts_of_registers {s : State Exec} {op : Op Exec} {r : Registry Exec}
    {e : CacheEntry Exec} (h : Registers cfg s op r e) : e.facts.workload = e.workload := by
  cases op with
  | lookup req env =>
    obtain ⟨-, -, -, -, hcap⟩ := h
    obtain ⟨g, x, -, -, rfl⟩ := captureEntry_ok hcap
    simp [capturedEntry, makeFacts]
  | recover listing =>
    obtain ⟨store, pre, id, post, -, -, -, hload⟩ := h
    obtain ⟨g, md, rfl⟩ := loadEntry_some hload
    simp [recoveredEntry, factsFromDescriptorAndWorkload]
  | _ => exact h.elim

variable (cfg) in
theorem ownFacts_run (store : Option Store) (ops : List (Op Exec)) :
    (run cfg (.fresh store) ops).toRegistry.OwnFacts := by
  refine run_invariant (I := Registry.OwnFacts) ?_ ?_ ops _ ?_
  · intro M r a e h he b hb
    rw [(he.set_spec b).1.facts, (he.set_spec b).1.workload]
    exact h b hb
  · intro s op r e h hreg b hb
    rcases Nat.lt_succ_iff_lt_or_eq.mp hb with hb | rfl
    · rw [register_heap_of_lt r e hb]
      exact h b hb
    · rw [register_heap_self]
      exact ownFacts_of_registers hreg
  · intro a ha
    simp [State.fresh] at ha

variable (cfg) in
/-- An entry was there before, under the same workload, or the operation files it. -/
theorem filedUnder_step (s : State Exec) (op : Op Exec) :
    ∀ a < (step cfg s op).next,
      (a < s.next ∧ ((step cfg s op).heap a).workload = (s.heap a).workload) ∨
        FiledUnder cfg a ((step cfg s op).heap a).workload s op := by
  intro a ha
  rcases step_origin cfg s op a ha with ⟨hlt, hsame, -⟩ | ⟨r, e, hreg, rfl, hsame, -⟩
  · exact .inl ⟨hlt, hsame.workload⟩
  · rw [hsame.workload]
    exact .inr (filedUnder_of_registers hreg)

variable (cfg) in
/-- Every entry of a run was filed under its workload. -/
theorem filedUnder_run (store : Option Store) (ops : List (Op Exec)) :
    ∀ a < (run cfg (.fresh store) ops).next, Once (step cfg) (.fresh store)
      (FiledUnder cfg a ((run cfg (.fresh store) ops).heap a).workload) ops := by
  induction ops using List.reverseRecOn with
  | nil =>
    intro a ha
    simp [run, State.fresh] at ha
  | append_singleton ops op ih =>
    rw [run_concat]
    intro a ha
    rcases filedUnder_step cfg _ op a ha with ⟨hlt, hwl⟩ | hfiled
    · rw [hwl]
      exact (ih a hlt).append [op]
    · exact .last hfiled

/-- Of two workloads with one name, the bucket tells the namespaces apart. -/
theorem namespaceName_of_workloadKey {wl wl' : WorkloadIdentity}
    (hname : wl.logicalName = wl'.logicalName) (hkey : workloadKey wl = workloadKey wl') :
    wl.namespaceName = wl'.namespaceName := by
  unfold workloadKey at hkey
  rw [hname] at hkey
  exact List.append_cancel_left hkey

/-- A hit is on an entry that was captured or recovered under the name and the namespace of the
request. -/
theorem tenant_isolation (cfg : Config Exec) (store : Option Store) (history : List (Op Exec))
    (req : GraphLookupRequest) (env : LookupEnv) (l : Lease Exec)
    (hl : (lookup cfg (run cfg (.fresh store) history) req env).2.lease = some l) :
    ∃ wl, Once (step cfg) (.fresh store) (FiledUnder cfg l.entry wl)
        (history ++ [.lookup req env]) ∧
      wl.logicalName = req.workload.logicalName ∧
      wl.namespaceName = req.workload.namespaceName := by
  set s := run cfg (.fresh store) history
  have hrun : run cfg (.fresh store) (history ++ [.lookup req env]) = (lookup cfg s req env).1 :=
    after_concat
  obtain ⟨s₁, hbase, -, hedits, hlease⟩ := lookup_spec cfg s req env
  obtain ⟨r', hhit⟩ := hlease l hl
  obtain ⟨⟨hmem, hcand, -⟩, -⟩ := scan_chosen hhit.chosen
  have hi : s₁.toRegistry.Indexed := hbase.evolves.invariant
    (indexed_run _ (indexed_fresh store) history) (fun _ _ _ h he => h.set he)
    (fun _ e h _ => h.register e)
  obtain ⟨hlt, hkey⟩ := hi.bucket _ _ hmem
  obtain ⟨hsame, hnext⟩ := hedits.same l.entry
  have hlt' : l.entry < (lookup cfg s req env).1.next := hnext ▸ hlt
  have hwl : ((lookup cfg s req env).1.heap l.entry).workload = (s₁.heap l.entry).workload :=
    hsame.workload
  have hown := ownFacts_run cfg store (history ++ [.lookup req env])
  have hfiled := filedUnder_run cfg store (history ++ [.lookup req env])
  rw [hrun] at hown hfiled
  have hname : (s₁.heap l.entry).workload.logicalName = req.workload.logicalName := by
    have haccepts := (decideCompatibility_compatible _ _ _).mp hcand.compatible
    have hfacts := hown l.entry hlt'
    rw [hsame.facts, hwl] at hfacts
    rw [← hfacts, ← haccepts.logicalName]
    simp [makeFacts]
  refine ⟨_, hfiled l.entry hlt', hwl ▸ hname, hwl ▸ ?_⟩
  refine namespaceName_of_workloadKey hname (hkey.trans ?_)
  simp [makeFacts]

/-- A request of the workload `name` in the namespace `ns`, of the empty graph. -/
def tenantRequest (name ns : String) : GraphLookupRequest where
  workload := { logicalName := str name, namespaceName := str ns }
  allowCapture := true

set_option maxRecDepth 100000 in
theorem tenant_isolation_separator : ∃ l wl,
    (lookup (.cpu (.insertion _) .unit) (run (.cpu (.insertion _) .unit) (.fresh none)
      [.lookup (tenantRequest "a" "b") {}]) (tenantRequest "a|b" "c") {}).2.lease = some l ∧
    Once (step (.cpu (.insertion _) .unit)) (.fresh none)
      (FiledUnder (.cpu (.insertion _) .unit) l.entry wl)
      [.lookup (tenantRequest "a" "b") {}, .lookup (tenantRequest "a|b" "c") {}] ∧
    wl.logicalName = str "a|b" ∧ wl.namespaceName = str "c" := by
  have hsome : (lookup (.cpu (.insertion _) .unit) (run (.cpu (.insertion _) .unit) (.fresh none)
      [.lookup (tenantRequest "a" "b") {}]) (tenantRequest "a|b" "c") {}).2.lease.isSome = true := by
    decide +kernel
  obtain ⟨l, hl⟩ := Option.isSome_iff_exists.mp hsome
  obtain ⟨wl, hfiled, hname, hns⟩ := tenant_isolation (.cpu (.insertion _) .unit) none
    [.lookup (tenantRequest "a" "b") {}] (tenantRequest "a|b" "c") {} l hl
  exact ⟨l, wl, hl, hfiled, hname, hns⟩

end GraphCache
