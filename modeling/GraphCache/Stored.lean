import GraphCache.ExactHit
import GraphCache.Lanes
import Mathlib.Algebra.Order.BigOperators.Group.List

/-!
# Stored descriptors

What is lost when a descriptor is written and read back. `encode_node` of `serialization.cpp` and
the one of `topology.cpp` leave out the same fields, so the digests stay (`descriptorCodec_roundTrip`).

The executor of `cpu_backend.cpp` reads scalars that are left out. `stored_replay` : a descriptor is
executed as before when no kernel reads such a scalar, and only then, as far as a digest tells the
outputs apart that it was taken of.
-/

namespace GraphCache

/-! ## Digests -/

section

variable {ns : List GraphNodeDescriptor} {es : List GraphEdgeDescriptor}

theorem sortById_map {α : Type} {key : α → Id128} {f : α → α} (hf : ∀ a, key (f a) = key a)
    (l : List α) : sortById key (l.map f) = (sortById key l).map f :=
  (List.map_insertionSort _ _ f l fun a _ b _ => by simp only [hf]).symm

/-- The canonical topology does not see what a node does not write. -/
theorem canonicalTopology_normalize :
    canonicalTopology (ns.map (·.normalize)) es = canonicalTopology ns es := by
  have hencode : ∀ n : GraphNodeDescriptor, encodeNode n.normalize = encodeNode n := fun n => by
    rw [encodeNode, nodePayloads_normalize, encodeNode]
  have hsort : sortById (·.nodeId) (ns.map (·.normalize)) =
      (sortById (·.nodeId) ns).map (·.normalize) :=
    sortById_map (f := GraphNodeDescriptor.normalize) (fun _ => rfl) ns
  simp only [canonicalTopology, canonicalFields, hsort, List.length_map, List.flatMap_map, hencode]

theorem wellFormed_normalize : WellFormed (ns.map (·.normalize)) es ↔ WellFormed ns es := by
  have hids : (ns.map (·.normalize)).map (·.nodeId) = ns.map (·.nodeId) := by
    rw [List.map_map]
    rfl
  have hperm := List.Perm.of_eq hids
  exact ⟨fun h => h.perm hperm .rfl, fun h => h.perm hperm.symm .rfl⟩

end

theorem canonicalSemantic_stored (g : GraphDescriptor) :
    canonicalSemantic (canonicalizeTopology g.stored) =
      canonicalSemantic (canonicalizeTopology g) := by
  have htop : canonicalTopology g.stored.nodes g.stored.edges = canonicalTopology g.nodes g.edges :=
    canonicalTopology_normalize
  have hdeps : g.stored.dependencies.map (fun d => putBytes 218 (encodeDep d).take) =
      g.dependencies.map fun d => putBytes 218 (encodeDep d).take := by
    simp only [GraphDescriptor.stored, List.map_map]
    rfl
  have hcount : g.stored.dependencies.length = g.dependencies.length := List.length_map _
  simp only [canonicalSemantic, canonicalizeTopology, canonicalTopology_sortById, htop, hdeps,
    hcount]
  rfl

/-- `finalize` of a well formed graph, as the two digests and the id that tell it apart. -/
theorem finalize_eq {o : IterationOrder GraphNodeId} {g : GraphDescriptor}
    (h : WellFormed g.nodes g.edges) : ∃ g', g.finalize o = .ok g' ∧
      g'.topologyDigest = Sha256.compute (canonicalTopology g.nodes g.edges) ∧
      g'.semanticDigest = Sha256.compute (canonicalSemantic (canonicalizeTopology g)) ∧
      g'.artifactId = if g.artifactId.valid then g.artifactId else
        .ofDigest (Sha256.compute (canonicalSemantic (canonicalizeTopology g))) := by
  rw [GraphDescriptor.finalize, validateTopology_ok_iff.mpr h]
  refine ⟨_, rfl, ?_, rfl, rfl⟩
  simp [canonicalizeTopology]

/-- A descriptor within the limits of the codec is read back, with what is not written reset. If it
can be finalized, so can what is read back, with the same digests and id. -/
theorem descriptorCodec_roundTrip {g : GraphDescriptor} (h : CodecLimits g) :
    deserializeDescriptor (serializeDescriptor g) = .ok g.stored ∧
      ∀ (o o' : IterationOrder GraphNodeId) (g' : GraphDescriptor), g.finalize o = .ok g' →
        ∃ g'', g.stored.finalize o' = .ok g'' ∧ g''.topologyDigest = g'.topologyDigest ∧
          g''.semanticDigest = g'.semanticDigest ∧ g''.artifactId = g'.artifactId := by
  refine ⟨deserialize_serialize h, fun o o' g' hg' => ?_⟩
  have hwf : WellFormed g.nodes g.edges := validateTopology_ok_iff.mp (finalize_ok hg').1
  have hwf' : WellFormed g.stored.nodes g.stored.edges := wellFormed_normalize.mpr hwf
  obtain ⟨g₁, hg₁, htop, hsem, hid⟩ := finalize_eq (o := o) hwf
  obtain ⟨g'', hg'', htop', hsem', hid'⟩ := finalize_eq (o := o') hwf'
  obtain rfl : g₁ = g' := Except.ok.inj (hg₁.symm.trans hg')
  have hcanon : canonicalTopology g.stored.nodes g.stored.edges = canonicalTopology g.nodes g.edges :=
    canonicalTopology_normalize
  have hartifact : g.stored.artifactId = g.artifactId := rfl
  refine ⟨g'', hg'', ?_, ?_, ?_⟩
  · rw [htop', htop, hcanon]
  · rw [hsem', hsem, canonicalSemantic_stored]
  · rw [hid', hid, canonicalSemantic_stored, hartifact]

/-- A graph of one kernel that scales a float by an unspecialized factor. -/
def scaleGraph (factor : UInt64) : GraphDescriptor := (scaleRequest factor true).descriptor

theorem codecLimits_scaleGraph (factor : UInt64) : CodecLimits (scaleGraph factor) where
  nodes := Nat.le_of_ble_eq_true rfl
  edges := Nat.zero_le _
  dependencies := Nat.zero_le _
  node := fun n hn => by
    obtain rfl := List.mem_singleton.mp hn
    exact ⟨fun _ => Nat.zero_le _, Nat.le_of_ble_eq_true rfl, Nat.le_of_ble_eq_true rfl⟩
  size := by
    have hsame : descriptorFields (scaleGraph factor) = descriptorFields (scaleGraph 0) := rfl
    rw [hsame]
    decide +kernel

theorem wellFormed_scaleGraph (factor : UInt64) :
    WellFormed (scaleGraph factor).nodes (scaleGraph factor).edges :=
  validateTopology_ok_iff.mp (show validateTopology (.insertion _) _ _ = .ok () by rfl)

theorem descriptorCodec_roundTrip_scale :
    deserializeDescriptor (serializeDescriptor (scaleGraph 0x4000000000000000)) =
        .ok (scaleGraph 0x4000000000000000).stored ∧
      ∃ g' g'', (scaleGraph 0x4000000000000000).finalize (.insertion _) = .ok g' ∧
        (scaleGraph 0x4000000000000000).stored.finalize (.insertion _) = .ok g'' ∧
        g''.topologyDigest = g'.topologyDigest ∧ g''.semanticDigest = g'.semanticDigest ∧
        g''.artifactId = g'.artifactId := by
  obtain ⟨hread, hfinal⟩ := descriptorCodec_roundTrip (codecLimits_scaleGraph _)
  obtain ⟨g', hg', -⟩ := finalize_eq (o := .insertion _) (wellFormed_scaleGraph 0x4000000000000000)
  obtain ⟨g'', hg'', hsame⟩ := hfinal (.insertion _) (.insertion _) g' hg'
  exact ⟨hread, g', g'', hg', hg'', hsame⟩

/-! ## Scalars that a kernel reads -/

/-- The scalars that replaying the node reads are stored : it is no kernel, or they are
specialized, or there is no lane to compute, or the kernel reads zeros. -/
def GraphNodeDescriptor.ScalarStored (n : GraphNodeDescriptor) : Prop :=
  n.category = .kernel → n.scalar.specialized = false → 4 ≤ n.memoryBytes.toNat →
    (classifyKernel n).SameScalars n.scalar {}

theorem normalize_normalize (n : GraphNodeDescriptor) : n.normalize.normalize = n.normalize :=
  nodePayloads_inj (nodePayloads_normalize n)

theorem scalar_normalize {n : GraphNodeDescriptor} (h : n.scalar.specialized = false) :
    n.normalize.scalar = {} := by
  simp [GraphNodeDescriptor.normalize, h]

/-- Without lanes the scalar does not matter. -/
theorem replayNode_no_lanes {ops : FloatOps} {b : ReplayBuffers} {n : CpuNode}
    (h : n.bytes.toNat < 4) (s : ScalarSpecialization) (st : ReplayState) :
    replayNode ops b n st = replayNode ops b { n with scalar := s } st := by
  have hlanes : n.bytes.toNat / 4 = 0 := Nat.div_eq_of_lt h
  simp only [replayNode, hlanes, runCpuKernel]

/-- Where the scalars are stored, a node is replayed as it was. -/
theorem replayNode_stored {n : GraphNodeDescriptor} (h : n.ScalarStored) (ops : FloatOps)
    (b : ReplayBuffers) (st : ReplayState) :
    replayNode ops b (cpuNode n) st = replayNode ops b (cpuNode n.normalize) st := by
  cases hs : n.scalar.specialized with
  | true =>
    refine replayNode_congr (cpuNode_sameEffect (normalize_normalize n).symm fun _ hf => ?_) st
    rw [hs] at hf
    exact nomatch hf
  | false =>
    by_cases hlanes : 4 ≤ n.memoryBytes.toNat
    · refine replayNode_congr (cpuNode_sameEffect (normalize_normalize n).symm fun hk _ => ?_) st
      rw [scalar_normalize hs]
      exact h hk hs hlanes
    · have hcleared : ({ n with scalar := {} } : GraphNodeDescriptor).normalize =
          n.normalize.normalize := by
        rw [normalize_normalize]
        simp [GraphNodeDescriptor.normalize, hs]
      rw [replayNode_no_lanes (Nat.not_le.mp hlanes) {}]
      refine replayNode_congr (n := cpuNode { n with scalar := {} })
        (cpuNode_sameEffect hcleared fun _ _ => ?_) st
      rw [scalar_normalize hs]
      exact .refl _ _

/-! ## What kernels hash -/

/-- What a node adds to the hash once it is replayed. -/
def CpuNode.output (node : CpuNode) (b : ReplayBuffers) (mem : Memory) : List Bytes :=
  if node.category = .kernel then
    [(b.outputs[node.dstIndex.toNat]?.bind fun dst => mem.read dst node.bytes.toNat).getD []]
  else []

/-- What the kernels of a replay hash, one after the other. -/
def hashedOutputs (ops : FloatOps) (nodes : List CpuNode) (b : ReplayBuffers) :
    List GraphNodeId → ReplayState → List Bytes
  | [], _ => []
  | nid :: rest, st =>
    match nodes.find? fun n => n.id = nid with
    | none => []
    | some node =>
      match replayNode ops b node st with
      | some (.ok st') => node.output b st'.mem ++ hashedOutputs ops nodes b rest st'
      | _ => []

theorem replayNode_hash {ops : FloatOps} {b : ReplayBuffers} {node : CpuNode} {st st' : ReplayState}
    (h : replayNode ops b node st = some (.ok st')) :
    st'.hash = (node.output b st'.mem).foldl Sha256.update st.hash := by
  have hcopy : NodeCategory.memoryCopy ≠ .kernel := by decide
  have hset : NodeCategory.memorySet ≠ .kernel := by decide
  unfold replayNode at h
  dsimp only at h
  unfold CpuNode.output
  split_ifs at h with h₁ h₂ h₃
  · rw [h₁, if_neg hcopy]
    split at h
    · simp only [Option.bind_eq_bind, Option.bind_eq_some_iff, pure, Option.some.injEq,
        Except.ok.injEq] at h
      obtain ⟨data, -, mem, -, rfl⟩ := h
      rfl
    · simp [fail] at h
  · rw [h₂, if_neg hset]
    split at h
    · simp only [Option.bind_eq_bind, Option.bind_eq_some_iff, pure, Option.some.injEq,
        Except.ok.injEq] at h
      obtain ⟨mem, -, rfl⟩ := h
      rfl
    · simp [fail] at h
  · rw [if_pos h₃]
    split at h
    · rename_i src dst hsrc hdst
      simp only [Option.bind_eq_bind, Option.bind_eq_some_iff, pure, Option.some.injEq,
        Except.ok.injEq] at h
      obtain ⟨mem, -, data, hdata, rfl⟩ := h
      simp [hdst, hdata]
    · simp [fail] at h
  · rw [if_neg h₃]
    obtain rfl : st = st' := by simpa using h
    rfl

/-- The digest of a replay is the digest of what its kernels wrote. -/
theorem hash_replayLoop {ops : FloatOps} {nodes : List CpuNode} {b : ReplayBuffers} :
    ∀ {order : List GraphNodeId} {st st' : ReplayState} {mem : Memory},
      replayLoop ops nodes b order st = some (mem, .ok st') →
        st'.hash = (hashedOutputs ops nodes b order st).foldl Sha256.update st.hash
  | [], st, st', mem, h => by
    obtain ⟨-, rfl⟩ : st.mem = mem ∧ st = st' := by simpa [replayLoop] using h
    rfl
  | nid :: rest, st, st', mem, h => by
    rw [replayLoop] at h
    rw [hashedOutputs]
    cases hfind : nodes.find? fun n => n.id = nid with
    | none => simp [hfind, fail] at h
    | some node =>
      simp only [hfind] at h ⊢
      cases hnode : replayNode ops b node st with
      | none => simp [hnode] at h
      | some r =>
        cases r with
        | error e => simp [hnode] at h
        | ok st₁ =>
          simp only [hnode] at h ⊢
          rw [List.foldl_append, ← replayNode_hash hnode]
          exact hash_replayLoop h

/-! ## A replay that tells scalars apart -/

/-- Arithmetic that keeps a zero scalar apart from any other. -/
def FloatOps.telling : FloatOps where
  mul _ y := y
  add x y := x + y
  ofDouble d := if d = .zero then 0 else 1
  toDouble _ := .zero
  ofInt i := if i = 0 then 0 else 2
  positive _ := true

theorem kernelLane_telling {k : CpuKernel} {s : ScalarSpecialization} {x : UInt32}
    (h : kernelLane .telling k s x = kernelLane .telling k {} x) : k.SameScalars s {} := by
  cases k <;> simp only [kernelLane, FloatOps.telling, CpuKernel.SameScalars] at *
  case scale => by_contra hf; simp [hf] at h
  case addScalar => by_contra hf; simp [hf] at h
  case linear =>
    by_cases hf : s.floatValue = .zero <;> by_cases hi : s.intValue = 0
    · exact ⟨hf, hi⟩
    all_goals simp [hf, hi] at h

/-- Two arrays of `N` bytes each. -/
structure Roomy (N : ℕ) (m : Memory) : Prop where
  blocks : m.length = 2
  length : ∀ b ∈ m, b.length = N

section

variable {N : ℕ} {m : Memory} {p : Ptr}

theorem Roomy.block (h : Roomy N m) (hp : p.block < 2) :
    ∃ b, m[p.block]? = some b ∧ b.length = N := by
  have hlt : p.block < m.length := by rw [h.blocks]; exact hp
  exact ⟨m[p.block], List.getElem?_eq_getElem hlt, h.length _ (List.getElem_mem hlt)⟩

theorem Roomy.read (h : Roomy N m) (hp : p.block < 2) {n : ℕ} (hn : p.off + n ≤ N) :
    ∃ b, m[p.block]? = some b ∧ b.length = N ∧ m.read p n = some ((b.drop p.off).take n) := by
  obtain ⟨b, hb, hlen⟩ := h.block hp
  refine ⟨b, hb, hlen, ?_⟩
  unfold Memory.read
  split_ifs with hzero
  · simp [hzero]
  · rw [hb, Option.bind_some, if_pos (by omega)]

theorem Roomy.write (h : Roomy N m) (hp : p.block < 2) {data : Bytes}
    (hn : p.off + data.length ≤ N) (hdata : data ≠ []) :
    ∃ b, m[p.block]? = some b ∧ b.length = N ∧
      m.write p data =
        some (m.set p.block (b.take p.off ++ data ++ b.drop (p.off + data.length))) ∧
      Roomy N (m.set p.block (b.take p.off ++ data ++ b.drop (p.off + data.length))) := by
  obtain ⟨b, hb, hlen⟩ := h.block hp
  refine ⟨b, hb, hlen, ?_, ?_⟩
  · rw [Memory.write, if_neg hdata, hb, Option.bind_some, if_pos (by omega)]
  · refine ⟨by rw [List.length_set, h.blocks], fun c hc => ?_⟩
    rcases List.mem_or_eq_of_mem_set hc with hc | rfl
    · exact h.length c hc
    · simp only [List.length_append, List.length_take, List.length_drop]
      omega

theorem Roomy.write_any (h : Roomy N m) (hp : p.block < 2) (data : Bytes)
    (hn : p.off + data.length ≤ N) : ∃ m', m.write p data = some m' ∧ Roomy N m' := by
  by_cases hdata : data = []
  · exact ⟨m, by rw [Memory.write, if_pos hdata], h⟩
  · obtain ⟨_, -, -, hwrite, hroomy⟩ := h.write hp hn hdata
    exact ⟨_, hwrite, hroomy⟩

end

section

variable {N : ℕ} {m : Memory}

/-- One lane, from the first array to the second. -/
theorem runCpuKernel_lane (lane : UInt32 → UInt32) {n i : ℕ} (h : Roomy N m)
    (hn : 4 * (i + (n + 1)) ≤ N) : ∃ b₀ b m₁ c, m[0]? = some b₀ ∧ m[1]? = some b ∧
      runCpuKernel lane ⟨0, 0⟩ ⟨1, 0⟩ (n + 1) i m = runCpuKernel lane ⟨0, 0⟩ ⟨1, 0⟩ n (i + 1) m₁ ∧
      Roomy N m₁ ∧ m₁[1]? = some c ∧
      c = b.take (4 * i) ++ storeLane (lane (loadLane ((b₀.drop (4 * i)).take 4))) ++
        b.drop (4 * i + 4) ∧ 4 * i + 4 ≤ b.length := by
  obtain ⟨b₀, hb₀, -, hread⟩ := h.read (p := ⟨0, 4 * i⟩) (n := 4) Nat.two_pos (by dsimp only; omega)
  have hlane := length_storeLane (lane (loadLane ((b₀.drop (4 * i)).take 4)))
  obtain ⟨b, hb, hlen, hwrite, hroomy⟩ := h.write (p := ⟨1, 4 * i⟩) Nat.one_lt_two
    (by rw [hlane]; dsimp only; omega) (List.ne_nil_of_length_eq_add_one hlane)
  rw [hlane] at hwrite hroomy
  refine ⟨b₀, b, _, _, hb₀, hb, ?_, hroomy, ?_, rfl, by omega⟩
  · rw [runCpuKernel]
    simp only [Ptr.add, Nat.zero_add, hread, hwrite, Option.bind_eq_bind, Option.bind_some]
  · exact List.getElem?_set_self (by rw [h.blocks]; exact Nat.one_lt_two)

/-- Lanes after the first leave it alone. -/
theorem runCpuKernel_roomy (lane : UInt32 → UInt32) : ∀ {n i : ℕ} {m : Memory}, Roomy N m →
    4 * (i + n) ≤ N → ∃ m', runCpuKernel lane ⟨0, 0⟩ ⟨1, 0⟩ n i m = some m' ∧ Roomy N m' ∧
      (0 < i → (m'[1]?).map (List.take 4) = (m[1]?).map (List.take 4))
  | 0, _, m, h, _ => ⟨m, rfl, h, fun _ => rfl⟩
  | n + 1, i, m, h, hn => by
    obtain ⟨b₀, b, m₁, c, -, hb, hrun, h₁, hc, rfl, hle⟩ := runCpuKernel_lane lane (n := n) h hn
    obtain ⟨m', hm', h', hkeep⟩ := runCpuKernel_roomy lane (n := n) (i := i + 1) h₁ (by omega)
    refine ⟨m', by rw [hrun, hm'], h', fun hi => ?_⟩
    rw [hkeep (Nat.succ_pos i), hc, hb, Option.map_some, Option.map_some, List.append_assoc,
      List.take_append_of_le_length (by rw [List.length_take]; omega), List.take_take,
      Nat.min_eq_left (by omega)]

/-- What a kernel writes starts with its first lane. -/
theorem runCpuKernel_first (lane : UInt32 → UInt32) {n : ℕ} (h : Roomy N m) (hpos : 0 < n)
    (hn : 4 * n ≤ N) : ∃ b₀ m' c, m[0]? = some b₀ ∧
      runCpuKernel lane ⟨0, 0⟩ ⟨1, 0⟩ n 0 m = some m' ∧ Roomy N m' ∧ m'[1]? = some c ∧
      c.take 4 = storeLane (lane (loadLane (b₀.take 4))) := by
  obtain ⟨n, rfl⟩ := Nat.exists_eq_add_one.mpr hpos
  obtain ⟨b₀, b, m₁, c, hb₀, -, hrun, h₁, hc, rfl, -⟩ :=
    runCpuKernel_lane lane (n := n) (i := 0) h (by omega)
  obtain ⟨m', hm', h', hkeep⟩ := runCpuKernel_roomy lane (n := n) (i := 1) h₁ (by omega)
  obtain ⟨c', hc', -⟩ := h'.block (p := ⟨1, 0⟩) (by decide)
  refine ⟨b₀, m', c', hb₀, by rw [hrun, hm'], h', hc', ?_⟩
  have hkeep := hkeep Nat.one_pos
  simp only [hc', hc, Option.map_some, Option.some.injEq] at hkeep
  rw [hkeep]
  simp

end

/-- All inputs in one array and all outputs in another. -/
def roomyBuffers (N : ℕ) : ReplayBuffers where
  inputs := List.replicate (2 ^ 32) ⟨0, 0⟩
  outputs := List.replicate (2 ^ 32) ⟨1, 0⟩
  inputBytes := List.replicate (2 ^ 32) N
  outputBytes := List.replicate (2 ^ 32) N

section

variable {N : ℕ}

theorem roomyBuffers_inputs (i : UInt32) : (roomyBuffers N).inputs[i.toNat]? = some ⟨0, 0⟩ := by
  rw [roomyBuffers, List.getElem?_replicate_of_lt i.toNat_lt]

theorem roomyBuffers_outputs (i : UInt32) : (roomyBuffers N).outputs[i.toNat]? = some ⟨1, 0⟩ := by
  rw [roomyBuffers, List.getElem?_replicate_of_lt i.toNat_lt]

/-- In arrays that are large enough every node is replayed. -/
theorem replayNode_roomy (ops : FloatOps) {n : CpuNode} (hn : n.bytes.toNat ≤ N)
    {st : ReplayState} (h : Roomy N st.mem) :
    ∃ st', replayNode ops (roomyBuffers N) n st = some (.ok st') ∧ Roomy N st'.mem := by
  simp only [replayNode, roomyBuffers_inputs, roomyBuffers_outputs]
  split_ifs
  · obtain ⟨b, -, hlen, hread⟩ := h.read (p := ⟨0, 0⟩) (n := n.bytes.toNat) (by decide)
      (by dsimp only; omega)
    obtain ⟨m', hwrite, hroomy⟩ := h.write_any (p := ⟨1, 0⟩) (by decide)
      ((b.drop 0).take n.bytes.toNat) (by simp; omega)
    simp only [hread, hwrite, Option.bind_eq_bind, Option.bind_some]
    exact ⟨_, rfl, hroomy⟩
  · obtain ⟨m', hwrite, hroomy⟩ := h.write_any (p := ⟨1, 0⟩) (by decide)
      (List.replicate n.bytes.toNat n.memsetValue) (by simpa using hn)
    simp only [hwrite, Option.bind_eq_bind, Option.bind_some]
    exact ⟨_, rfl, hroomy⟩
  · obtain ⟨m', hrun, hroomy, -⟩ := runCpuKernel_roomy (kernelLane ops n.kernel n.scalar)
      (n := n.bytes.toNat / 4) (i := 0) h (by omega)
    obtain ⟨b, -, -, hread⟩ := hroomy.read (p := ⟨1, 0⟩) (n := n.bytes.toNat) (by decide)
      (by dsimp only; omega)
    simp only [hrun, hread, Option.bind_eq_bind, Option.bind_some]
    exact ⟨_, rfl, hroomy⟩
  · exact ⟨st, rfl, h⟩

/-- What a kernel hashes starts with its first lane. -/
theorem output_roomy (ops : FloatOps) {n : CpuNode} (hk : n.category = .kernel)
    (hlanes : 4 ≤ n.bytes.toNat) (hn : n.bytes.toNat ≤ N) {st : ReplayState}
    (h : Roomy N st.mem) : ∃ st' b₀ data,
      replayNode ops (roomyBuffers N) n st = some (.ok st') ∧ Roomy N st'.mem ∧
      st.mem[0]? = some b₀ ∧ n.output (roomyBuffers N) st'.mem = [data] ∧
      data.take 4 = storeLane (kernelLane ops n.kernel n.scalar (loadLane (b₀.take 4))) := by
  have hcopy : NodeCategory.kernel ≠ .memoryCopy := by decide
  have hset : NodeCategory.kernel ≠ .memorySet := by decide
  obtain ⟨b₀, m', c, hb₀, hrun, hroomy, hc, hfirst⟩ :=
    runCpuKernel_first (kernelLane ops n.kernel n.scalar) h (n := n.bytes.toNat / 4)
      (by omega) (by omega)
  obtain ⟨b, hb, -, hread⟩ := hroomy.read (p := ⟨1, 0⟩) (n := n.bytes.toNat) (by decide)
    (by dsimp only; omega)
  obtain rfl : c = b := Option.some.inj (hc.symm.trans hb)
  refine ⟨⟨m', st.hash.update (((c.drop 0).take n.bytes.toNat)), st.replayedNodes + 1⟩, b₀,
    (c.drop 0).take n.bytes.toNat, ?_, hroomy, hb₀, ?_, ?_⟩
  · simp only [replayNode, roomyBuffers_inputs, roomyBuffers_outputs, hk, if_neg hcopy,
      if_neg hset, if_true, hrun, hread, Option.bind_eq_bind, Option.bind_some]
    rfl
  · simp only [CpuNode.output, hk, if_true, roomyBuffers_outputs, Option.bind_some, hread,
      Option.getD_some]
  · rw [List.drop_zero, List.take_take, Nat.min_eq_left hlanes, hfirst]

end

/-! ## Replaying what is read back -/

theorem find_cpuNode {f : GraphNodeDescriptor → GraphNodeDescriptor}
    (hf : ∀ n, (f n).nodeId = n.nodeId) (ns : List GraphNodeDescriptor) (nid : GraphNodeId) :
    ((ns.map f).map cpuNode).find? (fun n => n.id = nid) =
      (ns.find? fun n => n.nodeId = nid).map fun n => cpuNode (f n) := by
  rw [List.map_map, List.find?_map]
  have hpred : (fun n : CpuNode => decide (n.id = nid)) ∘ cpuNode ∘ f =
      fun n => decide (n.nodeId = nid) := by
    funext n
    simp [cpuNode, hf]
  rw [hpred]
  rfl

/-- Where the hashed outputs are the same, the nodes replayed had their scalars stored. -/
theorem stored_of_hashed {N : ℕ} {ns : List GraphNodeDescriptor}
    (hN : ∀ n ∈ ns, n.memoryBytes.toNat ≤ N) : ∀ {order : List GraphNodeId} {st : ReplayState},
    Roomy N st.mem →
    hashedOutputs .telling (ns.map cpuNode) (roomyBuffers N) order st =
      hashedOutputs .telling ((ns.map (·.normalize)).map cpuNode) (roomyBuffers N) order st →
    (∀ nid ∈ order, (ns.find? fun n => n.nodeId = nid).isSome) →
    ∀ nid ∈ order, ∀ n, (ns.find? fun n => n.nodeId = nid) = some n → n.ScalarStored
  | [], _, _, _, _ => by simp
  | cur :: rest, st, hroomy, hsame, hall => by
    obtain ⟨n, hn⟩ := Option.isSome_iff_exists.mp (hall cur (by simp))
    have hmem := hN n (List.mem_of_find?_eq_some hn)
    have hfind : (ns.map cpuNode).find? (fun n => n.id = cur) = some (cpuNode n) := by
      have := find_cpuNode (f := id) (fun _ => rfl) ns cur
      rwa [List.map_id, hn] at this
    have hfind' : ((ns.map (·.normalize)).map cpuNode).find? (fun n => n.id = cur) =
        some (cpuNode n.normalize) := by
      rw [find_cpuNode (f := (·.normalize)) (fun _ => rfl), hn, Option.map_some]
    rw [hashedOutputs, hashedOutputs] at hsame
    simp only [hfind, hfind'] at hsame
    have hstored : n.ScalarStored := by
      intro hk hs hlanes
      have hkernel : (cpuNode n.normalize).kernel = classifyKernel n := by
        simp [cpuNode, classifyKernel, GraphNodeDescriptor.normalize, hk]
      obtain ⟨st₁, b₀, data, hst₁, -, hb₀, hout, hdata⟩ :=
        output_roomy .telling (n := cpuNode n) hk hlanes hmem hroomy
      obtain ⟨st₂, b₀', data', hst₂, -, hb₀', hout', hdata'⟩ :=
        output_roomy .telling (n := cpuNode n.normalize) hk hlanes hmem hroomy
      obtain rfl : b₀ = b₀' := Option.some.inj (hb₀.symm.trans hb₀')
      simp only [hst₁, hst₂, hout, hout', List.singleton_append, List.cons.injEq] at hsame
      rw [← hsame.1, hdata, hkernel] at hdata'
      have hlane := storeLane_injective hdata'
      rw [show (cpuNode n.normalize).scalar = {} from scalar_normalize hs] at hlane
      exact kernelLane_telling hlane
    obtain ⟨st', hst', hroomy'⟩ := replayNode_roomy .telling (n := cpuNode n) hmem hroomy
    have houtput : (cpuNode n.normalize).output (roomyBuffers N) st'.mem =
        (cpuNode n).output (roomyBuffers N) st'.mem := rfl
    rw [← replayNode_stored hstored] at hsame
    simp only [hst', houtput, List.append_cancel_left_eq] at hsame
    have hrest := stored_of_hashed hN hroomy' hsame fun nid hnid => hall nid (by simp [hnid])
    intro nid hnid m hm
    rcases List.mem_cons.mp hnid with rfl | hnid
    · rwa [← Option.some.inj (hn.symm.trans hm)]
    · exact hrest nid hnid m hm

/-! ## The codec and execution -/

/-- Two captures replay alike, whatever the arithmetic on floats, the buffers and the memory. -/
def CpuGraph.ReplaysAlike (x x' : CpuGraph) : Prop :=
  ∀ ops b rd mem, cpuReplay ops x b rd mem = cpuReplay ops x' b rd mem

/-- What is read back is captured and replays as the descriptor that was written. -/
def CodecPreservesReplay (o o' : IterationOrder GraphNodeId) (d : GraphDescriptor) : Prop :=
  ∃ d' x x', deserializeDescriptor (serializeDescriptor d) = .ok d' ∧ cpuCapture o d = .ok x ∧
    cpuCapture o' d' = .ok x' ∧ x.ReplaysAlike x'

/-- The replays of two captures over these arrays hash different outputs to one digest. -/
def CpuGraph.Collide (x x' : CpuGraph) (ops : FloatOps) (b : ReplayBuffers) (mem : Memory) : Prop :=
  hashedOutputs ops x.nodes b x.order ⟨mem, .reset, 0⟩ ≠
      hashedOutputs ops x'.nodes b x'.order ⟨mem, .reset, 0⟩ ∧
    ((hashedOutputs ops x.nodes b x.order ⟨mem, .reset, 0⟩).foldl Sha256.update .reset).final =
      ((hashedOutputs ops x'.nodes b x'.order ⟨mem, .reset, 0⟩).foldl Sha256.update .reset).final

theorem replayLoop_roomy (ops : FloatOps) {N : ℕ} {nodes : List CpuNode} :
    ∀ {order : List GraphNodeId} (st : ReplayState), Roomy N st.mem →
      (∀ nid ∈ order, ∃ n, (nodes.find? fun n => n.id = nid) = some n ∧ n.bytes.toNat ≤ N) →
        ∃ st', replayLoop ops nodes (roomyBuffers N) order st = some (st'.mem, .ok st')
  | [], st, _, _ => ⟨st, rfl⟩
  | nid :: rest, st, h, hall => by
    obtain ⟨n, hn, hbytes⟩ := hall nid (by simp)
    obtain ⟨st₁, hst₁, h₁⟩ := replayNode_roomy ops hbytes h
    obtain ⟨st', hst'⟩ := replayLoop_roomy ops st₁ h₁ (List.forall_mem_cons.mp hall).2
    refine ⟨st', ?_⟩
    rw [replayLoop]
    simp only [hn, hst₁, hst']

/-- Alike replays of arrays that are large enough hash the same outputs, unless they collide. -/
theorem hashed_of_replaysAlike {x x' : CpuGraph} {ops : FloatOps} {b : ReplayBuffers} {mem : Memory}
    (halike : x.ReplaysAlike x') (htell : ¬x.Collide x' ops b mem) {st st' : ReplayState}
    (hst : replayLoop ops x.nodes b x.order ⟨mem, .reset, 0⟩ = some (st.mem, .ok st))
    (hst' : replayLoop ops x'.nodes b x'.order ⟨mem, .reset, 0⟩ = some (st'.mem, .ok st')) :
    hashedOutputs ops x.nodes b x.order ⟨mem, .reset, 0⟩ =
      hashedOutputs ops x'.nodes b x'.order ⟨mem, .reset, 0⟩ := by
  by_contra hne
  refine htell ⟨hne, ?_⟩
  have hreplay := halike ops b {} mem
  simp only [cpuReplay, hst, hst', Option.map_some, Option.some.injEq, Prod.mk.injEq, bind,
    Except.bind, pure, Except.pure, Except.ok.injEq, GraphReplayResult.mk.injEq] at hreplay
  rw [← hash_replayLoop hst, ← hash_replayLoop hst']
  exact hreplay.2.2.2.2.1

/-- With every scalar stored, the nodes of a descriptor and those read back do the same. -/
theorem rel_find_stored {ns : List GraphNodeDescriptor} (hstored : ∀ n ∈ ns, n.ScalarStored)
    (ops : FloatOps) (b : ReplayBuffers) (nid : GraphNodeId) :
    Option.Rel (fun n n' => ∀ st, replayNode ops b n st = replayNode ops b n' st)
      ((ns.map cpuNode).find? fun n => n.id = nid)
      (((ns.map (·.normalize)).map cpuNode).find? fun n => n.id = nid) := by
  have hfind := find_cpuNode (f := id) (fun _ => rfl) ns nid
  rw [List.map_id] at hfind
  rw [hfind, find_cpuNode (f := (·.normalize)) (fun _ => rfl)]
  cases hn : ns.find? fun n => n.nodeId = nid with
  | none => exact .none
  | some n => exact .some (replayNode_stored (hstored n (List.mem_of_find?_eq_some hn)) ops b)

/-- The memory that every node of the list fits. -/
def roomFor (ns : List GraphNodeDescriptor) : ℕ :=
  (ns.map fun n => n.memoryBytes.toNat).sum

/-- Two arrays of `N` zeros. -/
def roomyMemory (N : ℕ) : Memory := [List.replicate N 0, List.replicate N 0]

theorem roomy_roomyMemory (N : ℕ) : Roomy N (roomyMemory N) := ⟨rfl, by simp [roomyMemory]⟩

theorem memoryBytes_le_roomFor {ns : List GraphNodeDescriptor} {n : GraphNodeDescriptor}
    (hn : n ∈ ns) : n.memoryBytes.toNat ≤ roomFor ns :=
  List.single_le_sum (by simp) _ (List.mem_map_of_mem (f := fun n => n.memoryBytes.toNat) hn)

/-- The ids to execute are found, whatever is done to the nodes besides. -/
theorem found_roomy {f : GraphNodeDescriptor → GraphNodeDescriptor}
    (hid : ∀ n, (f n).nodeId = n.nodeId) (hbytes : ∀ n, (f n).memoryBytes = n.memoryBytes)
    {ns : List GraphNodeDescriptor} {order : List GraphNodeId}
    (hsome : ∀ nid ∈ order, (ns.find? fun n => n.nodeId = nid).isSome) :
    ∀ nid ∈ order, ∃ n, ((ns.map f).map cpuNode).find? (fun n => n.id = nid) = some n ∧
      n.bytes.toNat ≤ roomFor ns := by
  intro nid hnid
  obtain ⟨n, hn⟩ := Option.isSome_iff_exists.mp (hsome nid hnid)
  refine ⟨cpuNode (f n), by rw [find_cpuNode hid, hn, Option.map_some], ?_⟩
  have hmem := memoryBytes_le_roomFor (List.mem_of_find?_eq_some hn)
  rwa [← hbytes] at hmem

/-- If a descriptor and what is read back replay alike over large arrays, the scalars of the nodes
executed were stored, unless the outputs collide. -/
theorem stored_of_replaysAlike {o : IterationOrder GraphNodeId} {d : GraphDescriptor}
    (hwf : WellFormed d.nodes d.edges) {x x' : CpuGraph}
    (hx : x = ⟨d.nodes.map cpuNode, executionOrder o d⟩)
    (hx' : x' = ⟨(d.nodes.map (·.normalize)).map cpuNode, executionOrder o d⟩)
    (halike : x.ReplaysAlike x') (htell : ¬x.Collide x' .telling (roomyBuffers (roomFor d.nodes))
      (roomyMemory (roomFor d.nodes))) : ∀ n ∈ d.nodes, n.ScalarStored := by
  subst hx hx'
  intro n hn
  have hroomy := roomy_roomyMemory (roomFor d.nodes)
  have hids : ∀ {nid}, nid ∈ executionOrder o d ↔ nid ∈ d.nodes.map (·.nodeId) :=
    (executionOrder_perm hwf).mem_iff
  have hsome : ∀ nid ∈ executionOrder o d, (d.nodes.find? fun n => n.nodeId = nid).isSome := by
    intro nid hnid
    obtain ⟨n, hn, rfl⟩ := List.mem_map.mp (hids.mp hnid)
    exact List.find?_isSome.mpr ⟨n, hn, by simp⟩
  obtain ⟨st, hst⟩ := replayLoop_roomy .telling ⟨_, .reset, 0⟩ hroomy
    (found_roomy (f := id) (fun _ => rfl) (fun _ => rfl) hsome)
  obtain ⟨st', hst'⟩ := replayLoop_roomy .telling ⟨_, .reset, 0⟩ hroomy
    (found_roomy (f := (·.normalize)) (fun _ => rfl) (fun _ => rfl) hsome)
  rw [List.map_id] at hst
  have hsame := hashed_of_replaysAlike halike htell hst hst'
  have hmem : n.nodeId ∈ executionOrder o d := hids.mpr (List.mem_map_of_mem hn)
  obtain ⟨m, hm⟩ := Option.isSome_iff_exists.mp (hsome n.nodeId hmem)
  have hid : m.nodeId = n.nodeId := by simpa using List.find?_some hm
  obtain rfl := List.inj_on_of_nodup_map hwf.nodeIds (List.mem_of_find?_eq_some hm) hn hid
  exact stored_of_hashed (fun _ => memoryBytes_le_roomFor) hroomy hsame hsome m.nodeId hmem m hm

/-- A descriptor is executed as before it was written when every scalar that a kernel reads is
stored, and only then, or two replays with other outputs have one digest. -/
theorem stored_replay (o o' : IterationOrder GraphNodeId) {d g : GraphDescriptor}
    (hlim : CodecLimits d) (hfin : d.finalize o = .ok g) :
    ((∀ n ∈ d.nodes, n.ScalarStored) → CodecPreservesReplay o o' d) ∧
      (CodecPreservesReplay o o' d → (∀ n ∈ d.nodes, n.ScalarStored) ∨
        ∃ x x', cpuCapture o d = .ok x ∧ cpuCapture o' d.stored = .ok x' ∧
          x.Collide x' .telling (roomyBuffers (roomFor d.nodes))
            (roomyMemory (roomFor d.nodes))) := by
  have hwf : WellFormed d.nodes d.edges := validateTopology_ok_iff.mp (finalize_ok hfin).1
  have hwf' : WellFormed d.stored.nodes d.stored.edges := wellFormed_normalize.mpr hwf
  have hx : cpuCapture o d = .ok ⟨d.nodes.map cpuNode, executionOrder o d⟩ :=
    cpuCapture_ok_iff.mpr ⟨hwf, rfl⟩
  have hx' : cpuCapture o' d.stored = .ok ⟨(d.nodes.map (·.normalize)).map cpuNode,
    executionOrder o' d.stored⟩ := cpuCapture_ok_iff.mpr ⟨hwf', rfl⟩
  have horder : executionOrder o d = executionOrder o' d.stored := by
    refine executionOrder_eq o o' ?_ .rfl
    simp only [GraphDescriptor.stored, List.map_map]
    exact .rfl
  have hread := deserialize_serialize hlim
  constructor
  · intro hstored
    refine ⟨d.stored, _, _, hread, hx, hx', fun ops b rd mem => ?_⟩
    simp only [cpuReplay, ← horder, replayLoop_congr_of_nodes (rel_find_stored hstored ops b)]
  · rintro ⟨d', x, x', hd', hcap, hcap', halike⟩
    obtain rfl : d.stored = d' := Except.ok.inj (hread.symm.trans hd')
    refine or_iff_not_imp_right.mpr fun htell => ?_
    refine stored_of_replaysAlike hwf (Except.ok.inj (hcap.symm.trans hx)) ?_ halike
      fun hcollide => htell ⟨x, x', hcap, hcap', hcollide⟩
    rw [horder]
    exact Except.ok.inj (hcap'.symm.trans hx')

theorem stored_replay_zero :
    CodecPreservesReplay (.insertion _) (.insertion _) (scaleGraph 0) ∧
      ∀ n ∈ (scaleGraph 0).nodes, n.ScalarStored := by
  obtain ⟨g, hg, -⟩ := finalize_eq (o := .insertion _) (wellFormed_scaleGraph 0)
  obtain ⟨hkeeps, honly⟩ :=
    stored_replay (.insertion _) (.insertion _) (codecLimits_scaleGraph 0) hg
  have hpreserves : CodecPreservesReplay (.insertion _) (.insertion _) (scaleGraph 0) := by
    refine hkeeps fun n hn _ _ _ => ?_
    obtain rfl := List.mem_singleton.mp hn
    exact .refl _ _
  refine ⟨hpreserves, (honly hpreserves).resolve_right ?_⟩
  rintro ⟨x, x', hx, hx', hne, -⟩
  have hsame : (scaleGraph 0).stored = scaleGraph 0 := by decide +kernel
  rw [hsame] at hx'
  obtain rfl := Except.ok.inj (hx.symm.trans hx')
  exact hne rfl

set_option maxRecDepth 100000 in
/-- A kernel that scales by two scales by zero once it is read back. -/
theorem stored_replay_differs :
    CodecLimits (scaleGraph 0x4000000000000000) ∧
      (∃ g, (scaleGraph 0x4000000000000000).finalize (.insertion _) = .ok g) ∧
      ¬CodecPreservesReplay (.insertion _) (.insertion _) (scaleGraph 0x4000000000000000) := by
  obtain ⟨g, hg, -⟩ := finalize_eq (o := .insertion _) (wellFormed_scaleGraph 0x4000000000000000)
  refine ⟨codecLimits_scaleGraph _, ⟨g, hg⟩, ?_⟩
  rintro ⟨d', x, x', hd', hx, hx', halike⟩
  obtain rfl := Except.ok.inj ((deserialize_serialize (codecLimits_scaleGraph _)).symm.trans hd')
  have hreplay := halike .unit ⟨[⟨0, 0⟩], [⟨1, 0⟩], [4], [4]⟩ {} [[0, 0, 0x80, 0x3F], [0, 0, 0, 0]]
  have hbefore : ((cpuCapture (.insertion _) (scaleGraph 0x4000000000000000)).toOption.bind
      fun x => (cpuReplay .unit x ⟨[⟨0, 0⟩], [⟨1, 0⟩], [4], [4]⟩ {}
        [[0, 0, 0x80, 0x3F], [0, 0, 0, 0]]).map Prod.fst) =
      some [[0, 0, 0x80, 0x3F], [0, 0, 0, 0x40]] := by decide +kernel
  have hafter : ((cpuCapture (.insertion _) (scaleGraph 0x4000000000000000).stored).toOption.bind
      fun x => (cpuReplay .unit x ⟨[⟨0, 0⟩], [⟨1, 0⟩], [4], [4]⟩ {}
        [[0, 0, 0x80, 0x3F], [0, 0, 0, 0]]).map Prod.fst) =
      some [[0, 0, 0x80, 0x3F], [0, 0, 0x80, 0x3F]] := by decide +kernel
  rw [hx] at hbefore
  rw [hx'] at hafter
  have hsame := hbefore.symm.trans ((congrArg (Option.map Prod.fst) hreplay).trans hafter)
  exact absurd hsame (by decide)

end GraphCache
