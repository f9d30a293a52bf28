import GraphCache.Protocol
import Mathlib.Algebra.BigOperators.Ring.List
import Mathlib.Algebra.Order.BigOperators.Group.List

/-!
# The size of what is read

A decoder returns nothing that it has not read : the strings and lists of a value together are no
longer than the bytes it was decoded from (`Spends`), and a nested stream costs six bytes more. So
the canonical encoding of a descriptor that arrives in a payload is at most some seventy times as
long as the payload (`length_canonicalTopology_of_readCapture`), and `MaxPayloadSize` keeps it
below 4 GiB.
-/

open BigEndian

namespace GraphCache

/-! ## Readers -/

section

variable {ε α β : Type} {c : ℕ}

/-- What `x` returns, with what it leaves, weighs no more than `c` and what it was given. -/
def Spends (c : ℕ) (w : α → ℕ) (x : StateT Bytes (Except ε) α) : Prop :=
  ∀ bytes a rest, x bytes = .ok (a, rest) → w a + rest.length ≤ c + bytes.length

theorem Spends.pure {w : α → ℕ} {a : α} (h : w a ≤ c) :
    Spends c w (Pure.pure a : StateT Bytes (Except ε) α) := by
  intro bytes a' rest hrun
  obtain ⟨rfl, rfl⟩ := Prod.mk.inj (Except.ok.inj hrun)
  omega

theorem Spends.bind {w : α → ℕ} {w' : β → ℕ} {x : StateT Bytes (Except ε) α}
    {k : α → StateT Bytes (Except ε) β} (hx : Spends c w x) (hk : ∀ a, Spends (w a) w' (k a)) :
    Spends c w' (x >>= k) := by
  intro bytes b rest hrun
  simp only [Bind.bind, StateT.bind, Except.bind] at hrun
  split at hrun
  · cases hrun
  · rename_i ar hx'
    exact (hk ar.1 ar.2 b rest hrun).trans (hx bytes ar.1 ar.2 hx')

/-- A field takes six bytes besides its payload. -/
theorem CanonicalReader.length_next {r r' : CanonicalReader} {f : Field}
    (h : r.next = (some f, r')) : f.payload.length + 6 + r'.rest.length = r.rest.length := by
  unfold next at h
  split at h
  · cases h
  · dsimp only at h
    split_ifs at h with hlen
    · cases h
    · rename_i heq
      simp only [Prod.mk.injEq, Option.some.injEq] at h
      obtain ⟨rfl, rfl⟩ := h
      simp only [heq, List.length_cons, List.length_take, List.length_drop]
      omega
  · cases h

variable {tag : UInt16} {decode : Bytes → Option α} {missing malformed : ε}

theorem spends_nextField {w : α → ℕ}
    (h : ∀ p a, decode p = some a → w a ≤ c + p.length + 6) :
    Spends c w (nextField tag decode missing malformed) := by
  intro bytes a rest hrun
  unfold nextField at hrun
  split at hrun
  · rename_i f r hnext
    split_ifs at hrun
    split at hrun
    · rename_i a' ha
      obtain ⟨rfl, rfl⟩ : a' = a ∧ r.rest = rest := by simpa using hrun
      have hlen := CanonicalReader.length_next hnext
      have := h f.payload a' ha
      dsimp only at hlen
      omega
    · cases hrun
  · cases hrun

/-- A field that is not weighed. -/
theorem spends_skip : Spends c (fun _ => c) (nextField tag decode missing malformed) :=
  spends_nextField fun _ _ _ => by omega

theorem spends_str : Spends c (fun s => c + s.length)
    (nextField tag decodeStr missing malformed) :=
  spends_nextField fun p s h => by
    obtain rfl : p = s := by simpa using h
    omega

theorem spends_nextFields {w : α → ℕ} (h : ∀ p a, decode p = some a → w a ≤ p.length + 6) :
    ∀ (n c : ℕ), Spends c (fun l => c + (l.map w).sum)
      (nextFields tag decode missing malformed n)
  | 0, c => .pure (by simp)
  | n + 1, c =>
    (spends_nextField (w := fun a => c + w a) fun p a ha => by have := h p a ha; omega).bind
      fun a => (spends_nextFields h n (c + w a)).bind fun l =>
        .pure (by simp only [List.map_cons, List.sum_cons]; omega)

end

/-- A loop whose steps add no more than the payload adds no more than the stream. -/
theorem CanonicalReader.weight_forEach {σ : Type} {step : σ → Field → Option σ} {w : σ → ℕ}
    (hstep : ∀ s f s', step s f = some s' → w s' ≤ w s + f.payload.length)
    {bytes : Bytes} {s s' : σ} (h : forEach step bytes s = some s') :
    w s' ≤ w s + bytes.length := by
  have hloop : ∀ n (r : CanonicalReader) s, loop step n r s = some s' →
      w s' ≤ w s + r.rest.length := by
    intro n
    induction n with
    | zero => exact fun _ _ h => nomatch h
    | succ n ih =>
      intro r s h
      unfold loop at h
      split at h
      · split_ifs at h
        obtain rfl := Option.some.inj h
        omega
      · rename_i f r' hnext
        obtain ⟨s'', hs'', hrest⟩ := Option.bind_eq_some_iff.mp h
        have := hstep s f s'' hs''
        have := ih r' s'' hrest
        have := length_next hnext
        omega
  exact hloop _ _ s h

/-! ## Nodes, edges, dependencies -/

theorem decodeU64List_length {p : Bytes} {vs : List UInt64} (h : decodeU64List p = some vs) :
    8 * vs.length ≤ p.length := by
  have hread : ∀ n q, (readU64s n q).length = n := by
    intro n
    induction n with
    | zero => exact fun _ => rfl
    | succ n ih => exact fun q => congrArg Nat.succ (ih _)
  unfold decodeU64List at h
  dsimp only at h
  split_ifs at h with hlimit
  obtain rfl := Option.some.inj h
  rw [hread]
  omega

/-- The bytes of a node's strings and lists. -/
def GraphNodeDescriptor.size (n : GraphNodeDescriptor) : ℕ :=
  n.name.length + n.kernel.name.length + n.kernel.contentDigest.length +
    8 * n.shape.dims.length + n.quantization.customScheme.length +
    n.binding.memoryBindingSchema.length + 8 * n.reactiveInputIndices.length +
    8 * n.reactiveOutputIndices.length + n.backendOpaque.length

def GraphEdgeDescriptor.size (e : GraphEdgeDescriptor) : ℕ := e.label.length

def KernelIdentityRef.size (d : KernelIdentityRef) : ℕ := d.name.length + d.contentDigest.length

theorem size_decodeNodeField (n : GraphNodeDescriptor) (f : Field) (n' : GraphNodeDescriptor)
    (h : decodeNodeField n f = some n') : n'.size ≤ n.size + f.payload.length := by
  unfold decodeNodeField at h
  split at h
  case h_21 | h_40 | h_41 =>
    obtain ⟨vs, hvs, rfl⟩ := Option.map_eq_some_iff.mp h
    have := decodeU64List_length hvs
    simp only [GraphNodeDescriptor.size, List.length_append, List.length_map]
    omega
  case h_26 | h_42 =>
    obtain rfl := Option.some.inj h
    simp only [GraphNodeDescriptor.size]
    omega
  case h_4 | h_5 | h_10 | h_32 | h_35 =>
    obtain ⟨v, hv, rfl⟩ := Option.map_eq_some_iff.mp h
    obtain rfl : f.payload = v := by simpa using hv
    simp only [GraphNodeDescriptor.size]
    omega
  case h_43 => cases h
  -- The fields of fixed size.
  all_goals
    obtain ⟨v, -, rfl⟩ := Option.map_eq_some_iff.mp h
    exact Nat.le_add_right _ _

theorem size_decodeEdgeField (e : GraphEdgeDescriptor) (f : Field) (e' : GraphEdgeDescriptor)
    (h : decodeEdgeField e f = some e') : e'.size ≤ e.size + f.payload.length := by
  unfold decodeEdgeField at h
  split at h
  case h_8 =>
    obtain ⟨v, hv, rfl⟩ := Option.map_eq_some_iff.mp h
    obtain rfl : f.payload = v := by simpa using hv
    exact Nat.le_add_left _ _
  case h_9 => cases h
  all_goals
    obtain ⟨v, -, rfl⟩ := Option.map_eq_some_iff.mp h
    exact Nat.le_add_right _ _

theorem size_decodeDepField (d : KernelIdentityRef) (f : Field) (d' : KernelIdentityRef)
    (h : decodeDepField d f = some d') : d'.size ≤ d.size + f.payload.length := by
  unfold decodeDepField at h
  split at h
  case h_1 | h_6 =>
    obtain ⟨v, hv, rfl⟩ := Option.map_eq_some_iff.mp h
    obtain rfl : f.payload = v := by simpa using hv
    simp only [KernelIdentityRef.size]
    omega
  case h_8 => cases h
  all_goals
    obtain ⟨v, -, rfl⟩ := Option.map_eq_some_iff.mp h
    exact Nat.le_add_right _ _

theorem size_decodeNode {p : Bytes} {n : GraphNodeDescriptor} (h : decodeNode p = some n) :
    n.size ≤ p.length := by
  simpa [GraphNodeDescriptor.size] using CanonicalReader.weight_forEach size_decodeNodeField h

theorem size_decodeEdge {p : Bytes} {e : GraphEdgeDescriptor} (h : decodeEdge p = some e) :
    e.size ≤ p.length := by
  simpa [GraphEdgeDescriptor.size] using CanonicalReader.weight_forEach size_decodeEdgeField h

theorem size_decodeDep {p : Bytes} {d : KernelIdentityRef} (h : decodeDep p = some d) :
    d.size ≤ p.length := by
  simpa [KernelIdentityRef.size] using CanonicalReader.weight_forEach size_decodeDepField h

/-! ## Descriptors and payloads -/

/-- The bytes of a descriptor's strings and lists, where an element of a list counts six more. -/
def GraphDescriptor.size (g : GraphDescriptor) : ℕ :=
  g.backend.backendName.length + g.backend.implementationName.length +
    g.device.architecture.length + g.device.name.length + (g.nodes.map (6 + ·.size)).sum +
    (g.edges.map (6 + ·.size)).sum + (g.dependencies.map (6 + ·.size)).sum

def WorkloadIdentity.size (wl : WorkloadIdentity) : ℕ :=
  wl.logicalName.length + wl.namespaceName.length + wl.modelOperatorRevision.length +
    wl.policyGeneration.length

section

variable {c : ℕ}

theorem spends_loadBackend : Spends c
    (fun b => c + b.backendName.length + b.implementationName.length) loadBackend :=
  spends_skip.bind fun _ => spends_str.bind fun _ => spends_skip.bind fun _ =>
    spends_str.bind fun _ => .pure le_rfl

theorem spends_loadRuntime : Spends c (fun _ => c) loadRuntime :=
  spends_skip.bind fun _ => spends_skip.bind fun _ => spends_skip.bind fun _ =>
    spends_skip.bind fun _ => .pure le_rfl

theorem spends_loadDevice : Spends c (fun d => c + d.architecture.length + d.name.length)
    loadDevice :=
  spends_skip.bind fun _ => spends_str.bind fun _ => spends_skip.bind fun _ =>
    spends_skip.bind fun _ => spends_skip.bind fun _ => spends_str.bind fun _ => .pure le_rfl

theorem spends_loadSync : Spends c (fun _ => c) loadSync :=
  spends_skip.bind fun _ => spends_skip.bind fun _ => spends_skip.bind fun _ =>
    spends_skip.bind fun _ => .pure le_rfl

theorem spends_loadProvenance : Spends c (fun _ => c) loadProvenance :=
  spends_skip.bind fun _ => spends_skip.bind fun _ => spends_skip.bind fun _ =>
    spends_skip.bind fun _ => spends_skip.bind fun _ => .pure le_rfl

theorem spends_loadDescriptor : Spends 0 GraphDescriptor.size loadDescriptor :=
  spends_skip.bind fun _ => spends_skip.bind fun _ => spends_skip.bind fun _ =>
    spends_loadBackend.bind fun _ => spends_loadRuntime.bind fun _ =>
    spends_loadDevice.bind fun _ => spends_loadSync.bind fun _ =>
    spends_loadProvenance.bind fun _ => spends_skip.bind fun _ =>
    (spends_nextFields (w := (6 + ·.size))
      (fun _ _ h => by have := size_decodeNode h; omega) _ _).bind fun _ =>
    spends_skip.bind fun _ =>
    (spends_nextFields (w := (6 + ·.size))
      (fun _ _ h => by have := size_decodeEdge h; omega) _ _).bind fun _ =>
    spends_skip.bind fun _ =>
    (spends_nextFields (w := (6 + ·.size))
      (fun _ _ h => by have := size_decodeDep h; omega) _ _).bind fun _ =>
    .pure (by simp only [GraphDescriptor.size]; omega)

end

theorem size_deserializeDescriptor {bytes : Bytes} {g : GraphDescriptor}
    (h : deserializeDescriptor bytes = .ok g) : g.size ≤ bytes.length := by
  unfold deserializeDescriptor at h
  simp only [Bind.bind, Except.bind] at h
  split at h
  · cases h
  · rename_i gr hload
    have := spends_loadDescriptor bytes gr.1 gr.2 hload
    split_ifs at h
    · exact absurd h (fail_ne_ok _ _ _)
    · obtain rfl := Except.ok.inj h
      omega

/-- What a payload is decoded to is no larger than the payload. -/
theorem size_readCapture {ε : Type} {invalid malformed : ε} {payload : Bytes}
    {g : GraphDescriptor} {wl : WorkloadIdentity}
    (h : readCapture invalid malformed payload = .ok (g, wl)) : g.size + wl.size ≤ payload.length := by
  have hspends : Spends 0 (fun gw => gw.1.size + gw.2.size) (captureReader invalid malformed) :=
    (spends_nextField (w := (·.size)) fun p g hg => by
      have := size_deserializeDescriptor (toOption_eq_some.mp hg)
      omega).bind fun _ =>
    spends_str.bind fun _ => spends_skip.bind fun _ => spends_str.bind fun _ =>
    spends_str.bind fun _ => .pure (by simp only [WorkloadIdentity.size, List.length_nil]; omega)
  unfold readCapture at h
  split at h
  · rename_i gw rest hread
    obtain rfl := Except.ok.inj h
    have := hspends payload _ rest hread
    dsimp only at this
    omega
  · cases h

/-! ## Encodings -/

theorem CanonicalWriter.length_take (w : CanonicalWriter) :
    w.take.length = (w.map (6 + ·.payload.length)).sum := by
  simp only [take, List.length_flatMap, Field.bytes, List.length_append, length_beBytes]

theorem length_encU64List (vs : List UInt64) : (encU64List vs).length = 4 + 8 * vs.length := by
  simp [encU64List, List.length_flatMap, Nat.mul_comm]

/-- The bytes of slots that may be absent, were they all there. -/
def slotBytes (ps : List (Option Bytes)) : ℕ :=
  (ps.map fun p => 6 + (p.getD []).length).sum

theorem slotBytes_append (ps qs : List (Option Bytes)) :
    slotBytes (ps ++ qs) = slotBytes ps + slotBytes qs := by
  simp [slotBytes]

theorem slotBytes_slotsIf (c : Prop) [Decidable c] (ps : List Bytes) :
    slotBytes (slotsIf c ps) ≤ (ps.map (6 + ·.length)).sum := by
  simp only [slotBytes, slotsIf, List.map_map]
  refine List.sum_le_sum fun p _ => ?_
  simp only [Function.comp_apply]
  split_ifs <;> simp

theorem length_take_tagged : ∀ (tags : List UInt16) (ps : List (Option Bytes)),
    (tagged tags ps).take.length ≤ slotBytes ps
  | [], ps => by simp [tagged, CanonicalWriter.take]
  | _ :: _, [] => by simp [tagged, CanonicalWriter.take]
  | t :: tags, p :: ps => by
    have ih := length_take_tagged tags ps
    rw [CanonicalWriter.length_take] at ih ⊢
    simp only [tagged, slotBytes, List.zipWith_cons_cons, List.map_cons, List.sum_cons] at ih ⊢
    cases p with
    | none =>
      rw [Option.map_none, List.reduceOption_cons_of_none]
      omega
    | some p =>
      rw [Option.map_some, List.reduceOption_cons_of_some, List.map_cons, List.sum_cons,
        Option.getD_some]
      exact Nat.add_le_add_left ih _

theorem slotBytes_nodePayloads (n : GraphNodeDescriptor) :
    slotBytes (nodePayloads n) ≤ 430 + n.size := by
  rw [show nodePayloads n = slotsIf True [encU64 n.nodeId.hi, encU64 n.nodeId.lo] ++ nodeBody n
    by simp [nodePayloads, slotsIf]]
  simp only [nodeBody, slotBytes_append]
  iterate 17 grw [slotBytes_slotsIf]
  simp only [List.map_cons, List.map_nil, List.sum_cons, List.sum_nil, length_encU64,
    length_encU32, length_encBool, length_encI64, length_encF64, length_encU64List,
    List.length_map, encU8, List.length_cons, List.length_nil, GraphNodeDescriptor.size]
  omega

theorem length_encodeNode (n : GraphNodeDescriptor) :
    (encodeNode n).take.length ≤ 430 + n.size :=
  (length_take_tagged _ _).trans (slotBytes_nodePayloads n)

theorem length_storeNode (n : GraphNodeDescriptor) : (storeNode n).take.length ≤ 430 + n.size :=
  (length_take_tagged _ _).trans (slotBytes_nodePayloads n)

theorem length_encodeEdge (e : GraphEdgeDescriptor) :
    (encodeEdge e).take.length ≤ 100 + e.size := by
  simp [CanonicalWriter.length_take, encodeEdge, edgePayloads, GraphEdgeDescriptor.size]
  omega

theorem length_storeEdge (e : GraphEdgeDescriptor) :
    (storeEdge e).take.length ≤ 100 + e.size := by
  simp [CanonicalWriter.length_take, storeEdge, edgePayloads, GraphEdgeDescriptor.size]
  omega

theorem length_encodeDep (d : KernelIdentityRef) : (encodeDep d).take.length ≤ 80 + d.size := by
  simp [CanonicalWriter.length_take, encodeDep, putStr, putU64, putU32, putBool,
    KernelIdentityRef.size]
  omega

theorem CanonicalWriter.length_take_append (w w' : CanonicalWriter) :
    (w ++ w').take.length = w.take.length + w'.take.length := by
  simp [take]

/-- The bytes of the sorted elements, each a multiple of its size at most. -/
theorem length_take_sortById {α : Type} (id : α → Id128) (l : List α) (encode : α → CanonicalWriter)
    (size : α → ℕ) (h : ∀ a, (encode a).take.length ≤ 72 * (6 + size a)) :
    (CanonicalWriter.take ((sortById id l).flatMap encode)).length ≤
      72 * (l.map (6 + size ·)).sum := by
  calc (CanonicalWriter.take ((sortById id l).flatMap encode)).length
      = ((sortById id l).map fun a => (encode a).take.length).sum := by
        simp only [CanonicalWriter.take, List.flatMap_assoc, List.length_flatMap]
    _ = (l.map fun a => (encode a).take.length).sum := ((sortById_perm id l).map _).sum_eq
    _ ≤ (l.map fun a => 72 * (6 + size a)).sum := List.sum_le_sum fun a _ => h a
    _ = 72 * (l.map (6 + size ·)).sum := List.sum_map_mul_left ..

theorem length_canonicalTopology (g : GraphDescriptor) :
    (canonicalTopology g.nodes g.edges).length ≤ 20 + 72 * g.size := by
  have hnodes := length_take_sortById (·.nodeId) g.nodes encodeNode (·.size) fun n =>
    (length_encodeNode n).trans (by omega)
  have hedges := length_take_sortById (·.edgeId) g.edges encodeEdge (·.size) fun e =>
    (length_encodeEdge e).trans (by omega)
  have hhead : ∀ (t : UInt16) (v : UInt32) (w : CanonicalWriter),
      (CanonicalWriter.take (putU32 t v :: w)).length = 10 + w.take.length := by
    intro t v w
    simp [CanonicalWriter.length_take, putU32]
  simp only [canonicalTopology, canonicalFields, hhead, CanonicalWriter.length_take_append,
    GraphDescriptor.size]
  omega

end GraphCache
