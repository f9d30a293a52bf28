import GraphCache.Independence
import GraphCache.Lanes

/-!
# The footprint of a replay

Once its buffers are looked up, a node of a captured graph is a list of operations on memory : a
copy, a fill, the lanes of a kernel and the hash of its output (`Operation`). A replay performs the
operations of its order, up to the first node without a buffer (`program`, `cpuReplay_eq`).

The bytes that an operation reads and writes are known before it runs (`Operation.footprint`).
-/

namespace GraphCache

open Independence

/-! ## Cells -/

/-- `len` bytes at a pointer. -/
structure Range where
  ptr : Ptr
  len : ℕ
  deriving DecidableEq, Repr

/-- The bytes of a range, by array and offset. -/
def Range.cells (r : Range) : Set (ℕ × ℕ) :=
  {c | c.1 = r.ptr.block ∧ r.ptr.off ≤ c.2 ∧ c.2 < r.ptr.off + r.len}

/-- The ranges share no byte. -/
def Range.Clear (r r' : Range) : Prop :=
  r.len = 0 ∨ r'.len = 0 ∨ r.ptr.block ≠ r'.ptr.block ∨ r.ptr.off + r.len ≤ r'.ptr.off ∨
    r'.ptr.off + r'.len ≤ r.ptr.off

instance (r r' : Range) : Decidable (r.Clear r') :=
  inferInstanceAs (Decidable (_ ∨ _ ∨ _ ∨ _ ∨ _))

theorem Range.Clear.disjoint {r r' : Range} (h : r.Clear r') : Disjoint r.cells r'.cells := by
  rw [Set.disjoint_left]
  rintro ⟨block, i⟩ ⟨hblock, hle, hlt⟩ ⟨hblock', hle', hlt'⟩
  dsimp only at *
  rcases h with h | h | h | h | h
  · omega
  · omega
  · exact h (hblock.symm.trans hblock')
  · omega
  · omega

/-- The cells of several ranges. -/
def rangeCells (rs : List Range) : Set (ℕ × ℕ) := Footprint.cellsOf Range.cells rs

/-- The ranges share no byte with those. -/
def AllClear (rs rs' : List Range) : Prop := ∀ r ∈ rs, ∀ r' ∈ rs', r.Clear r'

instance (rs rs' : List Range) : Decidable (AllClear rs rs') :=
  inferInstanceAs (Decidable (∀ r ∈ rs, ∀ r' ∈ rs', r.Clear r'))

theorem AllClear.disjoint {rs rs' : List Range} (h : AllClear rs rs') :
    Disjoint (rangeCells rs) (rangeCells rs') := by
  rw [Set.disjoint_left]
  rintro c ⟨r, hr, hc⟩ ⟨r', hr', hc'⟩
  exact Set.disjoint_left.mp (h r hr r' hr').disjoint hc hc'

namespace Memory

/-- The sizes of the arrays. -/
def shape (m : Memory) : List ℕ := m.map List.length

def cell (m : Memory) (c : ℕ × ℕ) : Option UInt8 := m[c.1]?.bind fun b => b[c.2]?

variable {m m' m₁ : Memory} {p : Ptr} {n : ℕ} {data : Bytes}

theorem length_of_shape (h : m.shape = m'.shape) (i : ℕ) :
    m[i]?.map List.length = m'[i]?.map List.length := by
  rw [← List.getElem?_map, ← List.getElem?_map]
  exact congrArg (fun l => l[i]?) h

theorem ext_cells (hshape : m.shape = m'.shape) (hcell : ∀ c, m.cell c = m'.cell c) : m = m' := by
  refine List.ext_getElem? fun i => ?_
  have hlen := length_of_shape hshape i
  cases hi : m[i]? with
  | none =>
    rw [hi] at hlen
    exact (Option.map_eq_none_iff.mp hlen.symm).symm
  | some b =>
    rw [hi] at hlen
    obtain ⟨b', hi', -⟩ := Option.map_eq_some_iff.mp hlen.symm
    rw [hi', Option.some.injEq]
    refine List.ext_getElem? fun j => ?_
    simpa [cell, hi, hi'] using hcell (i, j)

/-- Memory by its bytes, in arrays of fixed sizes. -/
def view : View Memory (List ℕ) (ℕ × ℕ) (Option UInt8) where
  shape := shape
  cell := cell
  ext := ext_cells

/-- A write changes no other cells. -/
theorem frame_write (h : m.write p data = some m₁) :
    view.Agree (Range.cells ⟨p, data.length⟩)ᶜ m m₁ := by
  by_cases hdata : data = []
  · rw [write, if_pos hdata] at h
    obtain rfl := Option.some.inj h
    exact ⟨rfl, fun _ _ => rfl⟩
  · obtain ⟨b, hb, hfit, rfl⟩ := (write_eq_some hdata).mp h
    obtain ⟨hlt, hget⟩ := List.getElem?_eq_some_iff.mp hb
    refine ⟨?_, ?_⟩
    · simp only [view, shape, List.map_set, List.length_append, List.length_take, List.length_drop]
      rw [show min p.off b.length + data.length + (b.length - (p.off + data.length)) = b.length by
        omega]
      refine (List.ext_getElem? fun i => ?_).symm
      rw [List.getElem?_set]
      split_ifs with hi hlen
      · subst hi
        rw [List.getElem?_map, hb, Option.map_some]
      · rw [List.length_map] at hlen
        exact absurd hlt hlen
      · rfl
    · rintro ⟨block, i⟩ hc
      simp only [view, cell]
      by_cases hblock : block = p.block
      · subst hblock
        rw [hb, List.getElem?_set_self hlt, Option.bind_some, Option.bind_some]
        have hout : i < p.off ∨ p.off + data.length ≤ i := by
          by_contra hin
          exact hc ⟨rfl, by simp only; omega, by simp only; omega⟩
        rw [List.append_assoc]
        rcases hout with hbefore | hafter
        · rw [List.getElem?_append_left (by rw [List.length_take]; omega),
            List.getElem?_take_of_lt hbefore]
        · rw [List.getElem?_append_right (by rw [List.length_take]; omega),
            List.getElem?_append_right (by rw [List.length_take]; omega), List.getElem?_drop,
            List.length_take]
          congr 1
          omega
      · rw [List.getElem?_set_ne (Ne.symm hblock)]

/-- What a write leaves where it writes. -/
theorem cell_write (h : m.write p data = some m₁) {c : ℕ × ℕ}
    (hc : c ∈ Range.cells ⟨p, data.length⟩) : m₁.cell c = data[c.2 - p.off]? := by
  obtain ⟨block, i⟩ := c
  obtain ⟨rfl, hle, hlt⟩ := hc
  dsimp only at hle hlt ⊢
  have hdata : data ≠ [] := by
    rintro rfl
    simp at hlt
    omega
  obtain ⟨b, -, hfit, hb'⟩ := getElem?_write h hdata
  simp only [cell]
  rw [hb', Option.bind_some, List.append_assoc,
    List.getElem?_append_right (by rw [List.length_take]; omega), List.length_take,
    List.getElem?_append_left (by omega)]
  congr 1
  omega

theorem room_of_shape (h : m.shape = m'.shape) (q : Ptr) : m.room q = m'.room q := by
  have hlen := length_of_shape h q.block
  unfold room
  cases hb : m[q.block]? with
  | none =>
    rw [hb] at hlen
    rw [Option.map_eq_none_iff.mp hlen.symm]
  | some b =>
    rw [hb] at hlen
    obtain ⟨b', hb', hlen'⟩ := Option.map_eq_some_iff.mp hlen.symm
    simp only [hb', hlen']

/-- A read finds the same where its cells are the same. -/
theorem read_congr (h : view.Agree (Range.cells ⟨p, n⟩) m m') : m.read p n = m'.read p n := by
  by_cases hn : n = 0
  · simp [read, hn]
  rw [read, read, if_neg hn, if_neg hn]
  have hlen := length_of_shape h.shape p.block
  cases hb : m[p.block]? with
  | none =>
    rw [hb] at hlen
    rw [Option.map_eq_none_iff.mp hlen.symm]
  | some b =>
    rw [hb] at hlen
    obtain ⟨b', hb', hlen'⟩ := Option.map_eq_some_iff.mp hlen.symm
    rw [hb', Option.bind_some, Option.bind_some, hlen']
    split_ifs with hfit
    · congr 1
      refine List.ext_getElem? fun i => ?_
      rw [List.getElem?_take, List.getElem?_take]
      split_ifs with hi
      · have hcell := h.cell (p.block, p.off + i) ⟨rfl, by simp only; omega, by simp only; omega⟩
        simpa [view, cell, hb, hb', List.getElem?_drop] using hcell
      · rfl
    · rfl

/-- The same bytes written to memories that agree on some cells : they agree there still, and on
what was written. -/
theorem write_congr {S : Set (ℕ × ℕ)} (h : view.Agree S m m') (hw : m.write p data = some m₁) :
    ∃ m₁', m'.write p data = some m₁' ∧
      view.Agree (S ∪ Range.cells ⟨p, data.length⟩) m₁ m₁' := by
  have hroom : data.length ≤ m'.room p := by
    rw [← room_of_shape h.shape]
    exact isSome_write_iff.mp (by rw [hw]; rfl)
  obtain ⟨m₁', hw'⟩ := exists_write data hroom
  refine ⟨m₁', hw', ?_, fun c hc => ?_⟩
  · exact (frame_write hw).shape.symm.trans (h.shape.trans (frame_write hw').shape)
  · by_cases hin : c ∈ Range.cells ⟨p, data.length⟩
    · exact (cell_write hw hin).trans (cell_write hw' hin).symm
    · exact ((frame_write hw).cell c hin).symm.trans
        ((h.cell c (hc.resolve_right hin)).trans ((frame_write hw').cell c hin))

end Memory

/-! ## Operations -/

/-- A step of a node with its buffers. A kernel takes one step for each lane and hashes then. -/
inductive Operation
  | copy (src dst : Ptr) (n : ℕ)
  | fill (dst : Ptr) (n : ℕ) (value : UInt8)
  | lane (f : UInt32 → UInt32) (src dst : Ptr)
  | hash (dst : Ptr) (n : ℕ)

/-- What an operation adds to a replay : the bytes it hashes, and the nodes that end with it. -/
structure Work where
  hashed : Option Bytes := none
  counted : UInt64 := 1
  deriving DecidableEq, Repr

namespace Operation

/-- The operation on memory. -/
def act : Operation → Action Memory Work
  | copy src dst n, m => (m.read src n).bind fun data => (m.write dst data).map ({}, ·)
  | fill dst n value, m => (m.write dst (List.replicate n value)).map ({}, ·)
  | lane f src dst, m => (m.read src 4).bind fun x =>
      (m.write dst (storeLane (f (loadLane x)))).map ({ counted := 0 }, ·)
  | hash dst n, m => (m.read dst n).map ({ hashed := some · }, m)

def reads : Operation → List Range
  | copy src _ n => [⟨src, n⟩]
  | fill _ _ _ => []
  | lane _ src _ => [⟨src, 4⟩]
  | hash dst n => [⟨dst, n⟩]

def writes : Operation → List Range
  | copy _ dst n => [⟨dst, n⟩]
  | fill dst n _ => [⟨dst, n⟩]
  | lane _ _ dst => [⟨dst, 4⟩]
  | hash _ _ => []

end Operation

@[simp] theorem rangeCells_nil : rangeCells [] = ∅ := by
  ext c
  simp [rangeCells, Footprint.cellsOf]

@[simp] theorem rangeCells_singleton (r : Range) : rangeCells [r] = r.cells := by
  ext c
  simp [rangeCells, Footprint.cellsOf]

/-- What is read, and a write of as many bytes that depends on it. -/
theorem footprint_readWrite (src dst : Ptr) (n k : ℕ) (w : Work) {f : Bytes → Bytes}
    (hf : ∀ data, data.length = n → (f data).length = k) :
    Footprint Memory.view
      (fun m => (m.read src n).bind fun data => (m.write dst (f data)).map (w, ·))
      (Range.cells ⟨src, n⟩) (Range.cells ⟨dst, k⟩) := by
  have hact : ∀ {m : Memory} {x m₁},
      ((m.read src n).bind fun data => (m.write dst (f data)).map (w, ·)) = some (x, m₁) ↔ ∃ data, m.read src n = some data ∧ m.write dst (f data) = some m₁ ∧ x = w := by
    intro m x m₁
    simp only [Option.bind_eq_some_iff, Option.map_eq_some_iff, Prod.mk.injEq]
    constructor
    · rintro ⟨data, hread, m₂, hwrite, rfl, rfl⟩
      exact ⟨data, hread, hwrite, rfl⟩
    · rintro ⟨data, hread, hwrite, rfl⟩
      exact ⟨data, hread, m₁, hwrite, rfl, rfl⟩
  refine ⟨fun h => ?_, fun hagree h => ?_⟩
  · obtain ⟨data, hread, hwrite, -⟩ := hact.mp h
    have hframe := Memory.frame_write hwrite
    rwa [hf data (Memory.length_read hread)] at hframe
  · obtain ⟨data, hread, hwrite, rfl⟩ := hact.mp h
    obtain ⟨m₁', hwrite', hsame⟩ := Memory.write_congr hagree hwrite
    rw [hf data (Memory.length_read hread)] at hsame
    exact ⟨m₁', hact.mpr ⟨data, Memory.read_congr hagree ▸ hread, hwrite', rfl⟩,
      hsame.mono Set.subset_union_right⟩

/-- What an operation reads and writes is known before it runs. -/
theorem Operation.footprint (op : Operation) :
    Footprint Memory.view op.act (rangeCells op.reads) (rangeCells op.writes) := by
  cases op with
  | copy src dst n =>
    simp only [reads, writes, rangeCells_singleton]
    exact footprint_readWrite src dst n n {} fun _ h => h
  | fill dst n value =>
    simp only [reads, writes, rangeCells_nil, rangeCells_singleton]
    -- a fill reads nothing, as the first bytes of no array
    have h := footprint_readWrite dst dst 0 n {} (f := fun _ => List.replicate n value)
      fun _ _ => List.length_replicate
    exact ⟨h.frame, fun hagree hs =>
      h.determined (hagree.mono fun c hc => absurd hc.2.2 (not_lt.mpr hc.2.1)) hs⟩
  | lane f src dst =>
    simp only [reads, writes, rangeCells_singleton]
    exact footprint_readWrite src dst 4 4 { counted := 0 } fun _ _ => length_storeLane _
  | hash dst n =>
    simp only [reads, writes, rangeCells_nil, rangeCells_singleton]
    refine ⟨fun h => ?_, fun {m m' x m₁} hagree h => ?_⟩
    · obtain ⟨data, -, heq⟩ := Option.map_eq_some_iff.mp h
      obtain ⟨-, rfl⟩ := Prod.mk.inj heq
      exact ⟨rfl, fun _ _ => rfl⟩
    · obtain ⟨data, hread, heq⟩ := Option.map_eq_some_iff.mp h
      obtain ⟨rfl, rfl⟩ := Prod.mk.inj heq
      rw [Memory.read_congr hagree] at hread
      exact ⟨m', by rw [act, hread, Option.map_some], hagree.shape, fun _ hc => hc.elim⟩

/-! ## The program of a replay -/

/-- The lane at `i` of a kernel. -/
def laneAt (f : UInt32 → UInt32) (src dst : Ptr) (i : ℕ) : Operation :=
  .lane f (src.add (4 * i)) (dst.add (4 * i))

/-- The operations of a node, or the error where it has no buffer. -/
def resolve (ops : FloatOps) (b : ReplayBuffers) (node : CpuNode) : Result (List Operation) :=
  let src := b.inputs[node.srcIndex.toNat]?
  let dst := b.outputs[node.dstIndex.toNat]?
  let n := node.bytes.toNat
  if node.category = .memoryCopy then
    match src, dst with
    | some src, some dst => .ok [.copy src dst n]
    | _, _ => fail .invalidArgument "memory copy buffer out of range"
  else if node.category = .memorySet then
    match dst with
    | some dst => .ok [.fill dst n node.memsetValue]
    | none => fail .invalidArgument "memset buffer out of range"
  else if node.category = .kernel then
    match src, dst with
    | some src, some dst =>
      .ok ((List.range' 0 (n / 4)).map (laneAt (kernelLane ops node.kernel node.scalar) src dst) ++
        [.hash dst n])
    | _, _ => fail .invalidArgument "kernel buffer out of range"
  else .ok []

/-- The node at a place of the order, with its buffers. -/
def resolveAt (ops : FloatOps) (nodes : List CpuNode) (b : ReplayBuffers) (nid : GraphNodeId) :
    Result (List Operation) :=
  match nodes.find? fun n => n.id = nid with
  | none => fail .topologyInvalid "unknown node in replay order"
  | some node => resolve ops b node

/-- The operations up to the first node that fails, and its error. -/
def program (ops : FloatOps) (nodes : List CpuNode) (b : ReplayBuffers) :
    List GraphNodeId → List Operation × Option Error
  | [] => ([], none)
  | nid :: rest =>
    match resolveAt ops nodes b nid with
    | .error e => ([], some e)
    | .ok l => (l ++ (program ops nodes b rest).1, (program ops nodes b rest).2)

/-- The hash and the count after an operation. -/
def Work.add (acc : Sha256 × UInt64) (w : Work) : Sha256 × UInt64 :=
  (match w.hashed with
    | some data => acc.1.update data
    | none => acc.1, acc.2 + w.counted)

/-- The state of a replay whose operations did this. -/
def ReplayState.of (acc : Sha256 × UInt64) (r : List Work × Memory) : ReplayState :=
  ⟨r.2, (r.1.foldl Work.add acc).1, (r.1.foldl Work.add acc).2⟩

theorem perform_lanes (f : UInt32 → UInt32) (src dst : Ptr) : ∀ (n i : ℕ) (m : Memory),
    perform Operation.act ((List.range' i n).map (laneAt f src dst)) m =
      (runCpuKernel f src dst n i m).map (List.replicate n { counted := 0 }, ·)
  | 0, _, _ => rfl
  | n + 1, i, m => by
    rw [List.range'_succ, List.map_cons, perform, runCpuKernel, laneAt, Operation.act]
    simp only [Option.bind_eq_bind, Option.bind_assoc, Option.bind_map, Option.map_bind]
    refine Option.bind_congr fun x _ => ?_
    rw [Function.comp_apply, Option.map_bind]
    refine Option.bind_congr fun m₁ _ => ?_
    rw [Function.comp_apply, Function.comp_apply, perform_lanes f src dst n (i + 1) m₁,
      Option.map_map]
    rfl

theorem foldl_add_lanes (acc : Sha256 × UInt64) : ∀ n : ℕ,
    (List.replicate n ({ counted := 0 } : Work)).foldl Work.add acc = acc
  | 0 => rfl
  | n + 1 => by
    rw [List.replicate_succ, List.foldl_cons, show Work.add acc { counted := 0 } = acc by
      simp [Work.add], foldl_add_lanes acc n]

section

variable (ops : FloatOps) (nodes : List CpuNode) (b : ReplayBuffers)

theorem replayNode_eq (node : CpuNode) (mem : Memory) (acc : Sha256 × UInt64) :
    replayNode ops b node ⟨mem, acc.1, acc.2⟩ =
      match resolve ops b node with
      | .error e => some (.error e)
      | .ok l => (perform Operation.act l mem).map fun r => .ok (.of acc r) := by
  unfold replayNode resolve
  dsimp only
  split_ifs with hcopy hset hkernel
  · rcases b.inputs[node.srcIndex.toNat]? with _ | src
    · rfl
    · rcases b.outputs[node.dstIndex.toNat]? with _ | dst
      · rfl
      · dsimp only [perform, Operation.act]
        rcases mem.read src node.bytes.toNat with _ | data
        · rfl
        · simp only [Option.bind_eq_bind, Option.bind_some]
          rcases mem.write dst data with _ | mem' <;> rfl
  · rcases b.outputs[node.dstIndex.toNat]? with _ | dst
    · rfl
    · dsimp only [perform, Operation.act]
      rcases mem.write dst _ with _ | mem' <;> rfl
  · rcases b.inputs[node.srcIndex.toNat]? with _ | src
    · rfl
    · rcases b.outputs[node.dstIndex.toNat]? with _ | dst
      · rfl
      · dsimp only
        rw [perform_append, perform_lanes]
        rcases runCpuKernel _ src dst (node.bytes.toNat / 4) 0 mem with _ | mem'
        · rfl
        · simp only [Option.bind_eq_bind, Option.bind_some, Option.map_some, perform, Operation.act]
          rcases mem'.read dst node.bytes.toNat with _ | data
          · rfl
          · simp only [Option.bind_some, Option.map_some, Option.pure_def, ReplayState.of,
              List.foldl_append, foldl_add_lanes]
            rfl
  · rfl

/-- A replay performs its program. -/
theorem replayLoop_eq : ∀ (order : List GraphNodeId) (mem : Memory) (acc : Sha256 × UInt64),
    replayLoop ops nodes b order ⟨mem, acc.1, acc.2⟩ =
      (perform Operation.act (program ops nodes b order).1 mem).map fun r =>
        (r.2, match (program ops nodes b order).2 with
          | some e => .error e
          | none => .ok (.of acc r))
  | [], _, _ => rfl
  | nid :: rest, mem, acc => by
    rw [replayLoop, program, resolveAt]
    cases nodes.find? fun n => n.id = nid with
    | none => rfl
    | some node =>
      dsimp only
      rw [replayNode_eq]
      cases resolve ops b node with
      | error e => rfl
      | ok l =>
        dsimp only
        rw [perform_append]
        rcases perform Operation.act l mem with _ | ⟨ws, mem'⟩
        · rfl
        · simp only [Option.map_some, Option.bind_some, Option.map_map, ReplayState.of]
          rw [replayLoop_eq rest mem' (ws.foldl Work.add acc)]
          simp only [Function.comp_def, ReplayState.of, List.foldl_append]

/-- The answer of a replay that did this. -/
def answer (rd : ReplayDescriptor) (error : Option Error) (ws : List Work) :
    Result GraphReplayResult :=
  match error with
  | some e => .error e
  | none =>
    let digest := (ws.foldl Work.add (.reset, 0)).1.final
    .ok ⟨true, rd.replayAttempt, (ws.foldl Work.add (.reset, 0)).2, digest, Sha256.hex digest⟩

theorem cpuReplay_eq (g : CpuGraph) (rd : ReplayDescriptor) (mem : Memory) :
    cpuReplay ops g b rd mem = (perform Operation.act (program ops g.nodes b g.order).1 mem).map
      fun r => (r.2, answer rd (program ops g.nodes b g.order).2 r.1) := by
  rw [cpuReplay, replayLoop_eq ops g.nodes b g.order mem (.reset, 0), Option.map_map]
  congr 1
  funext r
  simp only [Function.comp, answer]
  cases (program ops g.nodes b g.order).2 <;> rfl

end

end GraphCache
