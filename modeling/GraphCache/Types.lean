import GraphCache.Sha256

/-!
# Identities and descriptors

The plain data of `ids.hpp`, `types.hpp`, `dependencies.hpp` and `result.hpp`.

The enumerations of `types.hpp` have a fixed underlying type, and the decoders fill them with
`static_cast` from an unchecked 32-bit word; so a value of such a type here is any 32-bit word,
and the enumerators are its named values. A `double` is its bit pattern; `Double.eq` is the
comparison of the language, where a NaN equals nothing and the two zeros are equal.
-/

open BigEndian

namespace GraphCache

/-! ## Results -/

/-- The error codes that the modelled functions return. -/
inductive ErrorCode
  | invalidArgument
  | operationNotSupported
  | backendUnavailable
  | deviceUnavailable
  | outOfMemory
  | noSuchArtifact
  | validationFailed
  | notResident
  | evictionImpossible
  | persistenceIoError
  | persistenceCorrupt
  | persistenceTruncated
  | persistenceUnknownVersion
  | persistenceTrailingGarbage
  | persistenceChecksumMismatch
  | persistenceNotFound
  | protocolTruncated
  | protocolOverflow
  | protocolUnknownVersion
  | protocolUnknownMessage
  | protocolZeroLength
  | illegalTransition
  | generationMismatch
  | staleCompletion
  | leaseUnderflow
  | leaseNotHeld
  | topologyInvalid
  | topologyDanglingEdge
  | topologySelfCycle
  | topologyCycle
  | topologyDuplicateEdge
  | topologyDuplicateId
  | contradictory
  | internal
  deriving DecidableEq, Repr

structure Error where
  code : ErrorCode
  message : Str
  deriving DecidableEq, Repr

abbrev Result (α : Type) := Except Error α

/-- `Result<void>::failure(Error(code, message))`. -/
def fail {α : Type} (code : ErrorCode) (message : String) : Result α :=
  .error ⟨code, str message⟩

@[simp] theorem fail_ne_ok {α : Type} (code : ErrorCode) (message : String) (a : α) :
    fail code message ≠ .ok a :=
  nofun

/-- A check that did not fail. -/
theorem of_check {α : Type} {p : Prop} [Decidable p] {code : ErrorCode} {message : String}
    {r : Result α} {a : α} (h : (if p then fail code message else r) = .ok a) : ¬p ∧ r = .ok a := by
  by_cases hp : p
  · rw [if_pos hp] at h
    exact absurd h (fail_ne_ok _ _ _)
  · rw [if_neg hp] at h
    exact ⟨hp, h⟩

theorem toOption_eq_some {α : Type} {r : Result α} {a : α} :
    Except.toOption r = some a ↔ r = .ok a := by
  cases r <;> simp [Except.toOption]

/-! ## Identities -/

abbrev GraphGeneration := UInt64

abbrev CacheGeneration := UInt64

abbrev CaptureAttemptId := UInt64

/-- A 128-bit identity. -/
@[ext] structure Id128 where
  hi : UInt64 := 0
  lo : UInt64 := 0
  deriving DecidableEq, Repr

abbrev GraphId := Id128

abbrev GraphArtifactId := Id128

abbrev GraphNodeId := Id128

abbrev GraphEdgeId := Id128

namespace Id128

def valid (i : Id128) : Bool :=
  i.lo != 0

/-- `node_less`, `edge_less`. -/
def less (a b : Id128) : Bool :=
  if a.hi ≠ b.hi then decide (a.hi < b.hi) else decide (a.lo < b.lo)

/-- `"%016llx:%016llx"`. -/
def toStr (i : Id128) : Str :=
  Sha256.hex (encU64 i.hi) ++ str ":" ++ Sha256.hex (encU64 i.lo)

/-- The first sixteen bytes of a digest. -/
def ofDigest (d : Digest) : Id128 :=
  ⟨UInt64.ofNat (beNat (d.take 8)), UInt64.ofNat (beNat ((d.drop 8).take 8))⟩

theorem less_iff (a b : Id128) :
    a.less b = true ↔ a.hi.toNat < b.hi.toNat ∨ a.hi = b.hi ∧ a.lo.toNat < b.lo.toNat := by
  unfold less
  split_ifs with h
  · simp [UInt64.lt_iff_toNat_lt, h]
  · have : a.hi = b.hi := not_not.mp h
    simp [UInt64.lt_iff_toNat_lt, this]

theorem less_irrefl (a : Id128) : a.less a = false := by
  simp [less]

theorem less_trans {a b c : Id128} (hab : a.less b) (hbc : b.less c) : a.less c := by
  rw [less_iff] at *
  rcases hab with h | ⟨h, h'⟩ <;> rcases hbc with g | ⟨g, g'⟩
  · exact .inl (h.trans g)
  · exact .inl (g ▸ h)
  · exact .inl (h ▸ g)
  · exact .inr ⟨h.trans g, h'.trans g'⟩

theorem less_total {a b : Id128} (h : a ≠ b) : a.less b ∨ b.less a := by
  simp only [less_iff]
  rcases lt_trichotomy a.hi.toNat b.hi.toNat with hhi | hhi | hhi
  · exact .inl (.inl hhi)
  · have hhi : a.hi = b.hi := UInt64.toNat_inj.mp hhi
    rcases lt_trichotomy a.lo.toNat b.lo.toNat with hlo | hlo | hlo
    · exact .inl (.inr ⟨hhi, hlo⟩)
    · exact absurd (by cases a; cases b; simp_all [UInt64.toNat_inj]) h
    · exact .inr (.inr ⟨hhi.symm, hlo⟩)
  · exact .inr (.inl hhi)

theorem less_asymm {a b : Id128} (h : a.less b) : b.less a = false := by
  by_contra hba
  have haa := less_trans h ((Bool.not_eq_false _).mp hba)
  exact absurd (less_irrefl a) (by simp [haa])

end Id128

/-! ## Backend, runtime, device -/

@[ext] structure BackendKind where
  raw : UInt32
  deriving DecidableEq, Repr

def BackendKind.cpu : BackendKind := ⟨1⟩

@[ext] structure AcceleratorVendor where
  raw : UInt32
  deriving DecidableEq, Repr

def AcceleratorVendor.cpu : AcceleratorVendor := ⟨1⟩

@[ext] structure BackendIdentity where
  kind : BackendKind := .cpu
  backendName : Str := []
  backendVersion : UInt32 := 1
  implementationName : Str := []
  deriving DecidableEq, Repr

structure RuntimeDescriptor where
  runtimeVersion : UInt32 := 1
  graphAbi : UInt32 := 1
  kernelAbi : UInt32 := 1
  driverVersion : UInt32 := 0
  driverVersionString : Str := []
  deriving DecidableEq, Repr

@[ext] structure DeviceDescriptor where
  vendor : AcceleratorVendor := .cpu
  architecture : Str := []
  computeMajor : UInt32 := 0
  computeMinor : UInt32 := 0
  deviceIndex : UInt32 := 0
  name : Str := []
  deriving DecidableEq, Repr

/-! ## Tensors -/

@[ext] structure Datatype where
  raw : UInt32
  deriving DecidableEq, Repr

namespace Datatype

def none : Datatype := ⟨0⟩

def f32 : Datatype := ⟨1⟩

end Datatype

@[ext] structure TensorLayout where
  raw : UInt32
  deriving DecidableEq, Repr

def TensorLayout.contiguous : TensorLayout := ⟨1⟩

@[ext] structure ShapeDescriptor where
  dims : List Int64 := []
  dynamic : Bool := false
  maxRank : UInt32 := 0
  deriving DecidableEq, Repr

/-- A `double`, by its bits. -/
@[ext] structure Double where
  bits : UInt64
  deriving DecidableEq, Repr

namespace Double

def zero : Double := ⟨0⟩

/-- All exponent bits set and a fraction that is not zero. -/
def isNaN (x : Double) : Bool :=
  decide (x.bits.toNat % 2 ^ 63 > 0x7ff0000000000000)

/-- `x == y`. -/
def eq (x y : Double) : Bool :=
  !x.isNaN && !y.isNaN && (x.bits == y.bits || x.bits.toNat % 2 ^ 63 == 0 && y.bits.toNat % 2 ^ 63 == 0)

end Double

def encF64 (x : Double) : Bytes := encU64 x.bits

def decodeF64 (p : Bytes) : Option Double :=
  (decodeU64 p).map Double.mk

@[simp] theorem length_encF64 (x : Double) : (encF64 x).length = 8 := length_encU64 _

@[simp] theorem decodeF64_encF64 (x : Double) : decodeF64 (encF64 x) = some x := by
  simp [decodeF64, encF64]

@[simp] theorem encF64_inj {x y : Double} : encF64 x = encF64 y ↔ x = y :=
  ⟨fun h => by simpa using congrArg decodeF64 h, congrArg encF64⟩

@[ext] structure ScalarSpecialization where
  specialized : Bool := false
  intValue : Int64 := 0
  floatValue : Double := .zero
  deriving DecidableEq, Repr

@[ext] structure QuantizationMode where
  raw : UInt32
  deriving DecidableEq, Repr

def QuantizationMode.none : QuantizationMode := ⟨0⟩

@[ext] structure QuantizationConfig where
  mode : QuantizationMode := .none
  groupSize : UInt32 := 0
  symmetric : Bool := true
  customScheme : Str := []
  deriving DecidableEq, Repr

@[ext] structure LaunchGeometry where
  gridX : UInt32 := 1
  gridY : UInt32 := 1
  gridZ : UInt32 := 1
  blockX : UInt32 := 1
  blockY : UInt32 := 1
  blockZ : UInt32 := 1
  sharedMemoryBytes : UInt32 := 0
  deriving DecidableEq, Repr

/-! ## Bindings and synchronization -/

@[ext] structure BindingClass where
  raw : UInt32
  deriving DecidableEq, Repr

namespace BindingClass

def immutableBinding : BindingClass := ⟨1⟩

def replayMutableBinding : BindingClass := ⟨2⟩

def recaptureRequiredBinding : BindingClass := ⟨3⟩

end BindingClass

@[ext] structure BindingDescriptor where
  bindingClass : BindingClass := .immutableBinding
  alignment : UInt32 := 128
  memoryBindingSchema : Str := []
  rebindingEligible : Bool := false
  deriving DecidableEq, Repr

@[ext] structure CaptureMode where
  raw : UInt32
  deriving DecidableEq, Repr

def CaptureMode.none : CaptureMode := ⟨0⟩

@[ext] structure StreamSemantics where
  raw : UInt32
  deriving DecidableEq, Repr

def StreamSemantics.default : StreamSemantics := ⟨1⟩

structure SynchronizationDescriptor where
  captureMode : CaptureMode := .none
  streamSemantics : StreamSemantics := .default
  requiresExternalSync : Bool := false
  eventDependencyCount : UInt32 := 0
  deriving DecidableEq, Repr

/-! ## Nodes, dependencies, provenance, workloads -/

@[ext] structure NodeCategory where
  raw : UInt32
  deriving DecidableEq, Repr

namespace NodeCategory

def kernel : NodeCategory := ⟨1⟩

def memoryCopy : NodeCategory := ⟨2⟩

def memorySet : NodeCategory := ⟨3⟩

end NodeCategory

@[ext] structure KernelIdentityRef where
  name : Str := []
  idHi : UInt64 := 0
  idLo : UInt64 := 0
  generation : GraphGeneration := 0
  abi : UInt32 := 1
  contentDigest : Str := []
  provenance : Str := []
  contributesToCorrectness : Bool := true
  deriving DecidableEq, Repr

structure ProvenanceDescriptor where
  captureTimestampMs : UInt64 := 0
  captureSource : Str := []
  captureDurationUs : UInt64 := 0
  captureToolchain : Str := []
  graphName : Str := []
  deriving DecidableEq, Repr

@[ext] structure WorkloadRevisionMode where
  raw : UInt32
  deriving DecidableEq, Repr

def WorkloadRevisionMode.unspecified : WorkloadRevisionMode := ⟨0⟩

@[ext] structure WorkloadIdentity where
  logicalName : Str := []
  logicalVersion : UInt32 := 1
  namespaceName : Str := []
  revisionMode : WorkloadRevisionMode := .unspecified
  modelOperatorRevision : Str := []
  policyGeneration : Str := []
  deriving DecidableEq, Repr

end GraphCache
