import GraphCache.Topology

/-!
# Backends

The interface of `backend.hpp` that the cache calls, over an arbitrary type of executables, and
the memory that a replay reads and writes.

Memory is a list of arrays, and a pointer an offset into one of them. An access that leaves its
array has no result (`none`) : in the program it would be undefined.
-/

namespace GraphCache

/-- A pointer into an array. -/
structure Ptr where
  block : ℕ
  off : ℕ
  deriving DecidableEq, Repr

def Ptr.add (p : Ptr) (n : ℕ) : Ptr := ⟨p.block, p.off + n⟩

abbrev Memory := List Bytes

namespace Memory

/-- `n` bytes at `p`. -/
def read (m : Memory) (p : Ptr) (n : ℕ) : Option Bytes :=
  if n = 0 then some []
  else m[p.block]?.bind fun b =>
    if p.off + n ≤ b.length then some ((b.drop p.off).take n) else none

/-- The bytes `data` stored at `p`. -/
def write (m : Memory) (p : Ptr) (data : Bytes) : Option Memory :=
  if data = [] then some m
  else m[p.block]?.bind fun b =>
    if p.off + data.length ≤ b.length then
      some (m.set p.block (b.take p.off ++ data ++ b.drop (p.off + data.length)))
    else none

end Memory

structure ReplayBuffers where
  inputs : List Ptr
  outputs : List Ptr
  inputBytes : List ℕ
  outputBytes : List ℕ
  deriving DecidableEq, Repr

structure ReplayDescriptor where
  replayAttempt : UInt64 := 0
  deriving DecidableEq, Repr

structure GraphReplayResult where
  ok : Bool := false
  replayAttempt : UInt64 := 0
  replayedNodes : UInt64 := 0
  outputDigest : Digest := List.replicate 32 0
  outputDigestHex : Str := []
  deriving DecidableEq, Repr

/-- What the cache calls of a backend. `unload` may reset the handle it is given. -/
structure GraphBackend (Exec : Type) where
  capture : GraphDescriptor → CaptureAttemptId → Result Exec
  validate : GraphDescriptor → Exec → Result Unit
  replay : GraphDescriptor → Exec → ReplayBuffers → ReplayDescriptor → Memory →
    Option (Memory × Result GraphReplayResult)
  unload : GraphDescriptor → Option Exec → Result Unit × Option Exec

end GraphCache
