import MiniRpc.ByteBuffer
import MiniRpc.StepMachine

/-!
# The buffer as a queue of bytes

What a `Buffer` is for: bytes are added at the end, by `append` or by a read
from a descriptor, and taken from the front. Every operation of the buffer,
with what it returns, is that of a plain list of bytes; the prepend area,
compaction, growth, the reset of the cursors and the spill area of `readFd`
do not show.

The constructor adds `kCheapPrepend` to a `size_t`. For the largest eight
sizes the sum wraps, and the cursors start beyond the end of the memory.
-/

set_option autoImplicit false

namespace MiniRpc.BufferQueue
open MiniRpc.ByteBuffer MiniRpc.StepMachine

structure Members where
  buffer : Bytes
  readerIndex : ℕ
  writerIndex : ℕ
  deriving DecidableEq

def Members.Ordered (x : Members) : Prop :=
  kCheapPrepend ≤ x.readerIndex ∧ x.readerIndex ≤ x.writerIndex ∧ x.writerIndex ≤ x.buffer.length

def members (b : Buffer) : Members := ⟨b.buffer,b.readerIndex,b.writerIndex⟩

def constructed (initialSize : UInt64) : Members where
  buffer := List.replicate (UInt64.ofNat kCheapPrepend+initialSize).toNat 0
  readerIndex := kCheapPrepend
  writerIndex := kCheapPrepend

/-- A call of a member function. The result of `readv` is part of the call:
an error, or the bytes it stored. That they fit the areas it was offered is
not needed. -/
inductive Call where
  | append (data : Bytes)
  | retrieve (len : ℕ)
  | retrieveAll
  | retrieveAsString (len : ℕ)
  | retrieveAllAsString
  | readFd (result : Except ℕ Bytes)

inductive Answer where
  | nothing
  | text (bytes : Bytes)
  | read (n : ℕ)
  | failed (savedErrno : ℕ)
  deriving DecidableEq, Repr

def buffers : Machine Buffer Call Answer where
  step b call :=
    match call with
    | .append data => (b.append data,[.nothing])
    | .retrieve len => (b.retrieve len,[.nothing])
    | .retrieveAll => (b.retrieveAll,[.nothing])
    | .retrieveAsString len => ((b.retrieveAsString len).2,[.text (b.retrieveAsString len).1])
    | .retrieveAllAsString => (b.retrieveAllAsString.2,[.text b.retrieveAllAsString.1])
    | .readFd (.error errno) => (b,[.failed errno])
    | .readFd (.ok data) => (b.readFd data,[.read data.length])

def byteQueue : Machine Bytes Call Answer where
  step q call :=
    match call with
    | .append data => (q++data,[.nothing])
    | .retrieve len => (q.drop len,[.nothing])
    | .retrieveAll => ([],[.nothing])
    | .retrieveAsString len => (q.drop len,[.text (q.take len)])
    | .retrieveAllAsString => ([],[.text q])
    | .readFd (.error errno) => (q,[.failed errno])
    | .readFd (.ok data) => (q++data,[.read data.length])

theorem members_ordered (b : Buffer) : (members b).Ordered := ⟨b.prepend_le,b.reader_le,b.writer_le⟩

theorem readable_retrieveAllAsString (b : Buffer) : b.retrieveAllAsString.2.readable = [] := by
  rw [Buffer.retrieveAllAsString,readable_retrieveAsString,← readable_length,List.drop_length]

theorem step_queue (b : Buffer) (call : Call) :
    byteQueue.step b.readable call = ((buffers.step b call).1.readable,(buffers.step b call).2) := by
  cases call with
  | append data => simp only [byteQueue,buffers,readable_append]
  | retrieve len => simp only [byteQueue,buffers,readable_retrieve]
  | retrieveAll => simp only [byteQueue,buffers,readable_retrieveAll]
  | retrieveAsString len =>
    simp only [byteQueue,buffers,readable_retrieveAsString,retrieveAsString_bytes]
  | retrieveAllAsString =>
    simp only [byteQueue,buffers,readable_retrieveAllAsString,retrieveAllAsString_bytes]
  | readFd result =>
    cases result with
    | error errno => rfl
    | ok data => simp only [byteQueue,buffers,readable_readFd]

theorem constructed_length (initialSize : UInt64) :
    (constructed initialSize).buffer.length = (kCheapPrepend+initialSize.toNat)%2^64 := by
  rw [constructed,List.length_replicate,UInt64.toNat_add]
  rfl

theorem constructed_ordered_iff (initialSize : UInt64) :
    (constructed initialSize).Ordered ↔ kCheapPrepend+initialSize.toNat < 2^64 := by
  have hlt := initialSize.toNat_lt
  rw [Members.Ordered,constructed_length]
  constructor
  · rintro ⟨-,-,h⟩
    by_contra hwrap
    have hmod : (kCheapPrepend+initialSize.toNat)%2^64 = kCheapPrepend+initialSize.toNat-2^64 := by
      rw [Nat.mod_eq_sub_mod (by omega)]
      exact Nat.mod_eq_of_lt (by simp only [kCheapPrepend]; omega)
    rw [hmod] at h
    simp only [constructed,kCheapPrepend] at h
    omega
  · intro h
    rw [Nat.mod_eq_of_lt h]
    exact ⟨le_refl _,le_refl _,Nat.le_add_right _ _⟩

theorem constructed_members (initialSize : UInt64)
    (h : kCheapPrepend+initialSize.toNat < 2^64) :
    constructed initialSize = members (Buffer.new initialSize.toNat) := by
  have hsize : (UInt64.ofNat kCheapPrepend+initialSize).toNat = kCheapPrepend+initialSize.toNat := by
    rw [UInt64.toNat_add]
    exact Nat.mod_eq_of_lt h
  rw [constructed,hsize]
  rfl

/-- A buffer whose size does not wrap keeps its cursors in order and is the
byte queue, whatever is called on it. -/
theorem buffer_is_byte_queue (initialSize : UInt64) :
    ((constructed initialSize).Ordered ↔ kCheapPrepend+initialSize.toNat < 2^64) ∧
    (kCheapPrepend+initialSize.toNat < 2^64 →
      constructed initialSize = members (Buffer.new initialSize.toNat) ∧
      ∀ calls : List Call,
        (members (buffers.run (Buffer.new initialSize.toNat) calls).1).Ordered ∧
        byteQueue.run [] calls =
          ((buffers.run (Buffer.new initialSize.toNat) calls).1.readable,
            (buffers.run (Buffer.new initialSize.toNat) calls).2)) := by
  refine ⟨constructed_ordered_iff initialSize,fun h => ⟨constructed_members initialSize h,?_⟩⟩
  intro calls
  refine ⟨members_ordered _,?_⟩
  rw [← readable_new initialSize.toNat]
  exact run_refines buffers byteQueue Buffer.readable step_queue _ calls

def mixedCalls : List Call :=
  [.append [1,2,3],.retrieve 1,.readFd (.ok [4,5,6]),.retrieveAsString 2,.readFd (.error 11),
   .append [7],.retrieveAllAsString,.retrieve 9]

theorem small_buffer_is_queue :
    (buffers.run (Buffer.new 4) mixedCalls).1.readable = [] ∧
    (buffers.run (Buffer.new 4) mixedCalls).2 =
      [.nothing,.nothing,.read 3,.text [2,3],.failed 11,.nothing,.text [4,5,6,7],.nothing] := by
  have h := ((buffer_is_byte_queue 4).2 (by decide)).2 mixedCalls
  have hqueue : byteQueue.run [] mixedCalls =
      ([],[.nothing,.nothing,.read 3,.text [2,3],.failed 11,.nothing,.text [4,5,6,7],.nothing]) := rfl
  rw [hqueue] at h
  exact Prod.mk.inj h.2.symm

/-- `Buffer(SIZE_MAX)`: seven bytes of memory, and both cursors at eight. -/
theorem largest_size_wraps :
    (constructed 0xffffffffffffffff).buffer.length = 7 ∧
    (constructed 0xffffffffffffffff).writerIndex = 8 ∧
    ¬ (constructed 0xffffffffffffffff).Ordered := by
  refine ⟨by decide +kernel,rfl,?_⟩
  rw [constructed_ordered_iff]
  decide +kernel

end MiniRpc.BufferQueue
