import Mathlib.Algebra.Order.Group.Nat
import Mathlib.Data.List.Basic

/-!
# The growable byte buffer

`Buffer` is the vector with a read and a write cursor that both the client
channel and the server connections receive into. The cursor bounds are
fields, so every operation below carries the proof that it keeps them.
The readable bytes behave as a plain first-in first-out byte list: the
compaction and growth made by `ensureWritableBytes`, the cursor reset of
`retrieve` and the spill area of `readFd` do not show in them.
-/

set_option autoImplicit false

namespace MiniRpc.ByteBuffer

abbrev Bytes := List UInt8

def kInitialSize : ℕ := 1024
def kCheapPrepend : ℕ := 8

structure Buffer where
  buffer : Bytes
  readerIndex : ℕ
  writerIndex : ℕ
  prepend_le : kCheapPrepend ≤ readerIndex
  reader_le : readerIndex ≤ writerIndex
  writer_le : writerIndex ≤ buffer.length

def Buffer.new (initialSize : ℕ) : Buffer where
  buffer := List.replicate (kCheapPrepend+initialSize) 0
  readerIndex := kCheapPrepend
  writerIndex := kCheapPrepend
  prepend_le := le_refl _
  reader_le := le_refl _
  writer_le := by simp

def Buffer.readableBytes (b : Buffer) : ℕ := b.writerIndex-b.readerIndex
def Buffer.writableBytes (b : Buffer) : ℕ := b.buffer.length-b.writerIndex

/-- The memory from the read cursor on; only its first `readableBytes`
bytes have been received. -/
def Buffer.peek (b : Buffer) : Bytes := b.buffer.drop b.readerIndex

def Buffer.readable (b : Buffer) : Bytes := b.peek.take b.readableBytes

def Buffer.retrieveAll (b : Buffer) : Buffer where
  buffer := b.buffer
  readerIndex := kCheapPrepend
  writerIndex := kCheapPrepend
  prepend_le := le_refl _
  reader_le := le_refl _
  writer_le := b.prepend_le.trans (b.reader_le.trans b.writer_le)

def Buffer.retrieve (b : Buffer) (len : ℕ) : Buffer :=
  if h : len < b.readableBytes then
    { b with
      readerIndex := b.readerIndex+len
      prepend_le := b.prepend_le.trans (Nat.le_add_right _ _)
      reader_le := by unfold readableBytes at h; omega }
  else b.retrieveAll

def Buffer.retrieveAsString (b : Buffer) (len : ℕ) : Bytes × Buffer :=
  let len := min len b.readableBytes
  (b.peek.take len,b.retrieve len)

def Buffer.retrieveAllAsString (b : Buffer) : Bytes × Buffer :=
  b.retrieveAsString b.readableBytes

def overwrite (mem : Bytes) (pos : ℕ) (data : Bytes) : Bytes :=
  mem.take pos++data++mem.drop (pos+data.length)

def resize (mem : Bytes) (n : ℕ) : Bytes := mem.take n++List.replicate (n-mem.length) 0

theorem overwrite_length (mem data : Bytes) (pos : ℕ) (h : pos+data.length ≤ mem.length) :
    (overwrite mem pos data).length = mem.length := by
  simp only [overwrite,List.length_append,List.length_take,List.length_drop]
  omega

theorem resize_length (mem : Bytes) (n : ℕ) : (resize mem n).length = n := by
  simp only [resize,List.length_append,List.length_take,List.length_replicate]
  omega

theorem readable_length (b : Buffer) : b.readable.length = b.readableBytes := by
  have h := b.writer_le
  simp only [Buffer.readable,Buffer.peek,Buffer.readableBytes,List.length_take,List.length_drop]
  omega

def Buffer.compact (b : Buffer) : Buffer where
  buffer := overwrite b.buffer kCheapPrepend b.readable
  readerIndex := kCheapPrepend
  writerIndex := kCheapPrepend+b.readableBytes
  prepend_le := le_refl _
  reader_le := Nat.le_add_right _ _
  writer_le := by
    have h0 := b.prepend_le
    have h1 := b.reader_le
    have h2 := b.writer_le
    have hr := readable_length b
    unfold readableBytes at *
    rw [overwrite_length _ _ _ (by omega)]
    omega

def Buffer.ensureWritableBytes (b : Buffer) (len : ℕ) : Buffer :=
  if b.writableBytes ≥ len then b
  else
    let c := b.compact
    if c.writableBytes < len then
      { c with
        buffer := resize c.buffer (c.writerIndex+len)
        writer_le := by rw [resize_length]; omega }
    else c

theorem ensureWritableBytes_room (b : Buffer) (len : ℕ) :
    len ≤ (b.ensureWritableBytes len).writableBytes := by
  unfold Buffer.ensureWritableBytes
  split
  · assumption
  · dsimp only
    split
    · simp [Buffer.writableBytes,resize_length]
    · omega

def Buffer.write (b : Buffer) (data : Bytes) (h : data.length ≤ b.writableBytes) : Buffer :=
  { b with
    buffer := overwrite b.buffer b.writerIndex data
    writerIndex := b.writerIndex+data.length
    reader_le := b.reader_le.trans (Nat.le_add_right _ _)
    writer_le := by
      have hw := b.writer_le
      unfold writableBytes at h
      rw [overwrite_length _ _ _ (by omega)]
      omega }

def Buffer.append (b : Buffer) (data : Bytes) : Buffer :=
  (b.ensureWritableBytes data.length).write data (ensureWritableBytes_room b data.length)

/-- A successful `readv` that returned `data`: what does not fit behind the
write cursor arrived in `extrabuf` and is appended. -/
def Buffer.readFd (b : Buffer) (data : Bytes) : Buffer :=
  if h : data.length ≤ b.writableBytes then b.write data h
  else
    (b.write (data.take b.writableBytes) (List.length_take_le _ _)).append
      (data.drop b.writableBytes)

theorem readable_new (n : ℕ) : (Buffer.new n).readable = [] := by
  apply List.eq_nil_of_length_eq_zero
  rw [readable_length]
  simp [Buffer.new,Buffer.readableBytes]

theorem readable_retrieveAll (b : Buffer) : b.retrieveAll.readable = [] := by
  apply List.eq_nil_of_length_eq_zero
  rw [readable_length]
  simp [Buffer.retrieveAll,Buffer.readableBytes]

theorem readable_retrieve (b : Buffer) (len : ℕ) :
    (b.retrieve len).readable = b.readable.drop len := by
  unfold Buffer.retrieve
  split
  · rename_i h
    simp only [Buffer.readable,Buffer.peek,Buffer.readableBytes,List.drop_take,List.drop_drop]
    congr 1
    omega
  · rw [readable_retrieveAll,List.drop_eq_nil_of_le]
    rw [readable_length]
    omega

theorem peek_take (b : Buffer) (n : ℕ) (h : n ≤ b.readableBytes) :
    b.peek.take n = b.readable.take n := by
  rw [Buffer.readable,List.take_take,min_eq_left h]

theorem retrieveAsString_bytes (b : Buffer) (len : ℕ) :
    (b.retrieveAsString len).1 = b.readable.take len := by
  rw [Buffer.retrieveAsString]
  dsimp only
  rw [Buffer.readable,List.take_take]

theorem readable_retrieveAsString (b : Buffer) (len : ℕ) :
    (b.retrieveAsString len).2.readable = b.readable.drop len := by
  rw [Buffer.retrieveAsString]
  dsimp only
  rw [readable_retrieve]
  rcases Nat.le_total len b.readableBytes with h | h
  · rw [min_eq_left h]
  · rw [min_eq_right h,List.drop_eq_nil_of_le (readable_length b).le,
      List.drop_eq_nil_of_le ((readable_length b).le.trans h)]

theorem retrieveAllAsString_bytes (b : Buffer) : b.retrieveAllAsString.1 = b.readable := by
  rw [Buffer.retrieveAllAsString,retrieveAsString_bytes,← readable_length,List.take_length]

theorem readable_compact (b : Buffer) : b.compact.readable = b.readable := by
  have h0 := b.prepend_le
  have h1 := b.reader_le
  have h2 := b.writer_le
  have hr := readable_length b
  have hc : b.compact.readable =
      ((overwrite b.buffer kCheapPrepend b.readable).drop kCheapPrepend).take
        (kCheapPrepend+b.readableBytes-kCheapPrepend) := rfl
  unfold Buffer.readableBytes at hr
  rw [hc,overwrite,Buffer.readableBytes]
  rw [List.append_assoc,List.drop_append_of_le_length (by rw [List.length_take]; omega),
    List.drop_eq_nil_of_le (by rw [List.length_take]; omega),List.nil_append]
  rw [List.take_append_of_le_length (by omega),List.take_of_length_le (by omega)]

theorem readable_ensureWritableBytes (b : Buffer) (len : ℕ) :
    (b.ensureWritableBytes len).readable = b.readable := by
  unfold Buffer.ensureWritableBytes
  split
  · rfl
  · dsimp only
    split
    · rename_i h
      rw [← readable_compact b]
      have hw := b.compact.writer_le
      have hr := b.compact.reader_le
      unfold Buffer.writableBytes at h
      simp only [Buffer.readable,Buffer.peek,Buffer.readableBytes,resize]
      rw [List.take_of_length_le (l := b.compact.buffer) (by omega),
        List.drop_append_of_le_length (by omega),
        List.take_append_of_le_length (by rw [List.length_drop]; omega)]
    · exact readable_compact b

theorem readable_write (b : Buffer) (data : Bytes) (h : data.length ≤ b.writableBytes) :
    (b.write data h).readable = b.readable++data := by
  have h1 := b.reader_le
  have h2 := b.writer_le
  unfold Buffer.writableBytes at h
  simp only [Buffer.readable,Buffer.peek,Buffer.readableBytes,Buffer.write,overwrite]
  rw [List.append_assoc,List.drop_append_of_le_length (by rw [List.length_take]; omega),
    List.drop_take]
  have hl : (List.take (b.writerIndex-b.readerIndex) (List.drop b.readerIndex b.buffer)).length =
      b.writerIndex-b.readerIndex := by
    rw [List.length_take,List.length_drop]
    omega
  rw [← List.append_assoc,List.take_append_of_le_length (by rw [List.length_append,hl]; omega),
    List.take_of_length_le (by rw [List.length_append,hl]; omega)]

theorem readable_append (b : Buffer) (data : Bytes) :
    (b.append data).readable = b.readable++data := by
  rw [Buffer.append,readable_write,readable_ensureWritableBytes]

/-- The spill area is invisible: a read adds the received bytes in order. -/
theorem readable_readFd (b : Buffer) (data : Bytes) :
    (b.readFd data).readable = b.readable++data := by
  unfold Buffer.readFd
  split
  · exact readable_write b data _
  · rw [readable_append,readable_write,List.append_assoc,List.take_append_drop]

end MiniRpc.ByteBuffer
