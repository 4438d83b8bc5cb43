import MiniRpc.ByteOrder
import MiniRpc.ByteBuffer
import MiniRpc.Incremental

/-!
# The 24-byte header and the frame codec

`encode` writes a header and a body to a `Buffer`; `tryDecode` looks at a
`Buffer` through its read pointer and either waits, throws, or takes one
message off. `parseFrame` states on plain bytes what `tryDecode` decides;
it is an incremental parser, and `frame` is a framing for it.
-/

set_option autoImplicit false

namespace MiniRpc.WireCodec
open MiniRpc.ByteOrder MiniRpc.ByteBuffer MiniRpc.Incremental

structure ProtocolHeader where
  magic : UInt32 := 0
  version : UInt8 := 0
  type : UInt8 := 0
  flags : UInt16 := 0
  seq : UInt64 := 0
  bodyLen : UInt32 := 0
  reserved : UInt32 := 0
  deriving DecidableEq, Repr

inductive MessageType where
  | kRequest
  | kResponse
  deriving DecidableEq, Repr

def MessageType.code : MessageType → UInt8
  | .kRequest => 1
  | .kResponse => 2

def kMagic : UInt32 := 0x4D494E52
def kProtocolVersion : UInt8 := 1
def kHeaderSize : ℕ := 24
def kMaxBodySize : ℕ := 64*1024*1024

structure ProtocolMessage where
  header : ProtocolHeader := {}
  body : Bytes := []
  deriving DecidableEq, Repr

inductive CodecError where
  | badMagic
  | badVersion
  | tooLong
  deriving DecidableEq, Repr

def CodecError.what : CodecError → String
  | .badMagic => "Codec: invalid magic number"
  | .badVersion => "Codec: unsupported protocol version"
  | .tooLong => "Codec: body length exceeds limit"

def appendU16 (out : Buffer) (v : UInt16) : Buffer := out.append (bigEndian 2 v.toNat)
def appendU32 (out : Buffer) (v : UInt32) : Buffer := out.append (bigEndian 4 v.toNat)
def appendU64 (out : Buffer) (v : UInt64) : Buffer := out.append (bigEndian 8 v.toNat)

def readU16 (p : Bytes) : UInt16 := UInt16.ofNat (wordValue (p.take 2))
def readU32 (p : Bytes) : UInt32 := UInt32.ofNat (wordValue (p.take 4))
def readU64 (p : Bytes) : UInt64 := UInt64.ofNat (wordValue (p.take 8))

/-- The length field is the body size narrowed to 32 bits; the header's own
`bodyLen` is not written. -/
def encode (msg : ProtocolMessage) (out : Buffer) : Buffer :=
  let out := appendU32 out msg.header.magic
  let out := out.append [msg.header.version]
  let out := out.append [msg.header.type]
  let out := appendU16 out msg.header.flags
  let out := appendU64 out msg.header.seq
  let out := appendU32 out (UInt32.ofNat msg.body.length)
  let out := appendU32 out msg.header.reserved
  out.append msg.body

def readHeader (p : Bytes) : ProtocolHeader where
  magic := kMagic
  version := p.getD 4 0
  type := p.getD 5 0
  flags := readU16 (p.drop 6)
  seq := readU64 (p.drop 8)
  bodyLen := readU32 (p.drop 16)
  reserved := readU32 (p.drop 20)

def tryDecode (b : Buffer) : Except CodecError (Option ProtocolMessage) × Buffer :=
  if b.readableBytes < kHeaderSize then (.ok none,b)
  else
    let p := b.peek
    if readU32 p ≠ kMagic then (.error .badMagic,b)
    else
      let h := readHeader p
      if h.version ≠ kProtocolVersion then (.error .badVersion,b)
      else if h.bodyLen.toNat > kMaxBodySize then (.error .tooLong,b)
      else if b.readableBytes < kHeaderSize+h.bodyLen.toNat then (.ok none,b)
      else
        let r := (b.retrieve kHeaderSize).retrieveAsString h.bodyLen.toNat
        (.ok (some ⟨h,r.1⟩),r.2)

def parseFrame (xs : Bytes) : Outcome UInt8 ProtocolMessage CodecError :=
  if xs.length < kHeaderSize then .wait
  else if readU32 xs ≠ kMagic then .reject .badMagic
  else if (readHeader xs).version ≠ kProtocolVersion then .reject .badVersion
  else if (readHeader xs).bodyLen.toNat > kMaxBodySize then .reject .tooLong
  else if xs.length < kHeaderSize+(readHeader xs).bodyLen.toNat then .wait
  else .item ⟨readHeader xs,(xs.drop kHeaderSize).take (readHeader xs).bodyLen.toNat⟩
    (xs.drop (kHeaderSize+(readHeader xs).bodyLen.toNat))

theorem readU32_take (p : Bytes) (n : ℕ) (h : 4 ≤ n) : readU32 (p.take n) = readU32 p := by
  rw [readU32,readU32,List.take_take,min_eq_left h]

theorem readHeader_take (p : Bytes) : readHeader (p.take kHeaderSize) = readHeader p := by
  simp [readHeader,readU16,readU32,readU64,kHeaderSize,List.drop_take,List.take_take]

theorem readHeader_congr {p q : Bytes} (h : p.take kHeaderSize = q.take kHeaderSize) :
    readHeader p = readHeader q ∧ readU32 p = readU32 q := by
  rw [← readHeader_take p,← readHeader_take q,← readU32_take p kHeaderSize (by decide),
    ← readU32_take q kHeaderSize (by decide),h]
  exact ⟨rfl,rfl⟩

theorem readHeader_append {xs : Bytes} (ys : Bytes) (h : kHeaderSize ≤ xs.length) :
    readHeader (xs++ys) = readHeader xs ∧ readU32 (xs++ys) = readU32 xs :=
  readHeader_congr (List.take_append_of_le_length h)

/-- `tryDecode` decides by the readable bytes alone, consumes exactly what
`parseFrame` takes, and leaves the buffer untouched otherwise. -/
theorem tryDecode_cases (b : Buffer) :
    (parseFrame b.readable = .wait ∧ tryDecode b = (.ok none,b)) ∨
    (∃ e, parseFrame b.readable = .reject e ∧ tryDecode b = (.error e,b)) ∨
    ∃ m b', parseFrame b.readable = .item m b'.readable ∧ tryDecode b = (.ok (some m),b') := by
  unfold parseFrame tryDecode
  rw [readable_length]
  by_cases h24 : b.readableBytes < kHeaderSize
  · simp [h24]
  · obtain ⟨hh,hm⟩ := readHeader_congr (peek_take b kHeaderSize (Nat.le_of_not_lt h24))
    simp only [h24,if_false,hh,hm]
    split_ifs
    · exact Or.inr (Or.inl ⟨_,rfl,rfl⟩)
    · exact Or.inr (Or.inl ⟨_,rfl,rfl⟩)
    · exact Or.inr (Or.inl ⟨_,rfl,rfl⟩)
    · exact Or.inl ⟨rfl,rfl⟩
    · refine Or.inr (Or.inr ⟨_,_,?_,rfl⟩)
      rw [retrieveAsString_bytes,readable_retrieveAsString,readable_retrieve,List.drop_drop]

theorem parseFrame_takes {xs rest : Bytes} {m : ProtocolMessage}
    (h : parseFrame xs = .item m rest) : ∃ used, used ≠ [] ∧ xs = used++rest := by
  unfold parseFrame at h
  split_ifs at h with h1
  obtain ⟨-,rfl⟩ := Outcome.item.inj h
  refine ⟨_,?_,(List.take_append_drop _ xs).symm⟩
  rw [← List.length_pos_iff,List.length_take]
  unfold kHeaderSize at *
  omega

theorem parseFrame_body {xs rest : Bytes} {m : ProtocolMessage}
    (h : parseFrame xs = .item m rest) : m.body.length ≤ kMaxBodySize := by
  unfold parseFrame at h
  split_ifs at h with h1 h2 h3 h4 h5
  obtain ⟨rfl,-⟩ := Outcome.item.inj h
  rw [List.length_take]
  omega

/-- Whoever waits for the rest of a frame holds less than the largest one. -/
theorem parseFrame_wait {xs : Bytes} (h : parseFrame xs = .wait) :
    xs.length < kHeaderSize+kMaxBodySize := by
  unfold parseFrame at h
  split_ifs at h with h1 h2 h3 h4 h5
  · omega
  · omega

theorem parseFrame_item {xs rest : Bytes} {m : ProtocolMessage} (ys : Bytes)
    (h : parseFrame xs = .item m rest) : parseFrame (xs++ys) = .item m (rest++ys) := by
  unfold parseFrame at h ⊢
  split_ifs at h with h1 h2 h3 h4 h5
  obtain ⟨rfl,rfl⟩ := Outcome.item.inj h
  obtain ⟨hh,hm⟩ := readHeader_append ys (Nat.le_of_not_lt h1)
  rw [hh,hm,if_neg (by rw [List.length_append]; omega),if_neg h2,if_neg h3,if_neg h4,
    if_neg (by rw [List.length_append]; omega)]
  congr 1
  · rw [List.drop_append_of_le_length (by omega),
      List.take_append_of_le_length (by rw [List.length_drop]; omega)]
  · rw [List.drop_append_of_le_length (by omega)]

theorem parseFrame_reject {xs : Bytes} {e : CodecError} (ys : Bytes)
    (h : parseFrame xs = .reject e) : parseFrame (xs++ys) = .reject e := by
  unfold parseFrame at h ⊢
  by_cases h1 : xs.length < kHeaderSize
  · simp [h1] at h
  · obtain ⟨hh,hm⟩ := readHeader_append ys (Nat.le_of_not_lt h1)
    rw [hh,hm,if_neg (by rw [List.length_append]; omega)]
    rw [if_neg h1] at h
    split_ifs at h ⊢ <;> exact h

def frameParser : Parser UInt8 ProtocolMessage CodecError where
  next := parseFrame
  takes := parseFrame_takes
  item_extends := parseFrame_item
  reject_extends := parseFrame_reject

def frame (msg : ProtocolMessage) : Bytes :=
  bigEndian 4 msg.header.magic.toNat++(msg.header.version::msg.header.type::
    (bigEndian 2 msg.header.flags.toNat++(bigEndian 8 msg.header.seq.toNat++
      (bigEndian 4 (UInt32.ofNat msg.body.length).toNat++
        (bigEndian 4 msg.header.reserved.toNat++msg.body)))))

theorem encode_readable (msg : ProtocolMessage) (b : Buffer) :
    (encode msg b).readable = b.readable++frame msg := by
  simp [encode,frame,appendU16,appendU32,appendU64,readable_append]

theorem tryDecode_shrinks {b b' : Buffer} {m : ProtocolMessage}
    (h : parseFrame b.readable = .item m b'.readable) : b'.readableBytes < b.readableBytes := by
  rw [← readable_length,← readable_length]
  exact frameParser.shrinks h

theorem frame_length (msg : ProtocolMessage) :
    (frame msg).length = kHeaderSize+msg.body.length := by
  simp only [frame,List.length_append,List.length_cons,bigEndian_length,kHeaderSize]
  omega

theorem readU16_bigEndian (v : UInt16) (rest : Bytes) :
    readU16 (bigEndian 2 v.toNat++rest) = v := by
  rw [readU16,List.take_left' (by simp),wordValue_bigEndian_of_lt _ _ v.toNat_lt,UInt16.ofNat_toNat]

theorem readU32_bigEndian (v : UInt32) (rest : Bytes) :
    readU32 (bigEndian 4 v.toNat++rest) = v := by
  rw [readU32,List.take_left' (by simp),wordValue_bigEndian_of_lt _ _ v.toNat_lt,UInt32.ofNat_toNat]

theorem readU64_bigEndian (v : UInt64) (rest : Bytes) :
    readU64 (bigEndian 8 v.toNat++rest) = v := by
  rw [readU64,List.take_left' (by simp),wordValue_bigEndian_of_lt _ _ v.toNat_lt,UInt64.ofNat_toNat]

def headerBytes (h : ProtocolHeader) : Bytes :=
  bigEndian 4 h.magic.toNat++(h.version::h.type::
    (bigEndian 2 h.flags.toNat++(bigEndian 8 h.seq.toNat++
      (bigEndian 4 h.bodyLen.toNat++bigEndian 4 h.reserved.toNat))))

theorem headerBytes_length (h : ProtocolHeader) : (headerBytes h).length = kHeaderSize := by
  simp only [headerBytes,List.length_append,List.length_cons,bigEndian_length,kHeaderSize]

theorem frame_header (msg : ProtocolMessage) :
    frame msg = headerBytes { msg.header with bodyLen := UInt32.ofNat msg.body.length }++msg.body := by
  simp only [frame,headerBytes,List.append_assoc,List.cons_append]

theorem readHeader_headerBytes (h : ProtocolHeader) (rest : Bytes) :
    readHeader (headerBytes h++rest) = { h with magic := kMagic } := by
  have h6 : (headerBytes h++rest).drop 6 = bigEndian 2 h.flags.toNat++
      (bigEndian 8 h.seq.toNat++(bigEndian 4 h.bodyLen.toNat++bigEndian 4 h.reserved.toNat))++rest := rfl
  have h8 : (headerBytes h++rest).drop 8 = bigEndian 8 h.seq.toNat++
      (bigEndian 4 h.bodyLen.toNat++bigEndian 4 h.reserved.toNat)++rest := rfl
  have h16 : (headerBytes h++rest).drop 16 = bigEndian 4 h.bodyLen.toNat++
      bigEndian 4 h.reserved.toNat++rest := rfl
  have h20 : (headerBytes h++rest).drop 20 = bigEndian 4 h.reserved.toNat++rest := rfl
  have hv : (headerBytes h++rest).getD 4 0 = h.version := rfl
  have ht : (headerBytes h++rest).getD 5 0 = h.type := rfl
  simp only [readHeader,h6,h8,h16,h20,hv,ht,List.append_assoc,readU16_bigEndian,readU32_bigEndian,
    readU64_bigEndian]

theorem readHeader_frame (msg : ProtocolMessage) (rest : Bytes) :
    readHeader (frame msg++rest) =
      { msg.header with magic := kMagic, bodyLen := UInt32.ofNat msg.body.length } := by
  rw [frame_header,List.append_assoc,readHeader_headerBytes]

/-- What both ends of a connection may put on the wire. -/
structure Sendable (msg : ProtocolMessage) : Prop where
  magic : msg.header.magic = kMagic
  version : msg.header.version = kProtocolVersion
  body : msg.body.length ≤ kMaxBodySize

/-- The decoder fills in the length field from the wire. -/
def received (msg : ProtocolMessage) : ProtocolMessage :=
  { msg with header := { msg.header with bodyLen := UInt32.ofNat msg.body.length } }

theorem body_length_fits {msg : ProtocolMessage} (h : Sendable msg) :
    (UInt32.ofNat msg.body.length).toNat = msg.body.length := by
  have hb := h.body
  unfold kMaxBodySize at hb
  rw [UInt32.toNat_ofNat',Nat.mod_eq_of_lt (by omega)]

theorem parseFrame_frame {msg : ProtocolMessage} (rest : Bytes) (h : Sendable msg) :
    parseFrame (frame msg++rest) = .item (received msg) rest := by
  have hb := body_length_fits h
  have hl := frame_length msg
  have hm : readU32 (frame msg++rest) = kMagic := by
    rw [frame,List.append_assoc,readU32_bigEndian,h.magic]
  have hhead : readHeader (frame msg++rest) = (received msg).header := by
    rw [readHeader_frame,received,← h.magic]
  have hd : (frame msg++rest).drop kHeaderSize = msg.body++rest := rfl
  have hlen : (received msg).header.bodyLen.toNat = msg.body.length := hb
  unfold parseFrame
  rw [hm,hhead,hlen,List.length_append,hl,if_neg (by omega),if_neg (by simp),
    if_neg (by simp [received,h.version]),if_neg (by have := h.body; omega),if_neg (by omega)]
  congr 1
  · rw [hd,List.take_left]
    rfl
  · rw [← List.drop_drop,hd,List.drop_left]

def wireFraming : Framing frameParser Sendable where
  write := frame
  read := received
  next_write := fun rest h => parseFrame_frame rest h
  next_nil := rfl

end MiniRpc.WireCodec
