import MiniRpc.WireCodec

/-!
# Decoding a byte stream

Both ends of a connection append what they receive to a `Buffer` and run
`while (tryDecode)` after each read. The loop is bounded by the readable
bytes because every message consumes its header. What it returns is the
greedy draining of the received bytes, so neither the cut of the stream
nor the buffer's compaction and growth is observable.
-/

set_option autoImplicit false

namespace MiniRpc.CodecStream
open MiniRpc.ByteBuffer MiniRpc.WireCodec MiniRpc.Incremental

structure Decoded where
  messages : List ProtocolMessage
  thrown : List CodecError
  buffer : Buffer

def Decoded.verdict (d : Decoded) : Option CodecError := d.thrown.head?

def decodeLoop : ℕ → Buffer → Decoded
  | 0, b => ⟨[],[],b⟩
  | fuel+1, b =>
    match tryDecode b with
    | (.ok none,b') => ⟨[],[],b'⟩
    | (.error e,b') => ⟨[],[e],b'⟩
    | (.ok (some m),b') =>
      { decodeLoop fuel b' with messages := m::(decodeLoop fuel b').messages }

def decodeAll (b : Buffer) : Decoded := decodeLoop (b.readableBytes+1) b

theorem decodeLoop_drain (fuel : ℕ) (b : Buffer) (hf : b.readableBytes < fuel) :
    (decodeLoop fuel b).messages = (drain frameParser b.readable).items ∧
    (decodeLoop fuel b).thrown = (drain frameParser b.readable).verdict.toList ∧
    (decodeLoop fuel b).buffer.readable = (drain frameParser b.readable).rest := by
  induction fuel generalizing b with
  | zero => omega
  | succ fuel ih =>
    rw [decodeLoop]
    rcases tryDecode_cases b with ⟨hp,hd⟩ | ⟨e,hp,hd⟩ | ⟨m,b',hp,hd⟩
    · rw [hd,drain_wait frameParser hp]
      exact ⟨rfl,rfl,rfl⟩
    · rw [hd,drain_reject frameParser hp]
      exact ⟨rfl,rfl,rfl⟩
    · obtain ⟨h1,h2,h3⟩ := ih b' (by have := tryDecode_shrinks hp; omega)
      rw [hd,drain_item frameParser hp]
      exact ⟨congrArg (m :: ·) h1,h2,h3⟩

theorem decodeAll_drain (b : Buffer) :
    (decodeAll b).messages = (drain frameParser b.readable).items ∧
    (decodeAll b).thrown = (drain frameParser b.readable).verdict.toList ∧
    (decodeAll b).buffer.readable = (drain frameParser b.readable).rest :=
  decodeLoop_drain _ b (Nat.lt_succ_self _)

def receiveChunks : Buffer → List Bytes → Decoded
  | b, [] => ⟨[],[],b⟩
  | b, c::cs =>
    let d := decodeAll (b.append c)
    let r := receiveChunks d.buffer cs
    ⟨d.messages++r.messages,d.thrown++r.thrown,r.buffer⟩

theorem receiveChunks_feed (b : Buffer) (cs : List Bytes) :
    (receiveChunks b cs).messages = (feed frameParser b.readable cs).items ∧
    (receiveChunks b cs).thrown = rejections frameParser b.readable cs ∧
    (receiveChunks b cs).buffer.readable = (feed frameParser b.readable cs).rest := by
  induction cs generalizing b with
  | nil => exact ⟨rfl,rfl,rfl⟩
  | cons c cs ih =>
    obtain ⟨h1,h2,h3⟩ := decodeAll_drain (b.append c)
    obtain ⟨i1,i2,i3⟩ := ih (decodeAll (b.append c)).buffer
    rw [readable_append] at h1 h2 h3
    rw [h3] at i1 i2 i3
    simp only [receiveChunks,feed,rejections,h1,h2,i1,i2,i3]
    exact ⟨trivial,trivial,trivial⟩

theorem drain_empty : drain frameParser [] = ⟨[],none,[]⟩ :=
  drain_wait frameParser wireFraming.next_nil

theorem receiveChunks_drain (b : Buffer) (hb : b.readableBytes = 0) (cs : List Bytes) :
    (receiveChunks b cs).messages = (drain frameParser cs.flatten).items ∧
    (receiveChunks b cs).verdict = (drain frameParser cs.flatten).verdict ∧
    (receiveChunks b cs).buffer.readable = (drain frameParser cs.flatten).rest := by
  have hr : b.readable = [] := List.eq_nil_of_length_eq_zero (by rw [readable_length,hb])
  obtain ⟨h1,h2,h3⟩ := receiveChunks_feed b cs
  rw [hr] at h1 h2 h3
  rw [feed_flatten frameParser [] cs (by rw [drain_empty]),List.nil_append] at h1 h3
  refine ⟨h1,?_,h3⟩
  rw [Decoded.verdict,h2]
  exact rejections_head frameParser [] cs drain_empty

def encoded (msg : ProtocolMessage) : Bytes := (encode msg (Buffer.new kInitialSize)).readable

theorem encoded_frame (msg : ProtocolMessage) : encoded msg = frame msg := by
  rw [encoded,encode_readable,readable_new,List.nil_append]

theorem encoded_stream (ms : List ProtocolMessage) :
    ms.flatMap encoded = wireFraming.stream ms := by
  rw [Framing.stream,show encoded = wireFraming.write from funext encoded_frame]

/-- Any cut of the concatenated encodings is decoded to exactly the encoded
messages, without an exception and without a byte left over. -/
theorem stream_round_trip (ms : List ProtocolMessage) (hm : ∀ m ∈ ms, Sendable m)
    (b : Buffer) (hb : b.readableBytes = 0) (cs : List Bytes)
    (hc : cs.flatten = ms.flatMap encoded) :
    (receiveChunks b cs).messages = ms.map received ∧
    (receiveChunks b cs).thrown = [] ∧
    (receiveChunks b cs).buffer.readableBytes = 0 := by
  have hs : drain frameParser cs.flatten = ⟨ms.map received,none,[]⟩ := by
    rw [hc,encoded_stream]
    exact drain_stream wireFraming ms hm
  obtain ⟨h1,h2,h3⟩ := receiveChunks_drain b hb cs
  rw [hs] at h1 h2 h3
  refine ⟨h1,List.head?_eq_none_iff.mp h2,?_⟩
  rw [← readable_length,h3]
  rfl

def sampleMessage (seq : UInt64) (body : Bytes) : ProtocolMessage :=
  { header := { magic := kMagic, version := kProtocolVersion, type := 2, flags := 7,
                seq := seq, reserved := 9 }
    body := body }

theorem stream_round_trip_two_frames :
    (receiveChunks (Buffer.new 0)
      [(encoded (sampleMessage 1 [5])).take 3,[],
       (encoded (sampleMessage 1 [5])).drop 3++(encoded (sampleMessage 2 [])).take 18,
       (encoded (sampleMessage 2 [])).drop 18]).messages =
      [received (sampleMessage 1 [5]),received (sampleMessage 2 [])] :=
  (stream_round_trip [sampleMessage 1 [5],sampleMessage 2 []]
    (by
      intro m hm
      simp only [List.mem_cons,List.not_mem_nil,or_false] at hm
      rcases hm with rfl | rfl <;> exact ⟨rfl,rfl,by decide⟩)
    (Buffer.new 0) (by decide) _
    (by
      simp only [List.flatten_cons,List.flatten_nil,List.nil_append,List.append_nil,
        List.append_assoc,List.take_append_drop,List.flatMap_cons,List.flatMap_nil]
      rw [← List.append_assoc,List.take_append_drop])).1

/-- Whatever follows a rejected stream, each further loop throws the same
error and returns nothing. -/
theorem receiveChunks_rejected (b : Buffer) {e : CodecError} (he : parseFrame b.readable = .reject e)
    (cs : List Bytes) :
    (receiveChunks b cs).messages = [] ∧
    (receiveChunks b cs).thrown = List.replicate cs.length e := by
  obtain ⟨h1,h2,-⟩ := receiveChunks_feed b cs
  obtain ⟨hitems,hrejections⟩ := feed_rejected frameParser he cs
  rw [h1,h2]
  exact ⟨hitems,hrejections⟩

/-- Two cuts of one byte string, well formed or not, give the same messages,
the same verdict and the same bytes left; and the error of a stream that was
rejected is thrown again after every later chunk. -/
theorem decoding_ignores_chunking (b b' : Buffer) (hb : b.readableBytes = 0)
    (hb' : b'.readableBytes = 0) (cs ds : List Bytes) (hc : cs.flatten = ds.flatten) :
    (receiveChunks b cs).messages = (receiveChunks b' ds).messages ∧
    (receiveChunks b cs).verdict = (receiveChunks b' ds).verdict ∧
    (receiveChunks b cs).buffer.readable = (receiveChunks b' ds).buffer.readable ∧
    ∀ e ∈ (receiveChunks b cs).verdict, ∀ later : List Bytes,
      (receiveChunks (receiveChunks b cs).buffer later).messages = [] ∧
      (receiveChunks (receiveChunks b cs).buffer later).thrown =
        List.replicate later.length e := by
  obtain ⟨h1,h2,h3⟩ := receiveChunks_drain b hb cs
  obtain ⟨g1,g2,g3⟩ := receiveChunks_drain b' hb' ds
  rw [hc] at h1 h2 h3
  refine ⟨h1.trans g1.symm,h2.trans g2.symm,h3.trans g3.symm,?_⟩
  intro e he later
  apply receiveChunks_rejected
  rw [h3]
  apply next_rest_rejected frameParser
  rw [← h2]
  exact he

theorem decoding_ignores_chunking_bad_magic :
    (receiveChunks (Buffer.new 0) [encoded (sampleMessage 1 [5])++List.replicate 24 0]).verdict =
      (receiveChunks (Buffer.new 0)
        [(encoded (sampleMessage 1 [5])).take 3,
         (encoded (sampleMessage 1 [5])).drop 3++List.replicate 10 0,
         List.replicate 14 0]).verdict :=
  (decoding_ignores_chunking (Buffer.new 0) (Buffer.new 0) (by decide) (by decide) _ _
    (by decide +kernel)).2.1

end MiniRpc.CodecStream
