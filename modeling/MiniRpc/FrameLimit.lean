import MiniRpc.RequestAnswers
import MiniRpc.CallChannel

/-!
# The limit on the size of a frame

The decoder refuses a body over `kMaxBodySize`; the encoder knows no limit
and narrows the length to 32 bits. So what a sender writes is taken by its
peer exactly when the body keeps the limit. On the receiving side the limit
bounds what a connection holds, as long as its stream is well formed: after
a malformed header nothing is consumed any more, while the connection is
shut down in one direction only and goes on reading.
-/

set_option autoImplicit false

namespace MiniRpc.FrameLimit
open MiniRpc.ByteBuffer MiniRpc.WireCodec MiniRpc.CodecStream MiniRpc.CallController
open MiniRpc.Incremental MiniRpc.StepMachine MiniRpc.ProtoWire MiniRpc.CallServer
open MiniRpc.RequestAnswers
open MiniRpc.CallChannel (RpcChannel CallArgs channel callMethod close connectReturned echoArgs
  finish readAnswer requestMessage scanResponses sendFailed startAttempt step_turn)

variable {κ M : Type} [DecidableEq κ]

/-- Whoever finds `bytes` at the front of the buffer decodes them to `msg`
and leaves what follows. -/
def Accepts (msg : ProtocolMessage) (bytes : Bytes) : Prop :=
  ∀ (b : Buffer) (next : Bytes), b.readable = bytes++next →
    ∃ m b', tryDecode b = (.ok (some m),b') ∧ m.header.type = msg.header.type ∧
      m.header.seq = msg.header.seq ∧ m.body = msg.body ∧ b'.readable = next

theorem accepts_sendable {msg : ProtocolMessage} (hm : Sendable msg) : Accepts msg (frame msg) := by
  intro b next hb
  have hp := parseFrame_frame next hm
  rcases tryDecode_cases b with ⟨h,-⟩ | ⟨e,h,-⟩ | ⟨m,b',h,hd⟩
  · rw [hb,hp] at h
    cases h
  · rw [hb,hp] at h
    cases h
  · rw [hb,hp] at h
    obtain ⟨rfl,hrest⟩ := Outcome.item.inj h
    exact ⟨_,b',hd,rfl,rfl,rfl,hrest.symm⟩

theorem accepts_body {msg : ProtocolMessage} {bytes : Bytes} (h : Accepts msg bytes) :
    msg.body.length ≤ kMaxBodySize := by
  have hb : ((Buffer.new 0).append bytes).readable = bytes++[] := by
    rw [readable_append,readable_new,List.nil_append,List.append_nil]
  obtain ⟨m,b',hd,-,-,hbody,-⟩ := h _ [] hb
  rw [← hbody]
  rcases tryDecode_cases ((Buffer.new 0).append bytes) with ⟨-,hc⟩ | ⟨e,-,hc⟩ | ⟨k,b'',hp,hc⟩
  · rw [hc] at hd
    simp at hd
  · rw [hc] at hd
    simp at hd
  · rw [hc] at hd
    simp only [Prod.mk.injEq,Except.ok.injEq,Option.some.injEq] at hd
    obtain ⟨rfl,rfl⟩ := hd
    exact parseFrame_body hp

theorem accepts_iff {msg : ProtocolMessage} (hmagic : msg.header.magic = kMagic)
    (hversion : msg.header.version = kProtocolVersion) :
    Accepts msg (frame msg) ↔ msg.body.length ≤ kMaxBodySize :=
  ⟨accepts_body,fun h => accepts_sendable ⟨hmagic,hversion,h⟩⟩

theorem startAttempt_sends (s : RpcChannel M) (c : CallChannel.Call M) (msg : ProtocolMessage)
    (h : .attempted msg ∈ (startAttempt s c).2) :
    ∃ c' seq, msg = requestMessage seq c'.envelopeBytes ∧
      (startAttempt s c).1.pc = .sending c' (encoded msg) := by
  rw [startAttempt] at h ⊢
  by_cases hr : (c.attempt:ℤ) ≤ s.maxRetries
  · rw [if_pos hr] at h ⊢
    obtain rfl : msg = requestMessage s.nextSeq c.envelopeBytes := by simpa using h
    exact ⟨{ c with controller := c.controller.reset, seq := s.nextSeq },s.nextSeq,rfl,rfl⟩
  · rw [if_neg hr] at h
    simp [finish] at h

theorem step_sends (env : Envelopes) (s : RpcChannel M) (i : CallChannel.Input M)
    (msg : ProtocolMessage) (h : .attempted msg ∈ ((channel env).step s i).2) :
    ∃ c seq, msg = requestMessage seq c.envelopeBytes ∧
      ((channel env).step s i).1.pc = .sending c (encoded msg) := by
  have ht := step_turn env s i
  generalize (channel env).step s i = r at ht h ⊢
  cases ht with
  | ignores _ hi => simp at h
  | calls args hpc =>
    rw [callMethod] at h ⊢
    cases hfd : s.fd with
    | none => simp [hfd] at h
    | some fd =>
      rw [hfd] at h
      exact startAttempt_sends s _ msg (by simpa using h)
  | closes hpc =>
    rw [close] at h
    cases hfd : s.fd <;> simp [hfd] at h
  | connects c failure hpc =>
    cases failure with
    | some e => simp [connectReturned,finish] at h
    | none => exact startAttempt_sends _ c msg (by simpa [connectReturned] using h)
  | sends c rest now n errno hpc hn => simp at h
  | resends c rest now n errno hpc hn he => simp at h
  | breaks c rest now n errno hpc hn he =>
    rw [sendFailed,close] at h
    cases hfd : s.fd <;> simp [hfd,finish] at h
  | retries c deadline now r hpc => exact startAttempt_sends s _ msg h
  | repolls c deadline now r hpc => simp at h
  | fails c deadline now r hpc code message => simp [finish] at h
  | reads c deadline now rev data hpc =>
    rw [readAnswer] at h
    cases he : (scanResponses c.seq (s.inputBuffer.readFd data)).ending <;>
      simp [he,finish] at h

/-- Neither side refuses to send: a request goes out as it was encoded and a
response is handed to the connection. The peer takes the frame exactly when
its body keeps the limit. -/
theorem sent_accepted_iff (env : Envelopes) :
    (∀ (s : RpcChannel M) (i : CallChannel.Input M) (msg : ProtocolMessage),
      .attempted msg ∈ ((channel env).step s i).2 →
      (∃ c, ((channel env).step s i).1.pc = .sending c (encoded msg)) ∧
      (Accepts msg (encoded msg) ↔ msg.body.length ≤ kMaxBodySize)) ∧
    ∀ (seq : UInt64) (envelope : RpcResponse),
      Accepts (responseMessage env seq envelope) (sendEnvelope env seq envelope) ↔
        (env.response.serialize envelope).length ≤ kMaxBodySize := by
  constructor
  · intro s i msg h
    obtain ⟨c,seq,rfl,hpc⟩ := step_sends env s i msg h
    refine ⟨⟨c,hpc⟩,?_⟩
    rw [encoded_frame]
    exact accepts_iff rfl rfl
  · intro seq envelope
    rw [sendEnvelope_frame]
    exact accepts_iff rfl rfl

theorem sent_accepted_echo :
    Accepts (requestMessage 1 (requestSerializer.serialize ⟨echoArgs.method,echoArgs.request⟩))
      (encoded (requestMessage 1
        (requestSerializer.serialize ⟨echoArgs.method,echoArgs.request⟩))) :=
  ((sent_accepted_iff protoEnvelopes).1
    ((channel protoEnvelopes).step (RpcChannel.new 2000 0) (.callMethod echoArgs)).1
    (.connectReturned none) _
    (List.mem_cons_of_mem _ (List.mem_singleton_self _))).2.mpr (by decide +kernel)

theorem putField_length (tag : UInt8) (bs : Bytes) : bs.length ≤ (putField tag bs).length := by
  rw [putField]
  by_cases hb : bs = []
  · rw [if_pos hb,hb]
  · rw [if_neg hb,List.length_cons,List.length_append]
    omega

theorem envelope_length (method : String) (request : Bytes) :
    (utf8 method).length+request.length ≤ (requestSerializer.serialize ⟨method,request⟩).length := by
  have hm := putField_length 0x0A (utf8 method)
  have hr := putField_length 0x12 request
  have hl : (requestSerializer.serialize ⟨method,request⟩).length =
      (putField 0x0A (utf8 method)).length+(putField 0x12 request).length := List.length_append
  omega

def fullArgs : CallArgs Bytes where
  method := "minirpc.example.EchoService.Echo"
  request := List.replicate kMaxBodySize 0
  parseResponse := some
  controller := .minirpc {}
  done := false

theorem oversized_request_refused :
    ∃ msg, .attempted msg ∈ ((channel protoEnvelopes).run (RpcChannel.new 2000 0)
        [.callMethod fullArgs,.connectReturned none]).2 ∧
      (∃ c, ((channel protoEnvelopes).run (RpcChannel.new 2000 0)
        [.callMethod fullArgs,.connectReturned none]).1.pc = .sending c (encoded msg)) ∧
      ¬ Accepts msg (encoded msg) := by
  refine ⟨requestMessage 1 (requestSerializer.serialize ⟨fullArgs.method,fullArgs.request⟩),?_,
    ⟨_,rfl⟩,?_⟩
  · exact List.mem_cons_of_mem _ (List.mem_cons_of_mem _ (List.mem_singleton_self _))
  · intro h
    have hlimit : (requestSerializer.serialize ⟨fullArgs.method,fullArgs.request⟩).length ≤
        kMaxBodySize := accepts_body h
    have hlength := envelope_length fullArgs.method fullArgs.request
    have hmethod : 0 < (utf8 fullArgs.method).length := by decide
    have hfull : fullArgs.request.length = kMaxBodySize := List.length_replicate
    omega

theorem held_drain {c : κ} {s : RpcServer κ M} {os : List (Output κ)} (ha : Accounted c s os)
    (hret : (s.conns c).inCallback = false) :
    (drain frameParser (receivedOn c os)).rest = (s.conns c).inputBuffer.readable ∧
    ((drain frameParser (receivedOn c os)).verdict = none →
      parseFrame (s.conns c).inputBuffer.readable = .wait) := by
  have hall := ha.frames
  rw [Resumes] at hall
  rw [hall]
  cases hp : parseFrame (s.conns c).inputBuffer.readable with
  | wait =>
    rw [drain_wait frameParser hp]
    exact ⟨rfl,fun _ => rfl⟩
  | reject e =>
    rw [drain_reject frameParser hp]
    exact ⟨rfl,fun h => by cases h⟩
  | item m rest =>
    have hitems := ha.drained hret
    rw [drain_item frameParser hp] at hitems
    cases hitems

/-- Whatever a peer sends, in any pieces: once `onMessage` has returned, the
connection holds less than the largest frame exactly when the bytes received
so far have no malformed header, or fewer than that many from it on. -/
theorem input_bounded_iff (env : Envelopes) (registry : ServiceRegistry M)
    (is : List (Input κ M)) (c : κ)
    (hret : (((server env).run { registry } is).1.conns c).inCallback = false) :
    (((server env).run { registry } is).1.conns c).inputBuffer.readableBytes <
        kHeaderSize+kMaxBodySize ↔
      (drain frameParser (receivedOn c ((server env).run { registry } is).2)).verdict = none ∨
      (drain frameParser (receivedOn c ((server env).run { registry } is).2)).rest.length <
        kHeaderSize+kMaxBodySize := by
  obtain ⟨hrest,hwait⟩ := held_drain (run_accounted env c registry is) hret
  rw [hrest,readable_length]
  constructor
  · exact Or.inr
  · rintro (hv | hl)
    · have := parseFrame_wait (hwait hv)
      rwa [readable_length] at this
    · exact hl

theorem input_bounded_two_requests :
    (((server protoEnvelopes).run { registry := echoRegistry }
      (sampleRun (.returned [] [104,105]))).1.conns ()).inputBuffer.readableBytes <
        kHeaderSize+kMaxBodySize :=
  (input_bounded_iff protoEnvelopes echoRegistry (sampleRun (.returned [] [104,105])) ()
    (by decide +kernel)).mpr (Or.inr (by decide +kernel))

def flood (size n : ℕ) : List (Input Unit Bytes) :=
  (List.replicate n [.read () (List.replicate size 0),.decode () none]).flatten

theorem parseFrame_zeros (n : ℕ) (hn : kHeaderSize ≤ n) :
    parseFrame (List.replicate n 0) = .reject .badMagic := by
  have hm : readU32 (List.replicate n 0) ≠ kMagic := by
    have h4 : (List.replicate n (0:UInt8)).take 4 = List.replicate 4 0 := by
      rw [List.take_replicate,min_eq_left (by unfold kHeaderSize at hn; omega)]
    rw [readU32,h4]
    decide
  rw [parseFrame,List.length_replicate,if_neg (by omega),if_pos hm]

structure Flooded (s : RpcServer Unit Bytes) (n : ℕ) : Prop where
  returned : (s.conns ()).inCallback = false
  reading : (s.conns ()).state ≠ .disconnected
  held : (s.conns ()).inputBuffer.readable = List.replicate n 0

theorem flooded_turn (env : Envelopes) {s : RpcServer Unit Bytes} {size n : ℕ}
    (hsize : kHeaderSize ≤ size) (h : Flooded s n) :
    Flooded ((server env).run s
      [.read () (List.replicate size 0),.decode () none]).1 (n+size) := by
  have hdata : List.replicate size (0:UInt8) ≠ [] := by
    rw [Ne,List.replicate_eq_nil_iff]
    unfold kHeaderSize at hsize
    omega
  have hread : (server env).step s (.read () (List.replicate size 0)) =
      (s.setConn () { s.conns () with
        inputBuffer := (s.conns ()).inputBuffer.readFd (List.replicate size 0)
        inCallback := true },[.received () (List.replicate size 0)]) := by
    simp only [server,h.returned,h.reading,handleRead,hdata,Bool.false_eq_true,or_self,if_false]
  have hheld : ((s.conns ()).inputBuffer.readFd (List.replicate size 0)).readable =
      List.replicate (n+size) 0 := by
    rw [readable_readFd,h.held,List.replicate_append_replicate]
  have hreject : parseFrame ((s.conns ()).inputBuffer.readFd (List.replicate size 0)).readable =
      .reject .badMagic := by
    rw [hheld]
    exact parseFrame_zeros _ (by omega)
  rw [Machine.run,Machine.run,Machine.run,hread]
  generalize (s.conns ()).inputBuffer.readFd (List.replicate size 0) = b at hheld hreject
  rcases tryDecode_cases b with ⟨hp,-⟩ | ⟨e,-,hd⟩ | ⟨m,b',hp,-⟩
  · rw [hreject] at hp
    cases hp
  · have hdecode : ((server env).step (s.setConn () { s.conns () with
        inputBuffer := b, inCallback := true }) (.decode () none)).1.conns () =
        { s.conns () with inputBuffer := b, inCallback := false }.shutdown := by
      simp [server,onMessage,hd]
    refine ⟨?_,?_,?_⟩
    · rw [hdecode,Connection.shutdown]
      split <;> rfl
    · rw [hdecode,Connection.shutdown]
      split
      · exact ConnState.noConfusion
      · exact h.reading
    · rw [hdecode,shutdown_inputBuffer]
      exact hheld
  · rw [hreject] at hp
    cases hp

theorem flood_held (env : Envelopes) {s : RpcServer Unit Bytes} {size : ℕ}
    (hsize : kHeaderSize ≤ size) (n k : ℕ) (h : Flooded s k) :
    Flooded ((server env).run s (flood size n)).1 (k+n*size) := by
  induction n generalizing s k with
  | zero =>
    rw [Nat.zero_mul]
    exact h
  | succ n ih =>
    rw [flood,List.replicate_succ,List.flatten_cons,run_append]
    rw [show k+(n+1)*size = k+size+n*size by rw [Nat.succ_mul]; omega]
    exact ih (k+size) (flooded_turn env hsize h)

/-- After the malformed header the connection goes on reading, at most the
64 KiB of `extrabuf` at a time, and holds it all. -/
theorem flood_exceeds_bound :
    (((server protoEnvelopes).run { registry := echoRegistry } (flood 65536 1025)).1.conns
      ()).inCallback = false ∧
    ¬ (((server protoEnvelopes).run { registry := echoRegistry } (flood 65536 1025)).1.conns
      ()).inputBuffer.readableBytes < kHeaderSize+kMaxBodySize := by
  have h := flood_held protoEnvelopes (by decide : kHeaderSize ≤ 65536) 1025 0
    (s := { registry := echoRegistry }) ⟨rfl,by decide,rfl⟩
  refine ⟨h.returned,?_⟩
  rw [← readable_length,h.held,List.length_replicate,kHeaderSize,kMaxBodySize]
  omega

end MiniRpc.FrameLimit
