import MiniRpc.CallChannel
import MiniRpc.ProtoWire

/-!
# Connections over the lifetime of a channel

A channel outlives its connections. `inputBuffer_` belongs to the channel
and is never cleared: the bytes held there came from the open connection
exactly as long as every connection that was dropped left nothing behind.
Of the exits that find the connection unusable only the failed `send`
closes it; after each of the others the next call writes to it again.
-/

set_option autoImplicit false

namespace MiniRpc.ChannelLifetime
open MiniRpc.ByteBuffer MiniRpc.WireCodec MiniRpc.CallController MiniRpc.CallChannel
open MiniRpc.StepMachine MiniRpc.Incremental MiniRpc.CodecStream MiniRpc.ProtoWire

variable {M : Type}

def receivedBytes : List (Output M) → List (Option ℕ × UInt8)
  | [] => []
  | .received conn bytes::os => bytes.map (conn,·)++receivedBytes os
  | _::os => receivedBytes os

/-- The received bytes that are still in `inputBuffer_`: the last ones. -/
def heldBytes (s : RpcChannel M) (os : List (Output M)) : List (Option ℕ × UInt8) :=
  (receivedBytes os).drop ((receivedBytes os).length-s.inputBuffer.readableBytes)

/-- Every byte held was received on the connection now open. -/
def InputClean (s : RpcChannel M) (os : List (Output M)) : Prop :=
  ∀ x ∈ heldBytes s os, x.1 = s.fd

def sendFails (n : ℤ) (errno : Errno) : Bool := (n < 0 && errno.code != EINTR) || n = 0

/-- The step is one that calls `close()` on an open connection. -/
def dropsConnection (s : RpcChannel M) (i : Input M) : Bool :=
  s.fd.isSome &&
    match s.pc, i with
    | .idle, .close => true
    | .sending _ _, .sendReturned _ n errno => sendFails n errno
    | _, _ => false

def DropsEmpty (s : RpcChannel M) (i : Input M) : Prop :=
  dropsConnection s i = true → s.inputBuffer.readableBytes = 0

def PcOk (s : RpcChannel M) : Prop :=
  match s.pc with
  | .idle => True
  | .connecting _ => s.fd = none
  | .sending _ _ => s.fd.isSome
  | .waiting _ _ => s.fd.isSome

inductive Effect (s s' : RpcChannel M) : List (Option ℕ × UInt8) → Bool → Prop
  | quiet (hf : s'.fd = s.fd) (hb : s'.inputBuffer = s.inputBuffer) : Effect s s' [] false
  | opens (hn : s.fd = none) (hb : s'.inputBuffer = s.inputBuffer) : Effect s s' [] false
  | drops (hs : s.fd.isSome) (hn : s'.fd = none) (hb : s'.inputBuffer = s.inputBuffer) :
      Effect s s' [] true
  | reads (data used : Bytes) (hs : s.fd.isSome) (hf : s'.fd = s.fd)
      (hu : s.inputBuffer.readable++data = used++s'.inputBuffer.readable) :
      Effect s s' (data.map (s.fd,·)) false

theorem receivedBytes_append (os ps : List (Output M)) :
    receivedBytes (os++ps) = receivedBytes os++receivedBytes ps := by
  induction os with
  | nil => rfl
  | cons o os ih => cases o <;> simp [receivedBytes,ih]

theorem finish_received (s : RpcChannel M) (c : Call M) : receivedBytes (finish s c).2 = [] := by
  unfold finish
  cases c.done <;> rfl

theorem startAttempt_received (s : RpcChannel M) (c : Call M) :
    receivedBytes (startAttempt s c).2 = [] := by
  unfold startAttempt
  split
  · rfl
  · exact finish_received s c

theorem decoded_received (ms : List ProtocolMessage) :
    receivedBytes (ms.map (Output.decoded (M := M))) = [] := by
  induction ms with
  | nil => rfl
  | cons m ms ih => exact ih

theorem finish_effect (s : RpcChannel M) (c : Call M) :
    Effect s (finish s c).1 (receivedBytes (finish s c).2) false := by
  rw [finish_received]
  exact .quiet rfl rfl

theorem startAttempt_effect (s : RpcChannel M) (c : Call M) :
    Effect s (startAttempt s c).1 (receivedBytes (startAttempt s c).2) false := by
  rw [startAttempt_received]
  exact .quiet (by simp) (by simp)

theorem close_effect (s : RpcChannel M) :
    Effect s (close s).1 (receivedBytes (close s).2) s.fd.isSome := by
  unfold close
  split
  · rename_i h
    rw [h]
    exact .quiet rfl rfl
  · rename_i k h
    rw [h]
    exact .drops (by rw [h]; rfl) rfl rfl

theorem sendFailed_effect (s : RpcChannel M) (c : Call M) (errno : Errno) (hs : s.fd.isSome) :
    Effect s (sendFailed s c errno).1 (receivedBytes (sendFailed s c errno).2) true := by
  unfold sendFailed
  obtain ⟨k,hk⟩ := Option.isSome_iff_exists.mp hs
  rw [receivedBytes_append,finish_received,List.append_nil]
  simp only [close,hk]
  exact .drops hs rfl rfl

theorem readAnswer_effect (env : Envelopes) (s : RpcChannel M) (c : Call M) (data : Bytes)
    (hs : s.fd.isSome) :
    Effect s (readAnswer env s c data).1 (receivedBytes (readAnswer env s c data).2) false := by
  obtain ⟨used,hu⟩ := scanResponses_takes c.seq (s.inputBuffer.readFd data)
  rw [readable_readFd] at hu
  have hr : ∀ os : List (Output M), receivedBytes os = [] →
      receivedBytes ((.received s.fd data::
        (scanResponses c.seq (s.inputBuffer.readFd data)).decoded.map .decoded)++os) =
        data.map (s.fd,·) := by
    intro os ho
    simp [receivedBytes,receivedBytes_append,decoded_received,ho]
  rw [readAnswer]
  cases (scanResponses c.seq (s.inputBuffer.readFd data)).ending with
  | waits =>
    have h := hr [] rfl
    rw [List.append_nil] at h
    dsimp only
    rw [h]
    exact .reads data used hs rfl hu
  | rejects e =>
    dsimp only
    rw [hr _ (finish_received _ _)]
    exact .reads data used hs rfl hu
  | found m =>
    dsimp only
    rw [hr _ (finish_received _ _)]
    exact .reads data used hs rfl hu

theorem connectReturned_effect (s : RpcChannel M) (c : Call M) (f : Option Errno)
    (hn : s.fd = none) :
    Effect s (connectReturned s c f).1 (receivedBytes (connectReturned s c f).2) false := by
  cases f with
  | some e => exact finish_effect s _
  | none =>
    simp only [connectReturned,receivedBytes,startAttempt_received]
    exact .opens hn (by simp)

theorem callMethod_effect (env : Envelopes) (s : RpcChannel M) (args : CallArgs M) :
    Effect s (callMethod env s args).1 (receivedBytes (callMethod env s args).2) false := by
  rw [callMethod]
  cases hfd : s.fd with
  | none => exact .quiet hfd.symm rfl
  | some fd => exact startAttempt_effect s _

theorem dropsConnection_expected (s : RpcChannel M) (i : Input M) (h : expects s.pc i = false) :
    dropsConnection s i = false := by
  unfold dropsConnection
  cases hpc : s.pc <;> cases i <;> simp_all [expects]

theorem dropsConnection_sending {s : RpcChannel M} {c : Call M} {rest : Bytes}
    (hpc : s.pc = .sending c rest) (hs : s.fd.isSome) (now n : ℤ) (errno : Errno) :
    dropsConnection s (.sendReturned now n errno) = sendFails n errno := by
  simp [dropsConnection,hpc,hs]

theorem step_effect (env : Envelopes) (s : RpcChannel M) (i : Input M) (hp : PcOk s) :
    Effect s ((channel env).step s i).1 (receivedBytes ((channel env).step s i).2)
      (dropsConnection s i) := by
  have ht := step_turn env s i
  generalize (channel env).step s i = r at ht ⊢
  rw [PcOk] at hp
  cases ht with
  | ignores _ hi =>
    rw [dropsConnection_expected s i hi]
    exact .quiet rfl rfl
  | calls args hpc =>
    rw [show dropsConnection s _ = false by simp [dropsConnection,hpc]]
    exact callMethod_effect env s args
  | closes hpc =>
    rw [show dropsConnection s _ = s.fd.isSome by simp [dropsConnection,hpc]]
    exact close_effect s
  | connects c failure hpc =>
    rw [hpc] at hp
    rw [show dropsConnection s _ = false by simp [dropsConnection,hpc]]
    exact connectReturned_effect s c failure hp
  | sends c rest now n errno hpc hn =>
    rw [hpc] at hp
    have hf : sendFails n errno = false := by
      simp [sendFails,hn.ne',not_lt.mpr hn.le]
    rw [dropsConnection_sending hpc hp,hf]
    exact .quiet rfl rfl
  | resends c rest now n errno hpc hn he =>
    rw [hpc] at hp
    have hf : sendFails n errno = false := by
      simp [sendFails,he,hn.ne]
    rw [dropsConnection_sending hpc hp,hf]
    exact .quiet rfl rfl
  | breaks c rest now n errno hpc hn he =>
    rw [hpc] at hp
    have hf : sendFails n errno = true := by
      rcases hn.lt_or_eq with hneg | hzero
      · simp [sendFails,hneg,he hneg]
      · simp [sendFails,hzero]
    rw [dropsConnection_sending hpc hp,hf]
    exact sendFailed_effect s c errno hp
  | retries c deadline now r hpc =>
    rw [show dropsConnection s _ = false by simp [dropsConnection,hpc]]
    exact startAttempt_effect s _
  | repolls c deadline now r hpc =>
    rw [show dropsConnection s _ = false by simp [dropsConnection,hpc]]
    exact .quiet rfl rfl
  | fails c deadline now r hpc code message =>
    rw [show dropsConnection s _ = false by simp [dropsConnection,hpc]]
    exact finish_effect s _
  | reads c deadline now rev data hpc =>
    rw [hpc] at hp
    rw [show dropsConnection s _ = false by simp [dropsConnection,hpc]]
    exact readAnswer_effect env s c data hp

theorem startAttempt_pcOk (s : RpcChannel M) (c : Call M) (hs : s.fd.isSome) :
    PcOk (startAttempt s c).1 := by
  rw [startAttempt]
  by_cases h : (c.attempt:ℤ) ≤ s.maxRetries
  · rw [if_pos h]
    exact hs
  · rw [if_neg h]
    trivial

theorem readAnswer_pcOk (env : Envelopes) (s : RpcChannel M) (c : Call M) (data : Bytes)
    (hp : PcOk s) : PcOk (readAnswer env s c data).1 := by
  rw [readAnswer]
  cases (scanResponses c.seq (s.inputBuffer.readFd data)).ending with
  | waits => exact hp
  | rejects e => trivial
  | found m => trivial

theorem step_pcOk (env : Envelopes) (s : RpcChannel M) (i : Input M) (hp : PcOk s) :
    PcOk ((channel env).step s i).1 := by
  have ht := step_turn env s i
  generalize (channel env).step s i = r at ht ⊢
  have hq := hp
  rw [PcOk] at hq
  cases ht with
  | ignores _ hi => exact hp
  | calls args hpc =>
    rw [callMethod]
    cases hfd : s.fd with
    | none => rfl
    | some fd => exact startAttempt_pcOk s _ (by rw [hfd]; rfl)
  | closes hpc =>
    rw [close]
    cases s.fd with
    | none => exact hp
    | some fd => simp only [PcOk,hpc]
  | connects c failure hpc =>
    cases failure with
    | some e => trivial
    | none => exact startAttempt_pcOk _ c rfl
  | sends c rest now n errno hpc hn =>
    rw [hpc] at hq
    by_cases hl : rest.drop n.toNat = []
    · simpa only [PcOk,if_pos hl] using hq
    · simpa only [PcOk,if_neg hl] using hq
  | resends c rest now n errno hpc hn he => exact hp
  | breaks c rest now n errno hpc hn he => trivial
  | retries c deadline now r hpc =>
    rw [hpc] at hq
    exact startAttempt_pcOk s _ hq
  | repolls c deadline now r hpc => exact hp
  | fails c deadline now r hpc code message => trivial
  | reads c deadline now rev data hpc => exact readAnswer_pcOk env s c data hp

structure Traced (s : RpcChannel M) (os : List (Output M)) : Prop where
  suffix : ∃ used, (receivedBytes os).map Prod.snd = used++s.inputBuffer.readable
  tagged : ∀ x ∈ receivedBytes os, x.1.isSome
  pcOk : PcOk s

theorem readableBytes_le (s : RpcChannel M) (os : List (Output M)) (h : Traced s os) :
    s.inputBuffer.readableBytes ≤ (receivedBytes os).length := by
  obtain ⟨used,hu⟩ := h.suffix
  have hl := congrArg List.length hu
  rw [List.length_map,List.length_append,readable_length] at hl
  omega

theorem heldBytes_length (s : RpcChannel M) (os : List (Output M)) (h : Traced s os) :
    (heldBytes s os).length = s.inputBuffer.readableBytes := by
  have hle := readableBytes_le s os h
  rw [heldBytes,List.length_drop]
  omega

theorem heldBytes_bytes (s : RpcChannel M) (os : List (Output M)) (h : Traced s os) :
    (heldBytes s os).map Prod.snd = s.inputBuffer.readable := by
  obtain ⟨used,hu⟩ := h.suffix
  have hl := congrArg List.length hu
  rw [List.length_map,List.length_append,readable_length] at hl
  rw [heldBytes,List.map_drop,hu,List.drop_left' (by omega)]

theorem traced_step (env : Envelopes) (s : RpcChannel M) (os : List (Output M)) (i : Input M)
    (h : Traced s os) :
    Traced ((channel env).step s i).1 (os++((channel env).step s i).2) := by
  have hp := step_pcOk env s i h.pcOk
  have he := step_effect env s i h.pcOk
  have hr := receivedBytes_append os ((channel env).step s i).2
  obtain ⟨used,hu⟩ := h.suffix
  generalize receivedBytes ((channel env).step s i).2 = new at he hr
  generalize dropsConnection s i = d at he
  cases he with
  | quiet hf hb | opens hn hb | drops hs hn hb =>
    rw [List.append_nil] at hr
    exact ⟨⟨used,by rw [hr,hb,hu]⟩,by rw [hr]; exact h.tagged,hp⟩
  | reads data more hs hf hm =>
    refine ⟨⟨used++more,?_⟩,?_,hp⟩
    · rw [hr,List.map_append,hu,List.append_assoc,List.append_assoc,← hm]
      simp
    · intro x hx
      rw [hr,List.mem_append,List.mem_map] at hx
      rcases hx with hx | ⟨b,-,rfl⟩
      · exact h.tagged x hx
      · exact hs

theorem heldBytes_tagged (s : RpcChannel M) (os : List (Output M)) (h : Traced s os) :
    ∀ x ∈ heldBytes s os, x.1.isSome :=
  fun x hx => h.tagged x (List.mem_of_mem_drop hx)

theorem clean_closed_iff (s : RpcChannel M) (os : List (Output M)) (h : Traced s os) :
    (∀ x ∈ heldBytes s os, x.1 = none) ↔ s.inputBuffer.readableBytes = 0 := by
  rw [← heldBytes_length s os h,List.length_eq_zero_iff]
  constructor
  · intro hx
    apply List.eq_nil_iff_forall_not_mem.mpr
    intro x hm
    have := heldBytes_tagged s os h x hm
    rw [hx x hm] at this
    simp at this
  · intro hn
    simp [hn]

theorem heldBytes_read (s s' : RpcChannel M) (os os' : List (Output M)) (data : Bytes)
    (hr : receivedBytes os' = receivedBytes os++data.map (s.fd,·))
    (hl : s'.inputBuffer.readableBytes ≤ s.inputBuffer.readableBytes+data.length)
    (x : Option ℕ × UInt8) (hx : x ∈ heldBytes s' os') :
    x ∈ heldBytes s os ∨ x.1 = s.fd := by
  rw [heldBytes,hr,List.length_append,List.length_map] at hx
  have hk : (receivedBytes os).length+data.length-s'.inputBuffer.readableBytes =
      ((receivedBytes os).length-s.inputBuffer.readableBytes)+
        ((receivedBytes os).length+data.length-s'.inputBuffer.readableBytes-
          ((receivedBytes os).length-s.inputBuffer.readableBytes)) := by omega
  rw [hk,← List.drop_drop,List.drop_append_of_le_length (by omega)] at hx
  rcases List.mem_append.mp (List.mem_of_mem_drop hx) with hm | hm
  · exact Or.inl hm
  · obtain ⟨b,-,rfl⟩ := List.mem_map.mp hm
    exact Or.inr rfl

theorem clean_step (env : Envelopes) (s : RpcChannel M) (os : List (Output M)) (i : Input M)
    (h : Traced s os) (hc : InputClean s os) :
    InputClean ((channel env).step s i).1 (os++((channel env).step s i).2) ↔
      DropsEmpty s i := by
  have ht := traced_step env s os i h
  have he := step_effect env s i h.pcOk
  have hr := receivedBytes_append os ((channel env).step s i).2
  unfold DropsEmpty
  generalize receivedBytes ((channel env).step s i).2 = new at he hr
  generalize dropsConnection s i = d at he ⊢
  generalize ((channel env).step s i).1 = s' at he ht ⊢
  generalize os++((channel env).step s i).2 = os' at hr ht ⊢
  have hheld : receivedBytes os' = receivedBytes os → s'.inputBuffer = s.inputBuffer →
      heldBytes s' os' = heldBytes s os := by
    intro h1 h2
    rw [heldBytes,heldBytes,h1,h2]
  cases he with
  | quiet hf hb =>
    rw [List.append_nil] at hr
    simp only [InputClean,hheld hr hb,hf,Bool.false_eq_true,false_implies,iff_true]
    exact hc
  | opens hn hb =>
    rw [List.append_nil] at hr
    have hz : s.inputBuffer.readableBytes = 0 := by
      rw [← clean_closed_iff s os h,← hn]
      exact hc
    have hnil : heldBytes s os = [] := List.eq_nil_of_length_eq_zero (by rw [heldBytes_length s os h,hz])
    simp [InputClean,hheld hr hb,hnil]
  | drops hs hn hb =>
    rw [List.append_nil] at hr
    rw [InputClean,hn,clean_closed_iff s' os' ht,hb]
    simp
  | reads data used hs hf hu =>
    simp only [Bool.false_eq_true,false_implies,iff_true]
    intro x hx
    have hl := congrArg List.length hu
    rw [List.length_append,List.length_append,readable_length,readable_length] at hl
    rw [hf]
    rcases heldBytes_read s s' os os' data hr (by omega) x hx with hm | hm
    · exact hc x hm
    · exact hm

theorem traced_new (timeoutMs maxRetries : ℤ) :
    Traced (RpcChannel.new timeoutMs maxRetries : RpcChannel M) [] :=
  ⟨⟨[],by
    change [] = (Buffer.new kInitialSize).readable
    rw [readable_new]⟩,by simp [receivedBytes],trivial⟩

/-- In every run the bytes in `inputBuffer_` are the last ones received, and
all of them came from the open connection in every state reached if and
only if each connection was dropped with nothing unread. -/
theorem input_clean_iff (env : Envelopes) (timeoutMs maxRetries : ℤ) (is : List (Input M)) :
    (heldBytes ((channel env).run (RpcChannel.new timeoutMs maxRetries) is).1
        ((channel env).run (RpcChannel.new timeoutMs maxRetries) is).2).map Prod.snd =
      ((channel env).run (RpcChannel.new timeoutMs maxRetries) is).1.inputBuffer.readable ∧
    (Always (channel env) InputClean (RpcChannel.new timeoutMs maxRetries) [] is ↔
      Along (channel env) DropsEmpty (RpcChannel.new timeoutMs maxRetries) is) := by
  constructor
  · apply heldBytes_bytes
    exact run_invariant (channel env) Traced (traced_step env) _ is (traced_new _ _)
  · exact always_iff_along (channel env) DropsEmpty Traced InputClean (traced_step env)
      (clean_step env) _ [] is (traced_new _ _) (by simp [InputClean,heldBytes,receivedBytes])

def brokenPipe : Errno := ⟨32,"Broken pipe"⟩

def reconnectRun : List (Input Bytes) :=
  [.callMethod echoArgs,.connectReturned none,.sendReturned 0 1000 brokenPipe,
   .polled 1 (.ready { pollin := true } (.ok [0x4D,0x49,0x4E,0x52,1,2,0,0,0,0])),.polled 2 .timeout,
   .callMethod echoArgs,.sendReturned 3 (-1) brokenPipe,
   .callMethod echoArgs,.connectReturned none]

/-- After the reconnect the second connection is open and the ten bytes of
the first one are still the front of the input. -/
theorem reconnect_keeps_old_bytes :
    ((channel protoEnvelopes).run (RpcChannel.new 2000 0) reconnectRun).1.fd = some 1 ∧
    (heldBytes ((channel protoEnvelopes).run (RpcChannel.new 2000 0) reconnectRun).1
      ((channel protoEnvelopes).run (RpcChannel.new 2000 0) reconnectRun).2).map Prod.fst =
      List.replicate 10 (some 0) ∧
    ¬ InputClean ((channel protoEnvelopes).run (RpcChannel.new 2000 0) reconnectRun).1
      ((channel protoEnvelopes).run (RpcChannel.new 2000 0) reconnectRun).2 := by
  unfold InputClean
  decide +kernel

/-- `poll` and the read report the connection unusable: an error other than
an interruption, an error or hang-up bit, the end of the stream, a read
error, or bytes the codec rejects. -/
def pollUnusable (s : RpcChannel M) (c : Call M) : PollResult → Bool
  | .timeout => false
  | .error e => e.code != EINTR
  | .ready rev read =>
    (rev.pollerr || rev.pollhup || rev.pollnval) ||
      (rev.pollin &&
        match read with
        | .error _ => true
        | .ok [] => true
        | .ok data =>
          match (scanResponses c.seq (s.inputBuffer.readFd data)).ending with
          | .rejects _ => true
          | _ => false)

def sendFailure (s : RpcChannel M) (i : Input M) : Bool :=
  match s.pc, i with
  | .sending _ _, .sendReturned _ n errno => sendFails n errno
  | _, _ => false

def learnsUnusable (s : RpcChannel M) (i : Input M) : Bool :=
  match s.pc, i with
  | .sending _ _, .sendReturned _ n errno => sendFails n errno
  | .waiting c deadline, .polled now r => decide (now < deadline) && pollUnusable s c r
  | _, _ => false

def Returns (r : RpcChannel M × List (Output M)) : Prop :=
  r.1.pc = .idle ∧ ∃ controller response, .returned controller response ∈ r.2

theorem finish_returns (s : RpcChannel M) (c : Call M) : Returns (finish s c) :=
  ⟨rfl,c.controller,c.response,by simp [finish]⟩

theorem sendFailed_returns (s : RpcChannel M) (c : Call M) (errno : Errno) :
    Returns (sendFailed s c errno) ∧ (sendFailed s c errno).1.fd = none := by
  obtain ⟨hp,controller,response,hm⟩ := finish_returns (close s).1 (c.fail kSystem errno.text)
  refine ⟨⟨hp,controller,response,List.mem_append_right _ hm⟩,?_⟩
  simp only [sendFailed,finish_fd,close]
  split
  · assumption
  · rfl

theorem sendReturned_fails (s : RpcChannel M) (c : Call M) (rest : Bytes) (now n : ℤ)
    (errno : Errno) (h : sendFails n errno = true) :
    sendReturned s c rest now n errno = sendFailed s c errno := by
  simp only [sendFails,Bool.or_eq_true,Bool.and_eq_true,decide_eq_true_eq,bne_iff_ne] at h
  unfold sendReturned
  rcases h with ⟨hn,he⟩ | h0
  · rw [if_pos hn,if_neg he]
  · rw [if_neg (by omega),if_pos h0]

theorem readAnswer_rejects (env : Envelopes) (s : RpcChannel M) (c : Call M) (data : Bytes)
    (e : CodecError)
    (h : (scanResponses c.seq (s.inputBuffer.readFd data)).ending = .rejects e) :
    Returns (readAnswer env s c data) ∧ (readAnswer env s c data).1.fd = s.fd := by
  simp only [readAnswer,h]
  refine ⟨⟨rfl,?_⟩,rfl⟩
  obtain ⟨-,controller,response,hm⟩ := finish_returns
    { s with inputBuffer := (scanResponses c.seq (s.inputBuffer.readFd data)).buffer }
    (c.fail kUnknown e.what)
  exact ⟨controller,response,List.mem_append_right _ hm⟩

theorem waitIteration_unusable (env : Envelopes) (s : RpcChannel M) (c : Call M)
    (deadline now : ℤ) (r : PollResult) (hd : now < deadline) (h : pollUnusable s c r = true) :
    Returns (waitIteration env s c deadline now r) ∧
      (waitIteration env s c deadline now r).1.fd = s.fd := by
  unfold waitIteration
  rw [if_neg (by omega)]
  cases r with
  | timeout => simp [pollUnusable] at h
  | error e =>
    dsimp only
    rw [if_neg (by simpa [pollUnusable] using h)]
    exact ⟨finish_returns _ _,rfl⟩
  | ready rev read =>
    simp only [pollUnusable,Bool.or_eq_true,Bool.and_eq_true] at h
    dsimp only
    split
    · exact ⟨finish_returns _ _,rfl⟩
    · rename_i hbits
      simp only [Bool.or_eq_true] at hbits
      obtain ⟨hin,hread⟩ := h.resolve_left hbits
      rw [if_neg (by simp [hin])]
      split at hread
      · exact ⟨finish_returns _ _,rfl⟩
      · exact ⟨finish_returns _ _,rfl⟩
      · rename_i data hne
        split at hread
        · rename_i e he
          cases data with
          | nil => exact absurd rfl hne
          | cons b bs => exact readAnswer_rejects env s c (b::bs) e he
        · simp at hread

/-- Whenever a channel learns that its connection is unusable the call
returns at once, but the connection is dropped, and so opened afresh by
the next call, if and only if it was `send` that failed. -/
theorem broken_connection_dropped_iff (env : Envelopes) (timeoutMs maxRetries : ℤ)
    (is : List (Input M)) (i : Input M)
    (h : learnsUnusable ((channel env).run (RpcChannel.new timeoutMs maxRetries) is).1 i = true) :
    Returns ((channel env).step ((channel env).run (RpcChannel.new timeoutMs maxRetries) is).1 i) ∧
    (((channel env).step
        ((channel env).run (RpcChannel.new timeoutMs maxRetries) is).1 i).1.connected = false ↔
      sendFailure ((channel env).run (RpcChannel.new timeoutMs maxRetries) is).1 i = true) ∧
    ∀ args, (∃ c, ((channel env).step ((channel env).step
        ((channel env).run (RpcChannel.new timeoutMs maxRetries) is).1 i).1
          (.callMethod args)).1.pc = .connecting c) ↔
      sendFailure ((channel env).run (RpcChannel.new timeoutMs maxRetries) is).1 i = true := by
  have hp := (run_invariant (channel env) Traced (traced_step env) _ is
    (traced_new timeoutMs maxRetries)).pcOk
  generalize ((channel env).run (RpcChannel.new timeoutMs maxRetries) is).1 = s at h hp ⊢
  have hcall : ∀ s' : RpcChannel M, s'.pc = .idle → ∀ args,
      (∃ c, ((channel env).step s' (.callMethod args)).1.pc = .connecting c) ↔ s'.fd = none := by
    intro s' hidle args
    simp only [channel,hidle,callMethod]
    cases hf : s'.fd with
    | none => exact ⟨fun _ => rfl,fun _ => ⟨_,rfl⟩⟩
    | some k =>
      simp only [reduceCtorEq,iff_false,not_exists,startAttempt]
      intro c
      split <;> simp [finish]
  unfold PcOk at hp
  rcases step_cases env s i with ⟨args,hpc,rfl,hs⟩ | ⟨hpc,rfl,hs⟩ | ⟨c,f,hpc,rfl,hs⟩ |
    ⟨c,rest,now,n,errno,hpc,rfl,hs⟩ | ⟨c,deadline,now,r,hpc,rfl,hs⟩ | ⟨he,hs⟩
  · simp [learnsUnusable,hpc] at h
  · simp [learnsUnusable,hpc] at h
  · simp [learnsUnusable,hpc] at h
  · have hf : sendFails n errno = true := by simpa [learnsUnusable,hpc] using h
    have hsf : sendFailure s (.sendReturned now n errno) = true := by
      simpa [sendFailure,hpc] using hf
    obtain ⟨hr,hn⟩ := sendFailed_returns s c errno
    rw [hs,sendReturned_fails s c rest now n errno hf,hsf]
    refine ⟨hr,by simp [RpcChannel.connected,hn],fun args => ?_⟩
    rw [hcall _ hr.1 args,hn]
    simp
  · rw [hpc] at hp
    simp only [learnsUnusable,hpc,Bool.and_eq_true,decide_eq_true_eq] at h
    have hsf : sendFailure s (.polled now r) = false := by simp [sendFailure,hpc]
    obtain ⟨hr,hf⟩ := waitIteration_unusable env s c deadline now r h.1 h.2
    rw [hs,hsf]
    refine ⟨hr,by simp [RpcChannel.connected,hf,hp],fun args => ?_⟩
    rw [hcall _ hr.1 args,hf]
    simpa using Option.isSome_iff_ne_none.mp hp
  · cases hpc : s.pc <;> cases i <;> simp_all [learnsUnusable,expects]

def hangUpRun : List (Input Bytes) :=
  [.callMethod echoArgs,.connectReturned none,.sendReturned 0 1000 brokenPipe]

def hangUp : Input Bytes := .polled 1 (.ready { pollin := true, pollhup := true } (.ok []))

theorem broken_connection_dropped_hang_up :
    learnsUnusable ((channel protoEnvelopes).run (RpcChannel.new 2000 0) hangUpRun).1 hangUp = true ∧
    Returns ((channel protoEnvelopes).step
      ((channel protoEnvelopes).run (RpcChannel.new 2000 0) hangUpRun).1 hangUp) :=
  have h : learnsUnusable ((channel protoEnvelopes).run (RpcChannel.new 2000 0) hangUpRun).1
      hangUp = true := by decide +kernel
  ⟨h,(broken_connection_dropped_iff protoEnvelopes 2000 0 hangUpRun hangUp h).1⟩

/-- The failed call leaves the dead connection open. -/
theorem hang_up_keeps_connection :
    learnsUnusable ((channel protoEnvelopes).run (RpcChannel.new 2000 0) hangUpRun).1 hangUp = true ∧
    ((channel protoEnvelopes).step
      ((channel protoEnvelopes).run (RpcChannel.new 2000 0) hangUpRun).1 hangUp).1.connected = true := by
  decide +kernel

end MiniRpc.ChannelLifetime
