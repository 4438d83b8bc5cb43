import MiniRpc.CodecStream
import MiniRpc.CallController
import MiniRpc.StepMachine

/-!
# The synchronous client channel

`RpcChannel` is a machine whose inputs are the calls made on it and the
results of its system calls. One step runs the code from one blocking
system call to the next: `connect`, one `send` of `sendAll`, or one
iteration of the wait loop, that is the clock, `poll` and `readv`. Calls
are serialized by `ioMutex_`, so at most one call is in progress. The
outputs record what the channel does on the socket and when it returns.
A connection is named by its ordinal among those the channel opened, since
descriptor numbers are reused. Times are in nanoseconds.

Every system call returns. For `::send` on a connection that the peer has
closed this takes a process that ignores `SIGPIPE`: `TcpServer::start` and
the server programs ignore it, the channel itself does not.
-/

set_option autoImplicit false

namespace MiniRpc.CallChannel
open MiniRpc.ByteBuffer MiniRpc.WireCodec MiniRpc.CodecStream MiniRpc.CallController
open MiniRpc.Incremental MiniRpc.StepMachine

structure Errno where
  code : ℕ
  text : String
  deriving DecidableEq, Repr

def EINTR : ℕ := 4

structure Revents where
  pollin : Bool := false
  pollerr : Bool := false
  pollhup : Bool := false
  pollnval : Bool := false
  deriving DecidableEq, Repr

/-- What `poll` returns and, should the channel go on to read, what `readv`
returns; an empty read is the end of the stream. -/
inductive PollResult where
  | timeout
  | error (e : Errno)
  | ready (revents : Revents) (read : Except Errno Bytes)

/-- The arguments of `CallMethod`: the full name of the method, the
serialized request, the parser of the response object, the controller, and
whether a `done` closure was given. -/
structure CallArgs (M : Type) where
  method : String
  request : Bytes
  parseResponse : Bytes → Option M
  controller : ControllerPtr
  done : Bool

structure Call (M : Type) where
  parseResponse : Bytes → Option M
  done : Bool
  envelopeBytes : Bytes
  controller : ControllerPtr
  response : Option M := none
  attempt : ℕ := 0
  seq : UInt64 := 0

inductive Pc (M : Type) where
  | idle
  | connecting (c : Call M)
  | sending (c : Call M) (rest : Bytes)
  | waiting (c : Call M) (deadline : ℤ)

structure RpcChannel (M : Type) where
  timeoutMs : ℤ
  maxRetries : ℤ
  fd : Option ℕ := none
  opened : ℕ := 0
  nextSeq : UInt64 := 1
  inputBuffer : Buffer := Buffer.new kInitialSize
  pc : Pc M := .idle

inductive Input (M : Type) where
  | callMethod (args : CallArgs M)
  | close
  | connectReturned (failure : Option Errno)
  | sendReturned (now n : ℤ) (errno : Errno)
  | polled (now : ℤ) (result : PollResult)

inductive Output (M : Type) where
  | called (args : CallArgs M)
  | connected (conn : ℕ)
  | closed
  | attempted (msg : ProtocolMessage)
  | sent (bytes : Bytes)
  | received (conn : Option ℕ) (bytes : Bytes)
  | decoded (msg : ProtocolMessage)
  | doneRun
  | returned (controller : ControllerPtr) (response : Option M)

variable {M : Type}

def Call.fail (c : Call M) (code : ErrorCode) (message : String) : Call M :=
  { c with controller := failController c.controller code message }

def close (s : RpcChannel M) : RpcChannel M × List (Output M) :=
  match s.fd with
  | none => (s,[])
  | some _ => ({ s with fd := none },[.closed])

def finish (s : RpcChannel M) (c : Call M) : RpcChannel M × List (Output M) :=
  ({ s with pc := .idle },
    (if c.done then [.doneRun] else [])++[.returned c.controller c.response])

def requestMessage (seq : UInt64) (envelopeBytes : Bytes) : ProtocolMessage where
  header := { magic := kMagic, version := kProtocolVersion, type := MessageType.kRequest.code,
              seq := seq }
  body := envelopeBytes

/-- The head of the retry loop: a further attempt under a new sequence
number, or the end of the call. -/
def startAttempt (s : RpcChannel M) (c : Call M) : RpcChannel M × List (Output M) :=
  if (c.attempt:ℤ) ≤ s.maxRetries then
    let msg := requestMessage s.nextSeq c.envelopeBytes
    ({ s with
        nextSeq := s.nextSeq+1
        pc := .sending { c with controller := c.controller.reset, seq := s.nextSeq } (encoded msg) },
      [.attempted msg])
  else finish s c

def callMethod (env : Envelopes) (s : RpcChannel M) (args : CallArgs M) :
    RpcChannel M × List (Output M) :=
  let c : Call M :=
    { parseResponse := args.parseResponse
      done := args.done
      envelopeBytes := env.request.serialize ⟨args.method,args.request⟩
      controller := args.controller.reset }
  match s.fd with
  | none => ({ s with pc := .connecting c },[.called args])
  | some _ => ((startAttempt s c).1,.called args::(startAttempt s c).2)

def connectReturned (s : RpcChannel M) (c : Call M) : Option Errno → RpcChannel M × List (Output M)
  | some e => finish s (c.fail kSystem e.text)
  | none =>
    let r := startAttempt { s with fd := some s.opened, opened := s.opened+1 } c
    (r.1,.connected s.opened::r.2)

def sendFailed (s : RpcChannel M) (c : Call M) (errno : Errno) : RpcChannel M × List (Output M) :=
  let r := close s
  let f := finish r.1 (c.fail kSystem errno.text)
  (f.1,r.2++f.2)

/-- One `::send` of `sendAll`; after the last byte `waitResponse` reads the
clock and sets its deadline. -/
def sendReturned (s : RpcChannel M) (c : Call M) (rest : Bytes) (now n : ℤ) (errno : Errno) :
    RpcChannel M × List (Output M) :=
  if n < 0 then
    if errno.code = EINTR then (s,[]) else sendFailed s c errno
  else if n = 0 then sendFailed s c errno
  else
    let left := rest.drop n.toNat
    ({ s with pc := if left = [] then .waiting c (now+s.timeoutMs*1000000) else .sending c left },
      [.sent (rest.take n.toNat)])

def isAnswer (seq : UInt64) (m : ProtocolMessage) : Bool :=
  m.header.type == MessageType.kResponse.code && m.header.seq == seq

structure Scan where
  decoded : List ProtocolMessage
  ending : SearchEnd ProtocolMessage CodecError
  buffer : Buffer

def scanLoop (seq : UInt64) : ℕ → Buffer → Scan
  | 0, b => ⟨[],.waits,b⟩
  | fuel+1, b =>
    match tryDecode b with
    | (.ok none,b') => ⟨[],.waits,b'⟩
    | (.error e,b') => ⟨[],.rejects e,b'⟩
    | (.ok (some m),b') =>
      if isAnswer seq m then ⟨[m],.found m,b'⟩
      else { scanLoop seq fuel b' with decoded := m::(scanLoop seq fuel b').decoded }

def scanResponses (seq : UInt64) (b : Buffer) : Scan := scanLoop seq (b.readableBytes+1) b

def acceptResponse (env : Envelopes) (c : Call M) (body : Bytes) : Call M :=
  match env.response.parse body with
  | none => c.fail kUnknown "bad response envelope"
  | some resp =>
    if resp.errorCode ≠ kOk.value then
      c.fail ⟨resp.errorCode⟩
        (if resp.errorMessage = "" then "rpc call failed" else resp.errorMessage)
    else
      match c.parseResponse resp.response with
      | none => c.fail kUnknown "bad response payload"
      | some r => { c with response := some r }

def readAnswer (env : Envelopes) (s : RpcChannel M) (c : Call M) (data : Bytes) :
    RpcChannel M × List (Output M) :=
  let scan := scanResponses c.seq (s.inputBuffer.readFd data)
  let s' := { s with inputBuffer := scan.buffer }
  let out := .received s.fd data::scan.decoded.map .decoded
  match scan.ending with
  | .waits => (s',out)
  | .rejects e => ((finish s' (c.fail kUnknown e.what)).1,
      out++(finish s' (c.fail kUnknown e.what)).2)
  | .found m => ((finish s' (acceptResponse env c m.body)).1,
      out++(finish s' (acceptResponse env c m.body)).2)

def timedOut (s : RpcChannel M) (c : Call M) : RpcChannel M × List (Output M) :=
  startAttempt s { c.fail kTimeout "rpc call timeout" with attempt := c.attempt+1 }

/-- One iteration of the loop of `waitResponse`. Only a time-out leads to
another attempt; every other exit ends the call. -/
def waitIteration (env : Envelopes) (s : RpcChannel M) (c : Call M) (deadline now : ℤ)
    (result : PollResult) : RpcChannel M × List (Output M) :=
  if now ≥ deadline then timedOut s c
  else
    match result with
    | .timeout => timedOut s c
    | .error e => if e.code = EINTR then (s,[]) else finish s (c.fail kSystem e.text)
    | .ready rev read =>
      if rev.pollerr || rev.pollhup || rev.pollnval then
        finish s (c.fail kClosed "connection closed")
      else if !rev.pollin then (s,[])
      else
        match read with
        | .error _ => finish s (c.fail kClosed "connection closed")
        | .ok [] => finish s (c.fail kClosed "connection closed")
        | .ok data => readAnswer env s c data

def channel (env : Envelopes) : Machine (RpcChannel M) (Input M) (Output M) where
  step s i :=
    match s.pc, i with
    | .idle, .callMethod args => callMethod env s args
    | .idle, .close => close s
    | .connecting c, .connectReturned failure => connectReturned s c failure
    | .sending c rest, .sendReturned now n errno => sendReturned s c rest now n errno
    | .waiting c deadline, .polled now result => waitIteration env s c deadline now result
    | _, _ => (s,[])

/-- The input is a result of the system call the channel is blocked in, or
a call on an idle channel. -/
def expects : Pc M → Input M → Bool
  | .idle, .callMethod _ => true
  | .idle, .close => true
  | .connecting _, .connectReturned _ => true
  | .sending _ _, .sendReturned _ _ _ => true
  | .waiting _ _, .polled _ _ => true
  | _, _ => false

theorem step_cases (env : Envelopes) (s : RpcChannel M) (i : Input M) :
    (∃ args, s.pc = .idle ∧ i = .callMethod args ∧
      (channel env).step s i = callMethod env s args) ∨
    (s.pc = .idle ∧ i = .close ∧ (channel env).step s i = close s) ∨
    (∃ c f, s.pc = .connecting c ∧ i = .connectReturned f ∧
      (channel env).step s i = connectReturned s c f) ∨
    (∃ c rest now n errno, s.pc = .sending c rest ∧ i = .sendReturned now n errno ∧
      (channel env).step s i = sendReturned s c rest now n errno) ∨
    (∃ c deadline now r, s.pc = .waiting c deadline ∧ i = .polled now r ∧
      (channel env).step s i = waitIteration env s c deadline now r) ∨
    (expects s.pc i = false ∧ (channel env).step s i = (s,[])) := by
  unfold channel
  cases hpc : s.pc <;> cases i <;> simp [hpc,expects]

/-- Everything a step of the channel can do, with what led to it. -/
inductive Turn (env : Envelopes) (s : RpcChannel M) :
    Input M → RpcChannel M × List (Output M) → Prop where
  | ignores (i : Input M) (hi : expects s.pc i = false) : Turn env s i (s,[])
  | calls (args : CallArgs M) (hpc : s.pc = .idle) :
      Turn env s (.callMethod args) (callMethod env s args)
  | closes (hpc : s.pc = .idle) : Turn env s .close (close s)
  | connects (c : Call M) (failure : Option Errno) (hpc : s.pc = .connecting c) :
      Turn env s (.connectReturned failure) (connectReturned s c failure)
  | sends (c : Call M) (rest : Bytes) (now n : ℤ) (errno : Errno) (hpc : s.pc = .sending c rest)
      (hn : 0 < n) :
      Turn env s (.sendReturned now n errno)
        ({ s with
            pc := if rest.drop n.toNat = [] then .waiting c (now+s.timeoutMs*1000000)
              else .sending c (rest.drop n.toNat) },
          [.sent (rest.take n.toNat)])
  | resends (c : Call M) (rest : Bytes) (now n : ℤ) (errno : Errno) (hpc : s.pc = .sending c rest)
      (hn : n < 0) (he : errno.code = EINTR) : Turn env s (.sendReturned now n errno) (s,[])
  | breaks (c : Call M) (rest : Bytes) (now n : ℤ) (errno : Errno) (hpc : s.pc = .sending c rest)
      (hn : n ≤ 0) (he : n < 0 → errno.code ≠ EINTR) :
      Turn env s (.sendReturned now n errno) (sendFailed s c errno)
  | retries (c : Call M) (deadline now : ℤ) (r : PollResult) (hpc : s.pc = .waiting c deadline) :
      Turn env s (.polled now r) (timedOut s c)
  | repolls (c : Call M) (deadline now : ℤ) (r : PollResult) (hpc : s.pc = .waiting c deadline) :
      Turn env s (.polled now r) (s,[])
  | fails (c : Call M) (deadline now : ℤ) (r : PollResult) (hpc : s.pc = .waiting c deadline)
      (code : ErrorCode) (message : String) :
      Turn env s (.polled now r) (finish s (c.fail code message))
  | reads (c : Call M) (deadline now : ℤ) (rev : Revents) (data : Bytes)
      (hpc : s.pc = .waiting c deadline) :
      Turn env s (.polled now (.ready rev (.ok data))) (readAnswer env s c data)

theorem sendReturned_turn (env : Envelopes) (s : RpcChannel M) (c : Call M) (rest : Bytes)
    (now n : ℤ) (errno : Errno) (hpc : s.pc = .sending c rest) :
    Turn env s (.sendReturned now n errno) (sendReturned s c rest now n errno) := by
  rw [sendReturned]
  by_cases hneg : n < 0
  · rw [if_pos hneg]
    by_cases he : errno.code = EINTR
    · rw [if_pos he]
      exact .resends c rest now n errno hpc hneg he
    · rw [if_neg he]
      exact .breaks c rest now n errno hpc hneg.le fun _ => he
  · rw [if_neg hneg]
    by_cases hzero : n = 0
    · rw [if_pos hzero]
      exact .breaks c rest now n errno hpc hzero.le fun h => absurd h hneg
    · rw [if_neg hzero]
      exact .sends c rest now n errno hpc (by omega)

theorem waitIteration_turn (env : Envelopes) (s : RpcChannel M) (c : Call M) (deadline now : ℤ)
    (r : PollResult) (hpc : s.pc = .waiting c deadline) :
    Turn env s (.polled now r) (waitIteration env s c deadline now r) := by
  rw [waitIteration.eq_def]
  by_cases hlate : now ≥ deadline
  · rw [if_pos hlate]
    exact .retries c deadline now r hpc
  · rw [if_neg hlate]
    cases r with
    | timeout => exact .retries c deadline now _ hpc
    | error e =>
      dsimp only
      by_cases he : e.code = EINTR
      · rw [if_pos he]
        exact .repolls c deadline now _ hpc
      · rw [if_neg he]
        exact .fails c deadline now _ hpc kSystem e.text
    | ready rev read =>
      dsimp only
      by_cases hbad : (rev.pollerr || rev.pollhup || rev.pollnval) = true
      · rw [if_pos hbad]
        exact .fails c deadline now _ hpc kClosed "connection closed"
      · rw [if_neg hbad]
        by_cases hin : (!rev.pollin) = true
        · rw [if_pos hin]
          exact .repolls c deadline now _ hpc
        · rw [if_neg hin]
          cases read with
          | error e => exact .fails c deadline now _ hpc kClosed "connection closed"
          | ok data =>
            cases data with
            | nil => exact .fails c deadline now _ hpc kClosed "connection closed"
            | cons b bs => exact .reads c deadline now rev (b::bs) hpc

theorem step_turn (env : Envelopes) (s : RpcChannel M) (i : Input M) :
    Turn env s i ((channel env).step s i) := by
  rcases step_cases env s i with ⟨args,hpc,rfl,hs⟩ | ⟨hpc,rfl,hs⟩ | ⟨c,f,hpc,rfl,hs⟩ |
    ⟨c,rest,now,n,errno,hpc,rfl,hs⟩ | ⟨c,deadline,now,r,hpc,rfl,hs⟩ | ⟨hi,hs⟩
  · rw [hs]
    exact .calls args hpc
  · rw [hs]
    exact .closes hpc
  · rw [hs]
    exact .connects c f hpc
  · rw [hs]
    exact sendReturned_turn env s c rest now n errno hpc
  · rw [hs]
    exact waitIteration_turn env s c deadline now r hpc
  · rw [hs]
    exact .ignores i hi

def RpcChannel.connected (s : RpcChannel M) : Bool := s.fd.isSome

def RpcChannel.new (timeoutMs maxRetries : ℤ) : RpcChannel M := { timeoutMs, maxRetries }

@[simp] theorem finish_fd (s : RpcChannel M) (c : Call M) : (finish s c).1.fd = s.fd := rfl

@[simp] theorem startAttempt_fd (s : RpcChannel M) (c : Call M) :
    (startAttempt s c).1.fd = s.fd := by
  unfold startAttempt
  split <;> rfl

@[simp] theorem startAttempt_inputBuffer (s : RpcChannel M) (c : Call M) :
    (startAttempt s c).1.inputBuffer = s.inputBuffer := by
  unfold startAttempt
  split <;> rfl

theorem scanLoop_search (seq : UInt64) (fuel : ℕ) (b : Buffer) (hf : b.readableBytes < fuel) :
    (scanLoop seq fuel b).decoded = (search frameParser (isAnswer seq) b.readable).items ∧
    (scanLoop seq fuel b).ending = (search frameParser (isAnswer seq) b.readable).ending ∧
    (scanLoop seq fuel b).buffer.readable =
      (search frameParser (isAnswer seq) b.readable).rest := by
  induction fuel generalizing b with
  | zero => omega
  | succ fuel ih =>
    rw [scanLoop]
    rcases tryDecode_cases b with ⟨hp,hd⟩ | ⟨e,hp,hd⟩ | ⟨m,b',hp,hd⟩
    · rw [hd,search_wait frameParser hp]
      exact ⟨rfl,rfl,rfl⟩
    · rw [hd,search_reject frameParser hp]
      exact ⟨rfl,rfl,rfl⟩
    · rw [hd]
      cases ha : isAnswer seq m with
      | true =>
        rw [search_hit frameParser hp ha]
        simp [ha]
      | false =>
        obtain ⟨h1,h2,h3⟩ := ih b' (by have := tryDecode_shrinks hp; omega)
        rw [search_miss frameParser hp ha]
        simp only [ha,Bool.false_eq_true,if_false]
        exact ⟨congrArg (m :: ·) h1,h2,h3⟩

theorem scanResponses_search (seq : UInt64) (b : Buffer) :
    (scanResponses seq b).decoded = (search frameParser (isAnswer seq) b.readable).items ∧
    (scanResponses seq b).ending = (search frameParser (isAnswer seq) b.readable).ending ∧
    (scanResponses seq b).buffer.readable =
      (search frameParser (isAnswer seq) b.readable).rest :=
  scanLoop_search seq _ b (Nat.lt_succ_self _)

theorem scanResponses_takes (seq : UInt64) (b : Buffer) :
    ∃ used, b.readable = used++(scanResponses seq b).buffer.readable := by
  rw [(scanResponses_search seq b).2.2]
  exact search_takes frameParser (isAnswer seq) b.readable

def echoArgs : CallArgs Bytes where
  method := "minirpc.example.EchoService.Echo"
  request := [104,105]
  parseResponse := some
  controller := .minirpc {}
  done := false

end MiniRpc.CallChannel
