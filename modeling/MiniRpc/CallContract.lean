import MiniRpc.CallOutcome
import MiniRpc.CallTraffic
import MiniRpc.ProtoWire

/-!
# What a caller may rely on

The log of the call in progress holds the attempts made for it, the frames
decoded since the last of them and the runs of its `done`. A step ends the
current attempt in one of several ways, each of which has its error. The
contract of `CallMethod` relates the log to what the call returns: it is met
on every channel that makes at least one attempt.

A frame is received by the attempt in which it is decoded.
-/

set_option autoImplicit false

namespace MiniRpc.CallContract
open MiniRpc.ByteBuffer MiniRpc.WireCodec MiniRpc.CodecStream MiniRpc.CallController
open MiniRpc.Incremental MiniRpc.StepMachine MiniRpc.CallChannel MiniRpc.CallProgress
open MiniRpc.CallTraffic
open MiniRpc.CallOutcome (callOf)
open MiniRpc.ProtoWire (protoEnvelopes)

variable {M : Type}

structure CallLog (M : Type) where
  args : CallArgs M
  attempts : List ProtocolMessage := []
  received : List ProtocolMessage := []
  dones : ℕ := 0

def logStep (l : Option (CallLog M)) : Output M → Option (CallLog M)
  | .called args => some { args }
  | .attempted m => l.map fun x => { x with attempts := x.attempts++[m], received := [] }
  | .decoded m => l.map fun x => { x with received := x.received++[m] }
  | .doneRun => l.map fun x => { x with dones := x.dones+1 }
  | .returned _ _ => none
  | _ => l

def callLog (os : List (Output M)) : Option (CallLog M) := os.foldl logStep none

/-- The last attempt received its answer, without an error and with a payload
that parses. -/
def Answered (env : Envelopes) (x : CallLog M) : Prop :=
  ∃ last answer resp got, x.attempts.getLast? = some last ∧ answer ∈ x.received ∧
    isAnswer last.header.seq answer = true ∧ env.response.parse answer.body = some resp ∧
    resp.errorCode = kOk.value ∧ x.args.parseResponse resp.response = some got

/-- How an attempt ends; `refused` is a failure to connect. -/
inductive AttemptEnd where
  | refused (e : Errno)
  | timeout
  | peerClosed
  | systemError (e : Errno)
  | malformed (e : CodecError)
  | badEnvelope
  | serverError (code : Int32) (message : String)
  | badPayload
  | success

def AttemptEnd.error : AttemptEnd → Option (ErrorCode × String)
  | .refused e => some (kSystem,e.text)
  | .timeout => some (kTimeout,"rpc call timeout")
  | .peerClosed => some (kClosed,"connection closed")
  | .systemError e => some (kSystem,e.text)
  | .malformed e => some (kUnknown,e.what)
  | .badEnvelope => some (kUnknown,"bad response envelope")
  | .serverError code message =>
    some (⟨code⟩,if message = "" then "rpc call failed" else message)
  | .badPayload => some (kUnknown,"bad response payload")
  | .success => none

def judge (env : Envelopes) (parseResponse : Bytes → Option M) (body : Bytes) : AttemptEnd :=
  match env.response.parse body with
  | none => .badEnvelope
  | some resp =>
    if resp.errorCode ≠ kOk.value then .serverError resp.errorCode resp.errorMessage
    else
      match parseResponse resp.response with
      | none => .badPayload
      | some _ => .success

def scanEnd (env : Envelopes) (parseResponse : Bytes → Option M) :
    SearchEnd ProtocolMessage CodecError → Option AttemptEnd
  | .waits => none
  | .rejects e => some (.malformed e)
  | .found m => some (judge env parseResponse m.body)

/-- How the result of the system call ends the current attempt, if it does. -/
def attemptEnd (env : Envelopes) (s : RpcChannel M) (i : Input M) : Option AttemptEnd :=
  match s.pc, i with
  | .connecting _, .connectReturned (some e) => some (.refused e)
  | .sending _ _, .sendReturned _ n errno =>
    if n < 0 then (if errno.code = EINTR then none else some (.systemError errno))
    else if n = 0 then some (.systemError errno) else none
  | .waiting c deadline, .polled now result =>
    if now ≥ deadline then some .timeout
    else
      match result with
      | .timeout => some .timeout
      | .error e => if e.code = EINTR then none else some (.systemError e)
      | .ready rev read =>
        if rev.pollerr || rev.pollhup || rev.pollnval then some .peerClosed
        else if !rev.pollin then none
        else
          match read with
          | .error _ => some .peerClosed
          | .ok [] => some .peerClosed
          | .ok data => scanEnd env c.parseResponse
              (scanResponses c.seq (s.inputBuffer.readFd data)).ending
  | _, _ => none

def seqsOf (os : List (Output M)) : List UInt64 := (attemptsOf os).map fun m => m.header.seq

/-- The contract of a step from `s`, reached with the history `os`. -/
structure Contract (env : Envelopes) (os : List (Output M)) (s : RpcChannel M) (i : Input M) :
    Prop where
  outcome : ∀ before controller response after,
    ((channel env).step s i).2 = before++.returned controller response::after →
    ∃ x, callLog (os++before) = some x ∧ x.dones = x.args.done.toNat ∧
      ∀ k, x.args.controller = .minirpc k →
        (controller.failed = false ↔ Answered env x) ∧
        (controller.failed = true → ∃ code text,
          (attemptEnd env s i).bind AttemptEnd.error = some (code,text) ∧
          controller = .minirpc { failed := true, errorCode := code, errorText := text })
  retry : ∀ before m after, ((channel env).step s i).2 = before++.attempted m::after →
    ∃ x, callLog (os++before) = some x ∧ (x.attempts.length : ℤ) ≤ s.maxRetries ∧
      (x.attempts ≠ [] → attemptEnd env s i = some .timeout) ∧ m.header.seq ∉ seqsOf os
  done : ∀ before after, ((channel env).step s i).2 = before++.doneRun::after →
    ∃ controller response, after = [.returned controller response]
  ends : attemptEnd env s i ≠ none →
    (∃ controller response, .returned controller response ∈ ((channel env).step s i).2) ∨
    attemptEnd env s i = some .timeout ∧ attemptsOf ((channel env).step s i).2 ≠ []

def plain : Output M → Bool
  | .connected _ => true
  | .closed => true
  | .sent _ => true
  | .received _ _ => true
  | .decoded _ => true
  | _ => false

def started : Pc M → Bool
  | .sending _ _ => true
  | .waiting _ _ => true
  | _ => false

def newCall (env : Envelopes) (args : CallArgs M) : Call M where
  parseResponse := args.parseResponse
  done := args.done
  envelopeBytes := env.request.serialize ⟨args.method,args.request⟩
  controller := args.controller.reset

def begun (s : RpcChannel M) (c : Call M) : RpcChannel M :=
  { s with
    nextSeq := s.nextSeq+1
    pc := .sending { c with controller := c.controller.reset, seq := s.nextSeq }
      (encoded (requestMessage s.nextSeq c.envelopeBytes)) }

structure Same (s s' : RpcChannel M) : Prop where
  maxRetries : s'.maxRetries = s.maxRetries
  nextSeq : s'.nextSeq = s.nextSeq

/-- Everything a step can do to the call in progress, with how it ends the
current attempt. -/
inductive CallTurn (env : Envelopes) (s : RpcChannel M) (i : Input M) :
    RpcChannel M × List (Output M) → Prop where
  | stays (s' : RpcChannel M) (os : List (Output M)) (hend : attemptEnd env s i = none)
      (hsame : Same s s') (hcall : callOf s'.pc = callOf s.pc) (hstart : started s'.pc = started s.pc)
      (hplain : ∀ o ∈ os, plain o = true)
      (hmiss : ∀ c, callOf s.pc = some c → ∀ m ∈ decodedOf os, isAnswer c.seq m = false) :
      CallTurn env s i (s',os)
  | dials (args : CallArgs M) (hend : attemptEnd env s i = none) (hpc : s.pc = .idle) :
      CallTurn env s i ({ s with pc := .connecting (newCall env args) },[.called args])
  | starts (args : CallArgs M) (hend : attemptEnd env s i = none) (hpc : s.pc = .idle) :
      CallTurn env s i (begun s (newCall env args),
        [.called args,.attempted (requestMessage s.nextSeq (newCall env args).envelopeBytes)])
  | connects (c : Call M) (hend : attemptEnd env s i = none) (hpc : s.pc = .connecting c) :
      CallTurn env s i (begun { s with fd := some s.opened, opened := s.opened+1 } c,
        [.connected s.opened,.attempted (requestMessage s.nextSeq c.envelopeBytes)])
  | retries (c : Call M) (deadline : ℤ) (hend : attemptEnd env s i = some .timeout)
      (hpc : s.pc = .waiting c deadline) (hmore : ((c.attempt+1 : ℕ):ℤ) ≤ s.maxRetries) :
      CallTurn env s i (begun s { c.fail kTimeout "rpc call timeout" with attempt := c.attempt+1 },
        [.attempted (requestMessage s.nextSeq c.envelopeBytes)])
  | fails (c : Call M) (e : AttemptEnd) (code : ErrorCode) (text : String) (s' : RpcChannel M)
      (attempt : ℕ) (lead : List (Output M)) (hcall : callOf s.pc = some c)
      (hend : attemptEnd env s i = some e) (herr : e.error = some (code,text)) (hsame : Same s s')
      (hplain : ∀ o ∈ lead, plain o = true)
      (hbad : ∀ m ∈ decodedOf lead, isAnswer c.seq m = true →
        judge env c.parseResponse m.body ≠ .success) :
      CallTurn env s i ((finish s' { c.fail code text with attempt := attempt }).1,
        lead++(finish s' { c.fail code text with attempt := attempt }).2)
  | answers (c : Call M) (deadline : ℤ) (s' : RpcChannel M) (lead : List (Output M))
      (m : ProtocolMessage) (got : M) (hpc : s.pc = .waiting c deadline)
      (hend : attemptEnd env s i = some .success) (hsame : Same s s')
      (hplain : ∀ o ∈ lead, plain o = true) (hm : m ∈ decodedOf lead)
      (hhit : isAnswer c.seq m = true) (hgood : judge env c.parseResponse m.body = .success) :
      CallTurn env s i ((finish s' { c with response := some got }).1,
        lead++(finish s' { c with response := some got }).2)

theorem accept_judge (env : Envelopes) (c : Call M) (body : Bytes) :
    (judge env c.parseResponse body = .success ∧
      ∃ got, acceptResponse env c body = { c with response := some got }) ∨
    (judge env c.parseResponse body ≠ .success ∧
      ∃ code text, (judge env c.parseResponse body).error = some (code,text) ∧
        acceptResponse env c body = c.fail code text) := by
  rw [judge.eq_def,acceptResponse.eq_def]
  cases env.response.parse body with
  | none => exact .inr ⟨fun h => AttemptEnd.noConfusion h,_,_,rfl,rfl⟩
  | some resp =>
    dsimp only
    by_cases herr : resp.errorCode ≠ kOk.value
    · rw [if_pos herr,if_pos herr]
      exact .inr ⟨fun h => AttemptEnd.noConfusion h,_,_,rfl,rfl⟩
    · rw [if_neg herr,if_neg herr]
      cases c.parseResponse resp.response with
      | none => exact .inr ⟨fun h => AttemptEnd.noConfusion h,_,_,rfl,rfl⟩
      | some got => exact .inl ⟨rfl,got,rfl⟩

theorem received_plain (conn : Option ℕ) (data : Bytes) (ms : List ProtocolMessage) (o : Output M)
    (ho : o ∈ Output.received conn data::ms.map .decoded) : plain o = true := by
  cases List.mem_cons.mp ho with
  | inl h => rw [h,plain]
  | inr h =>
    obtain ⟨m,-,rfl⟩ := List.mem_map.mp h
    rfl

theorem decodedOf_received (conn : Option ℕ) (data : Bytes) (ms : List ProtocolMessage) :
    decodedOf (M := M) (.received conn data::ms.map .decoded) = ms := decodedOf_decoded ms

theorem scan_hits (seq : UInt64) (b : Buffer) {k : ProtocolMessage}
    (hk : k ∈ (scanResponses seq b).decoded) (hhit : isAnswer seq k = true) :
    (scanResponses seq b).ending = .found k := by
  obtain ⟨hd,he,-⟩ := scanResponses_search seq b
  rw [hd] at hk
  rw [he]
  exact search_hits frameParser (isAnswer seq) b.readable hk hhit

theorem scan_found (seq : UInt64) (b : Buffer) {m : ProtocolMessage}
    (hm : (scanResponses seq b).ending = .found m) :
    m ∈ (scanResponses seq b).decoded ∧ isAnswer seq m = true := by
  obtain ⟨hd,he,-⟩ := scanResponses_search seq b
  rw [hd]
  exact search_found frameParser (isAnswer seq) b.readable (he.symm.trans hm)

theorem readAnswer_callTurn (env : Envelopes) {s : RpcChannel M} {i : Input M} {c : Call M}
    {deadline : ℤ} (hpc : s.pc = .waiting c deadline) (data : Bytes)
    (hend : attemptEnd env s i = scanEnd env c.parseResponse
      (scanResponses c.seq (s.inputBuffer.readFd data)).ending) :
    CallTurn env s i (readAnswer env s c data) := by
  have hcall : callOf s.pc = some c := by rw [hpc]; rfl
  have hplain := received_plain (M := M) s.fd data
    (scanResponses c.seq (s.inputBuffer.readFd data)).decoded
  have hdec := decodedOf_received (M := M) s.fd data
    (scanResponses c.seq (s.inputBuffer.readFd data)).decoded
  have hhits := fun k => scan_hits (k := k) c.seq (s.inputBuffer.readFd data)
  have hfound := fun k => scan_found (m := k) c.seq (s.inputBuffer.readFd data)
  rw [readAnswer]
  generalize scanResponses c.seq (s.inputBuffer.readFd data) = scan at *
  cases hscan : scan.ending with
  | waits =>
    rw [hscan] at hend
    refine .stays _ _ hend ⟨rfl,rfl⟩ rfl rfl hplain ?_
    intro d hd m hm
    rw [hcall] at hd
    cases hhit : isAnswer d.seq m with
    | false => rfl
    | true =>
      rw [← Option.some.inj hd] at hhit
      have hf := hhits m (hdec ▸ hm) hhit
      rw [hscan] at hf
      cases hf
  | rejects e =>
    rw [hscan] at hend
    refine .fails c (.malformed e) kUnknown e.what _ c.attempt _ hcall hend rfl ⟨rfl,rfl⟩ hplain ?_
    intro m hm hhit
    have hf := hhits m (hdec ▸ hm) hhit
    rw [hscan] at hf
    cases hf
  | found m =>
    rw [hscan] at hend
    obtain ⟨hm,hhit⟩ := hfound m hscan
    dsimp only
    cases accept_judge env c m.body with
    | inl h =>
      obtain ⟨hgood,got,haccept⟩ := h
      rw [haccept]
      rw [scanEnd,hgood] at hend
      exact .answers c deadline _ _ m got hpc hend ⟨rfl,rfl⟩ hplain (hdec.symm ▸ hm) hhit hgood
    | inr h =>
      obtain ⟨hbad,code,text,herr,haccept⟩ := h
      rw [haccept]
      refine .fails c _ code text _ c.attempt _ hcall hend herr ⟨rfl,rfl⟩ hplain ?_
      intro k hk hkhit
      have hf := hhits k (hdec ▸ hk) hkhit
      rw [hscan] at hf
      rw [← SearchEnd.found.inj hf]
      exact hbad

theorem stays_callTurn (env : Envelopes) {s : RpcChannel M} {i : Input M}
    (hend : attemptEnd env s i = none) : CallTurn env s i (s,[]) :=
  .stays s [] hend ⟨rfl,rfl⟩ rfl rfl (fun _ ho => absurd ho List.not_mem_nil)
    fun _ _ _ hm => absurd hm List.not_mem_nil

theorem fails_callTurn (env : Envelopes) {s : RpcChannel M} {i : Input M} {c : Call M}
    (hcall : callOf s.pc = some c) {e : AttemptEnd} {code : ErrorCode} {text : String}
    (hend : attemptEnd env s i = some e) (herr : e.error = some (code,text)) :
    CallTurn env s i (finish s (c.fail code text)) :=
  .fails c e code text s c.attempt [] hcall hend herr ⟨rfl,rfl⟩
    (fun _ ho => absurd ho List.not_mem_nil) fun _ hm => absurd hm List.not_mem_nil

theorem timedOut_callTurn (env : Envelopes) {s : RpcChannel M} {i : Input M} {c : Call M}
    {deadline : ℤ} (hpc : s.pc = .waiting c deadline) (hend : attemptEnd env s i = some .timeout) :
    CallTurn env s i (timedOut s c) := by
  rw [timedOut,startAttempt]
  by_cases hmore : ((c.attempt+1 : ℕ):ℤ) ≤ s.maxRetries
  · rw [if_pos hmore]
    exact .retries c deadline hend hpc hmore
  · rw [if_neg hmore]
    exact .fails c .timeout kTimeout "rpc call timeout" s (c.attempt+1) [] (by rw [hpc]; rfl) hend
      rfl ⟨rfl,rfl⟩ (fun _ ho => absurd ho List.not_mem_nil) fun _ hm => absurd hm List.not_mem_nil

theorem waitIteration_callTurn (env : Envelopes) {s : RpcChannel M} {c : Call M} {deadline : ℤ}
    (hpc : s.pc = .waiting c deadline) (now : ℤ) (result : PollResult) :
    CallTurn env s (.polled now result) (waitIteration env s c deadline now result) := by
  have hcall : callOf s.pc = some c := by rw [hpc]; rfl
  have hdef := attemptEnd.eq_def env s (.polled now result)
  rw [hpc] at hdef
  dsimp only at hdef
  rw [waitIteration.eq_def]
  by_cases hlate : now ≥ deadline
  · rw [if_pos hlate] at hdef ⊢
    exact timedOut_callTurn env hpc hdef
  · rw [if_neg hlate] at hdef ⊢
    cases result with
    | timeout => exact timedOut_callTurn env hpc hdef
    | error e =>
      dsimp only at hdef ⊢
      by_cases he : e.code = EINTR
      · rw [if_pos he] at hdef ⊢
        exact stays_callTurn env hdef
      · rw [if_neg he] at hdef ⊢
        exact fails_callTurn env hcall hdef rfl
    | ready rev read =>
      dsimp only at hdef ⊢
      by_cases hbad : (rev.pollerr || rev.pollhup || rev.pollnval) = true
      · rw [if_pos hbad] at hdef ⊢
        exact fails_callTurn env hcall hdef rfl
      · rw [if_neg hbad] at hdef ⊢
        by_cases hin : (!rev.pollin) = true
        · rw [if_pos hin] at hdef ⊢
          exact stays_callTurn env hdef
        · rw [if_neg hin] at hdef ⊢
          cases read with
          | error e => exact fails_callTurn env hcall hdef rfl
          | ok data =>
            cases data with
            | nil => exact fails_callTurn env hcall hdef rfl
            | cons b bs => exact readAnswer_callTurn env hpc (b::bs) hdef

theorem sendFailed_callTurn (env : Envelopes) {s : RpcChannel M} {i : Input M} {c : Call M}
    {rest : Bytes} (hpc : s.pc = .sending c rest) (errno : Errno)
    (hend : attemptEnd env s i = some (.systemError errno)) :
    CallTurn env s i (sendFailed s c errno) := by
  have hcall : callOf s.pc = some c := by rw [hpc]; rfl
  rw [sendFailed,close.eq_def]
  cases s.fd with
  | none => exact fails_callTurn env hcall hend rfl
  | some fd =>
    refine .fails c _ kSystem errno.text { s with fd := none } c.attempt [.closed] hcall hend rfl
      ⟨rfl,rfl⟩ ?_ fun _ hm => absurd hm List.not_mem_nil
    intro o ho
    rw [List.mem_singleton.mp ho,plain]

theorem sendReturned_callTurn (env : Envelopes) {s : RpcChannel M} {c : Call M} {rest : Bytes}
    (hpc : s.pc = .sending c rest) (now n : ℤ) (errno : Errno) :
    CallTurn env s (.sendReturned now n errno) (sendReturned s c rest now n errno) := by
  have hdef := attemptEnd.eq_def env s (.sendReturned now n errno)
  rw [hpc] at hdef
  dsimp only at hdef
  rw [sendReturned]
  by_cases hneg : n < 0
  · rw [if_pos hneg] at hdef ⊢
    by_cases he : errno.code = EINTR
    · rw [if_pos he] at hdef ⊢
      exact stays_callTurn env hdef
    · rw [if_neg he] at hdef ⊢
      exact sendFailed_callTurn env hpc errno hdef
  · rw [if_neg hneg] at hdef ⊢
    by_cases hzero : n = 0
    · rw [if_pos hzero] at hdef ⊢
      exact sendFailed_callTurn env hpc errno hdef
    · rw [if_neg hzero] at hdef ⊢
      refine .stays _ _ hdef ⟨rfl,rfl⟩ ?_ ?_ ?_ fun _ _ _ hm => absurd hm List.not_mem_nil
      · rw [hpc]
        dsimp only
        split <;> rfl
      · rw [hpc]
        dsimp only
        split <;> rfl
      · intro o ho
        rw [List.mem_singleton.mp ho,plain]

theorem startAttempt_begun (s : RpcChannel M) (c : Call M) (h : (c.attempt:ℤ) ≤ s.maxRetries) :
    startAttempt s c = (begun s c,[.attempted (requestMessage s.nextSeq c.envelopeBytes)]) := by
  rw [startAttempt,if_pos h]
  rfl

theorem callMethod_dials (env : Envelopes) (s : RpcChannel M) (args : CallArgs M)
    (hfd : s.fd = none) : callMethod env s args =
      ({ s with pc := .connecting (newCall env args) },[.called args]) := by
  rw [callMethod.eq_def]
  split
  · rfl
  · next h => rw [hfd] at h; cases h

theorem callMethod_starts (env : Envelopes) (s : RpcChannel M) (args : CallArgs M) {fd : ℕ}
    (hfd : s.fd = some fd) : callMethod env s args =
      ((startAttempt s (newCall env args)).1,.called args::(startAttempt s (newCall env args)).2) := by
  rw [callMethod.eq_def]
  split
  · next h => rw [hfd] at h; cases h
  · rfl

theorem step_callTurn (env : Envelopes) (s : RpcChannel M) (i : Input M) (hm : 0 ≤ s.maxRetries)
    (hfirst : ∀ c, s.pc = .connecting c → c.attempt = 0) :
    CallTurn env s i ((channel env).step s i) := by
  rcases step_cases env s i with ⟨args,hpc,rfl,hs⟩ | ⟨hpc,rfl,hs⟩ | ⟨c,f,hpc,rfl,hs⟩ |
    ⟨c,rest,now,n,errno,hpc,rfl,hs⟩ | ⟨c,deadline,now,r,hpc,rfl,hs⟩ | ⟨hi,hs⟩
  · have hend : attemptEnd env s (.callMethod args) = none := by rw [attemptEnd.eq_def,hpc]
    rw [hs]
    cases hfd : s.fd with
    | none =>
      rw [callMethod_dials env s args hfd]
      exact .dials args hend hpc
    | some fd =>
      have hstart := startAttempt_begun s (newCall env args) (by simpa [newCall] using hm)
      rw [callMethod_starts env s args hfd,hstart]
      exact .starts args hend hpc
  · have hend : attemptEnd env s .close = none := by rw [attemptEnd.eq_def,hpc]
    rw [hs,close.eq_def]
    cases s.fd with
    | none => exact stays_callTurn env hend
    | some fd =>
      refine .stays _ _ hend ⟨rfl,rfl⟩ rfl rfl ?_ fun _ _ _ hm => absurd hm List.not_mem_nil
      intro o ho
      rw [List.mem_singleton.mp ho,plain]
  · rw [hs]
    cases f with
    | some e =>
      have hend : attemptEnd env s (.connectReturned (some e)) = some (.refused e) := by
        rw [attemptEnd.eq_def,hpc]
      exact fails_callTurn env (by rw [hpc]; rfl) hend rfl
    | none =>
      have hend : attemptEnd env s (.connectReturned none) = none := by rw [attemptEnd.eq_def,hpc]
      have hstart := startAttempt_begun { s with fd := some s.opened, opened := s.opened+1 } c
        (by rw [hfirst c hpc]; exact hm)
      rw [connectReturned,hstart]
      exact .connects c hend hpc
  · rw [hs]
    exact sendReturned_callTurn env hpc now n errno
  · rw [hs]
    exact waitIteration_callTurn env hpc now r
  · have hend : attemptEnd env s i = none := by
      rw [attemptEnd.eq_def]
      cases hpc : s.pc <;> cases i <;> simp_all [expects]
    rw [hs]
    exact stays_callTurn env hend

/-- The log agrees with the call in progress; none of the frames received by
the current attempt answers it. -/
structure InCall (env : Envelopes) (c : Call M) (x : CallLog M) : Prop where
  carries : Carries env x.args c
  done : c.done = x.args.done
  dones : x.dones = 0
  last : ∀ m, x.attempts.getLast? = some m → m.header.seq = c.seq
  misses : ∀ m ∈ x.received, isAnswer c.seq m = false

def made (pc : Pc M) (c : Call M) : ℕ := if started pc then c.attempt+1 else 0

structure Logged (env : Envelopes) (pc : Pc M) (log : Option (CallLog M)) : Prop where
  idle : callOf pc = none → log = none
  busy : ∀ c, callOf pc = some c → ∃ x, log = some x ∧ InCall env c x ∧
    x.attempts.length = made pc c
  first : ∀ c, pc = .connecting c → c.attempt = 0

theorem log_plain (os : List (Output M)) (h : ∀ o ∈ os, plain o = true) (l : Option (CallLog M)) :
    os.foldl logStep l = l.map fun x => { x with received := x.received++decodedOf os } := by
  induction os generalizing l with
  | nil =>
    cases l with
    | none => rfl
    | some x => simp [decodedOf]
  | cons o os ih =>
    have ho := h o List.mem_cons_self
    rw [List.foldl_cons,ih (fun o' ho' => h o' (List.mem_cons_of_mem o ho'))]
    cases o with
    | called args => exact Bool.noConfusion ho
    | attempted m => exact Bool.noConfusion ho
    | doneRun => exact Bool.noConfusion ho
    | returned controller response => exact Bool.noConfusion ho
    | connected conn => rfl
    | closed => rfl
    | sent bytes => rfl
    | received conn bytes => rfl
    | decoded m =>
      cases l with
      | none => rfl
      | some x =>
        have hd : decodedOf (.decoded m::os) = m::decodedOf os := rfl
        simp [logStep,hd]

theorem log_finish (s : RpcChannel M) (c : Call M) (l : Option (CallLog M)) :
    (finish s c).2.foldl logStep l = none := by
  rw [finish]
  cases c.done <;> rfl

theorem finish_logged (env : Envelopes) (s : RpcChannel M) (c : Call M) (lead : List (Output M))
    (l : Option (CallLog M)) :
    Logged env (finish s c).1.pc ((lead++(finish s c).2).foldl logStep l) := by
  rw [List.foldl_append,log_finish]
  exact ⟨fun _ => rfl,fun _ h => absurd h.symm (Option.some_ne_none _),fun _ h => by cases h⟩

theorem begun_logged (env : Envelopes) (s : RpcChannel M) {c : Call M} {x : CallLog M}
    (hc : Carries env x.args { c with controller := c.controller.reset }) (hd : c.done = x.args.done)
    (hx : x.dones = 0) (hl : x.attempts.length = c.attempt) :
    Logged env (begun s c).pc (some { x with
      attempts := x.attempts++[requestMessage s.nextSeq c.envelopeBytes], received := [] }) := by
  refine ⟨fun h => absurd h (Option.some_ne_none _),fun d h => ?_,fun _ h => by cases h⟩
  rw [← Option.some.inj h]
  refine ⟨_,rfl,⟨⟨hc.parseResponse,hc.envelopeBytes,hc.controller,hc.response⟩,hd,hx,?_,?_⟩,?_⟩
  · intro m hm
    rw [List.getLast?_concat] at hm
    rw [← Option.some.inj hm]
    rfl
  · exact fun m hm => absurd hm List.not_mem_nil
  · rw [List.length_append,hl]
    rfl

theorem newCall_carries (env : Envelopes) (args : CallArgs M) :
    Carries env args (newCall env args) := ⟨rfl,rfl,rfl,rfl⟩

theorem reset_carries {env : Envelopes} {args : CallArgs M} {c d : Call M} (h : Carries env args c)
    (hd : d = { c with controller := d.controller, attempt := d.attempt })
    (hr : d.controller.reset = c.controller.reset) :
    Carries env args { d with controller := d.controller.reset } := by
  rw [hd]
  refine ⟨h.parseResponse,h.envelopeBytes,?_,h.response⟩
  dsimp only
  rw [hr,h.controller,reset_reset]

theorem stays_logged {env : Envelopes} {s s' : RpcChannel M} {os : List (Output M)}
    {l : Option (CallLog M)} (h : Logged env s.pc l) (hcall : callOf s'.pc = callOf s.pc)
    (hstart : started s'.pc = started s.pc) (hplain : ∀ o ∈ os, plain o = true)
    (hmiss : ∀ c, callOf s.pc = some c → ∀ m ∈ decodedOf os, isAnswer c.seq m = false) :
    Logged env s'.pc (os.foldl logStep l) := by
  rw [log_plain os hplain]
  refine ⟨fun hidle => ?_,fun c hc => ?_,fun c hc => ?_⟩
  · rw [h.idle (hcall.symm.trans hidle)]
    rfl
  · rw [hcall] at hc
    obtain ⟨x,hx,hin,hlen⟩ := h.busy c hc
    refine ⟨{ x with received := x.received++decodedOf os },by rw [hx]; rfl,
      ⟨hin.carries,hin.done,hin.dones,hin.last,fun m hm => ?_⟩,?_⟩
    · cases List.mem_append.mp hm with
      | inl hold => exact hin.misses m hold
      | inr hnew => exact hmiss c hc m hnew
    · rw [made,hstart]
      exact hlen
  · cases hpc : s.pc with
    | connecting d =>
      rw [hc,hpc] at hcall
      rw [Option.some.inj hcall]
      exact h.first d hpc
    | idle =>
      rw [hc,hpc] at hcall
      exact absurd hcall (Option.some_ne_none c)
    | sending d rest =>
      rw [hc,hpc] at hstart
      exact Bool.noConfusion hstart
    | waiting d deadline =>
      rw [hc,hpc] at hstart
      exact Bool.noConfusion hstart

theorem turn_logged {env : Envelopes} {s : RpcChannel M} {i : Input M}
    {r : RpcChannel M × List (Output M)} (ht : CallTurn env s i r) {l : Option (CallLog M)}
    (h : Logged env s.pc l) : Logged env r.1.pc (r.2.foldl logStep l) := by
  cases ht with
  | stays s' os _ _ hcall hstart hplain hmiss => exact stays_logged h hcall hstart hplain hmiss
  | dials args _ hpc =>
    refine ⟨fun h => absurd h (Option.some_ne_none _),fun c hc => ?_,fun c hc => ?_⟩
    · rw [← Option.some.inj hc]
      exact ⟨_,rfl,⟨newCall_carries env args,rfl,rfl,fun _ hm => absurd hm.symm (Option.some_ne_none _),
        fun _ hm => absurd hm List.not_mem_nil⟩,rfl⟩
    · rw [← Pc.connecting.inj hc]
      rfl
  | starts args _ hpc =>
    exact begun_logged env s (x := { args })
      (reset_carries (newCall_carries env args) rfl rfl) rfl rfl rfl
  | connects c _ hpc =>
    obtain ⟨x,hx,hin,hlen⟩ := h.busy c (by rw [hpc]; rfl)
    rw [made,hpc] at hlen
    rw [hx]
    exact begun_logged env { s with fd := some s.opened, opened := s.opened+1 }
      (reset_carries hin.carries rfl rfl) hin.done hin.dones (hlen.trans (h.first c hpc).symm)
  | retries c deadline _ hpc hmore =>
    obtain ⟨x,hx,hin,hlen⟩ := h.busy c (by rw [hpc]; rfl)
    rw [made,hpc] at hlen
    rw [hx]
    exact begun_logged env s (c := { c.fail kTimeout "rpc call timeout" with attempt := c.attempt+1 })
      (reset_carries hin.carries rfl (by simp [Call.fail])) hin.done hin.dones hlen
  | fails c e code text s' attempt lead _ _ _ _ _ _ => exact finish_logged env s' _ lead l
  | answers c deadline s' lead m got _ _ _ _ _ _ _ => exact finish_logged env s' _ lead l

theorem plain_attempts {os : List (Output M)} (h : ∀ o ∈ os, plain o = true) :
    attemptsOf os = [] := by
  rw [attemptsOf,List.filterMap_eq_nil_iff]
  intro o ho
  have hp := h o ho
  cases o with
  | attempted m => exact Bool.noConfusion hp
  | called _ => rfl
  | connected _ => rfl
  | closed => rfl
  | sent _ => rfl
  | received _ _ => rfl
  | decoded _ => rfl
  | doneRun => rfl
  | returned _ _ => rfl

theorem finish_attempts {lead : List (Output M)} (h : ∀ o ∈ lead, plain o = true)
    (s : RpcChannel M) (c : Call M) : attemptsOf (lead++(finish s c).2) = [] := by
  rw [attemptsOf_append,plain_attempts h,(finish_quiet s c).attempts]
  rfl

theorem turn_attempts {env : Envelopes} {s : RpcChannel M} {i : Input M}
    {r : RpcChannel M × List (Output M)} (ht : CallTurn env s i r) :
    (attemptsOf r.2 = [] ∧ r.1.nextSeq = s.nextSeq) ∨
      ∃ body, attemptsOf r.2 = [requestMessage s.nextSeq body] ∧ r.1.nextSeq = s.nextSeq+1 := by
  cases ht with
  | stays s' os _ hsame _ _ hp _ => exact .inl ⟨plain_attempts hp,hsame.nextSeq⟩
  | dials args _ _ => exact .inl ⟨rfl,rfl⟩
  | starts args _ _ => exact .inr ⟨_,rfl,rfl⟩
  | connects c _ _ => exact .inr ⟨_,rfl,rfl⟩
  | retries c deadline _ _ _ => exact .inr ⟨_,rfl,rfl⟩
  | fails c e code text s' attempt lead _ _ _ hsame hp _ =>
    exact .inl ⟨finish_attempts hp s' _,hsame.nextSeq⟩
  | answers c deadline s' lead m got _ _ hsame hp _ _ _ =>
    exact .inl ⟨finish_attempts hp s' _,hsame.nextSeq⟩

theorem turn_maxRetries {env : Envelopes} {s : RpcChannel M} {i : Input M}
    {r : RpcChannel M × List (Output M)} (ht : CallTurn env s i r) :
    r.1.maxRetries = s.maxRetries := by
  cases ht with
  | stays s' os _ hsame _ _ _ _ => exact hsame.maxRetries
  | dials args _ _ => rfl
  | starts args _ _ => rfl
  | connects c _ _ => rfl
  | retries c deadline _ _ _ => rfl
  | fails c e code text s' attempt lead _ _ _ hsame _ _ => exact hsame.maxRetries
  | answers c deadline s' lead m got _ _ hsame _ _ _ _ => exact hsame.maxRetries

/-- The sequence numbers start again after `2^64` attempts. -/
theorem nextSeq_fresh_iff {nextSeq : UInt64} {os : List (Output M)}
    (h : Numbered nextSeq (attemptsOf os)) :
    nextSeq ∉ seqsOf os ↔ (attemptsOf os).length < 2^64 := by
  rw [seqsOf,h.seqs,h.next]
  generalize (attemptsOf os).length = n
  have hmod : ∀ k : ℕ, (UInt64.ofNat k).toNat = k % 2^64 := fun k => UInt64.toNat_ofNat'
  constructor
  · intro hfresh
    by_contra hlong
    apply hfresh
    refine List.mem_map.mpr ⟨n-2^64,List.mem_range.mpr (by omega),?_⟩
    apply UInt64.toNat_inj.mp
    rw [hmod,hmod]
    omega
  · intro hshort hmem
    obtain ⟨k,hk,heq⟩ := List.mem_map.mp hmem
    have hn := congrArg UInt64.toNat heq
    rw [hmod,hmod] at hn
    have hlt := List.mem_range.mp hk
    omega

structure Reached (env : Envelopes) (maxRetries : ℤ) (s : RpcChannel M) (os : List (Output M)) :
    Prop where
  maxRetries : s.maxRetries = maxRetries
  logged : Logged env s.pc (callLog os)
  numbered : Numbered s.nextSeq (attemptsOf os)

theorem step_reached (env : Envelopes) {maxRetries : ℤ} (hm : 0 ≤ maxRetries) (s : RpcChannel M)
    (os : List (Output M)) (i : Input M) (h : Reached env maxRetries s os) :
    Reached env maxRetries ((channel env).step s i).1 (os++((channel env).step s i).2) := by
  have ht := step_callTurn env s i (h.maxRetries.symm ▸ hm) h.logged.first
  refine ⟨(turn_maxRetries ht).trans h.maxRetries,?_,?_⟩
  · rw [callLog,List.foldl_append]
    exact turn_logged ht h.logged
  · rw [attemptsOf_append]
    exact h.numbered.step (turn_attempts ht)

theorem run_reached (env : Envelopes) (timeoutMs : ℤ) {maxRetries : ℤ} (hm : 0 ≤ maxRetries)
    (is : List (Input M)) :
    Reached env maxRetries ((channel env).run (RpcChannel.new timeoutMs maxRetries) is).1
      ((channel env).run (RpcChannel.new timeoutMs maxRetries) is).2 := by
  apply run_invariant (channel env) (Reached env maxRetries) (step_reached env hm)
  refine ⟨rfl,⟨fun _ => rfl,fun _ h => absurd h.symm (Option.some_ne_none _),fun _ h => by cases h⟩,?_⟩
  exact ⟨fun _ hm => absurd hm List.not_mem_nil,rfl,rfl⟩

theorem judge_success (env : Envelopes) (parseResponse : Bytes → Option M) (body : Bytes) :
    judge env parseResponse body = .success ↔ ∃ resp got, env.response.parse body = some resp ∧
      resp.errorCode = kOk.value ∧ parseResponse resp.response = some got := by
  rw [judge.eq_def]
  cases env.response.parse body with
  | none => exact ⟨fun h => AttemptEnd.noConfusion h,fun ⟨_,_,h,_⟩ => absurd h.symm (Option.some_ne_none _)⟩
  | some resp =>
    dsimp only
    by_cases herr : resp.errorCode ≠ kOk.value
    · rw [if_pos herr]
      refine ⟨fun h => AttemptEnd.noConfusion h,?_⟩
      rintro ⟨resp',got,hr,hcode,-⟩
      rw [← Option.some.inj hr] at hcode
      exact absurd hcode herr
    · rw [if_neg herr]
      cases hp : parseResponse resp.response with
      | none =>
        refine ⟨fun h => AttemptEnd.noConfusion h,?_⟩
        rintro ⟨resp',got,hr,-,hgot⟩
        rw [← Option.some.inj hr,hp] at hgot
        exact absurd hgot.symm (Option.some_ne_none got)
      | some got => exact ⟨fun _ => ⟨resp,got,rfl,not_not.mp herr,hp⟩,fun _ => rfl⟩

theorem split_behind {α : Type} {p : α → Bool} {xs ys before after : List α} {z : α}
    (hx : ∀ x ∈ xs, p x = false) (hz : p z = true) (h : xs++ys = before++z::after) :
    ∃ zs, before = xs++zs ∧ ys = zs++z::after := by
  induction xs generalizing before with
  | nil => exact ⟨before,rfl,h⟩
  | cons x xs ih =>
    cases before with
    | nil =>
      have hno := hx x List.mem_cons_self
      rw [(List.cons.inj h).1,hz] at hno
      exact Bool.noConfusion hno
    | cons b before =>
      obtain ⟨hxb,hrest⟩ := List.cons.inj h
      obtain ⟨zs,hbefore,hys⟩ := ih (fun x' hx' => hx x' (List.mem_cons_of_mem x hx')) hrest
      exact ⟨zs,by rw [hbefore,hxb]; rfl,hys⟩

theorem split_last {α : Type} {p : α → Bool} {xs before after : List α} {y z : α}
    (hx : ∀ x ∈ xs, p x = false) (hz : p z = true) (h : xs++[y] = before++z::after) :
    before = xs ∧ z = y ∧ after = [] := by
  obtain ⟨zs,hbefore,hy⟩ := split_behind hx hz h
  cases zs with
  | nil =>
    obtain ⟨hyz,hafter⟩ := List.cons.inj hy
    exact ⟨by rw [hbefore,List.append_nil],hyz.symm,hafter.symm⟩
  | cons a zs => simp at hy

def isReturn : Output M → Bool
  | .returned _ _ => true
  | _ => false

def isAttempt : Output M → Bool
  | .attempted _ => true
  | _ => false

def dones (c : Call M) : List (Output M) := if c.done then [.doneRun] else []

theorem plain_not_return {o : Output M} (h : plain o = true) : isReturn o = false := by
  cases o with
  | returned _ _ => exact Bool.noConfusion h
  | called _ => rfl
  | connected _ => rfl
  | closed => rfl
  | attempted _ => rfl
  | sent _ => rfl
  | received _ _ => rfl
  | decoded _ => rfl
  | doneRun => rfl

theorem lead_not_return {lead : List (Output M)} (h : ∀ o ∈ lead, plain o = true) (c : Call M)
    (o : Output M) (ho : o ∈ lead++dones c) : isReturn o = false := by
  cases List.mem_append.mp ho with
  | inl hl => exact plain_not_return (h o hl)
  | inr hd =>
    rw [dones] at hd
    split at hd
    · rw [List.mem_singleton.mp hd]
      rfl
    · exact absurd hd List.not_mem_nil

theorem finish_split {lead before after : List (Output M)} (h : ∀ o ∈ lead, plain o = true)
    {s : RpcChannel M} {c : Call M} {controller : ControllerPtr} {response : Option M}
    (hsplit : lead++(finish s c).2 = before++.returned controller response::after) :
    before = lead++dones c ∧ controller = c.controller := by
  have hfin : (finish s c).2 = dones c++[.returned c.controller c.response] := rfl
  rw [hfin,← List.append_assoc] at hsplit
  obtain ⟨hbefore,hret,-⟩ := split_last (lead_not_return h c) rfl hsplit
  exact ⟨hbefore,(Output.returned.inj hret).1⟩

theorem log_before_return {os lead : List (Output M)} (h : ∀ o ∈ lead, plain o = true) (c : Call M)
    {x : CallLog M} (hx : callLog os = some x) (hd : x.dones = 0) :
    callLog (os++(lead++dones c)) =
      some { x with received := x.received++decodedOf lead, dones := c.done.toNat } := by
  rw [callLog,List.foldl_append,List.foldl_append,show os.foldl logStep none = some x from hx,
    log_plain lead h]
  cases hdone : c.done with
  | false => simp [dones,hdone,hd]
  | true => simp [dones,hdone,logStep,hd]

theorem fails_outcome {env : Envelopes} {os lead : List (Output M)} {c : Call M} {x : CallLog M}
    (hx : callLog os = some x) (hin : InCall env c x) (hplain : ∀ o ∈ lead, plain o = true)
    (hbad : ∀ m ∈ decodedOf lead, isAnswer c.seq m = true →
      judge env c.parseResponse m.body ≠ .success) (code : ErrorCode) (text : String) :
    ∃ y, callLog (os++(lead++dones c)) = some y ∧ y.dones = y.args.done.toNat ∧
      ∀ k, y.args.controller = .minirpc k → ¬ Answered env y ∧
        (c.fail code text).controller =
          .minirpc { failed := true, errorCode := code, errorText := text } := by
  refine ⟨_,log_before_return hplain c hx hin.dones,by rw [hin.done],fun k hk => ⟨?_,?_⟩⟩
  · rintro ⟨last,answer,resp,got,hlast,hmem,hhit,hparse,hcode,hgot⟩
    rw [hin.last last hlast] at hhit
    cases List.mem_append.mp hmem with
    | inl hold =>
      rw [hin.misses answer hold] at hhit
      exact Bool.noConfusion hhit
    | inr hnew =>
      apply hbad answer hnew hhit
      rw [hin.carries.parseResponse]
      exact (judge_success env x.args.parseResponse answer.body).mpr ⟨resp,got,hparse,hcode,hgot⟩
  · rw [Call.fail,hin.carries.controller,show x.args.controller = .minirpc k from hk]
    rfl

theorem answers_outcome {env : Envelopes} {os lead : List (Output M)} {c : Call M} {x : CallLog M}
    (hx : callLog os = some x) (hin : InCall env c x) (hlen : x.attempts.length = c.attempt+1)
    (hplain : ∀ o ∈ lead, plain o = true) {m : ProtocolMessage} (hm : m ∈ decodedOf lead)
    (hhit : isAnswer c.seq m = true) (hgood : judge env c.parseResponse m.body = .success) :
    ∃ y, callLog (os++(lead++dones c)) = some y ∧ y.dones = y.args.done.toNat ∧ Answered env y ∧
      ∀ k, y.args.controller = .minirpc k → c.controller.failed = false := by
  refine ⟨_,log_before_return hplain c hx hin.dones,by rw [hin.done],?_,fun k hk => ?_⟩
  · have hne : x.attempts ≠ [] := by
      rw [← List.length_pos_iff,hlen]
      exact Nat.succ_pos _
    have hlast := List.getLast?_eq_some_getLast hne
    rw [hin.carries.parseResponse] at hgood
    obtain ⟨resp,got,hparse,hcode,hgot⟩ := (judge_success env _ m.body).mp hgood
    refine ⟨_,m,resp,got,hlast,List.mem_append_right _ hm,?_,hparse,hcode,hgot⟩
    rw [hin.last _ hlast]
    exact hhit
  · rw [hin.carries.controller]
    exact reset_not_failed _

theorem not_split_return {os before after : List (Output M)} {controller : ControllerPtr}
    {response : Option M} (h : ∀ o ∈ os, isReturn o = false)
    (hsplit : os = before++.returned controller response::after) : False := by
  have hno := h (.returned controller response) (by rw [hsplit]; simp)
  exact Bool.noConfusion hno

section
variable {env : Envelopes} {s : RpcChannel M} {i : Input M} {r : RpcChannel M × List (Output M)}
  {os before after : List (Output M)}

theorem turn_outcome (ht : CallTurn env s i r) (h : Logged env s.pc (callLog os))
    {controller : ControllerPtr} {response : Option M}
    (hsplit : r.2 = before++.returned controller response::after) :
    ∃ x, callLog (os++before) = some x ∧ x.dones = x.args.done.toNat ∧
      ∀ k, x.args.controller = .minirpc k →
        (controller.failed = false ↔ Answered env x) ∧
        (controller.failed = true → ∃ code text,
          (attemptEnd env s i).bind AttemptEnd.error = some (code,text) ∧
          controller = .minirpc { failed := true, errorCode := code, errorText := text }) := by
  cases ht with
  | stays s' os' _ _ _ _ hplain _ =>
    exact (not_split_return (fun o ho => plain_not_return (hplain o ho)) hsplit).elim
  | dials args _ _ =>
    refine (not_split_return (fun o ho => ?_) hsplit).elim
    rw [List.mem_singleton.mp ho]
    rfl
  | starts args _ _ =>
    refine (not_split_return (fun o ho => ?_) hsplit).elim
    rcases List.mem_pair.mp ho with rfl | rfl
    · rfl
    · rfl
  | connects c _ _ =>
    refine (not_split_return (fun o ho => ?_) hsplit).elim
    rcases List.mem_pair.mp ho with rfl | rfl
    · rfl
    · rfl
  | retries c deadline _ _ _ =>
    refine (not_split_return (fun o ho => ?_) hsplit).elim
    rw [List.mem_singleton.mp ho]
    rfl
  | fails c e code text s' attempt lead hcall hend herr _ hplain hbad =>
    obtain ⟨x,hx,hin,-⟩ := h.busy c hcall
    obtain ⟨hbefore,hcontroller⟩ := finish_split hplain hsplit
    obtain ⟨y,hy,hd,hcases⟩ := fails_outcome hx hin hplain hbad code text
    refine ⟨y,by rw [hbefore]; exact hy,hd,fun k hk => ?_⟩
    obtain ⟨hno,hval⟩ := hcases k hk
    rw [hcontroller,hval]
    exact ⟨iff_of_false (fun hf => Bool.noConfusion hf) hno,
      fun _ => ⟨code,text,by rw [hend]; exact herr,rfl⟩⟩
  | answers c deadline s' lead m got hpc _ _ hplain hm hhit hgood =>
    obtain ⟨x,hx,hin,hlen⟩ := h.busy c (by rw [hpc]; rfl)
    rw [made,hpc] at hlen
    obtain ⟨hbefore,hcontroller⟩ := finish_split hplain hsplit
    obtain ⟨y,hy,hd,hanswered,hcases⟩ := answers_outcome hx hin hlen hplain hm hhit hgood
    refine ⟨y,by rw [hbefore]; exact hy,hd,fun k hk => ?_⟩
    have hok := hcases k hk
    rw [hcontroller]
    refine ⟨iff_of_true hok hanswered,fun hf => ?_⟩
    rw [hok] at hf
    exact Bool.noConfusion hf

omit env s i r os in
theorem done_split {lead : List (Output M)} (h : ∀ o ∈ lead, plain o = true) {s : RpcChannel M}
    {c : Call M} (hsplit : lead++(finish s c).2 = before++.doneRun::after) :
    ∃ controller response, after = [.returned controller response] := by
  have hno : ∀ o ∈ lead, (fun o : Output M => !plain o) o = false := by
    intro o ho
    simp [h o ho]
  obtain ⟨zs,-,hfin⟩ := split_behind hno rfl hsplit
  refine ⟨c.controller,c.response,?_⟩
  rw [finish] at hfin
  cases hdone : c.done with
  | false =>
    rw [hdone] at hfin
    cases zs with
    | nil => cases hfin
    | cons a zs => simp at hfin
  | true =>
    rw [hdone] at hfin
    cases zs with
    | nil => exact (List.cons.inj hfin).2.symm
    | cons a zs =>
      cases zs with
      | nil => cases hfin
      | cons b zs => simp at hfin

theorem turn_done (ht : CallTurn env s i r) (hsplit : r.2 = before++.doneRun::after) :
    ∃ controller response, after = [.returned controller response] := by
  have hmem : .doneRun ∈ r.2 := by rw [hsplit]; simp
  cases ht with
  | stays s' os' _ _ _ _ hplain _ => exact Bool.noConfusion (hplain _ hmem)
  | dials args _ _ => simp at hmem
  | starts args _ _ => simp at hmem
  | connects c _ _ => simp at hmem
  | retries c deadline _ _ _ => simp at hmem
  | fails c e code text s' attempt lead _ _ _ _ hplain _ => exact done_split hplain hsplit
  | answers c deadline s' lead m got _ _ _ hplain _ _ _ => exact done_split hplain hsplit

omit env s i r os in
theorem attempt_split (lead : List (Output M)) (h : ∀ o ∈ lead, isAttempt o = false)
    {k m : ProtocolMessage} (hsplit : lead++[.attempted k] = before++.attempted m::after) :
    before = lead ∧ m = k := by
  obtain ⟨hbefore,hmsg,-⟩ := split_last h rfl hsplit
  exact ⟨hbefore,Output.attempted.inj hmsg⟩

theorem turn_retry (ht : CallTurn env s i r) {maxRetries : ℤ} (hm : 0 ≤ maxRetries)
    (h : Reached env maxRetries s os) (hshort : (attemptsOf os).length < 2^64) {m : ProtocolMessage}
    (hsplit : r.2 = before++.attempted m::after) :
    ∃ x, callLog (os++before) = some x ∧ (x.attempts.length : ℤ) ≤ s.maxRetries ∧
      (x.attempts ≠ [] → attemptEnd env s i = some .timeout) ∧ m.header.seq ∉ seqsOf os := by
  have hfresh := (nextSeq_fresh_iff h.numbered).mpr hshort
  have hmem : m ∈ attemptsOf r.2 := by
    rw [hsplit,attemptsOf_append]
    exact List.mem_append_right _ List.mem_cons_self
  cases ht with
  | stays s' os' _ _ _ _ hplain _ =>
    rw [plain_attempts hplain] at hmem
    exact absurd hmem List.not_mem_nil
  | dials args _ _ => exact absurd hmem List.not_mem_nil
  | starts args _ hpc =>
    obtain ⟨hbefore,hmsg⟩ := attempt_split [.called args]
      (fun o ho => by rw [List.mem_singleton.mp ho]; rfl) hsplit
    rw [hbefore,hmsg,callLog,List.foldl_append]
    refine ⟨_,rfl,?_,fun hne => absurd rfl hne,hfresh⟩
    rw [h.maxRetries]
    exact hm
  | connects c _ hpc =>
    obtain ⟨x,hx,-,hlen⟩ := h.logged.busy c (by rw [hpc]; rfl)
    rw [made,hpc] at hlen
    have hnil : x.attempts = [] := List.length_eq_zero_iff.mp hlen
    obtain ⟨hbefore,hmsg⟩ := attempt_split [.connected s.opened]
      (fun o ho => by rw [List.mem_singleton.mp ho]; rfl) hsplit
    rw [hbefore,hmsg,callLog,List.foldl_append,
      show os.foldl logStep none = some x from hx]
    refine ⟨x,rfl,?_,fun hne => absurd hnil hne,hfresh⟩
    rw [hnil,h.maxRetries]
    exact hm
  | retries c deadline hend hpc hmore =>
    obtain ⟨x,hx,-,hlen⟩ := h.logged.busy c (by rw [hpc]; rfl)
    rw [made,hpc] at hlen
    obtain ⟨hbefore,hmsg⟩ := attempt_split [] (fun o ho => absurd ho List.not_mem_nil) hsplit
    rw [hbefore,hmsg,List.append_nil]
    exact ⟨x,hx,by rw [hlen]; exact hmore,fun _ => hend,hfresh⟩
  | fails c e code text s' attempt lead _ _ _ _ hplain _ =>
    rw [finish_attempts hplain] at hmem
    exact absurd hmem List.not_mem_nil
  | answers c deadline s' lead k got _ _ _ hplain _ _ _ =>
    rw [finish_attempts hplain] at hmem
    exact absurd hmem List.not_mem_nil

omit env s i r os before after in
theorem finish_returns (lead : List (Output M)) (s : RpcChannel M) (c : Call M) :
    .returned c.controller c.response ∈ lead++(finish s c).2 := by
  rw [finish]
  simp

theorem turn_ends (ht : CallTurn env s i r) (hend : attemptEnd env s i ≠ none) :
    (∃ controller response, .returned controller response ∈ r.2) ∨
      attemptEnd env s i = some .timeout ∧ attemptsOf r.2 ≠ [] := by
  cases ht with
  | stays s' os' hno _ _ _ _ _ => exact absurd hno hend
  | dials args hno _ => exact absurd hno hend
  | starts args hno _ => exact absurd hno hend
  | connects c hno _ => exact absurd hno hend
  | retries c deadline htime _ _ => exact .inr ⟨htime,List.cons_ne_nil _ _⟩
  | fails c e code text s' attempt lead _ _ _ _ _ _ => exact .inl ⟨_,_,finish_returns lead s' _⟩
  | answers c deadline s' lead k got _ _ _ _ _ _ _ => exact .inl ⟨_,_,finish_returns lead s' _⟩

theorem reached_contract {maxRetries : ℤ} (hm : 0 ≤ maxRetries) (h : Reached env maxRetries s os)
    (hshort : (attemptsOf os).length < 2^64) (i : Input M) : Contract env os s i := by
  have ht := step_callTurn env s i (h.maxRetries.symm ▸ hm) h.logged.first
  exact ⟨fun _ _ _ _ hsplit => turn_outcome ht h.logged hsplit,
    fun _ _ _ hsplit => turn_retry ht hm h hshort hsplit,fun _ _ hsplit => turn_done ht hsplit,
    turn_ends ht⟩

end

def anyArgs (M : Type) : CallArgs M where
  method := ""
  request := []
  parseResponse _ := none
  controller := .minirpc {}
  done := false

/-- Without an attempt the call returns as it was reset, not failed. -/
theorem unattempted_breaks (env : Envelopes) (timeoutMs : ℤ) {maxRetries : ℤ} (hm : maxRetries < 0) :
    ¬ Contract (M := M) env
      ((channel env).run (RpcChannel.new timeoutMs maxRetries) [.callMethod (anyArgs M)]).2
      ((channel env).run (RpcChannel.new timeoutMs maxRetries) [.callMethod (anyArgs M)]).1
      (.connectReturned none) := by
  intro h
  have hno : ¬ ((newCall env (anyArgs M)).attempt:ℤ) ≤ maxRetries := not_le.mpr hm
  have hstep : ((channel env).step
      ((channel env).run (RpcChannel.new timeoutMs maxRetries) [.callMethod (anyArgs M)]).1
      (.connectReturned none)).2 = [.connected 0]++.returned (.minirpc {}) none::[] := by
    show (connectReturned { RpcChannel.new timeoutMs maxRetries with
      pc := .connecting (newCall env (anyArgs M)) } (newCall env (anyArgs M)) none).2 = _
    rw [connectReturned,startAttempt]
    exact congrArg (fun r : RpcChannel M × List (Output M) => .connected 0::r.2) (if_neg hno)
  obtain ⟨x,hx,-,hcases⟩ := h.outcome _ _ _ _ hstep
  have hlog : x = { args := anyArgs M } := (Option.some.inj hx).symm
  obtain ⟨last,-,-,-,hlast,-⟩ := (hcases {} (by rw [hlog]; rfl)).1.mp rfl
  rw [hlog] at hlast
  exact absurd hlast.symm (Option.some_ne_none last)

/-- Every call on a channel meets the contract, as long as the sequence
numbers last, exactly when the channel makes at least one attempt; and they
last for `2^64` attempts. -/
theorem call_contract_iff (env : Envelopes) (timeoutMs maxRetries : ℤ) :
    ((∀ (is : List (Input M)) (i : Input M),
      (attemptsOf ((channel env).run (RpcChannel.new timeoutMs maxRetries) is).2).length < 2^64 →
      Contract env ((channel env).run (RpcChannel.new timeoutMs maxRetries) is).2
        ((channel env).run (RpcChannel.new timeoutMs maxRetries) is).1 i) ↔ 0 ≤ maxRetries) ∧
    (0 ≤ maxRetries → ∀ (is : List (Input M)),
      (((channel env).run (RpcChannel.new timeoutMs maxRetries) is).1.nextSeq ∉
        seqsOf ((channel env).run (RpcChannel.new timeoutMs maxRetries) is).2 ↔
      (attemptsOf ((channel env).run (RpcChannel.new timeoutMs maxRetries) is).2).length < 2^64)) := by
  refine ⟨⟨fun h => ?_,fun hm is i hshort => ?_⟩,fun hm is => ?_⟩
  · by_contra hneg
    apply unattempted_breaks env timeoutMs (not_le.mp hneg)
    apply h
    exact Nat.two_pow_pos 64
  · exact reached_contract hm (run_reached env timeoutMs hm is) hshort i
  · exact nextSeq_fresh_iff (run_reached env timeoutMs hm is).numbered

def silentServer : List (Input Bytes) :=
  [.callMethod echoArgs,.connectReturned none,.sendReturned 0 1000 ⟨0,"Success"⟩,.polled 1 .timeout,
    .sendReturned 2 1000 ⟨0,"Success"⟩]

theorem silent_server_times_out :
    Contract protoEnvelopes ((channel protoEnvelopes).run (RpcChannel.new 300 1) silentServer).2
      ((channel protoEnvelopes).run (RpcChannel.new 300 1) silentServer).1 (.polled 3 .timeout) ∧
    (StatusFidelity.returnsOf ((channel protoEnvelopes).step
      ((channel protoEnvelopes).run (RpcChannel.new 300 1) silentServer).1 (.polled 3 .timeout)).2) =
        [(.minirpc { failed := true, errorCode := kTimeout, errorText := "rpc call timeout" },none)] :=
  ⟨(call_contract_iff protoEnvelopes 300 1).1.mpr (by decide) silentServer _ (by decide +kernel),
    by decide +kernel⟩

/-- `maxRetries` is -1: the call connects, sends nothing and returns with a
controller that is not failed. -/
theorem call_without_attempt_succeeds :
    let run := (channel protoEnvelopes).run (RpcChannel.new 300 (-1))
      [.callMethod echoArgs,.connectReturned none]
    StatusFidelity.returnsOf run.2 = [(.minirpc {},none)] ∧ (attemptsOf run.2).length = 0 := by
  decide +kernel

end MiniRpc.CallContract
