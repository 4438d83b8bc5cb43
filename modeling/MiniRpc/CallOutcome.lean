import MiniRpc.CallChannel

/-!
# How a call on a channel ends

While a call is in progress the channel keeps its controller and its `done`;
it returns once, and is idle again. A step ends the call by a failure that
the client raises itself, or with what it made of an answer; only the
controller tells the two apart.
-/

set_option autoImplicit false

namespace MiniRpc.CallOutcome
open MiniRpc.ByteBuffer MiniRpc.WireCodec MiniRpc.CallController MiniRpc.CallChannel
open MiniRpc.StepMachine MiniRpc.Incremental

variable {M : Type}

def callOf : Pc M → Option (Call M)
  | .idle => none
  | .connecting c => some c
  | .sending c _ => some c
  | .waiting c _ => some c

def returnOf (os : List (Output M)) : Option (ControllerPtr × Option M) :=
  os.findSome? fun
    | .returned controller response => some (controller,response)
    | _ => none

def sends : Output M → Bool
  | .sent _ => true
  | _ => false

def Attempting (x : RpcChannel M) : Prop :=
  match x.pc with
  | .sending _ _ => 0 ≤ x.maxRetries
  | .waiting _ _ => 0 ≤ x.maxRetries
  | _ => True

/-- A call whose controller is `p` when reset goes on, or it has returned. -/
inductive Outcome (p : ControllerPtr) (maxRetries : ℤ) : RpcChannel M × List (Output M) → Prop where
  | continues {x : RpcChannel M} {os : List (Output M)} (c : Call M) (hcall : callOf x.pc = some c)
      (hcontroller : c.controller = p) (hlive : Attempting x) (hreturn : returnOf os = none)
      (hretries : x.maxRetries = maxRetries) : Outcome p maxRetries (x,os)
  | returns {x : RpcChannel M} {os : List (Output M)} (controller : ControllerPtr)
      (response : Option M) (hidle : x.pc = .idle) (hreturn : returnOf os = some (controller,response))
      (hcontroller : controller.reset = p) (hretries : x.maxRetries = maxRetries) :
      Outcome p maxRetries (x,os)

theorem returnOf_append (os new : List (Output M)) :
    returnOf (os++new) = (returnOf os).or (returnOf new) := List.findSome?_append

theorem returnOf_finish (s : RpcChannel M) (c : Call M) :
    returnOf (finish s c).2 = some (c.controller,c.response) := by
  rw [finish]
  cases c.done <;> rfl

theorem returnOf_received (conn : Option ℕ) (data : Bytes) (ms : List ProtocolMessage) :
    returnOf (M := M) (.received conn data::ms.map .decoded) = none := by
  rw [returnOf,List.findSome?_cons]
  simp [List.findSome?_eq_none_iff]

theorem returnOf_close (s : RpcChannel M) : returnOf (close s).2 = none := by
  rw [close.eq_def]
  cases s.fd <;> rfl

theorem close_maxRetries (s : RpcChannel M) : (close s).1.maxRetries = s.maxRetries := by
  rw [close.eq_def]
  cases s.fd <;> rfl

section
variable {p : ControllerPtr} {s : RpcChannel M}

theorem finish_outcome {c : Call M} (hc : c.controller.reset = p) (os : List (Output M))
    (hos : returnOf os = none) : Outcome p s.maxRetries ((finish s c).1,os++(finish s c).2) := by
  refine .returns c.controller c.response rfl ?_ hc rfl
  rw [returnOf_append,hos,returnOf_finish]
  rfl

theorem startAttempt_outcome {c : Call M} (hc : c.controller.reset = p) (os : List (Output M))
    (hos : returnOf os = none) :
    Outcome p s.maxRetries ((startAttempt s c).1,os++(startAttempt s c).2) := by
  rw [startAttempt]
  by_cases hmore : (c.attempt:ℤ) ≤ s.maxRetries
  · rw [if_pos hmore]
    refine .continues _ rfl hc ?_ ?_ rfl
    · show (0:ℤ) ≤ s.maxRetries
      omega
    · rw [returnOf_append,hos]
      rfl
  · rw [if_neg hmore]
    exact finish_outcome hc os hos

theorem fail_reset {c : Call M} (hc : c.controller = p) (hp : p.reset = p) (code : ErrorCode)
    (message : String) : (c.fail code message).controller.reset = p := by
  rw [Call.fail,failController_reset,hc,hp]

theorem acceptResponse_reset (env : Envelopes) {c : Call M} (hc : c.controller = p)
    (hp : p.reset = p) (body : Bytes) : (acceptResponse env c body).controller.reset = p := by
  rw [acceptResponse.eq_def]
  cases env.response.parse body with
  | none => exact fail_reset hc hp _ _
  | some resp =>
    dsimp only
    by_cases herr : resp.errorCode ≠ kOk.value
    · rw [if_pos herr]
      exact fail_reset hc hp _ _
    · rw [if_neg herr]
      cases c.parseResponse resp.response with
      | none => exact fail_reset hc hp _ _
      | some r => rw [hc,hp]

theorem callMethod_outcome (env : Envelopes) (s : RpcChannel M) (args : CallArgs M) :
    Outcome args.controller.reset s.maxRetries (callMethod env s args) := by
  rw [callMethod.eq_def]
  cases s.fd with
  | none => exact .continues _ rfl rfl trivial rfl rfl
  | some fd => exact startAttempt_outcome (reset_reset _) [.called args] rfl

/-- A call returns before it blocks only where no attempt is allowed, and
then without a failure. -/
theorem callMethod_returned (env : Envelopes) {args : CallArgs M} {controller : ControllerPtr}
    {response : Option M} (h : returnOf (callMethod env s args).2 = some (controller,response)) :
    controller = args.controller.reset ∧ s.maxRetries < 0 := by
  rw [callMethod.eq_def] at h
  cases hfd : s.fd with
  | none =>
    rw [hfd] at h
    cases h
  | some fd =>
    rw [hfd] at h
    dsimp only at h
    rw [startAttempt] at h
    by_cases hmore : ((0:ℕ):ℤ) ≤ s.maxRetries
    · rw [if_pos hmore] at h
      cases h
    · rw [if_neg hmore] at h
      have hreturn := (returnOf_finish s _).symm.trans h
      cases hreturn
      exact ⟨rfl,by omega⟩

theorem sendFailed_outcome {c : Call M} (hc : c.controller = p) (hp : p.reset = p) (errno : Errno) :
    Outcome p s.maxRetries (sendFailed s c errno) := by
  rw [sendFailed,← close_maxRetries s]
  exact finish_outcome (fail_reset hc hp kSystem errno.text) _ (returnOf_close s)

theorem readAnswer_outcome (env : Envelopes) {c : Call M} {deadline : ℤ}
    (hpc : s.pc = .waiting c deadline) (hc : c.controller = p) (hp : p.reset = p)
    (hlive : Attempting s) (data : Bytes) : Outcome p s.maxRetries (readAnswer env s c data) := by
  have hnone := returnOf_received (M := M) s.fd data
    (scanResponses c.seq (s.inputBuffer.readFd data)).decoded
  let read := { s with inputBuffer := (scanResponses c.seq (s.inputBuffer.readFd data)).buffer }
  rw [readAnswer]
  cases (scanResponses c.seq (s.inputBuffer.readFd data)).ending with
  | waits =>
    refine .continues c ?_ hc ?_ hnone rfl
    · rw [hpc]
      rfl
    · exact hlive
  | rejects e => exact finish_outcome (s := read) (fail_reset hc hp _ _) _ hnone
  | found m => exact finish_outcome (s := read) (acceptResponse_reset env hc hp _) _ hnone

theorem step_outcome (env : Envelopes) {c : Call M} (hcall : callOf s.pc = some c)
    (hc : c.controller = p) (hp : p.reset = p) (hlive : Attempting s) (i : Input M) :
    Outcome p s.maxRetries ((channel env).step s i) := by
  have hturn := step_turn env s i
  have hsame : Outcome p s.maxRetries (s,([] : List (Output M))) :=
    .continues c hcall hc hlive rfl rfl
  generalize (channel env).step s i = r at hturn ⊢
  cases hturn with
  | ignores _ hi => exact hsame
  | calls args hpc =>
    rw [hpc] at hcall
    cases hcall
  | closes hpc =>
    rw [hpc] at hcall
    cases hcall
  | connects c' failure hpc =>
    rw [hpc] at hcall
    cases hcall
    cases failure with
    | some e => exact finish_outcome (fail_reset hc hp _ _) [] rfl
    | none =>
      exact startAttempt_outcome (s := { s with fd := some s.opened, opened := s.opened+1 })
        (by rw [hc,hp]) [.connected s.opened] rfl
  | sends c' rest now n errno hpc hn =>
    rw [hpc] at hcall
    rw [Attempting,hpc] at hlive
    cases hcall
    by_cases hl : rest.drop n.toNat = []
    · rw [if_pos hl]
      exact .continues c rfl hc hlive rfl rfl
    · rw [if_neg hl]
      exact .continues c rfl hc hlive rfl rfl
  | resends c' rest now n errno hpc hn he => exact hsame
  | breaks c' rest now n errno hpc hn he =>
    rw [hpc] at hcall
    cases hcall
    exact sendFailed_outcome hc hp errno
  | retries c' deadline now r hpc =>
    rw [hpc] at hcall
    cases hcall
    exact startAttempt_outcome (s := s)
      (c := { c.fail kTimeout "rpc call timeout" with attempt := c.attempt+1 })
      (fail_reset hc hp _ _) [] rfl
  | repolls c' deadline now r hpc => exact hsame
  | fails c' deadline now r hpc code message =>
    rw [hpc] at hcall
    cases hcall
    exact finish_outcome (fail_reset hc hp _ _) [] rfl
  | reads c' deadline now rev data hpc =>
    rw [hpc] at hcall
    cases hcall
    exact readAnswer_outcome env hpc hc hp hlive data

end

def lastTimeout (s : RpcChannel M) (c : Call M) : Option ErrorCode :=
  if ((c.attempt+1 : ℕ):ℤ) ≤ s.maxRetries then none else some kTimeout

/-- The code of the failure by which the client itself ends the call in this
step. -/
def raises (s : RpcChannel M) (i : Input M) : Option ErrorCode :=
  match s.pc, i with
  | .connecting _, .connectReturned (some _) => some kSystem
  | .sending _ _, .sendReturned _ n errno =>
    if n < 0 then (if errno.code = EINTR then none else some kSystem)
    else if n = 0 then some kSystem else none
  | .waiting c deadline, .polled now result =>
    if now ≥ deadline then lastTimeout s c
    else
      match result with
      | .timeout => lastTimeout s c
      | .error e => if e.code = EINTR then none else some kSystem
      | .ready rev read =>
        if rev.pollerr || rev.pollhup || rev.pollnval then some kClosed
        else if !rev.pollin then none
        else
          match read with
          | .error _ => some kClosed
          | .ok [] => some kClosed
          | .ok _ => none
  | _, _ => none

/-- The envelope in the frame of the current attempt's sequence number that
this step reads. -/
def answers (env : Envelopes) (s : RpcChannel M) (i : Input M) : Option RpcResponse :=
  match s.pc, i with
  | .waiting c deadline, .polled now (.ready rev (.ok (b::bs))) =>
    if now ≥ deadline then none
    else if rev.pollerr || rev.pollhup || rev.pollnval then none
    else if !rev.pollin then none
    else
      match (scanResponses c.seq (s.inputBuffer.readFd (b::bs))).ending with
      | .found m => env.response.parse m.body
      | _ => none
  | _, _ => none

structure Ends (c : Call M) (controller : ControllerPtr) (r : RpcChannel M × List (Output M)) :
    Prop where
  idle : r.1.pc = .idle
  returned : returnOf r.2 = some (controller,c.response)
  silent : r.2.any sends = false

theorem sends_finish (s : RpcChannel M) (c : Call M) : (finish s c).2.any sends = false := by
  rw [finish]
  cases c.done <;> rfl

theorem finish_ends (s : RpcChannel M) (c : Call M) (code : ErrorCode) (message : String) :
    Ends c (failController c.controller code message) (finish s (c.fail code message)) :=
  ⟨rfl,returnOf_finish s _,sends_finish s _⟩

theorem timedOut_ends {s : RpcChannel M} {c : Call M} {code : ErrorCode}
    (h : lastTimeout s c = some code) :
    ∃ message, Ends c (failController c.controller code message) (timedOut s c) := by
  rw [lastTimeout] at h
  by_cases hmore : ((c.attempt+1 : ℕ):ℤ) ≤ s.maxRetries
  · rw [if_pos hmore] at h
    cases h
  · rw [if_neg hmore] at h
    cases h
    refine ⟨"rpc call timeout",?_⟩
    rw [timedOut,startAttempt,if_neg hmore]
    exact ⟨rfl,returnOf_finish s _,sends_finish s _⟩

theorem sendFailed_ends (s : RpcChannel M) (c : Call M) (errno : Errno) :
    Ends c (failController c.controller kSystem errno.text) (sendFailed s c errno) := by
  have hclose : (close s).2.any sends = false := by
    rw [close.eq_def]
    cases s.fd <;> rfl
  refine ⟨rfl,?_,?_⟩
  · rw [sendFailed,returnOf_append,returnOf_close,returnOf_finish]
    rfl
  · rw [sendFailed,List.any_append,hclose,sends_finish]
    rfl

theorem waitIteration_ends (env : Envelopes) {s : RpcChannel M} {c : Call M} {deadline now : ℤ}
    {result : PollResult} (hpc : s.pc = .waiting c deadline) {code : ErrorCode}
    (h : raises s (.polled now result) = some code) :
    ∃ message, Ends c (failController c.controller code message)
      (waitIteration env s c deadline now result) := by
  rw [raises.eq_def,hpc] at h
  dsimp only at h
  rw [waitIteration.eq_def]
  by_cases hlate : now ≥ deadline
  · rw [if_pos hlate] at h ⊢
    exact timedOut_ends h
  · rw [if_neg hlate] at h ⊢
    cases result with
    | timeout => exact timedOut_ends h
    | error e =>
      dsimp only at h ⊢
      by_cases he : e.code = EINTR
      · rw [if_pos he] at h
        cases h
      · rw [if_neg he] at h ⊢
        cases h
        exact ⟨_,finish_ends s c _ _⟩
    | ready rev read =>
      dsimp only at h ⊢
      by_cases hbad : (rev.pollerr || rev.pollhup || rev.pollnval) = true
      · rw [if_pos hbad] at h ⊢
        cases h
        exact ⟨_,finish_ends s c _ _⟩
      · rw [if_neg hbad] at h ⊢
        by_cases hin : (!rev.pollin) = true
        · rw [if_pos hin] at h
          cases h
        · rw [if_neg hin] at h ⊢
          cases read with
          | error e =>
            cases h
            exact ⟨_,finish_ends s c _ _⟩
          | ok data =>
            cases data with
            | nil =>
              cases h
              exact ⟨_,finish_ends s c _ _⟩
            | cons b bs => cases h

theorem raises_ends (env : Envelopes) {s : RpcChannel M} {i : Input M} {code : ErrorCode}
    (h : raises s i = some code) {c : Call M} (hcall : callOf s.pc = some c) :
    ∃ message, Ends c (failController c.controller code message) ((channel env).step s i) := by
  rcases step_cases env s i with ⟨args,hpc,rfl,hs⟩ | ⟨hpc,rfl,hs⟩ | ⟨c',f,hpc,rfl,hs⟩ |
    ⟨c',rest,now,n,errno,hpc,rfl,hs⟩ | ⟨c',deadline,now,r,hpc,rfl,hs⟩ | ⟨hi,hs⟩
  · rw [hpc] at hcall
    cases hcall
  · rw [hpc] at hcall
    cases hcall
  · rw [hpc] at hcall
    cases hcall
    rw [raises.eq_def,hpc] at h
    cases f with
    | none => cases h
    | some e =>
      cases h
      rw [hs]
      exact ⟨_,finish_ends s c _ _⟩
  · rw [hpc] at hcall
    cases hcall
    rw [raises.eq_def,hpc] at h
    dsimp only at h
    rw [hs,sendReturned]
    by_cases hneg : n < 0
    · rw [if_pos hneg] at h ⊢
      by_cases he : errno.code = EINTR
      · rw [if_pos he] at h
        cases h
      · rw [if_neg he] at h ⊢
        cases h
        exact ⟨_,sendFailed_ends s c errno⟩
    · rw [if_neg hneg] at h ⊢
      by_cases hzero : n = 0
      · rw [if_pos hzero] at h ⊢
        cases h
        exact ⟨_,sendFailed_ends s c errno⟩
      · rw [if_neg hzero] at h
        cases h
  · rw [hpc] at hcall
    cases hcall
    rw [hs]
    exact waitIteration_ends env hpc h
  · have hno : raises s i = none := by
      rw [raises.eq_def]
      cases hpc : s.pc <;> cases i <;> simp_all [expects]
    exact absurd (h.symm.trans hno) (Option.some_ne_none code)

theorem lastTimeout_code {s : RpcChannel M} {c : Call M} {code : ErrorCode}
    (h : lastTimeout s c = some code) : code = kTimeout := by
  rw [lastTimeout] at h
  split_ifs at h
  cases h
  rfl

theorem raises_code {s : RpcChannel M} {i : Input M} {code : ErrorCode} (h : raises s i = some code) :
    code = kClosed ∨ code = kSystem ∨ code = kTimeout := by
  rw [raises.eq_def] at h
  split at h
  · cases h
    exact .inr (.inl rfl)
  · split_ifs at h <;> cases h <;> exact .inr (.inl rfl)
  · split_ifs at h
    · exact .inr (.inr (lastTimeout_code h))
    · split at h
      · exact .inr (.inr (lastTimeout_code h))
      · split_ifs at h
        cases h
        exact .inr (.inl rfl)
      · split_ifs at h
        · cases h
          exact .inl rfl
        · split at h <;> cases h <;> exact .inl rfl
  · cases h

theorem raises_exists {s : RpcChannel M} {c : Call M} (h : callOf s.pc = some c) :
    ∃ i code, raises s i = some code := by
  cases hpc : s.pc with
  | idle =>
    rw [hpc] at h
    cases h
  | connecting c => exact ⟨.connectReturned (some ⟨0,""⟩),kSystem,by rw [raises.eq_def,hpc]⟩
  | sending c rest => exact ⟨.sendReturned 0 0 ⟨0,""⟩,kSystem,by rw [raises.eq_def,hpc]; rfl⟩
  | waiting c deadline =>
    refine ⟨.polled (deadline-1) (.error ⟨0,""⟩),kSystem,?_⟩
    rw [raises.eq_def,hpc]
    dsimp only
    rw [if_neg (by omega),if_neg (by decide)]

theorem callMethod_can_send (env : Envelopes) {s : RpcChannel M} (h : 0 ≤ s.maxRetries)
    (args : CallArgs M) :
    ∃ is, returnOf ((channel env).run (callMethod env s args).1 is).2 = none ∧
      ((channel env).run (callMethod env s args).1 is).2.any sends = true := by
  have hmore : ((0:ℕ):ℤ) ≤ s.maxRetries := h
  rw [callMethod.eq_def]
  cases s.fd with
  | none =>
    refine ⟨[.connectReturned none,.sendReturned 0 1 ⟨0,""⟩],?_,?_⟩
    · simp only [Machine.run,channel,connectReturned,startAttempt,if_pos hmore]
      rfl
    · simp only [Machine.run,channel,connectReturned,startAttempt,if_pos hmore]
      rfl
  | some fd =>
    refine ⟨[.sendReturned 0 1 ⟨0,""⟩],?_,?_⟩
    · simp only [Machine.run,channel,startAttempt,if_pos hmore]
      rfl
    · simp only [Machine.run,channel,startAttempt,if_pos hmore]
      rfl

theorem answers_ends (env : Envelopes) {s : RpcChannel M} {i : Input M} {resp : RpcResponse}
    (h : answers env s i = some resp) (herr : resp.errorCode ≠ kOk.value) {c : Call M}
    (hcall : callOf s.pc = some c) :
    ∃ message, Ends c (failController c.controller ⟨resp.errorCode⟩ message)
      ((channel env).step s i) := by
  rw [answers.eq_def] at h
  split at h
  case h_2 => cases h
  case h_1 c' deadline now rev b bs hpc =>
    rw [hpc] at hcall
    cases hcall
    by_cases hlate : now ≥ deadline
    · rw [if_pos hlate] at h
      cases h
    rw [if_neg hlate] at h
    by_cases hbad : (rev.pollerr || rev.pollhup || rev.pollnval) = true
    · rw [if_pos hbad] at h
      cases h
    rw [if_neg hbad] at h
    by_cases hin : (!rev.pollin) = true
    · rw [if_pos hin] at h
      cases h
    rw [if_neg hin] at h
    have hstep : (channel env).step s (.polled now (.ready rev (.ok (b::bs)))) =
        readAnswer env s c (b::bs) := by
      simp only [channel,hpc,waitIteration,if_neg hlate,if_neg hbad,if_neg hin]
    rw [hstep,readAnswer]
    cases hend : (scanResponses c.seq (s.inputBuffer.readFd (b::bs))).ending with
    | waits => rw [hend] at h; cases h
    | rejects e => rw [hend] at h; cases h
    | found m =>
      rw [hend] at h
      dsimp only at h ⊢
      have haccept : acceptResponse env c m.body = c.fail ⟨resp.errorCode⟩
          (if resp.errorMessage = "" then "rpc call failed" else resp.errorMessage) := by
        rw [acceptResponse.eq_def,h]
        dsimp only
        rw [if_pos herr]
      have hquiet := returnOf_received (M := M) s.fd (b::bs)
        (scanResponses c.seq (s.inputBuffer.readFd (b::bs))).decoded
      rw [haccept]
      refine ⟨if resp.errorMessage = "" then "rpc call failed" else resp.errorMessage,rfl,?_,?_⟩
      · rw [returnOf_append,hquiet,returnOf_finish]
        rfl
      · rw [List.any_append,sends_finish,Bool.or_false]
        simp [sends]

theorem answers_attempting {env : Envelopes} {s : RpcChannel M} {i : Input M} {resp : RpcResponse}
    (h : answers env s i = some resp) (hlive : Attempting s) : 0 ≤ s.maxRetries := by
  rw [answers.eq_def] at h
  rw [Attempting.eq_def] at hlive
  split at h
  case h_1 c deadline now rev b bs hpc =>
    rw [hpc] at hlive
    exact hlive
  case h_2 => cases h

end MiniRpc.CallOutcome
