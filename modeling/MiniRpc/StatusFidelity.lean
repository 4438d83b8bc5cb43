import MiniRpc.CallProgress
import MiniRpc.CallServer
import MiniRpc.ProtoWire

/-!
# The status of a call from the service to the caller

The failure flag of the server-side controller is not transmitted: it
becomes a non-zero `error_code` on the server and is derived from it again
on the client. The two controllers agree unless the last word of the
method was `SetFailed(kOk, text)`, which fails the server side with the
code that means success.
-/

set_option autoImplicit false

namespace MiniRpc.StatusFidelity
open MiniRpc.ByteBuffer MiniRpc.WireCodec MiniRpc.CallController MiniRpc.CallChannel
open MiniRpc.StepMachine MiniRpc.Incremental MiniRpc.CodecStream MiniRpc.CallProgress
open MiniRpc.CallServer (Method Service ServiceRegistry SetFailed MethodExit controllerAfter
  handleRequest resultEnvelope responseMessage sendEnvelope sendEnvelope_frame Registered
  dispatch_registered echoRegistry echoService echoMethod echo_registered)
open MiniRpc.ProtoWire

variable {M : Type}

structure Faithful (server : RpcController) (response : M) (client : RpcController)
    (got : Option M) : Prop where
  failed : client.failed = server.failed
  errorCode : server.failed = true → client.errorCode = server.errorCode
  errorText : server.failed = true →
    client.errorText = if server.errorText = "" then "rpc call failed" else server.errorText
  response : server.failed = false → got = some response

theorem controllerAfter_snoc (calls : List SetFailed) (call : SetFailed) :
    controllerAfter (calls++[call]) = call.apply (controllerAfter calls) := by
  simp [controllerAfter]

/-- Any call fails the controller, and only `SetFailed(kOk, text)` as the
last one leaves it failed with the code `kOk`. -/
theorem controllerAfter_cases (calls : List SetFailed) :
    (calls = [] ∧ controllerAfter calls = {}) ∨
    ((controllerAfter calls).failed = true ∧
      ((controllerAfter calls).errorCode = kOk ↔ ∃ text, calls.getLast? = some (.withCode kOk text))) := by
  rcases List.eq_nil_or_concat calls with rfl | ⟨front,call,rfl⟩
  · exact Or.inl ⟨rfl,rfl⟩
  · refine Or.inr ?_
    rw [List.concat_eq_append,controllerAfter_snoc,List.getLast?_concat]
    cases call with
    | withReason reason =>
      refine ⟨rfl,?_⟩
      simp only [SetFailed.apply,RpcController.setFailed,Option.some.injEq,reduceCtorEq,exists_false,
        iff_false]
      split
      · decide
      · assumption
    | withCode code reason =>
      refine ⟨rfl,?_⟩
      simp [SetFailed.apply,RpcController.setFailedCode]

theorem accept_result (env : Envelopes) (method : Method M) (c : Call M) (ctrl : RpcController)
    (hctrl : c.controller = .minirpc ctrl) (hfresh : ctrl.failed = false) (calls : List SetFailed)
    (response : M) (hparse : c.parseResponse (method.serializeResponse response) = some response) :
    ∃ client, (acceptResponse env c (env.response.serialize
        (resultEnvelope method (controllerAfter calls) response))).controller = .minirpc client ∧
      (Faithful (controllerAfter calls) response client (acceptResponse env c
        (env.response.serialize (resultEnvelope method (controllerAfter calls) response))).response ↔
        ∀ text, calls.getLast? ≠ some (.withCode kOk text)) := by
  rw [acceptResponse,env.response.parse_serialize]
  dsimp only
  rcases controllerAfter_cases calls with ⟨rfl,h0⟩ | ⟨hf,hk⟩
  · rw [h0]
    simp only [resultEnvelope,Bool.false_eq_true,if_false,ne_eq,not_true,hparse]
    refine ⟨ctrl,hctrl,?_⟩
    simp only [List.getLast?_nil,reduceCtorEq,not_false_eq_true,implies_true,iff_true]
    exact ⟨hfresh,by simp,by simp,fun _ => rfl⟩
  · generalize controllerAfter calls = server at hf hk ⊢
    have hval : server.errorCode.value = kOk.value ↔ server.errorCode = kOk := by
      constructor
      · intro h
        cases hc : server.errorCode
        rw [hc] at h
        exact congrArg ErrorCode.mk h
      · exact fun h => by rw [h]
    simp only [resultEnvelope,hf,if_true]
    by_cases hz : server.errorCode = kOk
    · obtain ⟨text,ht⟩ := hk.mp hz
      rw [if_neg (by simpa using hval.mpr hz)]
      split
      · refine ⟨ctrl.setFailedCode kUnknown "bad response payload",by rw [Call.fail,hctrl]; rfl,?_⟩
        constructor
        · intro h
          have hcode := h.errorCode hf
          rw [hz] at hcode
          exact absurd hcode (show kUnknown ≠ kOk by decide)
        · exact fun h => absurd ht (h text)
      · refine ⟨ctrl,hctrl,?_⟩
        constructor
        · intro h
          have hfail := h.failed
          rw [hf,hfresh] at hfail
          simp at hfail
        · exact fun h => absurd ht (h text)
    · rw [if_pos (fun h => hz (hval.mp h))]
      refine ⟨_,by rw [Call.fail,hctrl]; rfl,?_⟩
      constructor
      · intro _ text ht
        exact hz (hk.mpr ⟨text,ht⟩)
      · intro _
        refine ⟨hf.symm,fun _ => rfl,fun _ => rfl,?_⟩
        rw [hf]
        simp

def reads (chunks : List (ℤ × Bytes)) : List (Input M) :=
  chunks.map fun x => .polled x.1 (.ready { pollin := true } (.ok x.2))

def returnsOf (os : List (Output M)) : List (ControllerPtr × Option M) :=
  os.filterMap fun
    | .returned controller response => some (controller,response)
    | _ => none

theorem returnsOf_finish (s : RpcChannel M) (c : Call M) :
    returnsOf (finish s c).2 = [(c.controller,c.response)] := by
  unfold finish
  cases c.done <;> rfl

theorem returnsOf_received (conn : Option ℕ) (data : Bytes) (ms : List ProtocolMessage) :
    returnsOf (M := M) (.received conn data::ms.map .decoded) = [] := by
  induction ms with
  | nil => rfl
  | cons m ms ih => exact ih

theorem idle_reads (env : Envelopes) (s : RpcChannel M) (hpc : s.pc = .idle)
    (chunks : List (ℤ × Bytes)) : (channel env).run s (reads chunks) = (s,[]) := by
  induction chunks with
  | nil => rfl
  | cons x chunks ih =>
    have hs : (channel env).step s (.polled x.1 (.ready { pollin := true } (.ok x.2))) = (s,[]) := by
      simp [channel,hpc]
    rw [reads,List.map_cons,Machine.run,hs]
    exact Prod.ext (congrArg Prod.fst ih) (congrArg Prod.snd ih)

theorem step_read (env : Envelopes) (s : RpcChannel M) (c : Call M) (deadline now : ℤ)
    (data : Bytes) (hpc : s.pc = .waiting c deadline) (hnow : now < deadline) (hd : data ≠ []) :
    (channel env).step s (.polled now (.ready { pollin := true } (.ok data))) =
      readAnswer env s c data := by
  cases data with
  | nil => exact absurd rfl hd
  | cons b bs => simp [channel,hpc,waitIteration,not_le.mpr hnow]

theorem reads_answer (env : Envelopes) (s : RpcChannel M) (c : Call M) (deadline : ℤ)
    (hpc : s.pc = .waiting c deadline) (chunks : List (ℤ × Bytes)) (hne : chunks ≠ [])
    (hread : ∀ x ∈ chunks, x.1 < deadline ∧ x.2 ≠ []) (stale : List ProtocolMessage)
    (hv : ∀ m ∈ stale, Sendable m) (hstale : ∀ m ∈ stale, isAnswer c.seq (received m) = false)
    (k : ProtocolMessage) (hk : Sendable k) (hhit : isAnswer c.seq (received k) = true) (more : Bytes)
    (hbytes : s.inputBuffer.readable++(chunks.map Prod.snd).flatten =
      stale.flatMap encoded++(encoded k++more)) :
    returnsOf ((channel env).run s (reads chunks)).2 =
      [((acceptResponse env c k.body).controller,(acceptResponse env c k.body).response)] := by
  induction chunks generalizing s stale with
  | nil => exact absurd rfl hne
  | cons x chunks ih =>
    obtain ⟨hnow,hd⟩ := hread x (by simp)
    have hscan := scanResponses_search c.seq (s.inputBuffer.readFd x.2)
    rw [readable_readFd] at hscan
    rw [List.map_cons,List.flatten_cons,← List.append_assoc,encoded_stream,encoded_frame] at hbytes
    rw [reads,List.map_cons,Machine.run,step_read env s c deadline x.1 x.2 hpc hnow hd]
    change returnsOf ((readAnswer env s c x.2).2++
      ((channel env).run (readAnswer env s c x.2).1 (reads chunks)).2) = _
    rw [returnsOf,List.filterMap_append]
    rcases search_reaches wireFraming (isAnswer c.seq) stale hv hstale hk hhit _ _ more hbytes with
      ⟨hf,-⟩ | ⟨hw,hwait,left,hl,hrest⟩
    · have he : (scanResponses c.seq (s.inputBuffer.readFd x.2)).ending = .found (received k) :=
        hscan.2.1.trans hf
      simp only [readAnswer,he]
      rw [idle_reads env _ rfl,List.filterMap_nil,List.append_nil,List.filterMap_append]
      have h1 := returnsOf_received (M := M) s.fd x.2
        (scanResponses c.seq (s.inputBuffer.readFd x.2)).decoded
      have h2 := returnsOf_finish
        { s with inputBuffer := (scanResponses c.seq (s.inputBuffer.readFd x.2)).buffer }
        (acceptResponse env c k.body)
      exact (congrArg₂ (· ++ ·) h1 h2)
    · have he : (scanResponses c.seq (s.inputBuffer.readFd x.2)).ending = .waits :=
        hscan.2.1.trans hw
      simp only [readAnswer,he]
      have h1 := returnsOf_received (M := M) s.fd x.2
        (scanResponses c.seq (s.inputBuffer.readFd x.2)).decoded
      rw [← hscan.2.2] at hrest hwait
      have hmore : chunks ≠ [] := by
        rintro rfl
        rw [List.map_nil,List.flatten_nil,List.append_nil] at hrest
        exact wait_short wireFraming (fun m hm => hv m (hl m hm)) hk _ more hwait hrest
      have h2 := ih { s with inputBuffer := (scanResponses c.seq (s.inputBuffer.readFd x.2)).buffer }
        hpc hmore (fun y hy => hread y (by simp [hy])) left (fun m hm => hv m (hl m hm))
        (fun m hm => hstale m (hl m hm)) (by rw [encoded_stream,encoded_frame]; exact hrest)
      exact (congrArg₂ (· ++ ·) h1 h2)

/-- The client, waiting with `held` bytes in its buffer, reads in time chunks
that bring `answer` whole, after frames that do not answer its attempt. -/
structure Delivers (seq : UInt64) (deadline : ℤ) (held : Bytes) (chunks : List (ℤ × Bytes))
    (answer : Bytes) : Prop where
  nonempty : chunks ≠ []
  timely : ∀ x ∈ chunks, x.1 < deadline ∧ x.2 ≠ []
  stream : ∃ (stale : List ProtocolMessage) (more : Bytes),
    (∀ m ∈ stale, Sendable m ∧ isAnswer seq (received m) = false) ∧
    held++(chunks.map Prod.snd).flatten = stale.flatMap encoded++(answer++more)

theorem waiting_not_failed (env : Envelopes) (timeoutMs maxRetries : ℤ) (is : List (Input M))
    (c : Call M) (deadline : ℤ)
    (hpc : ((channel env).run (RpcChannel.new timeoutMs maxRetries) is).1.pc = .waiting c deadline) :
    c.controller.failed = false := by
  have ha := run_invariant (channel env) (fun s os => Agrees env s.pc (openCall os))
    (fun s os i h => by rw [openCall_append]; exact agrees_step env s i _ h)
    (RpcChannel.new timeoutMs maxRetries) is rfl
  rw [hpc] at ha
  obtain ⟨args,ms,-,hc⟩ := ha
  rw [hc.controller,reset_not_failed]

/-- For every method that returns, whatever `SetFailed` calls it made, and
every client that receives the answer to its attempt: the client ends with
the server's status and response if and only if the last call was not
`SetFailed(kOk, text)`. -/
theorem status_fidelity_iff (env : Envelopes) (timeoutMs maxRetries : ℤ) (is : List (Input M))
    (c : Call M) (deadline : ℤ)
    (hpc : ((channel env).run (RpcChannel.new timeoutMs maxRetries) is).1.pc = .waiting c deadline)
    (ctrl : RpcController) (hctrl : c.controller = .minirpc ctrl)
    (registry : ServiceRegistry M) (service : Service M) (methodName : String) (method : Method M)
    (hreg : Registered registry service methodName method) (payload : Bytes) (request : M)
    (hreq : method.parseRequest payload = some request)
    (hcall : c.envelopeBytes =
      env.request.serialize ⟨service.fullName++"."++methodName,payload⟩)
    (calls : List SetFailed) (response : M)
    (hparse : c.parseResponse (method.serializeResponse response) = some response)
    (envelope : RpcResponse)
    (hanswer : handleRequest env registry (received (requestMessage c.seq c.envelopeBytes))
      (.returned calls response) = some envelope)
    (hsize : (env.response.serialize envelope).length ≤ kMaxBodySize)
    (chunks : List (ℤ × Bytes))
    (hdel : Delivers c.seq deadline
      ((channel env).run (RpcChannel.new timeoutMs maxRetries) is).1.inputBuffer.readable chunks
      (sendEnvelope env c.seq envelope)) :
    ∃ client got,
      returnsOf ((channel env).run
        ((channel env).run (RpcChannel.new timeoutMs maxRetries) is).1 (reads chunks)).2 =
          [(.minirpc client,got)] ∧
      (Faithful (controllerAfter calls) response client got ↔
        ∀ text, calls.getLast? ≠ some (.withCode kOk text)) := by
  have hfresh := waiting_not_failed env timeoutMs maxRetries is c deadline hpc
  rw [hctrl] at hfresh
  have hresult : envelope = resultEnvelope method (controllerAfter calls) response := by
    have hb : (received (requestMessage c.seq c.envelopeBytes)).body = c.envelopeBytes := rfl
    rw [handleRequest,hb,hcall,dispatch_registered env hreg payload request hreq] at hanswer
    exact (Option.some.inj hanswer).symm
  obtain ⟨stale,more,hstale,hbytes⟩ := hdel.stream
  rw [sendEnvelope_frame,← encoded_frame] at hbytes
  have hret := reads_answer env _ c deadline hpc chunks hdel.nonempty hdel.timely stale
    (fun m hm => (hstale m hm).1) (fun m hm => (hstale m hm).2)
    (responseMessage env c.seq envelope) ⟨rfl,rfl,hsize⟩
    (by simp [isAnswer,received,responseMessage]) more hbytes
  obtain ⟨client,hclient,hfaith⟩ :=
    accept_result env method c ctrl hctrl hfresh calls response hparse
  rw [← hresult] at hclient hfaith
  exact ⟨client,_,by rw [hret]; exact congrArg (fun p => [(p,_)]) hclient,hfaith⟩

theorem call_waits (env : Envelopes) (timeoutMs maxRetries now n : ℤ) (errno : Errno)
    (args : CallArgs M) (hm : 0 ≤ maxRetries) (hn : 0 < n)
    (hl : (encoded (requestMessage 1
      (env.request.serialize ⟨args.method,args.request⟩))).length ≤ n.toNat) :
    ((channel env).run (RpcChannel.new timeoutMs maxRetries)
        [.callMethod args,.connectReturned none,.sendReturned now n errno]).1.pc =
      .waiting { parseResponse := args.parseResponse
                 done := args.done
                 envelopeBytes := env.request.serialize ⟨args.method,args.request⟩
                 controller := args.controller.reset
                 seq := 1 } (now+timeoutMs*1000000) := by
  simpa [Machine.run,channel,RpcChannel.new,callMethod,connectReturned,startAttempt,hm,
    sendReturned,not_lt.mpr hn.le,hn.ne'] using hl

def echoSent : List (Input Bytes) :=
  [.callMethod echoArgs,.connectReturned none,.sendReturned 0 1000 ⟨0,"Success"⟩]

def echoCall : Call Bytes where
  parseResponse := some
  done := false
  envelopeBytes := protoEnvelopes.request.serialize ⟨echoArgs.method,echoArgs.request⟩
  controller := .minirpc {}
  seq := 1

theorem echo_waiting :
    ((channel protoEnvelopes).run (RpcChannel.new 2000 0) echoSent).1.pc =
      .waiting echoCall (0+2000*1000000) :=
  call_waits protoEnvelopes 2000 0 0 1000 ⟨0,"Success"⟩ echoArgs (le_refl 0) (by decide)
    (by decide +kernel)

def echoAnswer (calls : List SetFailed) : RpcResponse :=
  resultEnvelope echoMethod (controllerAfter calls) [104,105]

def echoChunks (calls : List SetFailed) : List (ℤ × Bytes) :=
  [(1,encoded (responseMessage protoEnvelopes 0 {})++
      (sendEnvelope protoEnvelopes 1 (echoAnswer calls)).take 7),
   (2,(sendEnvelope protoEnvelopes 1 (echoAnswer calls)).drop 7)]

theorem echo_delivers (calls : List SetFailed) :
    Delivers 1 (0+2000*1000000)
      ((channel protoEnvelopes).run (RpcChannel.new 2000 0) echoSent).1.inputBuffer.readable
      (echoChunks calls) (sendEnvelope protoEnvelopes 1 (echoAnswer calls)) := by
  have hheld : ((channel protoEnvelopes).run (RpcChannel.new 2000 0)
      echoSent).1.inputBuffer.readable = [] := by decide +kernel
  have hl := frame_length (responseMessage protoEnvelopes 1 (echoAnswer calls))
  have hs := frame_length (responseMessage protoEnvelopes 0 {})
  refine ⟨by simp [echoChunks],?_,[responseMessage protoEnvelopes 0 {}],[],?_,?_⟩
  · intro x hx
    simp only [echoChunks,sendEnvelope_frame,encoded_frame,List.mem_cons,List.not_mem_nil,
      or_false] at hx
    unfold kHeaderSize at hl hs
    rcases hx with rfl | rfl
    · refine ⟨show (1:ℤ) < 0+2000*1000000 by decide,fun h => ?_⟩
      have := congrArg List.length h
      rw [List.length_append,List.length_nil] at this
      omega
    · refine ⟨show (2:ℤ) < 0+2000*1000000 by decide,fun h => ?_⟩
      have := congrArg List.length h
      rw [List.length_drop,List.length_nil] at this
      omega
  · intro m hm
    rw [List.mem_singleton.mp hm]
    exact ⟨⟨rfl,rfl,by decide +kernel⟩,by decide +kernel⟩
  · rw [hheld]
    simp [echoChunks]

theorem status_fidelity_failed_echo :
    ∃ client got,
      returnsOf ((channel protoEnvelopes).run ((channel protoEnvelopes).run
        (RpcChannel.new 2000 0) echoSent).1 (reads (echoChunks [.withReason "no echo"]))).2 =
          [(.minirpc client,got)] ∧
      Faithful (controllerAfter [.withReason "no echo"]) [104,105] client got := by
  obtain ⟨client,got,hret,hiff⟩ := status_fidelity_iff protoEnvelopes 2000 0 echoSent echoCall _
    echo_waiting {} rfl echoRegistry echoService "Echo" echoMethod echo_registered [104,105] [104,105]
    rfl rfl [.withReason "no echo"] [104,105] rfl (echoAnswer [.withReason "no echo"])
    (by decide +kernel) (by decide +kernel) (echoChunks [.withReason "no echo"])
    (echo_delivers [.withReason "no echo"])
  exact ⟨client,got,hret,hiff.mpr (by simp)⟩

/-- The method fails the call with `SetFailed(kOk, "no echo")`; the client
returns a success with an empty response. -/
theorem failed_with_ok_succeeds :
    (controllerAfter [.withCode kOk "no echo"]).failed = true ∧
    handleRequest protoEnvelopes echoRegistry (received (requestMessage 1 echoCall.envelopeBytes))
      (.returned [.withCode kOk "no echo"] [104,105]) = some (echoAnswer [.withCode kOk "no echo"]) ∧
    returnsOf ((channel protoEnvelopes).run ((channel protoEnvelopes).run
      (RpcChannel.new 2000 0) echoSent).1 (reads (echoChunks [.withCode kOk "no echo"]))).2 =
        [(.minirpc {},some [])] ∧
    ¬ Faithful (controllerAfter [.withCode kOk "no echo"]) ([104,105] : Bytes) {} (some []) :=
  ⟨by decide +kernel,by decide +kernel,by decide +kernel,
    fun h => absurd h.failed (by decide +kernel)⟩

end MiniRpc.StatusFidelity
