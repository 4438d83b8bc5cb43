import Mathlib.Logic.Function.Basic
import MiniRpc.CodecStream
import MiniRpc.CallController
import MiniRpc.StepMachine

/-!
# The server: decoding, dispatch and the worker pool

`RpcServer` receives bytes on any number of connections. A loop thread runs
`onMessage`, one decoded frame per step, so that workers may run between
two frames; a request becomes a task of the pool, or is refused when the
submission fails. A worker runs any one of the waiting tasks, since all
have the same priority, and a step takes it from the queue to the moment
it calls `conn->send`. What a service method does is part of the input:
the `SetFailed` calls it makes and the response it fills in, or the
exception it throws. Method names are cut at the last dot, an ASCII
character, so that bytes and characters give the same cut.
-/

set_option autoImplicit false

namespace MiniRpc.CallServer
open MiniRpc.ByteBuffer MiniRpc.WireCodec MiniRpc.CodecStream MiniRpc.CallController
open MiniRpc.Incremental MiniRpc.StepMachine

structure Method (M : Type) where
  parseRequest : Bytes → Option M
  serializeResponse : M → Bytes

structure Service (M : Type) where
  fullName : String
  findMethodByName : String → Option (Method M)

structure ServiceRegistry (M : Type) where
  services : List (String × Service M) := []

variable {κ M : Type}

def ServiceRegistry.findService (r : ServiceRegistry M) (fullName : String) : Option (Service M) :=
  r.services.lookup fullName

inductive SetFailed where
  | withReason (reason : String)
  | withCode (code : ErrorCode) (reason : String)
  deriving DecidableEq, Repr

def SetFailed.apply (c : RpcController) : SetFailed → RpcController
  | .withReason reason => c.setFailed reason
  | .withCode code reason => c.setFailedCode code reason

inductive MethodExit (M : Type) where
  | returned (calls : List SetFailed) (response : M)
  | threw

def controllerAfter (calls : List SetFailed) : RpcController := calls.foldl SetFailed.apply {}

def findLastOf (ch : Char) : List Char → Option ℕ
  | [] => none
  | x::xs =>
    match findLastOf ch xs with
    | some i => some (i+1)
    | none => if x = ch then some 0 else none

def splitMethodName (methodFullName : String) : Option (String × String) :=
  match findLastOf '.' methodFullName.toList with
  | none => none
  | some dot =>
    if dot = 0 ∨ dot+1 ≥ methodFullName.toList.length then none
    else some (String.ofList (methodFullName.toList.take dot),
      String.ofList (methodFullName.toList.drop (dot+1)))

inductive Dispatch (M : Type) where
  | refuse (code : ErrorCode) (message : String)
  | invoke (method : Method M) (request : M)

def dispatch (env : Envelopes) (registry : ServiceRegistry M) (body : Bytes) : Dispatch M :=
  match env.request.parse body with
  | none => .refuse kInvalidArgument "bad RpcRequest envelope"
  | some envelope =>
    match splitMethodName envelope.method with
    | none => .refuse kInvalidArgument ("invalid method name: "++envelope.method)
    | some (serviceName,methodName) =>
      match registry.findService serviceName with
      | none => .refuse kNoService ("no such service: "++serviceName)
      | some service =>
        match service.findMethodByName methodName with
        | none => .refuse kNoMethod ("no such method: "++methodName)
        | some method =>
          match method.parseRequest envelope.request with
          | none => .refuse kInvalidArgument "bad request payload"
          | some request => .invoke method request

theorem findLastOf_none (ch : Char) (ys : List Char) (h : ch ∉ ys) : findLastOf ch ys = none := by
  induction ys with
  | nil => rfl
  | cons y ys ih =>
    rw [List.mem_cons,not_or] at h
    rw [findLastOf,ih h.2,if_neg (Ne.symm h.1)]

theorem findLastOf_last (ch : Char) (xs ys : List Char) (h : ch ∉ ys) :
    findLastOf ch (xs++ch::ys) = some xs.length := by
  induction xs with
  | nil =>
    rw [List.nil_append,findLastOf,findLastOf_none ch ys h,if_pos rfl]
    rfl
  | cons x xs ih => rw [List.cons_append,findLastOf,ih,List.length_cons]

theorem splitMethodName_join (service method : String) (hs : service ≠ "") (hm : method ≠ "")
    (hd : '.' ∉ method.toList) :
    splitMethodName (service++"."++method) = some (service,method) := by
  have hl : (service++"."++method).toList = service.toList++ '.'::method.toList := by
    simp
  have hs' : service.toList.length ≠ 0 := by simpa using hs
  have hm' : method.toList.length ≠ 0 := by simpa using hm
  rw [splitMethodName,hl,findLastOf_last '.' _ _ hd]
  dsimp only
  rw [if_neg (by rw [List.length_append,List.length_cons]; omega)]
  simp
/-- A method of a registered service. Method names contain no dot. -/
structure Registered (registry : ServiceRegistry M) (service : Service M) (methodName : String)
    (method : Method M) : Prop where
  service_found : registry.findService service.fullName = some service
  service_named : service.fullName ≠ ""
  method_found : service.findMethodByName methodName = some method
  method_named : methodName ≠ ""
  method_dotless : '.' ∉ methodName.toList

theorem dispatch_registered (env : Envelopes) {registry : ServiceRegistry M} {service : Service M}
    {methodName : String} {method : Method M} (hr : Registered registry service methodName method)
    (payload : Bytes) (request : M) (hp : method.parseRequest payload = some request) :
    dispatch env registry (env.request.serialize ⟨service.fullName++"."++methodName,payload⟩) =
      .invoke method request := by
  rw [dispatch,env.request.parse_serialize]
  dsimp only
  rw [splitMethodName_join _ _ hr.service_named hr.method_named hr.method_dotless]
  simp only [hr.service_found,hr.method_found,hp]

def errorEnvelope (code : ErrorCode) (message : String) : RpcResponse :=
  { errorCode := code.value, errorMessage := message }

/-- The envelope for a method that returned. The failure flag itself is not
sent, only the code and the text. -/
def resultEnvelope (method : Method M) (controller : RpcController) (response : M) : RpcResponse :=
  if controller.failed then
    { errorCode := controller.errorCode.value, errorMessage := controller.errorText }
  else { errorCode := kOk.value, response := method.serializeResponse response }

/-- The envelope `handleRequest` sends; `none` when an exception of the
service leaves the task. -/
def handleRequest (env : Envelopes) (registry : ServiceRegistry M) (requestMsg : ProtocolMessage)
    (exit : MethodExit M) : Option RpcResponse :=
  match dispatch env registry requestMsg.body with
  | .refuse code message => some (errorEnvelope code message)
  | .invoke method _ =>
    match exit with
    | .threw => none
    | .returned calls response =>
      some (resultEnvelope method (controllerAfter calls) response)

def responseMessage (env : Envelopes) (seq : UInt64) (envelope : RpcResponse) :
    ProtocolMessage where
  header := { magic := kMagic, version := kProtocolVersion, type := MessageType.kResponse.code,
              seq := seq }
  body := env.response.serialize envelope

def sendEnvelope (env : Envelopes) (seq : UInt64) (envelope : RpcResponse) : Bytes :=
  (encode (responseMessage env seq envelope) (Buffer.new kInitialSize)).retrieveAllAsString.1

theorem sendEnvelope_frame (env : Envelopes) (seq : UInt64) (envelope : RpcResponse) :
    sendEnvelope env seq envelope = frame (responseMessage env seq envelope) := by
  rw [sendEnvelope,retrieveAllAsString_bytes,encode_readable,readable_new,List.nil_append]

inductive ConnState where
  | connected
  | disconnecting
  | disconnected
  deriving DecidableEq, Repr

/-- `inCallback`: the loop thread of the connection is inside `onMessage`. -/
structure Connection where
  state : ConnState := .connected
  inputBuffer : Buffer := Buffer.new kInitialSize
  inCallback : Bool := false

structure PoolTask (κ : Type) where
  conn : κ
  msg : ProtocolMessage

structure RpcServer (κ M : Type) where
  registry : ServiceRegistry M
  conns : κ → Connection := fun _ => {}
  queue : List (PoolTask κ) := []

/-- The loop thread reads, or goes on with `onMessage` and learns whether
the submission failed and with which text; a worker runs a waiting task. -/
inductive Input (κ M : Type) where
  | read (c : κ) (data : Bytes)
  | readFailed (c : κ) (again : Bool)
  | decode (c : κ) (submitFailure : Option String)
  | work (k : ℕ) (exit : MethodExit M)

inductive Output (κ : Type) where
  | received (c : κ) (data : Bytes)
  | decoded (c : κ) (msg : ProtocolMessage)
  | codecError (c : κ) (e : CodecError)
  | sendEnvelope (c : κ) (request : ProtocolMessage) (envelope : RpcResponse)
  | threw (c : κ) (request : ProtocolMessage)

def isRequest (m : ProtocolMessage) : Bool := m.header.type == MessageType.kRequest.code

def Connection.handleClose (x : Connection) : Connection := { x with state := .disconnected }

def Connection.shutdown (x : Connection) : Connection :=
  if x.state = .connected then { x with state := .disconnecting } else x

variable [DecidableEq κ]

def RpcServer.setConn (s : RpcServer κ M) (c : κ) (x : Connection) : RpcServer κ M :=
  { s with conns := Function.update s.conns c x }

def handleRead (s : RpcServer κ M) (c : κ) (data : Bytes) : RpcServer κ M × List (Output κ) :=
  if data = [] then (s.setConn c (s.conns c).handleClose,[])
  else
    (s.setConn c { s.conns c with
      inputBuffer := (s.conns c).inputBuffer.readFd data
      inCallback := true },[.received c data])

def onMessage (s : RpcServer κ M) (c : κ) (submitFailure : Option String) :
    RpcServer κ M × List (Output κ) :=
  match tryDecode (s.conns c).inputBuffer with
  | (.ok none,b) => (s.setConn c { s.conns c with inputBuffer := b, inCallback := false },[])
  | (.error e,b) =>
    (s.setConn c { s.conns c with inputBuffer := b, inCallback := false }.shutdown,
      [.codecError c e])
  | (.ok (some msg),b) =>
    let s' := s.setConn c { s.conns c with inputBuffer := b }
    if isRequest msg then
      match submitFailure with
      | none => ({ s' with queue := s'.queue++[⟨c,msg⟩] },[.decoded c msg])
      | some what => (s',[.decoded c msg,.sendEnvelope c msg (errorEnvelope kSystem what)])
    else (s',[.decoded c msg])

/-- A worker runs the `k`-th waiting task. An exception goes into the
future of the task, which `onMessage` has dropped. -/
def workerRun (env : Envelopes) (s : RpcServer κ M) (k : ℕ) (exit : MethodExit M) :
    RpcServer κ M × List (Output κ) :=
  match s.queue[k]? with
  | none => (s,[])
  | some t =>
    ({ s with queue := s.queue.eraseIdx k },
      [match handleRequest env s.registry t.msg exit with
        | some envelope => .sendEnvelope t.conn t.msg envelope
        | none => .threw t.conn t.msg])

def server (env : Envelopes) : Machine (RpcServer κ M) (Input κ M) (Output κ) where
  step s i :=
    match i with
    | .read c data =>
      if (s.conns c).state = .disconnected ∨ (s.conns c).inCallback = true then (s,[])
      else handleRead s c data
    | .readFailed c again =>
      if (s.conns c).state = .disconnected ∨ (s.conns c).inCallback = true ∨ again = true then (s,[])
      else (s.setConn c (s.conns c).handleClose,[])
    | .decode c submitFailure =>
      if (s.conns c).inCallback = true then onMessage s c submitFailure else (s,[])
    | .work k exit => workerRun env s k exit

@[simp] theorem shutdown_inputBuffer (x : Connection) : x.shutdown.inputBuffer = x.inputBuffer := by
  unfold Connection.shutdown
  split <;> rfl

@[simp] theorem setConn_same (s : RpcServer κ M) (c : κ) (x : Connection) :
    (s.setConn c x).conns c = x := by
  simp [RpcServer.setConn]

theorem setConn_other (s : RpcServer κ M) {c d : κ} (x : Connection) (h : d ≠ c) :
    (s.setConn c x).conns d = s.conns d := by
  simp [RpcServer.setConn,h]

inductive Effect (env : Envelopes) (s : RpcServer κ M) : RpcServer κ M → List (Output κ) → Prop
  | stays : Effect env s s []
  | closes (c : κ) : Effect env s (s.setConn c (s.conns c).handleClose) []
  | receives (c : κ) (data : Bytes) :
      Effect env s (s.setConn c { s.conns c with
        inputBuffer := (s.conns c).inputBuffer.readFd data
        inCallback := true }) [.received c data]
  | waits (c : κ) (hp : parseFrame (s.conns c).inputBuffer.readable = .wait) :
      Effect env s (s.setConn c { s.conns c with inCallback := false }) []
  | rejects (c : κ) (e : CodecError)
      (hp : parseFrame (s.conns c).inputBuffer.readable = .reject e) :
      Effect env s (s.setConn c { s.conns c with inCallback := false }.shutdown) [.codecError c e]
  | skips (c : κ) (m : ProtocolMessage) (b : Buffer)
      (hp : parseFrame (s.conns c).inputBuffer.readable = .item m b.readable)
      (hcb : (s.conns c).inCallback = true) (hm : isRequest m = false) :
      Effect env s (s.setConn c { s.conns c with inputBuffer := b }) [.decoded c m]
  | submits (c : κ) (m : ProtocolMessage) (b : Buffer)
      (hp : parseFrame (s.conns c).inputBuffer.readable = .item m b.readable)
      (hcb : (s.conns c).inCallback = true) (hm : isRequest m = true) :
      Effect env s { s.setConn c { s.conns c with inputBuffer := b } with
        queue := s.queue++[⟨c,m⟩] } [.decoded c m]
  | refuses (c : κ) (m : ProtocolMessage) (b : Buffer) (what : String)
      (hp : parseFrame (s.conns c).inputBuffer.readable = .item m b.readable)
      (hcb : (s.conns c).inCallback = true) (hm : isRequest m = true) :
      Effect env s (s.setConn c { s.conns c with inputBuffer := b })
        [.decoded c m,.sendEnvelope c m (errorEnvelope kSystem what)]
  | answers (k : ℕ) (t : PoolTask κ) (exit : MethodExit M) (envelope : RpcResponse)
      (ht : s.queue[k]? = some t)
      (hh : handleRequest env s.registry t.msg exit = some envelope) :
      Effect env s { s with queue := s.queue.eraseIdx k } [.sendEnvelope t.conn t.msg envelope]
  | drops (k : ℕ) (t : PoolTask κ) (exit : MethodExit M) (ht : s.queue[k]? = some t)
      (hh : handleRequest env s.registry t.msg exit = none) :
      Effect env s { s with queue := s.queue.eraseIdx k } [.threw t.conn t.msg]

theorem onMessage_effect (env : Envelopes) (s : RpcServer κ M) (c : κ) (f : Option String)
    (hcb : (s.conns c).inCallback = true) :
    Effect env s (onMessage s c f).1 (onMessage s c f).2 := by
  unfold onMessage
  rcases tryDecode_cases (s.conns c).inputBuffer with ⟨hp,hd⟩ | ⟨e,hp,hd⟩ | ⟨m,b,hp,hd⟩
  · rw [hd]
    exact .waits c hp
  · rw [hd]
    exact .rejects c e hp
  · rw [hd]
    cases hm : isRequest m with
    | false =>
      simp only [hm,Bool.false_eq_true,if_false]
      exact .skips c m b hp hcb hm
    | true =>
      simp only [hm,if_true]
      cases f with
      | none => exact .submits c m b hp hcb hm
      | some what => exact .refuses c m b what hp hcb hm

theorem workerRun_effect (env : Envelopes) (s : RpcServer κ M) (k : ℕ) (exit : MethodExit M) :
    Effect env s (workerRun env s k exit).1 (workerRun env s k exit).2 := by
  unfold workerRun
  cases ht : s.queue[k]? with
  | none => exact .stays
  | some t =>
    cases hh : handleRequest env s.registry t.msg exit with
    | none =>
      simp only [hh]
      exact .drops k t exit ht hh
    | some envelope =>
      simp only [hh]
      exact .answers k t exit envelope ht hh

theorem step_effect (env : Envelopes) (s : RpcServer κ M) (i : Input κ M) :
    Effect env s ((server env).step s i).1 ((server env).step s i).2 := by
  cases i with
  | read c data =>
    simp only [server]
    split
    · exact .stays
    · unfold handleRead
      split
      · exact .closes c
      · exact .receives c data
  | readFailed c again =>
    simp only [server]
    split
    · exact .stays
    · exact .closes c
  | decode c f =>
    simp only [server]
    split
    · rename_i hcb
      exact onMessage_effect env s c f hcb
    · exact .stays
  | work k exit => exact workerRun_effect env s k exit

def echoMethod : Method Bytes := { parseRequest := some, serializeResponse := id }

def echoService : Service Bytes where
  fullName := "minirpc.example.EchoService"
  findMethodByName := fun name => if name = "Echo" then some echoMethod else none

def echoRegistry : ServiceRegistry Bytes := ⟨[(echoService.fullName,echoService)]⟩

theorem echo_registered : Registered echoRegistry echoService "Echo" echoMethod :=
  ⟨rfl,by decide,rfl,by decide,by decide⟩

end MiniRpc.CallServer
