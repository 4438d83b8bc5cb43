import MiniRpc.CallOutcome
import MiniRpc.CallServer
import MiniRpc.LoadBalancer

/-!
# The load-balancing channel

`LoadBalanceChannel` keeps a list of the nodes of a service, asks the
registry for a new one when the list is old or empty, and calls the chosen
node through a client channel of its own; after a connection-level failure
it refreshes the list and tries another node once. The calls of `Discover`
and of the nodes are runs of the client channel, so the inputs are the calls
made on the load-balancing channel and the results of the system calls of
the inner channel that is at work. Calls are serialized by `mutex_`.

Times are in nanoseconds. `hash64` stands for `std::hash<std::string>`.
-/

set_option autoImplicit false

namespace MiniRpc.BalanceChannel
open MiniRpc.ByteBuffer MiniRpc.CallController MiniRpc.StepMachine MiniRpc.KeyedTable
open MiniRpc.NodeRegistry MiniRpc.LoadBalancer MiniRpc.CallOutcome MiniRpc.ProtoWire
open MiniRpc.CallChannel (RpcChannel CallArgs)

inductive BalanceType where
  | kRoundRobin
  | kConsistentHash
  deriving DecidableEq, Repr

structure NodeChannel (M : Type) where
  host : String
  port : UInt16
  channel : RpcChannel M

/-- The generated classes of `registry.proto` that `Discover` uses. -/
structure DiscoverMessages where
  serializeRequest : String → Bytes
  response : Serializer Response

/-- Where `CallMethod` is. `refreshing` is inside `refreshNodes`: before the
first attempt, or after attempt `failed`, which left `args.controller` and
`response`. -/
inductive Pc (M : Type) where
  | idle
  | refreshing (args : CallArgs M) (response : Option M) (failed : Option ℕ)
  | calling (args : CallArgs M) (attempt : ℕ) (nodeKey : String)

structure LoadBalanceChannel (M : Type) where
  serviceName : String
  type : BalanceType := .kRoundRobin
  refreshIntervalMs : ℤ := 3000
  callTimeoutMs : ℤ := 2000
  callRetries : ℤ := 1
  lastRefresh : ℤ := 0
  nodes : List NodeInfo := []
  channels : Table String (NodeChannel M) := ∅
  registryChannel : RpcChannel Response := RpcChannel.new 1500 1
  roundRobin : RoundRobin := {}
  consistentHash : ConsistentHash := {}
  failedNodeKey : String := ""
  pc : Pc M := .idle

def LoadBalanceChannel.new {M : Type} (serviceName : String) (type : BalanceType)
    (refreshIntervalMs callTimeoutMs callRetries : ℤ) : LoadBalanceChannel M :=
  { serviceName, type, refreshIntervalMs, callTimeoutMs, callRetries }

inductive Input (M : Type) where
  | callMethod (args : CallArgs M) (now : ℤ)
  | registry (i : CallChannel.Input Response) (now : ℤ)
  | node (i : CallChannel.Input M)

inductive Output (M : Type) where
  | called (args : CallArgs M)
  | registry (o : CallChannel.Output Response)
  | selected (attempt : ℕ) (nodeKey : String) (request : Bytes)
  | node (nodeKey : String) (o : CallChannel.Output M)
  | doneRun
  | returned (controller : ControllerPtr) (response : Option M)

variable {M : Type}

def needRefresh (s : LoadBalanceChannel M) (now : ℤ) : Bool :=
  s.nodes.isEmpty || now-s.lastRefresh ≥ s.refreshIntervalMs*1000000

def finishCall (s : LoadBalanceChannel M) (controller : ControllerPtr) (response : Option M) :
    LoadBalanceChannel M × List (Output M) :=
  ({ s with pc := .idle },[.returned controller response])

def splitKey (nodeKey : String) : String × String :=
  let after := (nodeKey.toList.reverse.takeWhile (· ≠ ':')).reverse
  (String.ofList (nodeKey.toList.take (nodeKey.toList.length-after.length-1)),String.ofList after)

/-- `static_cast<uint16_t>(std::atoi(…))` of a decimal text. -/
def atoiPort (text : String) : UInt16 := UInt16.ofNat (text.toNat?.getD 0)

def channelFor (s : LoadBalanceChannel M) (nodeKey : String) : NodeChannel M :=
  match s.channels.lookup nodeKey with
  | some x => x
  | none =>
    { host := (splitKey nodeKey).1
      port := atoiPort (splitKey nodeKey).2
      channel := RpcChannel.new s.callTimeoutMs s.callRetries }

def setChannel (s : LoadBalanceChannel M) (nodeKey : String) (x : NodeChannel M) :
    LoadBalanceChannel M :=
  { s with channels := s.channels.insert nodeKey x }

def codeOf : ControllerPtr → ErrorCode
  | .minirpc c => c.errorCode
  | _ => kUnknown

def connectionLevel (code : ErrorCode) : Bool := code = kClosed || code = kSystem || code = kTimeout

def maxAttempts (args : CallArgs M) : ℕ := if args.done then 1 else 2

def nextByTurn (s : LoadBalanceChannel M) : String × LoadBalanceChannel M :=
  (keyAt s.nodes s.roundRobin.next.1,{ s with roundRobin := s.roundRobin.next.2 })

def selectNodeKeyForRetry (s : LoadBalanceChannel M) (failedKey : String) :
    String × LoadBalanceChannel M :=
  if s.nodes = [] then ("",s)
  else
    let r := scanForRetry s.nodes failedKey s.nodes.length s.roundRobin
    (r.1,{ s with roundRobin := r.2 })

section
variable (hash64 : Bytes → UInt64)

def selectNodeKey (s : LoadBalanceChannel M) (hashKey : Bytes) : String × LoadBalanceChannel M :=
  if s.nodes = [] then ("",s)
  else if s.type = .kConsistentHash ∧ hashKey ≠ [] then
    let key := s.consistentHash.selectNode hash64 hashKey
    if key ≠ "" then (key,s) else nextByTurn s
  else nextByTurn s

def setNodes (s : LoadBalanceChannel M) (nodes : List NodeInfo) (now : ℤ) : LoadBalanceChannel M :=
  { s with
    nodes := nodes
    roundRobin := s.roundRobin.setNodeCount nodes.length
    consistentHash := s.consistentHash.setNodes hash64 (nodes.map nodeKey)
    lastRefresh := now }

end

section
variable (env : Envelopes) (messages : DiscoverMessages) (hash64 : Bytes → UInt64)

def discoverArgs (s : LoadBalanceChannel M) : CallArgs Response where
  method := "minirpc.registry.RegistryService.Discover"
  request := messages.serializeRequest s.serviceName
  parseResponse := messages.response.parse
  controller := .minirpc {}
  done := false

def beginRefresh (s : LoadBalanceChannel M) (args : CallArgs M) (response : Option M)
    (failed : Option ℕ) : LoadBalanceChannel M × List (Output M) :=
  let r := (CallChannel.channel env).step s.registryChannel (.callMethod (discoverArgs messages s))
  ({ s with registryChannel := r.1, pc := .refreshing args response failed },r.2.map .registry)

def endAttempt (s : LoadBalanceChannel M) (args : CallArgs M) (attempt : ℕ) (nodeKey : String)
    (controller : ControllerPtr) (response : Option M) : LoadBalanceChannel M × List (Output M) :=
  if controller.failed = false then finishCall s controller response
  else if connectionLevel (codeOf controller) = false then finishCall s controller response
  else if s.nodes.length ≤ 1 then finishCall s controller response
  else beginRefresh env messages { s with failedNodeKey := nodeKey }
    { args with controller := controller } response (some attempt)

def beginAttempt (s : LoadBalanceChannel M) (args : CallArgs M) (attempt : ℕ) (nodeKey : String) :
    LoadBalanceChannel M × List (Output M) :=
  let x := channelFor s nodeKey
  let r := (CallChannel.channel env).step x.channel (.callMethod args)
  let s' := setChannel s nodeKey { x with channel := r.1 }
  let out := .selected attempt nodeKey args.request::r.2.map (.node nodeKey)
  match returnOf r.2 with
  | none => ({ s' with pc := .calling args attempt nodeKey },out)
  | some (controller,response) =>
    let e := endAttempt env messages s' args attempt nodeKey controller response
    (e.1,out++e.2)

def startCall (s : LoadBalanceChannel M) (args : CallArgs M) : LoadBalanceChannel M × List (Output M) :=
  if s.nodes = [] then
    ({ s with pc := .idle },(if args.done then [.doneRun] else [])++
      [.returned (failController args.controller kNoService
        ("no available node for service: "++s.serviceName)) none])
  else
    let k := selectNodeKey hash64 s (if s.type = .kConsistentHash then args.request else [])
    beginAttempt env messages k.2 args 0 k.1

def callMethod (s : LoadBalanceChannel M) (args : CallArgs M) (now : ℤ) :
    LoadBalanceChannel M × List (Output M) :=
  let args' := { args with controller := args.controller.reset }
  let r := if needRefresh s now then beginRefresh env messages s args' none none
    else startCall env messages hash64 s args'
  (r.1,.called args::r.2)

/-- `Discover` has returned; a list is taken over if it did not fail. -/
def takeNodes (s : LoadBalanceChannel M) (controller : ControllerPtr) (answer : Option Response)
    (now : ℤ) : LoadBalanceChannel M :=
  if controller.failed then s else setNodes hash64 s ((answer.map Response.nodes).getD []) now

/-- After the refresh that follows a failed attempt. -/
def retryCall (s : LoadBalanceChannel M) (args : CallArgs M) (response : Option M) (attempt : ℕ) :
    LoadBalanceChannel M × List (Output M) :=
  if s.nodes.length ≤ 1 then finishCall s args.controller response
  else if attempt+1 < maxAttempts args then
    let k := selectNodeKeyForRetry s s.failedNodeKey
    beginAttempt env messages k.2 args (attempt+1) k.1
  else finishCall s args.controller response

def endRefresh (s : LoadBalanceChannel M) (args : CallArgs M) (response : Option M) :
    Option ℕ → LoadBalanceChannel M × List (Output M)
  | none => startCall env messages hash64 s args
  | some attempt => retryCall env messages s args response attempt

def registryStep (s : LoadBalanceChannel M) (args : CallArgs M) (response : Option M)
    (failed : Option ℕ) (i : CallChannel.Input Response) (now : ℤ) :
    LoadBalanceChannel M × List (Output M) :=
  let r := (CallChannel.channel env).step s.registryChannel i
  let s' := { s with registryChannel := r.1 }
  match returnOf r.2 with
  | none => (s',r.2.map .registry)
  | some (controller,answer) =>
    let e := endRefresh env messages hash64 (takeNodes hash64 s' controller answer now) args response
      failed
    (e.1,r.2.map .registry++e.2)

def nodeStep (s : LoadBalanceChannel M) (args : CallArgs M) (attempt : ℕ) (nodeKey : String)
    (i : CallChannel.Input M) : LoadBalanceChannel M × List (Output M) :=
  let x := channelFor s nodeKey
  let r := (CallChannel.channel env).step x.channel i
  let s' := setChannel s nodeKey { x with channel := r.1 }
  match returnOf r.2 with
  | none => (s',r.2.map (.node nodeKey))
  | some (controller,response) =>
    let e := endAttempt env messages s' args attempt nodeKey controller response
    (e.1,r.2.map (.node nodeKey)++e.2)

def balanceChannel : Machine (LoadBalanceChannel M) (Input M) (Output M) where
  step s i :=
    match s.pc, i with
    | .idle, .callMethod args now => callMethod env messages hash64 s args now
    | .refreshing args response failed, .registry j now =>
      registryStep env messages hash64 s args response failed j now
    | .calling args attempt nodeKey, .node j => nodeStep env messages s args attempt nodeKey j
    | _, _ => (s,[])

def Reachable (s : LoadBalanceChannel M) : Prop :=
  ∃ serviceName type refreshIntervalMs callTimeoutMs callRetries is,
    s = ((balanceChannel env messages hash64).run
      (.new serviceName type refreshIntervalMs callTimeoutMs callRetries) is).1

end

def putNodeInfo (n : NodeInfo) : Bytes :=
  putField 0x0A (utf8 n.name)++(putField 0x12 (utf8 n.host)++putUInt32 0x18 n.port)

def takeNodeInfo (xs : Bytes) : Option NodeInfo := do
  let (name,xs) ← takeField 0x0A xs
  let (host,xs) ← takeField 0x12 xs
  let (port,xs) ← takeUInt32 0x18 xs
  let name ← takeText name
  let host ← takeText host
  if xs = [] then some ⟨name,host,port⟩ else none

theorem takeNodeInfo_putNodeInfo (n : NodeInfo) : takeNodeInfo (putNodeInfo n) = some n := by
  have hport := takeUInt32_putUInt32 0x18 n.port [] nofun
  have hhost := takeField_putField 0x12 (utf8 n.host) (putUInt32 0x18 n.port)
    (putUInt32_head 0x18 0x12 n.port (by decide))
  have hname := takeField_putField 0x0A (utf8 n.name)
    (putField 0x12 (utf8 n.host)++putUInt32 0x18 n.port)
    (append_head (putField_head 0x12 0x0A _ (by decide)) (putUInt32_head 0x18 0x0A _ (by decide)))
  rw [List.append_nil] at hport
  simp only [takeNodeInfo,putNodeInfo,hname,hhost,hport,takeText_utf8,Option.bind_eq_bind,
    Option.bind_some,if_true]

theorem mapM_takeNodeInfo (nodes : List NodeInfo) :
    (nodes.map putNodeInfo).mapM takeNodeInfo = some nodes := by
  induction nodes with
  | nil => rfl
  | cons n nodes ih => simp [takeNodeInfo_putNodeInfo,ih]

def discoverSerializer : Serializer Response where
  serialize m := putInt32 0x08 m.errorCode++(putField 0x12 (utf8 m.errorMessage)++
    putRepeated 0x1A (m.nodes.map putNodeInfo))
  parse xs := do
    let (errorCode,xs) ← takeInt32 0x08 xs
    let (message,xs) ← takeField 0x12 xs
    let items ← takeRepeated 0x1A xs.length xs
    let message ← takeText message
    let nodes ← items.mapM takeNodeInfo
    some ⟨errorCode,message,nodes⟩
  parse_serialize m := by
    have hnodes := takeRepeated_putRepeated 0x1A (m.nodes.map putNodeInfo) _
      (length_le_putRepeated 0x1A _)
    have hmessage := takeField_putField 0x12 (utf8 m.errorMessage)
      (putRepeated 0x1A (m.nodes.map putNodeInfo)) (putRepeated_head 0x1A 0x12 _ (by decide))
    have hcode := takeInt32_putInt32 0x08 m.errorCode
      (putField 0x12 (utf8 m.errorMessage)++putRepeated 0x1A (m.nodes.map putNodeInfo))
      (append_head (putField_head 0x12 0x08 _ (by decide)) (putRepeated_head 0x1A 0x08 _ (by decide)))
    simp only [hcode,hmessage,hnodes,takeText_utf8,mapM_takeNodeInfo,Option.bind_eq_bind,
      Option.bind_some]

def discoverMessages : DiscoverMessages where
  serializeRequest service := putField 0x0A (utf8 service)
  response := discoverSerializer

/-- What the channel reads when a server answers. -/
def answeredWith {N : Type} (seq : UInt64) (envelope : RpcResponse) : CallChannel.Input N :=
  .polled 0 (.ready { pollin := true } (.ok (CallServer.sendEnvelope protoEnvelopes seq envelope)))

def sentAll {N : Type} : CallChannel.Input N := .sendReturned 0 1000 ⟨0,""⟩

def listedNodes (seq : UInt64) (nodes : List NodeInfo) : CallChannel.Input Response :=
  answeredWith seq { response := discoverSerializer.serialize { errorCode := 0, nodes } }

def discovered (seq : UInt64) (nodes : List NodeInfo) : List (CallChannel.Input Response × ℤ) :=
  [(sentAll,0),(listedNodes seq nodes,0)]

def fromRegistry (js : List (CallChannel.Input Response × ℤ)) : List (Input M) :=
  js.map fun j => .registry j.1 j.2

def firstCall (args : CallArgs M) (nodes : List NodeInfo) : List (Input M) :=
  .callMethod args 0::fromRegistry ((.connectReturned none,0)::discovered 1 nodes)

def sampleHash (bs : Bytes) : UInt64 := UInt64.ofNat (bs.foldl (fun n b => n*31+b.toNat) 0)

def nodeA : NodeInfo := { name := "a", host := "10.0.0.1", port := 9001 }

def nodeB : NodeInfo := { name := "b", host := "10.0.0.2", port := 9002 }

end MiniRpc.BalanceChannel
