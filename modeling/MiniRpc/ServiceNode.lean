import MiniRpc.CallChannel
import MiniRpc.ProtoWire
import MiniRpc.RegistryLease

/-!
# A service node and its registry

`RpcServiceNode` registers itself, sends heartbeats from a thread of its
own and unregisters on shutdown. Each of these calls is run by the client
channel, so that one call may put several copies of its request on the
network. A copy waits until a worker of the registry's server handles it,
in any order and at any time, or it is lost. Between the copies the
registry handles requests of other nodes and clients, evicts, and may be
restarted with an empty table, which cuts its connections. What a channel
reads from its socket is not restricted.

The heartbeat interval only delays the loop and is left out, since a step
may be taken at any time. `start()` is called once; the destructor is a
`stopHeartbeat()`.
-/

set_option autoImplicit false

namespace MiniRpc.ServiceNode
open MiniRpc.ByteBuffer MiniRpc.WireCodec MiniRpc.CallController MiniRpc.StepMachine
open MiniRpc.ProtoWire MiniRpc.NodeRegistry MiniRpc.RegistryLease
open MiniRpc.CallChannel (RpcChannel CallArgs)

inductive NodeCall where
  | register
  | heartbeat
  | unregister
  deriving DecidableEq, Repr

def NodeCall.method : NodeCall → String
  | .register => "minirpc.registry.RegistryService.Register"
  | .heartbeat => "minirpc.registry.RegistryService.Heartbeat"
  | .unregister => "minirpc.registry.RegistryService.Unregister"

structure StatusResponse where
  errorCode : Int32 := 0
  errorMessage : String := ""
  deriving DecidableEq, Repr

/-- The generated classes of `registry.proto`, as far as a node uses them:
the three requests have the same fields, and so have the three responses. -/
structure RegistryMessages where
  serializeRequest : String → NodeInfo → Bytes
  status : Serializer StatusResponse

structure NodeConfig where
  nodeName : String
  serviceName : String
  port : UInt16
  heartbeatTimeoutMs : ℤ

def NodeConfig.info (cfg : NodeConfig) : NodeInfo :=
  { name := cfg.nodeName, host := "127.0.0.1", port := cfg.port.toUInt32 }

def NodeConfig.request (cfg : NodeConfig) : NodeCall → Request
  | .register => .register cfg.serviceName cfg.info
  | .heartbeat => .heartbeat cfg.serviceName cfg.info
  | .unregister => .unregister cfg.serviceName cfg.info

def NodeConfig.args (cfg : NodeConfig) (messages : RegistryMessages) (q : NodeCall) :
    CallArgs StatusResponse where
  method := q.method
  request := messages.serializeRequest cfg.serviceName cfg.info
  parseResponse := messages.status.parse
  controller := .minirpc {}
  done := false

inductive MainPc where
  | fresh
  | registering
  | running
  | joining (thenUnregister : Bool)
  | unregistering
  | stopped
  deriving DecidableEq, Repr

/-- Where the heartbeat thread is; `absent` when it is not joinable. -/
inductive BeatPc where
  | absent
  | checking
  | calling
  | sleeping
  | exited
  deriving DecidableEq, Repr

structure RpcServiceNode where
  main : MainPc := .fresh
  beat : BeatPc := .absent
  stop : Bool := false
  mainChannel : RpcChannel StatusResponse := RpcChannel.new 1000 1
  beatChannel : RpcChannel StatusResponse := RpcChannel.new 0 1

/-- The node, the registry and the copies of the node's requests that are
on their way. -/
structure Deployment where
  node : RpcServiceNode := {}
  registry : RegistryServiceImpl
  flight : List NodeCall := []
  clock : ℤ := 0

inductive Input where
  | start
  | stopHeartbeat
  | shutdown
  | join
  | mainCall (i : CallChannel.Input StatusResponse)
  | beatCheck
  | beatCall (i : CallChannel.Input StatusResponse)
  | wake
  | process (k : ℕ) (now : ℤ)
  | lose (k : ℕ)
  | other (now : ℤ) (q : Request)
  | evict (now : ℤ)
  | restart

inductive Output where
  | called (q : NodeCall)
  | sent (q : NodeCall) (msg : ProtocolMessage)
  | returned (q : NodeCall) (controller : ControllerPtr) (response : Option StatusResponse)
  | answered (now : ℤ) (q : NodeCall) (response : Response)
  | restarted

def report (q : NodeCall) : CallChannel.Output StatusResponse → Option Output
  | .attempted msg => some (.sent q msg)
  | .returned controller response => some (.returned q controller response)
  | _ => none

def copy (q : NodeCall) : CallChannel.Output StatusResponse → Option NodeCall
  | .attempted _ => some q
  | _ => none

def returns : CallChannel.Output StatusResponse → Bool
  | .returned _ _ => true
  | _ => false

/-- A request that is not about this node. -/
def foreign (cfg : NodeConfig) : Request → Bool
  | .register s n => !decide (s = cfg.serviceName ∧ n.address = cfg.info.address)
  | .unregister s n => !decide (s = cfg.serviceName ∧ n.address = cfg.info.address)
  | .heartbeat s n => !decide (s = cfg.serviceName ∧ n.address = cfg.info.address)
  | .discover _ _ => true

section Steps
variable (env : Envelopes) (messages : RegistryMessages) (cfg : NodeConfig)

def beginCall (q : NodeCall) (c : RpcChannel StatusResponse) :
    RpcChannel StatusResponse × List (CallChannel.Output StatusResponse) :=
  (CallChannel.channel env).step c (.callMethod (cfg.args messages q))

def startNode (s : Deployment) : Deployment × List Output :=
  let r := beginCall env messages cfg .register (RpcChannel.new 1000 1)
  ({ s with
      node := { s.node with main := .registering, mainChannel := r.1 }
      flight := s.flight++r.2.filterMap (copy .register) },
    .called .register::r.2.filterMap (report .register))

/-- `registerSelf` goes on; when it returns, with or without success, the
heartbeat thread is created. -/
def registerSelf (s : Deployment) (i : CallChannel.Input StatusResponse) :
    Deployment × List Output :=
  let r := (CallChannel.channel env).step s.node.mainChannel i
  let node := { s.node with mainChannel := r.1 }
  ({ s with
      node :=
        if r.2.any returns then
          { node with
            main := .running
            beat := .checking
            beatChannel := RpcChannel.new (cfg.heartbeatTimeoutMs.tdiv 2+200) 1 }
        else node
      flight := s.flight++r.2.filterMap (copy .register) },
    r.2.filterMap (report .register))

def unregisterSelf (s : Deployment) (i : CallChannel.Input StatusResponse) :
    Deployment × List Output :=
  let r := (CallChannel.channel env).step s.node.mainChannel i
  let node := { s.node with mainChannel := r.1 }
  ({ s with
      node := if r.2.any returns then { node with main := .stopped } else node
      flight := s.flight++r.2.filterMap (copy .unregister) },
    r.2.filterMap (report .unregister))

def joined (s : Deployment) (thenUnregister : Bool) : Deployment × List Output :=
  if thenUnregister then
    let r := beginCall env messages cfg .unregister (RpcChannel.new 1000 1)
    ({ s with
        node := { s.node with main := .unregistering, beat := .absent, mainChannel := r.1 }
        flight := s.flight++r.2.filterMap (copy .unregister) },
      .called .unregister::r.2.filterMap (report .unregister))
  else ({ s with node := { s.node with main := .running, beat := .absent } },[])

def beatCheck (s : Deployment) : Deployment × List Output :=
  if s.node.stop then ({ s with node := { s.node with beat := .exited } },[])
  else
    let r := beginCall env messages cfg .heartbeat s.node.beatChannel
    ({ s with
        node := { s.node with beat := .calling, beatChannel := r.1 }
        flight := s.flight++r.2.filterMap (copy .heartbeat) },
      .called .heartbeat::r.2.filterMap (report .heartbeat))

/-- The heartbeat call goes on; its result is not looked at, except that a
failed controller is logged. -/
def beatCall (s : Deployment) (i : CallChannel.Input StatusResponse) : Deployment × List Output :=
  let r := (CallChannel.channel env).step s.node.beatChannel i
  ({ s with
      node := { s.node with
        beatChannel := r.1
        beat := if r.2.any returns then .sleeping else .calling }
      flight := s.flight++r.2.filterMap (copy .heartbeat) },
    r.2.filterMap (report .heartbeat))

def process (s : Deployment) (k : ℕ) (now : ℤ) : Deployment × List Output :=
  match s.flight[k]? with
  | none => (s,[])
  | some q =>
    let r := handle s.registry now (cfg.request q)
    ({ s with registry := r.1, flight := s.flight.eraseIdx k, clock := now },
      [.answered now q r.2])

def deployment : Machine Deployment Input Output where
  step s i :=
    match i with
    | .start => if s.node.main = .fresh then startNode env messages cfg s else (s,[])
    | .stopHeartbeat =>
      if s.node.main = .running then
        ({ s with node := { s.node with stop := true, main := .joining false } },[])
      else (s,[])
    | .shutdown =>
      if s.node.main = .fresh ∨ s.node.main = .running ∨ s.node.main = .stopped then
        ({ s with node := { s.node with stop := true, main := .joining true } },[])
      else (s,[])
    | .join =>
      match s.node.main with
      | .joining thenUnregister =>
        if s.node.beat = .absent ∨ s.node.beat = .exited then joined env messages cfg s thenUnregister
        else (s,[])
      | _ => (s,[])
    | .mainCall j =>
      match s.node.main with
      | .registering => registerSelf env cfg s j
      | .unregistering => unregisterSelf env s j
      | _ => (s,[])
    | .beatCheck => if s.node.beat = .checking then beatCheck env messages cfg s else (s,[])
    | .beatCall j => if s.node.beat = .calling then beatCall env s j else (s,[])
    | .wake =>
      if s.node.beat = .sleeping then ({ s with node := { s.node with beat := .checking } },[])
      else (s,[])
    | .process k now => if s.clock ≤ now then process cfg s k now else (s,[])
    | .lose k => ({ s with flight := s.flight.eraseIdx k },[])
    | .other now q =>
      if s.clock ≤ now ∧ foreign cfg q = true then
        ({ s with registry := (handle s.registry now q).1, clock := now },[])
      else (s,[])
    | .evict now =>
      if s.clock ≤ now then ({ s with registry := purgeExpired s.registry now, clock := now },[])
      else (s,[])
    | .restart =>
      ({ s with registry := { s.registry with services := ∅ }, flight := [] },[.restarted])

end Steps

def Deployment.new (heartbeatTimeout : ℤ) : Deployment := { registry := { heartbeatTimeout } }

theorem foreign_op (cfg : NodeConfig) (q : Request) (h : foreign cfg q = true)
    (op : LeaseHistory.Op NodeInfo)
    (hop : slotOp cfg.serviceName cfg.info (.request q) = some op) : op = .sweep := by
  cases q with
  | discover s order => exact (Option.some.inj hop).symm
  | register s n =>
    rw [foreign,Bool.not_eq_true',decide_eq_false_iff_not] at h
    rw [slotOp,if_neg h] at hop
    simp at hop
  | unregister s n =>
    rw [foreign,Bool.not_eq_true',decide_eq_false_iff_not] at h
    rw [slotOp,if_neg h] at hop
    simp at hop
  | heartbeat s n =>
    rw [foreign,Bool.not_eq_true',decide_eq_false_iff_not] at h
    rw [slotOp,if_neg h] at hop
    simp at hop

section Moves
variable (env : Envelopes) (messages : RegistryMessages) (cfg : NodeConfig)

inductive Move (s : Deployment) : Input → Deployment × List Output → Prop where
  | idle (i : Input) : Move s i (s,[])
  | starts (hmain : s.node.main = .fresh) : Move s .start (startNode env messages cfg s)
  | registers (j : CallChannel.Input StatusResponse) (hmain : s.node.main = .registering) :
      Move s (.mainCall j) (registerSelf env cfg s j)
  | unregisters (j : CallChannel.Input StatusResponse) (hmain : s.node.main = .unregistering) :
      Move s (.mainCall j) (unregisterSelf env s j)
  | halts (i : Input) (thenUnregister : Bool) :
      Move s i ({ s with node := { s.node with stop := true, main := .joining thenUnregister } },[])
  | joins (thenUnregister : Bool) (hmain : s.node.main = .joining thenUnregister) :
      Move s .join (joined env messages cfg s thenUnregister)
  | checks (hbeat : s.node.beat = .checking) : Move s .beatCheck (beatCheck env messages cfg s)
  | beats (j : CallChannel.Input StatusResponse) (hbeat : s.node.beat = .calling) :
      Move s (.beatCall j) (beatCall env s j)
  | wakes (hbeat : s.node.beat = .sleeping) :
      Move s .wake ({ s with node := { s.node with beat := .checking } },[])
  | answers (k : ℕ) (now : ℤ) (q : NodeCall) (htime : s.clock ≤ now)
      (hcopy : s.flight[k]? = some q) :
      Move s (.process k now) ({ s with
          registry := (handle s.registry now (cfg.request q)).1
          flight := s.flight.eraseIdx k
          clock := now },
        [.answered now q (handle s.registry now (cfg.request q)).2])
  | loses (k : ℕ) : Move s (.lose k) ({ s with flight := s.flight.eraseIdx k },[])
  | elsewhere (i : Input) (now : ℤ) (e : Event) (htime : s.clock ≤ now)
      (hop : ∀ op, slotOp cfg.serviceName cfg.info e = some op → op = .sweep) :
      Move s i ({ s with registry := (registry.step s.registry (now,e)).1, clock := now },[])
  | restarts :
      Move s .restart
        ({ s with registry := { s.registry with services := ∅ }, flight := [] },[.restarted])

theorem step_move (s : Deployment) (i : Input) :
    Move env messages cfg s i ((deployment env messages cfg).step s i) := by
  cases i with
  | start =>
    by_cases h : s.node.main = .fresh
    · simpa only [deployment,h,if_true] using .starts h
    · simpa only [deployment,h,if_false] using .idle _
  | stopHeartbeat =>
    by_cases h : s.node.main = .running
    · simpa only [deployment,h,if_true] using .halts _ false
    · simpa only [deployment,h,if_false] using .idle _
  | shutdown =>
    by_cases h : s.node.main = .fresh ∨ s.node.main = .running ∨ s.node.main = .stopped
    · simpa only [deployment,h,if_true] using .halts _ true
    · simpa only [deployment,h,if_false] using .idle _
  | join =>
    cases hm : s.node.main with
    | joining thenUnregister =>
      by_cases h : s.node.beat = .absent ∨ s.node.beat = .exited
      · simpa only [deployment,hm,h,if_true] using .joins thenUnregister hm
      · simpa only [deployment,hm,h,if_false] using .idle _
    | _ => simpa only [deployment,hm] using .idle _
  | mainCall j =>
    cases hm : s.node.main with
    | registering => simpa only [deployment,hm] using .registers j hm
    | unregistering => simpa only [deployment,hm] using .unregisters j hm
    | _ => simpa only [deployment,hm] using .idle _
  | beatCheck =>
    by_cases h : s.node.beat = .checking
    · simpa only [deployment,h,if_true] using .checks h
    · simpa only [deployment,h,if_false] using .idle _
  | beatCall j =>
    by_cases h : s.node.beat = .calling
    · simpa only [deployment,h,if_true] using .beats j h
    · simpa only [deployment,h,if_false] using .idle _
  | wake =>
    by_cases h : s.node.beat = .sleeping
    · simpa only [deployment,h,if_true] using .wakes h
    · simpa only [deployment,h,if_false] using .idle _
  | process k now =>
    by_cases h : s.clock ≤ now
    · simp only [deployment,h,if_true,process]
      cases hq : s.flight[k]? with
      | none => exact .idle _
      | some q => exact .answers k now q h hq
    · simpa only [deployment,h,if_false] using .idle _
  | lose k => exact .loses k
  | other now q =>
    by_cases h : s.clock ≤ now ∧ foreign cfg q = true
    · simp only [deployment,if_pos h]
      exact .elsewhere _ now (.request q) h.1 (foreign_op cfg q h.2)
    · simpa only [deployment,if_neg h] using .idle _
  | evict now =>
    by_cases h : s.clock ≤ now
    · simp only [deployment,h,if_true]
      exact .elsewhere _ now .evict h fun op hop => (Option.some.inj hop).symm
    · simpa only [deployment,h,if_false] using .idle _
  | restart => exact .restarts

end Moves

def statusSerializer : Serializer StatusResponse where
  serialize m := putInt32 0x08 m.errorCode++putField 0x12 (utf8 m.errorMessage)
  parse xs := do
    let (errorCode,xs) ← takeInt32 0x08 xs
    let (message,xs) ← takeField 0x12 xs
    let message ← takeText message
    if xs = [] then some ⟨errorCode,message⟩ else none
  parse_serialize m := by
    have h := takeField_putField 0x12 (utf8 m.errorMessage) [] (by simp)
    rw [List.append_nil] at h
    simp only [takeInt32_putInt32 0x08 _ _ (putField_head 0x12 0x08 _ (by decide)),h,
      takeText_utf8,Option.bind_eq_bind,Option.bind_some,if_true]

def protoMessages : RegistryMessages where
  serializeRequest service node :=
    putField 0x0A (utf8 service)++putField 0x12 (putField 0x0A (utf8 node.name)++
      (putField 0x12 (utf8 node.host)++
        if node.port = 0 then [] else 0x18::putVarint node.port.toNat node.port.toNat))
  status := statusSerializer

def echoConfig : NodeConfig where
  nodeName := "node1"
  serviceName := "EchoService"
  port := 9001
  heartbeatTimeoutMs := 6000

end MiniRpc.ServiceNode
