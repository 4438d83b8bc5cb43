import MiniRpc.CallServer
import MiniRpc.ServiceNode

/-!
# Heartbeats of a node the registry does not know

The registry tells a node that it has forgotten it by an error code inside
a successful reply to `Heartbeat`, and a `Register` call may fail. The node
registers in `start()` and nowhere else, and its loop does not look at the
reply. So it never registers again, and whether it sends a heartbeat it
should not send depends only on whether it begins one after the trouble.
-/

set_option autoImplicit false

namespace MiniRpc.ReRegistration
open MiniRpc.ByteBuffer MiniRpc.CallController MiniRpc.StepMachine MiniRpc.ProtoWire
open MiniRpc.NodeRegistry MiniRpc.ServiceNode
open MiniRpc.CallChannel (RpcChannel)

def callsRegister : Output → Bool
  | .called .register => true
  | _ => false

def callsHeartbeat : Output → Bool
  | .called .heartbeat => true
  | _ => false

def trouble : Output → Bool
  | .returned .register controller response =>
    controller.failed || response.any fun r => r.errorCode != okCode
  | .answered _ .heartbeat response => response.errorCode != okCode
  | _ => false

/-- After trouble a `Register` is due before the next `Heartbeat`. -/
def reRegisters : Monitor Bool Output where
  next due o := !callsRegister o && (due || trouble o)
  ok due o := !(due && callsHeartbeat o)

def noBeatAfterTrouble : Monitor Bool Output where
  next troubled o := troubled || trouble o
  ok troubled o := !(troubled && callsHeartbeat o)

theorem agree_without_register (os : List Output) (h : ∀ o ∈ os, callsRegister o = false)
    (f : Bool) :
    reRegisters.accepts f os = noBeatAfterTrouble.accepts f os ∧
    reRegisters.after f os = noBeatAfterTrouble.after f os := by
  induction os generalizing f with
  | nil => exact ⟨rfl,rfl⟩
  | cons o os ih =>
    have hnext : reRegisters.next f o = noBeatAfterTrouble.next f o := by
      simp [reRegisters,noBeatAfterTrouble,h o List.mem_cons_self]
    obtain ⟨ha,hf⟩ := ih (fun o' ho' => h o' (List.mem_cons_of_mem o ho'))
      (noBeatAfterTrouble.next f o)
    constructor
    · rw [Monitor.accepts,Monitor.accepts,hnext,ha]
      rfl
    · rw [Monitor.after,List.foldl_cons,hnext]
      exact hf

theorem report_not_register (q : NodeCall) (os : List (CallChannel.Output StatusResponse)) :
    ∀ o ∈ os.filterMap (report q), callsRegister o = false := by
  intro o ho
  obtain ⟨c,-,hc⟩ := List.mem_filterMap.mp ho
  cases c <;> simp [report] at hc <;> subst hc <;> rfl

theorem begin_not_register (q : NodeCall) (hq : q ≠ .register)
    (os : List (CallChannel.Output StatusResponse)) :
    ∀ o ∈ .called q::os.filterMap (report q), callsRegister o = false := by
  intro o ho
  rcases List.mem_cons.mp ho with rfl | ho
  · cases q with
    | register => exact absurd rfl hq
    | heartbeat => rfl
    | unregister => rfl
  · exact report_not_register q os o ho

section Runs
variable (env : Envelopes) (messages : RegistryMessages) (cfg : NodeConfig)

theorem later_move {s : Deployment} {i : Input} {r : Deployment × List Output}
    (hr : Move env messages cfg s i r) (h : s.node.main ≠ .fresh) :
    r.1.node.main ≠ .fresh ∧ ∀ o ∈ r.2, callsRegister o = false := by
  cases hr with
  | idle => exact ⟨h,by simp⟩
  | starts hmain => exact absurd hmain h
  | registers j hmain =>
    constructor
    · rw [registerSelf]
      by_cases hret : ((CallChannel.channel env).step s.node.mainChannel j).2.any returns
      · simp [hret]
      · simp [hret,h]
    · exact report_not_register _ _
  | unregisters j hmain =>
    constructor
    · rw [unregisterSelf]
      by_cases hret : ((CallChannel.channel env).step s.node.mainChannel j).2.any returns
      · simp [hret]
      · simp [hret,h]
    · exact report_not_register _ _
  | halts _ thenUnregister => exact ⟨by simp,by simp⟩
  | joins thenUnregister hmain =>
    cases thenUnregister with
    | true => exact ⟨by simp [joined],begin_not_register .unregister (by simp) _⟩
    | false => exact ⟨by simp [joined],by simp [joined]⟩
  | checks hbeat =>
    rw [beatCheck]
    by_cases hs : s.node.stop
    · rw [if_pos hs]
      exact ⟨h,by simp⟩
    · rw [if_neg hs]
      exact ⟨h,begin_not_register .heartbeat (by simp) _⟩
  | beats j hbeat => exact ⟨h,report_not_register _ _⟩
  | wakes hbeat => exact ⟨h,by simp⟩
  | answers k now q htime hcopy => exact ⟨h,by simp [callsRegister]⟩
  | loses k => exact ⟨h,by simp⟩
  | elsewhere _ now e htime hop => exact ⟨h,by simp⟩
  | restarts => exact ⟨h,by simp [callsRegister]⟩

theorem fresh_move {s : Deployment} {i : Input} {r : Deployment × List Output}
    (hr : Move env messages cfg s i r) (hmain : s.node.main = .fresh)
    (hbeat : s.node.beat = .absent) (hflight : s.flight = []) :
    r = startNode env messages cfg s ∨
    (r.1.node.beat = .absent ∧ r.1.flight = [] ∧ ∀ o ∈ r.2, o = .restarted) := by
  cases hr with
  | starts h => exact Or.inl rfl
  | registers j h => simp [hmain] at h
  | unregisters j h => simp [hmain] at h
  | joins thenUnregister h => simp [hmain] at h
  | checks h => simp [hbeat] at h
  | beats j h => simp [hbeat] at h
  | wakes h => simp [hbeat] at h
  | answers k now q htime hcopy => simp [hflight] at hcopy
  | idle => exact Or.inr ⟨hbeat,hflight,by simp⟩
  | halts _ thenUnregister => exact Or.inr ⟨hbeat,hflight,by simp⟩
  | loses k => exact Or.inr ⟨hbeat,by simp [hflight],by simp⟩
  | elsewhere _ now e htime hop => exact Or.inr ⟨hbeat,hflight,by simp⟩
  | restarts => exact Or.inr ⟨hbeat,rfl,by simp⟩

theorem untroubled (os : List Output) (h : ∀ o ∈ os, trouble o = false) (f : Bool) :
    noBeatAfterTrouble.after f os = f ∧
    (f = false → noBeatAfterTrouble.accepts f os = true) := by
  induction os generalizing f with
  | nil => exact ⟨rfl,fun _ => rfl⟩
  | cons o os ih =>
    have hnext : noBeatAfterTrouble.next f o = f := by
      simp [noBeatAfterTrouble,h o List.mem_cons_self]
    obtain ⟨hf,ha⟩ := ih (fun o' ho' => h o' (List.mem_cons_of_mem o ho')) f
    constructor
    · rw [Monitor.after,List.foldl_cons,hnext]
      exact hf
    · intro hfalse
      rw [Monitor.accepts,hnext,ha hfalse]
      simp [noBeatAfterTrouble,hfalse]

def Alike (s : Deployment) (due troubled : Bool) : Prop :=
  due = troubled ∧
  (s.node.main = .fresh → s.node.beat = .absent ∧ s.flight = [] ∧ troubled = false)

theorem alike_move {s : Deployment} {i : Input} {r : Deployment × List Output} {f g : Bool}
    (hr : Move env messages cfg s i r) (h : Alike s f g) :
    reRegisters.accepts f r.2 = noBeatAfterTrouble.accepts g r.2 ∧
    Alike r.1 (reRegisters.after f r.2) (noBeatAfterTrouble.after g r.2) := by
  obtain ⟨rfl,hfresh⟩ := h
  by_cases hmain : s.node.main = .fresh
  · obtain ⟨hbeat,hflight,rfl⟩ := hfresh hmain
    rcases fresh_move env messages cfg hr hmain hbeat hflight with rfl | ⟨hb,hf,ho⟩
    · obtain ⟨ha,hs⟩ := agree_without_register _ (report_not_register .register
        (beginCall env messages cfg .register (RpcChannel.new 1000 1)).2) false
      exact ⟨ha,hs,by simp [startNode]⟩
    · obtain ⟨ha,hs⟩ := agree_without_register r.2 (fun o h => by rw [ho o h]; rfl) false
      have hu := (untroubled r.2 (fun o h => by rw [ho o h]; rfl) false).1
      exact ⟨ha,hs,fun _ => ⟨hb,hf,hu⟩⟩
  · obtain ⟨hlater,ho⟩ := later_move env messages cfg hr hmain
    obtain ⟨ha,hs⟩ := agree_without_register r.2 ho f
    exact ⟨ha,hs,fun h => absurd h hlater⟩

def unsuccessful : CallChannel.Output StatusResponse → Bool
  | .returned controller response =>
    controller.failed || response.any fun r => r.errorCode != okCode
  | _ => false

/-- The `Register` call does not end without success, and a `Heartbeat` the
registry handles finds the entry of the node. -/
def staysRegistered (s : Deployment) : Input → Bool
  | .mainCall j =>
    s.node.main != .registering ||
      ((CallChannel.channel env).step s.node.mainChannel j).2.all fun o => !unsuccessful o
  | .process k _ =>
    s.flight[k]? != some .heartbeat || (entryAt s.registry cfg.serviceName (nodeKey cfg.info)).isSome
  | _ => true

theorem report_untroubled (q : NodeCall) (hq : q ≠ .register)
    (os : List (CallChannel.Output StatusResponse)) :
    ∀ o ∈ os.filterMap (report q), trouble o = false := by
  intro o ho
  obtain ⟨c,-,hc⟩ := List.mem_filterMap.mp ho
  cases c <;> simp [report] at hc <;> subst hc
  · rfl
  · cases q with
    | register => exact absurd rfl hq
    | heartbeat => rfl
    | unregister => rfl

theorem begin_untroubled (q : NodeCall) (hq : q ≠ .register)
    (os : List (CallChannel.Output StatusResponse)) :
    ∀ o ∈ .called q::os.filterMap (report q), trouble o = false := by
  intro o ho
  rcases List.mem_cons.mp ho with rfl | ho
  · rfl
  · exact report_untroubled q hq os o ho

theorem registered_move {s : Deployment} {i : Input} {r : Deployment × List Output}
    (hr : Move env messages cfg s i r) (h : staysRegistered env cfg s i = true) :
    ∀ o ∈ r.2, trouble o = false := by
  cases hr with
  | starts hmain =>
    simp [startNode,beginCall,CallChannel.channel,RpcChannel.new,CallChannel.callMethod,report,
      trouble]
  | registers j hmain =>
    intro o ho
    obtain ⟨c,hc,hrep⟩ := List.mem_filterMap.mp ho
    simp only [staysRegistered,hmain,bne_self_eq_false,Bool.false_or,List.all_eq_true] at h
    have hsucc := h c hc
    cases c <;> simp [report] at hrep <;> subst hrep
    · rfl
    · simpa [unsuccessful,trouble] using hsucc
  | unregisters j hmain => exact report_untroubled .unregister (by simp) _
  | joins thenUnregister hmain =>
    cases thenUnregister with
    | true => exact begin_untroubled .unregister (by simp) _
    | false => simp [joined]
  | checks hbeat =>
    rw [beatCheck]
    by_cases hs : s.node.stop
    · simp [hs]
    · rw [if_neg hs]
      exact begin_untroubled .heartbeat (by simp) _
  | beats j hbeat => exact report_untroubled .heartbeat (by simp) _
  | answers k now q htime hcopy =>
    intro o ho
    obtain rfl := List.mem_singleton.mp ho
    cases q with
    | register => rfl
    | unregister => rfl
    | heartbeat =>
      simp only [staysRegistered,hcopy,bne_self_eq_false,Bool.false_or] at h
      simp [trouble,NodeConfig.request,handle,heartbeat_response,h]
  | restarts => simp [trouble]
  | idle => simp
  | halts _ thenUnregister => simp
  | wakes hbeat => simp
  | loses k => simp
  | elsewhere _ now e htime hop => simp

/-- The node registers anew whenever it should exactly in the runs in which
it begins no heartbeat after a failed registration or a refused heartbeat,
and these include all runs in which it stays registered. -/
theorem re_registers_iff (timeout : ℤ) (is : List Input) :
    (reRegisters.accepts false ((deployment env messages cfg).run (Deployment.new timeout) is).2 =
        true ↔
      noBeatAfterTrouble.accepts false
        ((deployment env messages cfg).run (Deployment.new timeout) is).2 = true) ∧
    (Along (deployment env messages cfg) (fun s i => staysRegistered env cfg s i = true)
        (Deployment.new timeout) is →
      reRegisters.accepts false
        ((deployment env messages cfg).run (Deployment.new timeout) is).2 = true) := by
  have heq := run_accepts_eq (deployment env messages cfg) reRegisters noBeatAfterTrouble Alike
    (fun s f g i h => (alike_move env messages cfg (step_move env messages cfg s i) h).1)
    (fun s f g i h => (alike_move env messages cfg (step_move env messages cfg s i) h).2)
    (Deployment.new timeout) false false is ⟨rfl,fun _ => ⟨rfl,rfl,rfl⟩⟩
  constructor
  · rw [heq]
  · intro halong
    have hquiet := run_invariant_along (deployment env messages cfg) _
      (fun _ os => ∀ o ∈ os, trouble o = false)
      (fun s os i hos hs => by
        intro o ho
        rcases List.mem_append.mp ho with ho | ho
        · exact hos o ho
        · exact registered_move env messages cfg (step_move env messages cfg s i) hs o ho)
      (Deployment.new timeout) [] is (by simp) halong
    rw [heq]
    exact (untroubled _ hquiet false).2 rfl

end Runs

def reply (seq : UInt64) (status : StatusResponse) : Bytes :=
  CallServer.sendEnvelope protoEnvelopes seq
    { response := protoMessages.status.serialize status }

def answer (seq : UInt64) (status : StatusResponse) : CallChannel.Input StatusResponse :=
  .polled 0 (.ready { pollin := true } (.ok (reply seq status)))

def sendsAll : CallChannel.Input StatusResponse := .sendReturned 0 1000 ⟨0,""⟩

def twoBeats (between : List Input) (status : StatusResponse) : List Input :=
  [.start,.mainCall (.connectReturned none),.mainCall sendsAll,.process 0 1000,
    .mainCall (answer 1 {})]++between++
  [.beatCheck,.beatCall (.connectReturned none),.beatCall sendsAll,.process 0 2000,
    .beatCall (answer 1 status),.wake,.beatCheck]

theorem re_registers_two_beats :
    ((deployment protoEnvelopes protoMessages echoConfig).run
      (Deployment.new 6000) (twoBeats [] {})).2.countP callsHeartbeat = 2 ∧
    Along (deployment protoEnvelopes protoMessages echoConfig)
      (fun s i => staysRegistered protoEnvelopes echoConfig s i = true)
      (Deployment.new 6000) (twoBeats [] {}) ∧
    reRegisters.accepts false ((deployment protoEnvelopes protoMessages echoConfig).run
      (Deployment.new 6000) (twoBeats [] {})).2 = true :=
  have h : Along (deployment protoEnvelopes protoMessages echoConfig)
      (fun s i => staysRegistered protoEnvelopes echoConfig s i = true)
      (Deployment.new 6000) (twoBeats [] {}) := by decide +kernel
  ⟨by decide +kernel,h,
    (re_registers_iff protoEnvelopes protoMessages echoConfig 6000 (twoBeats [] {})).2 h⟩

def refused : Output → Bool
  | .returned .heartbeat controller (some response) =>
    !controller.failed && response.errorCode == errCode
  | _ => false

/-- The registry is restarted between the registration and the first
heartbeat. The node is told that it is not registered, and sends its second
heartbeat. -/
theorem forgotten_node_keeps_beating :
    ((deployment protoEnvelopes protoMessages echoConfig).run (Deployment.new 6000)
      (twoBeats [.restart] ⟨99,"node not registered"⟩)).2.any refused = true ∧
    reRegisters.accepts false ((deployment protoEnvelopes protoMessages echoConfig).run
      (Deployment.new 6000) (twoBeats [.restart] ⟨99,"node not registered"⟩)).2 = false := by
  decide +kernel

end MiniRpc.ReRegistration
