import MiniRpc.NodeCalls
import MiniRpc.RetryScan

/-!
# What follows a failed attempt

A first attempt that fails at connection level is followed by a refresh and
a second attempt, but only where the list had a second node before the
refresh and has one after it, and where the controller can tell the code of
the failure. The code alone decides: one that the server chose counts as a
failure of the connection if it has the value of one.
-/

set_option autoImplicit false

namespace MiniRpc.FailOver
open MiniRpc.ByteBuffer MiniRpc.CallController MiniRpc.StepMachine MiniRpc.KeyedTable
open MiniRpc.NodeRegistry MiniRpc.LoadBalancer MiniRpc.CallOutcome MiniRpc.BalanceChannel
open MiniRpc.NodeCalls MiniRpc.ProtoWire MiniRpc.RetryScan
open MiniRpc.CallChannel (RpcChannel CallArgs)

variable {M : Type}

/-- A failure with this code is followed by a refresh. -/
def Retriable (s : LoadBalanceChannel M) (p : ControllerPtr) (code : ErrorCode) : Prop :=
  (∃ c, p = .minirpc c) ∧ connectionLevel code = true ∧ 1 < s.nodes.length

def isReturned : Output M → Bool
  | .returned _ _ => true
  | _ => false

def refreshing : Pc M → Bool
  | .refreshing _ _ _ => true
  | _ => false

theorem reset_minirpc (p : ControllerPtr) : (∃ c, p.reset = .minirpc c) ↔ ∃ c, p = .minirpc c := by
  cases p with
  | null => simp [ControllerPtr.reset]
  | minirpc c => exact ⟨fun _ => ⟨c,rfl⟩,fun _ => ⟨c.reset,rfl⟩⟩
  | other f e => simp [ControllerPtr.reset]

section
variable (env : Envelopes) (messages : DiscoverMessages) (hash64 : Bytes → UInt64)

theorem endAttempt_retries {s : LoadBalanceChannel M} {p : ControllerPtr} {code : ErrorCode}
    (h : Retriable s p code) (args : CallArgs M) (attempt : ℕ) (nodeKey message : String)
    (response : Option M) :
    ∃ args' : CallArgs M, args'.done = args.done ∧ args'.request = args.request ∧
      endAttempt env messages s args attempt nodeKey (failController p code message) response =
        beginRefresh env messages { s with failedNodeKey := nodeKey } args' response (some attempt) := by
  obtain ⟨⟨c,rfl⟩,hcode,hlen⟩ := h
  have hlevel : ¬ connectionLevel (codeOf (failController (.minirpc c) code message)) = false := by
    rw [failController,codeOf,RpcController.setFailedCode,hcode]
    exact Bool.noConfusion
  have hfailed : ¬ (failController (.minirpc c) code message).failed = false := Bool.noConfusion
  refine ⟨{ args with controller := failController (.minirpc c) code message },rfl,rfl,?_⟩
  rw [endAttempt,if_neg hfailed,if_neg hlevel,if_neg (by omega)]

theorem endAttempt_returns {s : LoadBalanceChannel M} {p : ControllerPtr} {code : ErrorCode}
    (h : ¬ Retriable s p code) (args : CallArgs M) (attempt : ℕ) (nodeKey message : String)
    (response : Option M) :
    endAttempt env messages s args attempt nodeKey (failController p code message) response =
      finishCall s (failController p code message) response := by
  rw [endAttempt]
  split_ifs with hfailed hlevel hlen
  · rfl
  · rfl
  · rfl
  · cases p with
    | null => exact absurd rfl hfailed
    | minirpc c =>
      refine absurd ⟨⟨c,rfl⟩,?_,by omega⟩ h
      simpa [failController,codeOf,RpcController.setFailedCode] using hlevel
    | other f e => exact absurd rfl hlevel

def stepNode (s : LoadBalanceChannel M) (nodeKey : String) (i : CallChannel.Input M) :
    LoadBalanceChannel M :=
  setChannel s nodeKey { channelFor s nodeKey with
    channel := ((CallChannel.channel env).step (channelFor s nodeKey).channel i).1 }

theorem attempt_fails {s : LoadBalanceChannel M} (h : Ready s) {args : CallArgs M} {attempt : ℕ}
    {nodeKey : String} (hpc : s.pc = .calling args attempt nodeKey) {i : CallChannel.Input M}
    {code : ErrorCode}
    (hends : ∀ c, callOf (channelFor s nodeKey).channel.pc = some c → ∃ message,
      Ends c (failController c.controller code message)
        ((CallChannel.channel env).step (channelFor s nodeKey).channel i)) :
    Resting (stepNode env s nodeKey i) ∧
    ∃ os : List (CallChannel.Output M), os.any sends = false ∧ ∃ message response,
      (balanceChannel env messages hash64).step s (.node i) =
        ((endAttempt env messages (stepNode env s nodeKey i) args attempt nodeKey
            (failController args.controller.reset code message) response).1,
          os.map (.node nodeKey)++(endAttempt env messages (stepNode env s nodeKey i) args attempt
            nodeKey (failController args.controller.reset code message) response).2) := by
  have hchannels := ready_calling h hpc
  have hkept := (inCall_step env (reset_reset _) (onlyNode_inCall hchannels) i).1
  obtain ⟨⟨c,hcall,hc⟩,-⟩ := onlyNode_inCall hchannels
  obtain ⟨message,hidle,hreturn,hsilent⟩ := hends c hcall
  rw [hc] at hreturn
  refine ⟨?_,_,hsilent,message,c.response,?_⟩
  · exact channels_setChannel hchannels hidle (hkept.trans (hchannels.retries nodeKey))
      fun k hk y hy => onlyNode_idle hk hy
  · rw [step_calling env messages hash64 hpc,nodeStep,hreturn]
    rfl

theorem registry_step {s : LoadBalanceChannel M} (h : Ready s) {args : CallArgs M}
    {response : Option M} {failed : Option ℕ} (hpc : s.pc = .refreshing args response failed)
    (j : CallChannel.Input Response) (now : ℤ) :
    ∃ x os, (CallChannel.channel env).step s.registryChannel j = (x,os) ∧
      (((balanceChannel env messages hash64).step s (.registry j now) =
          ({ s with registryChannel := x },os.map .registry) ∧ returnOf os = none) ∨
        (Resting { s with registryChannel := x } ∧ ∃ controller answer,
          (balanceChannel env messages hash64).step s (.registry j now) =
            ((endRefresh env messages hash64 (takeNodes hash64 { s with registryChannel := x }
                controller answer now) args response failed).1,
              os.map .registry++(endRefresh env messages hash64 (takeNodes hash64
                { s with registryChannel := x } controller answer now) args response failed).2) ∧
          returnOf os = some (controller,answer))) := by
  have hchannels := ready_refreshing h hpc
  rw [step_refreshing env messages hash64 hpc]
  refine ⟨((CallChannel.channel env).step s.registryChannel j).1,
    ((CallChannel.channel env).step s.registryChannel j).2,rfl,?_⟩
  obtain ⟨hretries,⟨hcall,hreturn⟩ | ⟨hidle,controller,answer,hreturn⟩⟩ :=
    inCall_step env rfl hchannels.registry j
  · refine .inl ⟨?_,hreturn⟩
    rw [registryStep,hreturn]
  · refine .inr ⟨?_,controller,answer,?_,hreturn⟩
    · exact ⟨hidle,hretries.trans hchannels.registryRetries,hchannels.nodes,hchannels.retries⟩
    · rw [registryStep,hreturn]

theorem run_registry_settled {s : LoadBalanceChannel M} (h : refreshing s.pc = false)
    (js : List (CallChannel.Input Response × ℤ)) :
    (balanceChannel env messages hash64).run s (fromRegistry js) = (s,[]) := by
  have hstep : ∀ j : CallChannel.Input Response × ℤ,
      (balanceChannel env messages hash64).step s (.registry j.1 j.2) = (s,[]) := by
    intro j
    simp only [balanceChannel]
    cases hpc : s.pc with
    | idle => rfl
    | refreshing args response failed =>
      rw [hpc] at h
      cases h
    | calling args attempt nodeKey => rfl
  induction js with
  | nil => rfl
  | cons j js ih =>
    rw [fromRegistry,List.map_cons,Machine.run,hstep,← fromRegistry,ih]
    rfl

theorem retryCall_settled {s : LoadBalanceChannel M} (h : Resting s) (args : CallArgs M)
    (response : Option M) (attempt : ℕ) :
    refreshing (retryCall env messages s args response attempt).1.pc = false := by
  rw [retryCall]
  split_ifs
  · rfl
  · rcases beginAttempt_cases env messages (selectNodeKeyForRetry_resting h s.failedNodeKey) args
      (attempt+1) (selectNodeKeyForRetry s s.failedNodeKey).1 with ⟨-,heq⟩ | ⟨-,-,_,heq⟩
    · dsimp only
      rw [heq]
      rfl
    · dsimp only
      rw [heq]
      rfl
  · rfl

theorem takeNodes_failedNodeKey (s : LoadBalanceChannel M) (controller : ControllerPtr)
    (answer : Option Response) (now : ℤ) :
    (takeNodes hash64 s controller answer now).failedNodeKey = s.failedNodeKey := by
  rw [takeNodes]
  split_ifs <;> rfl

theorem retryCall_selects {s : LoadBalanceChannel M} (h : Coherent hash64 (listing s))
    (hdistinct : DistinctKeys s.nodes) {args : CallArgs M} (hsync : args.done = false)
    (response : Option M) :
    (∃ k ∈ s.nodes.map nodeKey, k ≠ s.failedNodeKey ∧
      (1,k,args.request) ∈ selections (retryCall env messages s args response 0).2) ↔
        1 < s.nodes.length := by
  have hsecond : 0+1 < maxAttempts args := by
    rw [maxAttempts,hsync]
    decide
  rw [selections_retryCall,if_pos hsecond]
  by_cases hlen : s.nodes.length ≤ 1
  · rw [if_pos hlen]
    constructor
    · rintro ⟨k,-,-,hmem⟩
      cases hmem
    · intro hlt
      omega
  · rw [if_neg hlen]
    obtain ⟨hmem,hne⟩ := selectNodeKeyForRetry_finds hdistinct (by omega) h.count s.failedNodeKey
    exact ⟨fun _ => by omega,fun _ => ⟨_,hmem,hne,List.mem_singleton.mpr rfl⟩⟩

theorem refresh_retries {args : CallArgs M} (hsync : args.done = false) {response : Option M}
    (js : List (CallChannel.Input Response × ℤ)) {s : LoadBalanceChannel M} (hready : Ready s)
    (hcoherent : Coherent hash64 (listing s)) (hpc : s.pc = .refreshing args response (some 0))
    {r : LoadBalanceChannel M × List (Output M)}
    (hr : r = (balanceChannel env messages hash64).run s (fromRegistry js))
    (hover : refreshing r.1.pc = false) (hdistinct : DistinctKeys r.1.nodes) :
    (∃ k ∈ r.1.nodes.map nodeKey, k ≠ s.failedNodeKey ∧ (1,k,args.request) ∈ selections r.2) ↔
      1 < r.1.nodes.length := by
  induction js generalizing s r with
  | nil =>
    rw [hr,fromRegistry,List.map_nil,Machine.run,hpc] at hover
    cases hover
  | cons j js ih =>
    have hready' := step_ready env messages hash64 hready (.registry j.1 j.2)
    have hcoherent' := step_coherent env messages hash64 hcoherent (.registry j.1 j.2)
    rw [fromRegistry,List.map_cons,Machine.run,← fromRegistry] at hr
    obtain ⟨x,os,-,⟨hstep,-⟩ | ⟨hresting,controller,answer,hstep,-⟩⟩ :=
      registry_step env messages hash64 hready hpc j.1 j.2
    · rw [hstep] at hr hready' hcoherent'
      have hrest := ih hready' hcoherent' hpc rfl (by rw [hr] at hover; exact hover)
        (by rw [hr] at hdistinct; exact hdistinct)
      rw [hr]
      simpa using hrest
    · rw [hstep] at hr hcoherent'
      rw [listing_endRefresh] at hcoherent'
      have hkey := takeNodes_failedNodeKey hash64 { s with registryChannel := x } controller answer j.2
      generalize ht : takeNodes hash64 { s with registryChannel := x } controller answer j.2 = t at *
      have hresting' : Resting t := ht ▸ takeNodes_resting hash64 hresting controller answer j.2
      rw [endRefresh] at hr
      rw [run_registry_settled env messages hash64 (retryCall_settled env messages hresting' args
        response 0)] at hr
      have hnodes : r.1.nodes = t.nodes := by
        rw [hr]
        exact congrArg Listing.nodes
          (Keeps.eq listing_keep (retryCall_keeps env messages t args response 0))
      have hselections : selections r.2 =
          selections (retryCall env messages t args response 0).2 := by
        rw [hr]
        simp only [List.append_nil,selections_append,selections_registry,List.nil_append]
      rw [hnodes] at hdistinct ⊢
      rw [hselections,← show t.failedNodeKey = s.failedNodeKey from hkey]
      exact retryCall_selects env messages hash64 hcoherent' hdistinct hsync response

/-- After a first attempt that the client ended with a failure of the
connection, with `live` the list that the refresh leaves if there is one,
another node of `live` is tried exactly when the controller is one of this
library's and both the list before the refresh and `live` have two nodes.
The registry's lists have distinct keys (`discover_distinctKeys`). -/
theorem second_attempt_iff {s : LoadBalanceChannel M} (hs : Reachable env messages hash64 s)
    {args : CallArgs M} {f : String} (hcalling : s.pc = .calling args 0 f) (hsync : args.done = false)
    {i : CallChannel.Input M} {code : ErrorCode}
    (hraised : raises (channelFor s f).channel i = some code)
    (js : List (CallChannel.Input Response × ℤ)) {r : LoadBalanceChannel M × List (Output M)}
    (hr : r = (balanceChannel env messages hash64).run s (.node i::fromRegistry js))
    (hover : refreshing r.1.pc = false) {live : List NodeInfo}
    (hlive : refreshing ((balanceChannel env messages hash64).step s (.node i)).1.pc = true →
      r.1.nodes = live) (hdistinct : DistinctKeys live) :
    (∃ k ∈ live.map nodeKey, k ≠ f ∧ (1,k,args.request) ∈ selections r.2) ↔
      (∃ c, args.controller = .minirpc c) ∧ 1 < s.nodes.length ∧ 1 < live.length := by
  have hready := reachable_ready env messages hash64 hs
  have hready' := step_ready env messages hash64 hready (.node i)
  have hcoherent := step_coherent env messages hash64 (reachable_coherent env messages hash64 hs)
    (.node i)
  have hlevel : connectionLevel code = true := by
    rcases raises_code hraised with rfl | rfl | rfl <;> rfl
  obtain ⟨hresting,os,-,message,response,hstep⟩ := attempt_fails env messages hash64 hready hcalling
    (fun c hc => raises_ends env hraised hc)
  rw [Machine.run] at hr
  by_cases hretry : Retriable s args.controller.reset code
  · obtain ⟨args',hdone,hrequest,hend⟩ := endAttempt_retries env messages
      (s := stepNode env s f i) hretry args 0 f message response
    rw [hend] at hstep
    have hlive' := hlive (by rw [hstep]; rfl)
    rw [hstep] at hr hready' hcoherent
    have hrest := refresh_retries env messages hash64 (hdone.trans hsync) js hready' hcoherent rfl
      rfl (by rw [hr] at hover; exact hover) (by rw [← hlive',hr] at hdistinct; exact hdistinct)
    have hnodes : ((balanceChannel env messages hash64).run
        (beginRefresh env messages { stepNode env s f i with failedNodeKey := f } args' response
          (some 0)).1 (fromRegistry js)).1.nodes = live := by
      rw [← hlive',hr]
    rw [hnodes,hrequest] at hrest
    rw [hr]
    simp only [selections_append,selections_node,selections_beginRefresh,List.nil_append]
    exact hrest.trans ⟨fun h => ⟨(reset_minirpc _).mp hretry.1,hretry.2.2,h⟩,fun h => h.2.2⟩
  · have hend := endAttempt_returns env messages (s := stepNode env s f i) hretry args 0 f message
      response
    rw [hend] at hstep
    rw [hstep,run_registry_settled env messages hash64 rfl] at hr
    have hnone : selections r.2 = [] := by
      rw [hr]
      simp
    rw [hnone]
    constructor
    · rintro ⟨k,-,-,hmem⟩
      cases hmem
    · rintro ⟨hc,hlen,-⟩
      exact absurd ⟨(reset_minirpc _).mpr hc,hlevel,hlen⟩ hretry

/-- A failure of the connection to `f` is followed by an attempt on another
node of `live`, if it has one, exactly when there is none or the controller is
one of this library's and both lists have two nodes. -/
theorem fails_over_iff {s : LoadBalanceChannel M} (hs : Reachable env messages hash64 s)
    {args : CallArgs M} {f : String} (hcalling : s.pc = .calling args 0 f) (hsync : args.done = false)
    {i : CallChannel.Input M} {code : ErrorCode}
    (hraised : raises (channelFor s f).channel i = some code)
    (js : List (CallChannel.Input Response × ℤ)) {r : LoadBalanceChannel M × List (Output M)}
    (hr : r = (balanceChannel env messages hash64).run s (.node i::fromRegistry js))
    (hover : refreshing r.1.pc = false) {live : List NodeInfo}
    (hlive : refreshing ((balanceChannel env messages hash64).step s (.node i)).1.pc = true →
      r.1.nodes = live) (hdistinct : DistinctKeys live) :
    ((∃ k ∈ live.map nodeKey, k ≠ f) →
      ∃ k ∈ live.map nodeKey, k ≠ f ∧ (1,k,args.request) ∈ selections r.2) ↔
    (∀ k ∈ live.map nodeKey, k = f) ∨
      (∃ c, args.controller = .minirpc c) ∧ 1 < s.nodes.length ∧ 1 < live.length := by
  have hsecond := second_attempt_iff env messages hash64 hs hcalling hsync hraised js hr hover hlive
    hdistinct
  rw [hsecond,imp_iff_not_or]
  simp only [not_exists,not_and,not_not]

end

def attemptOf : Pc M → Option (ℕ × String × Bool × Bytes × ControllerPtr)
  | .calling args attempt nodeKey => some (attempt,nodeKey,args.done,args.request,args.controller)
  | _ => none

theorem attemptOf_eq {pc : Pc M} {attempt : ℕ} {nodeKey : String} {done : Bool} {request : Bytes}
    {controller : ControllerPtr}
    (h : attemptOf pc = some (attempt,nodeKey,done,request,controller)) :
    ∃ args, pc = .calling args attempt nodeKey ∧ args.done = done ∧ args.request = request ∧
      args.controller = controller := by
  cases pc with
  | idle => cases h
  | refreshing args response failed => cases h
  | calling args a k =>
    cases h
    exact ⟨args,rfl,rfl,rfl,rfl⟩

def calledA : LoadBalanceChannel Bytes :=
  ((balanceChannel protoEnvelopes discoverMessages sampleHash).run
    (.new "EchoService" .kRoundRobin 3000 2000 1) (firstCall CallChannel.echoArgs [nodeA,nodeB])).1

theorem calledA_reachable : Reachable protoEnvelopes discoverMessages sampleHash calledA :=
  ⟨_,_,_,_,_,_,rfl⟩

theorem calledA_attempt : ∃ args, calledA.pc = .calling args 0 (nodeKey nodeA) ∧ args.done = false ∧
    args.request = [104,105] ∧ args.controller = .minirpc {} :=
  attemptOf_eq (by decide +kernel)

def refused : CallChannel.Input Bytes := .connectReturned (some ⟨111,"Connection refused"⟩)

def refusedThen (nodes : List NodeInfo) : List (Input Bytes) :=
  .node refused::fromRegistry (discovered 2 nodes)

theorem fails_over_second_node :
    ∃ k ∈ [nodeA,nodeB].map nodeKey, k ≠ nodeKey nodeA ∧
      (1,k,[104,105]) ∈ selections ((balanceChannel protoEnvelopes discoverMessages sampleHash).run
        calledA (refusedThen [nodeA,nodeB])).2 := by
  obtain ⟨args,hcalling,hsync,hrequest,hcontroller⟩ := calledA_attempt
  have hraised : raises (channelFor calledA (nodeKey nodeA)).channel refused = some kSystem := by
    decide +kernel
  rw [← hrequest]
  have hnodes : ((balanceChannel protoEnvelopes discoverMessages sampleHash).run calledA
      (refusedThen [nodeA,nodeB])).1.nodes = [nodeA,nodeB] := by decide +kernel
  exact (fails_over_iff protoEnvelopes discoverMessages sampleHash calledA_reachable hcalling hsync
    hraised (discovered 2 [nodeA,nodeB]) rfl (by decide +kernel) (fun _ => hnodes)
    (by unfold DistinctKeys; decide +kernel)).2 (.inr ⟨⟨_,hcontroller⟩,by decide +kernel,by decide⟩)
    ⟨nodeKey nodeB,by decide +kernel,by decide +kernel⟩

/-- Node `a` has left the registry when its connection is refused: the only
node of the new list is not tried. -/
theorem survivor_not_tried :
    Reachable protoEnvelopes discoverMessages sampleHash calledA ∧
    (∃ args, calledA.pc = .calling args 0 (nodeKey nodeA) ∧ args.done = false ∧
      args.controller = .minirpc {}) ∧
    raises (channelFor calledA (nodeKey nodeA)).channel refused = some kSystem ∧
    ((balanceChannel protoEnvelopes discoverMessages sampleHash).run calledA
      (refusedThen [nodeB])).1.nodes = [nodeB] ∧ nodeKey nodeB ≠ nodeKey nodeA ∧
    ((balanceChannel protoEnvelopes discoverMessages sampleHash).run calledA
      (refusedThen [nodeB])).2.any isReturned = true ∧
    selections ((balanceChannel protoEnvelopes discoverMessages sampleHash).run calledA
      (refusedThen [nodeB])).2 = [] := by
  obtain ⟨args,hcalling,hsync,-,hcontroller⟩ := calledA_attempt
  exact ⟨calledA_reachable,⟨args,hcalling,hsync,hcontroller⟩,by decide +kernel⟩

section
variable (env : Envelopes) (messages : DiscoverMessages) (hash64 : Bytes → UInt64)

/-- What is done before `CallMethod` returns. -/
def untilReturn (os : List (Output M)) : List (Output M) := os.takeWhile fun o => !isReturned o

def sendsToNode : Output M → Bool
  | .node _ o => sends o
  | _ => false

theorem untilReturn_append {os : List (Output M)} (h : os.any isReturned = false)
    (os' : List (Output M)) : untilReturn (os++os') = os++untilReturn os' := by
  apply List.takeWhile_append_of_pos
  intro o ho
  simpa using List.any_eq_false.mp h o ho

theorem untilReturn_quiet {os : List (Output M)} (hreturn : os.any isReturned = false)
    (hsend : os.any sendsToNode = false) (os' : List (Output M)) :
    (untilReturn (os++os')).any sendsToNode = (untilReturn os').any sendsToNode := by
  rw [untilReturn_append hreturn,List.any_append,hsend,Bool.false_or]

@[simp] theorem isReturned_registry (os : List (CallChannel.Output Response)) :
    (os.map (Output.registry (M := M))).any isReturned = false := by
  rw [List.any_map]
  simp [Function.comp_def,isReturned]

@[simp] theorem isReturned_node (nodeKey : String) (os : List (CallChannel.Output M)) :
    (os.map (Output.node nodeKey)).any isReturned = false := by
  rw [List.any_map]
  simp [Function.comp_def,isReturned]

@[simp] theorem sendsToNode_registry (os : List (CallChannel.Output Response)) :
    (os.map (Output.registry (M := M))).any sendsToNode = false := by
  rw [List.any_map]
  simp [Function.comp_def,sendsToNode]

@[simp] theorem sendsToNode_node (nodeKey : String) (os : List (CallChannel.Output M)) :
    (os.map (Output.node nodeKey)).any sendsToNode = os.any sends := by
  rw [List.any_map]
  rfl

/-- A refresh after the last attempt sends nothing to a node before the call
returns. -/
theorem last_refresh_silent {args : CallArgs M} {response : Option M} {attempt : ℕ}
    (hlast : ¬ attempt+1 < maxAttempts args) (js : List (Input M)) {s : LoadBalanceChannel M}
    (hready : Ready s) (hpc : s.pc = .refreshing args response (some attempt)) :
    (untilReturn ((balanceChannel env messages hash64).run s js).2).any sendsToNode = false := by
  induction js generalizing s with
  | nil => rfl
  | cons j js ih =>
    have hready' := step_ready env messages hash64 hready j
    rw [Machine.run]
    cases j with
    | registry j now =>
      obtain ⟨x,os,-,⟨hstep,-⟩ | ⟨-,controller,answer,hstep,-⟩⟩ :=
        registry_step env messages hash64 hready hpc j now
      · rw [hstep] at hready' ⊢
        rw [untilReturn_quiet (isReturned_registry os) (sendsToNode_registry os)]
        exact ih hready' hpc
      · rw [hstep,endRefresh,retryCall,if_neg hlast,ite_self,finishCall]
        dsimp only
        rw [List.append_assoc,untilReturn_quiet (isReturned_registry os) (sendsToNode_registry os)]
        rfl
    | callMethod args now =>
      simp only [balanceChannel,hpc] at hready' ⊢
      exact ih hready' hpc
    | node i =>
      simp only [balanceChannel,hpc] at hready' ⊢
      exact ih hready' hpc

theorem run_node {args : CallArgs M} {attempt : ℕ} {nodeKey : String}
    (is : List (CallChannel.Input M)) {s : LoadBalanceChannel M}
    (hpc : s.pc = .calling args attempt nodeKey)
    (h : returnOf ((CallChannel.channel env).run (channelFor s nodeKey).channel is).2 = none) :
    ((balanceChannel env messages hash64).run s (is.map .node)).2 =
      ((CallChannel.channel env).run (channelFor s nodeKey).channel is).2.map (.node nodeKey) := by
  induction is generalizing s with
  | nil => rfl
  | cons i is ih =>
    rw [Machine.run,returnOf_append,Option.or_eq_none_iff] at h
    have hstep : (balanceChannel env messages hash64).step s (.node i) =
        (stepNode env s nodeKey i,
          ((CallChannel.channel env).step (channelFor s nodeKey).channel i).2.map (.node nodeKey)) := by
      rw [step_calling env messages hash64 hpc,nodeStep,h.1]
      rfl
    have hchannel : (channelFor (stepNode env s nodeKey i) nodeKey).channel =
        ((CallChannel.channel env).step (channelFor s nodeKey).channel i).1 := by
      rw [stepNode,channelFor_setChannel,if_pos rfl]
    have hrest := ih (s := stepNode env s nodeKey i) hpc (by rw [hchannel]; exact h.2)
    rw [List.map_cons,Machine.run,Machine.run,hstep,hrest,hchannel,List.map_append]

theorem discover_fails {s : LoadBalanceChannel M} (hready : Ready s) {args : CallArgs M}
    {response : Option M} {failed : Option ℕ} (hpc : s.pc = .refreshing args response failed)
    {j : CallChannel.Input Response} {code : ErrorCode}
    (hraised : raises s.registryChannel j = some code) (now : ℤ) :
    ∃ os : List (CallChannel.Output Response), ∃ x, Resting { s with registryChannel := x } ∧
      (balanceChannel env messages hash64).step s (.registry j now) =
        ((endRefresh env messages hash64 { s with registryChannel := x } args response failed).1,
          os.map .registry++
            (endRefresh env messages hash64 { s with registryChannel := x } args response failed).2) := by
  obtain ⟨⟨c,hcall,hc⟩,-⟩ := (ready_refreshing hready hpc).registry
  obtain ⟨message,-,hreturn,-⟩ := raises_ends env hraised hcall
  rw [hc] at hreturn
  obtain ⟨x,os,heq,⟨-,hnone⟩ | ⟨hresting,controller,answer,hstep,hsome⟩⟩ :=
    registry_step env messages hash64 hready hpc j now
  · rw [heq,hnone] at hreturn
    cases hreturn
  · rw [heq,hsome] at hreturn
    cases hreturn
    exact ⟨os,x,hresting,hstep⟩

theorem refresh_can_send {args : CallArgs M} {response : Option M} {attempt : ℕ}
    (hmore : attempt+1 < maxAttempts args) {s : LoadBalanceChannel M} (hready : Ready s)
    (hpc : s.pc = .refreshing args response (some attempt)) (hlen : 1 < s.nodes.length)
    (hretries : 0 ≤ s.callRetries) :
    ∃ js, (untilReturn ((balanceChannel env messages hash64).run s js).2).any sendsToNode = true := by
  obtain ⟨⟨c,hcall,-⟩,-⟩ := (ready_refreshing hready hpc).registry
  obtain ⟨j,code,hraised⟩ := raises_exists hcall
  obtain ⟨os,x,hresting,hstep⟩ := discover_fails env messages hash64 hready hpc hraised 0
  generalize ht : { s with registryChannel := x } = t at hresting hstep
  have hlen' : ¬ t.nodes.length ≤ 1 := by
    rw [← ht]
    dsimp only
    omega
  rw [endRefresh,retryCall,if_neg hlen',if_pos hmore] at hstep
  have hk := selectNodeKeyForRetry_resting hresting t.failedNodeKey
  have hkretries : (selectNodeKeyForRetry t t.failedNodeKey).2.callRetries = s.callRetries := by
    rw [selectNodeKeyForRetry,← ht]
    split_ifs <;> rfl
  generalize selectNodeKeyForRetry t t.failedNodeKey = k at hstep hk hkretries
  rw [← hkretries] at hretries
  rcases beginAttempt_cases env messages hk args (attempt+1) k.1 with ⟨hcall,heq⟩ | ⟨hneg,-⟩
  · dsimp only at hstep
    rw [heq] at hstep
    obtain ⟨is,hreturn,hsends⟩ := callMethod_can_send env
      (le_of_le_of_eq hretries (hk.retries k.1).symm) args
    have hchannel : (channelFor { attempted env k.2 args k.1 with
        pc := .calling args (attempt+1) k.1 } k.1).channel =
        (CallChannel.callMethod env (channelFor k.2 k.1).channel args).1 := by
      show (channelFor (attempted env k.2 args k.1) k.1).channel = _
      rw [attempted,channelFor_setChannel,if_pos rfl]
    have hrun := run_node env messages hash64 is (s := { attempted env k.2 args k.1 with
      pc := .calling args (attempt+1) k.1 }) rfl (by rw [hchannel]; exact hreturn)
    rw [hchannel] at hrun
    have hopening : (opening env k.2 args (attempt+1) k.1).any isReturned = false := by
      rw [opening,List.any_cons,isReturned_node]
      rfl
    refine ⟨.registry j 0::is.map .node,?_⟩
    rw [Machine.run,hstep,hrun,List.append_assoc,untilReturn_append (isReturned_registry os),
      untilReturn_append hopening]
    have hlast := untilReturn_append (isReturned_node k.1 ((CallChannel.channel env).run
      (CallChannel.callMethod env (channelFor k.2 k.1).channel args).1 is).2) []
    rw [List.append_nil] at hlast
    rw [hlast,List.any_append,List.any_append,List.any_append,sendsToNode_node,hsends]
    simp
  · omega

theorem connectionLevel_iff (code : ErrorCode) :
    connectionLevel code = true ↔
      code.value = kClosed.value ∨ code.value = kSystem.value ∨ code.value = kTimeout.value := by
  have heq : ∀ c : ErrorCode, code = c ↔ code.value = c.value :=
    fun c => ⟨congrArg _,fun h => by cases code; cases c; exact congrArg _ h⟩
  simp only [connectionLevel,Bool.or_eq_true,decide_eq_true_eq,or_assoc,heq]

theorem lt_maxAttempts (args : CallArgs M) (attempt : ℕ) :
    attempt+1 < maxAttempts args ↔ attempt = 0 ∧ args.done = false := by
  rw [maxAttempts]
  cases args.done with
  | false =>
    simp only [Bool.false_eq_true,if_false,and_true]
    omega
  | true => simp

theorem refresh_silent_iff {args : CallArgs M} {response : Option M} {attempt : ℕ}
    {s : LoadBalanceChannel M} (hready : Ready s)
    (hpc : s.pc = .refreshing args response (some attempt)) (hlen : 1 < s.nodes.length)
    (hretries : 0 ≤ s.callRetries) :
    (∀ js, (untilReturn ((balanceChannel env messages hash64).run s js).2).any sendsToNode = false) ↔
      ¬ (attempt = 0 ∧ args.done = false) := by
  rw [← lt_maxAttempts]
  constructor
  · intro hall hmore
    obtain ⟨js,hjs⟩ := refresh_can_send env messages hash64 hmore hready hpc hlen hretries
    rw [hall js] at hjs
    cases hjs
  · exact fun hlast js => last_refresh_silent env messages hash64 hlast js hready hpc

/-- After an answer that reports an error, no request is sent to any node
before the call returns, unless the code is that of a failure of the
connection and the call has another attempt and another node. -/
theorem answer_final_iff {s : LoadBalanceChannel M} (hs : Reachable env messages hash64 s)
    {args : CallArgs M} {attempt : ℕ} {nodeKey : String}
    (hcalling : s.pc = .calling args attempt nodeKey) {i : CallChannel.Input M} {resp : RpcResponse}
    (hanswer : answers env (channelFor s nodeKey).channel i = some resp)
    (herror : resp.errorCode ≠ kOk.value) :
    (∀ js, (untilReturn ((balanceChannel env messages hash64).run s (.node i::js)).2).any sendsToNode =
      false) ↔
    ¬ (attempt = 0 ∧ args.done = false ∧ (∃ c, args.controller = .minirpc c) ∧
      (resp.errorCode = kClosed.value ∨ resp.errorCode = kSystem.value ∨
        resp.errorCode = kTimeout.value) ∧ 1 < s.nodes.length) := by
  have hready := reachable_ready env messages hash64 hs
  have hready' := step_ready env messages hash64 hready (.node i)
  obtain ⟨hresting,os,hsilent,message,response,hstep⟩ := attempt_fails env messages hash64 hready
    hcalling (fun c hc => answers_ends env hanswer herror hc)
  have hnode : (os.map (Output.node nodeKey)).any sendsToNode = false := by
    rw [sendsToNode_node,hsilent]
  by_cases hretry : Retriable s args.controller.reset ⟨resp.errorCode⟩
  · obtain ⟨args',hdone,-,hend⟩ := endAttempt_retries env messages (s := stepNode env s nodeKey i)
      hretry args attempt nodeKey message response
    rw [hend] at hstep
    rw [hstep] at hready'
    dsimp only at hready'
    generalize hu : beginRefresh env messages { stepNode env s nodeKey i with failedNodeKey := nodeKey }
      args' response (some attempt) = u at hstep hready'
    have hpc : u.1.pc = .refreshing args' response (some attempt) := by
      rw [← hu]
      rfl
    have hquiet : u.2.any isReturned = false ∧ u.2.any sendsToNode = false := by
      rw [← hu]
      exact ⟨isReturned_registry _,sendsToNode_registry _⟩
    have hrun : ∀ js, (untilReturn ((balanceChannel env messages hash64).run s (.node i::js)).2).any
        sendsToNode =
        (untilReturn ((balanceChannel env messages hash64).run u.1 js).2).any sendsToNode := by
      intro js
      rw [Machine.run,hstep]
      dsimp only
      rw [List.append_assoc,untilReturn_quiet (isReturned_node nodeKey os) hnode,
        untilReturn_quiet hquiet.1 hquiet.2]
    have hretries : 0 ≤ u.1.callRetries := by
      have hchannels := ready_calling hready hcalling
      rw [← hu]
      exact le_of_le_of_eq (answers_attempting hanswer (onlyNode_inCall hchannels).2)
        (hchannels.retries nodeKey)
    have hlen : 1 < u.1.nodes.length := by
      rw [← hu]
      exact hretry.2.2
    simp only [hrun]
    rw [refresh_silent_iff env messages hash64 hready' hpc hlen hretries,hdone]
    apply not_congr
    constructor
    · rintro ⟨hfirst,hsync⟩
      exact ⟨hfirst,hsync,(reset_minirpc _).mp hretry.1,(connectionLevel_iff _).mp hretry.2.1,
        hretry.2.2⟩
    · rintro ⟨hfirst,hsync,-⟩
      exact ⟨hfirst,hsync⟩
  · have hend := endAttempt_returns env messages (s := stepNode env s nodeKey i) hretry args attempt
      nodeKey message response
    rw [hend,finishCall] at hstep
    constructor
    · rintro - ⟨-,-,hc,hcode,hlen⟩
      exact hretry ⟨(reset_minirpc _).mpr hc,(connectionLevel_iff _).mpr hcode,hlen⟩
    · intro _ js
      rw [Machine.run,hstep]
      dsimp only
      rw [List.append_assoc,untilReturn_quiet (isReturned_node nodeKey os) hnode]
      rfl

end

def waitingA : LoadBalanceChannel Bytes :=
  ((balanceChannel protoEnvelopes discoverMessages sampleHash).run
    (.new "EchoService" .kRoundRobin 3000 2000 1)
    (firstCall CallChannel.echoArgs [nodeA,nodeB]++[.node (.connectReturned none),.node sentAll])).1

theorem waitingA_reachable : Reachable protoEnvelopes discoverMessages sampleHash waitingA :=
  ⟨_,_,_,_,_,_,rfl⟩

theorem waitingA_attempt : ∃ args, waitingA.pc = .calling args 0 (nodeKey nodeA) ∧
    args.done = false ∧ args.request = [104,105] ∧ args.controller = .minirpc {} :=
  attemptOf_eq (by decide +kernel)

theorem answer_final_invalid_argument :
    answers protoEnvelopes (channelFor waitingA (nodeKey nodeA)).channel
      (answeredWith 1 { errorCode := kInvalidArgument.value, errorMessage := "empty" }) =
        some { errorCode := kInvalidArgument.value, errorMessage := "empty" } ∧
    ∀ js, (untilReturn ((balanceChannel protoEnvelopes discoverMessages sampleHash).run waitingA
      (.node (answeredWith 1 { errorCode := kInvalidArgument.value, errorMessage := "empty" })::js)
      ).2).any sendsToNode = false := by
  obtain ⟨args,hcalling,-⟩ := waitingA_attempt
  have hanswer : answers protoEnvelopes (channelFor waitingA (nodeKey nodeA)).channel
      (answeredWith 1 { errorCode := kInvalidArgument.value, errorMessage := "empty" }) =
        some { errorCode := kInvalidArgument.value, errorMessage := "empty" } := by
    decide +kernel
  refine ⟨hanswer,(answer_final_iff protoEnvelopes discoverMessages sampleHash waitingA_reachable
    hcalling hanswer (by decide)).mpr ?_⟩
  rintro ⟨-,-,-,hcode,-⟩
  revert hcode
  decide

/-- The service on node `a` fails the call with the code of a timeout, and
the request is sent to node `b` as well. -/
theorem answered_timeout_retried :
    Reachable protoEnvelopes discoverMessages sampleHash waitingA ∧
    (∃ args, waitingA.pc = .calling args 0 (nodeKey nodeA)) ∧
    answers protoEnvelopes (channelFor waitingA (nodeKey nodeA)).channel
      (answeredWith 1 { errorCode := kTimeout.value, errorMessage := "backend timeout" }) =
        some { errorCode := kTimeout.value, errorMessage := "backend timeout" } ∧
    kTimeout.value ≠ kOk.value ∧
    (untilReturn ((balanceChannel protoEnvelopes discoverMessages sampleHash).run waitingA
      (.node (answeredWith 1 { errorCode := kTimeout.value, errorMessage := "backend timeout" })::
        fromRegistry (discovered 2 [nodeA,nodeB])++[.node (.connectReturned none),.node sentAll])
      ).2).any sendsToNode = true := by
  obtain ⟨args,hcalling,-⟩ := waitingA_attempt
  exact ⟨waitingA_reachable,⟨args,hcalling⟩,by decide +kernel⟩

end MiniRpc.FailOver
