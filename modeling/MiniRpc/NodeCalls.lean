import Mathlib.Logic.Relation
import MiniRpc.BalanceChannel

/-!
# The channels behind a load-balancing channel

Only the channel that `CallMethod` is blocked in has a call in progress;
every other one is idle. The round robin counts, and the ring holds, the
nodes of the current list. A call that starts on an idle channel cannot
fail before it blocks, so the refresh or the attempt it belongs to begins
with a blocked channel or ends the call.
-/

set_option autoImplicit false

namespace MiniRpc.NodeCalls
open MiniRpc.ByteBuffer MiniRpc.CallController MiniRpc.StepMachine MiniRpc.KeyedTable
open MiniRpc.NodeRegistry MiniRpc.LoadBalancer MiniRpc.CallOutcome MiniRpc.BalanceChannel
open MiniRpc.CallChannel (RpcChannel CallArgs)

variable {M N : Type}

def Idle (x : RpcChannel N) : Prop := x.pc = .idle

def InCall (p : ControllerPtr) (x : RpcChannel N) : Prop :=
  (∃ c, callOf x.pc = some c ∧ c.controller = p) ∧ Attempting x

/-- The states of the registry's channel and of the nodes' channels, those
not yet created included. -/
structure Channels (registry : RpcChannel Response → Prop) (node : String → RpcChannel M → Prop)
    (s : LoadBalanceChannel M) : Prop where
  registry : registry s.registryChannel
  registryRetries : s.registryChannel.maxRetries = 1
  nodes : ∀ k, node k (channelFor s k).channel
  retries : ∀ k, (channelFor s k).channel.maxRetries = s.callRetries

def Resting (s : LoadBalanceChannel M) : Prop := Channels Idle (fun _ => Idle) s

def onlyNode (nodeKey : String) (p : ControllerPtr) (k : String) (x : RpcChannel M) : Prop :=
  if k = nodeKey then InCall p x else Idle x

def Ready (s : LoadBalanceChannel M) : Prop :=
  match s.pc with
  | .idle => Resting s
  | .refreshing _ _ _ => Channels (InCall (.minirpc {})) (fun _ => Idle) s
  | .calling args _ nodeKey => Channels Idle (onlyNode nodeKey args.controller.reset) s

theorem onlyNode_inCall {registry : RpcChannel Response → Prop} {nodeKey : String}
    {p : ControllerPtr} {s : LoadBalanceChannel M} (h : Channels registry (onlyNode nodeKey p) s) :
    InCall p (channelFor s nodeKey).channel := by
  have hnode := h.nodes nodeKey
  rwa [onlyNode,if_pos rfl] at hnode

theorem onlyNode_idle {nodeKey k : String} {p : ControllerPtr} {x : RpcChannel M} (hk : k ≠ nodeKey)
    (h : onlyNode nodeKey p k x) : Idle x := by
  rwa [onlyNode,if_neg hk] at h

theorem ready_refreshing {s : LoadBalanceChannel M} (h : Ready s) {args : CallArgs M}
    {response : Option M} {failed : Option ℕ} (hpc : s.pc = .refreshing args response failed) :
    Channels (InCall (.minirpc {})) (fun _ => Idle) s := by
  rw [Ready,hpc] at h
  exact h

theorem ready_calling {s : LoadBalanceChannel M} (h : Ready s) {args : CallArgs M} {attempt : ℕ}
    {nodeKey : String} (hpc : s.pc = .calling args attempt nodeKey) :
    Channels Idle (onlyNode nodeKey args.controller.reset) s := by
  rw [Ready,hpc] at h
  exact h

theorem channelFor_setChannel (s : LoadBalanceChannel M) (nodeKey k : String) (x : NodeChannel M) :
    channelFor (setChannel s nodeKey x) k = if k = nodeKey then x else channelFor s k := by
  rw [channelFor.eq_def,setChannel]
  dsimp only
  rw [lookup_insert_cases]
  by_cases hk : k = nodeKey
  · rw [if_pos hk,if_pos hk]
  · rw [if_neg hk,if_neg hk]
    rfl

theorem channels_setChannel {registry : RpcChannel Response → Prop}
    {node node' : String → RpcChannel M → Prop} {s : LoadBalanceChannel M}
    (h : Channels registry node s) {nodeKey : String} {x : NodeChannel M}
    (hx : node' nodeKey x.channel) (hretries : x.channel.maxRetries = s.callRetries)
    (hrest : ∀ k, k ≠ nodeKey → ∀ y, node k y → node' k y) :
    Channels registry node' (setChannel s nodeKey x) := by
  refine ⟨h.registry,h.registryRetries,fun k => ?_,fun k => ?_⟩
  · rw [channelFor_setChannel]
    by_cases hk : k = nodeKey
    · rw [if_pos hk,hk]
      exact hx
    · rw [if_neg hk]
      exact hrest k hk _ (h.nodes k)
  · rw [channelFor_setChannel]
    by_cases hk : k = nodeKey
    · rw [if_pos hk]
      exact hretries
    · rw [if_neg hk]
      exact h.retries k

theorem channels_of_eq {registry : RpcChannel Response → Prop} {node : String → RpcChannel M → Prop}
    {s s' : LoadBalanceChannel M} (h : Channels registry node s)
    (hregistry : s'.registryChannel = s.registryChannel) (hchannels : s'.channels = s.channels)
    (htimeout : s'.callTimeoutMs = s.callTimeoutMs) (hretries : s'.callRetries = s.callRetries) :
    Channels registry node s' := by
  have hfor : ∀ k, channelFor s' k = channelFor s k := by
    intro k
    rw [channelFor.eq_def,channelFor.eq_def,hchannels,htimeout,hretries]
  refine ⟨?_,?_,fun k => ?_,fun k => ?_⟩
  · rw [hregistry]
    exact h.registry
  · rw [hregistry]
    exact h.registryRetries
  · rw [hfor]
    exact h.nodes k
  · rw [hfor,hretries]
    exact h.retries k

section
variable (env : Envelopes) (messages : DiscoverMessages) (hash64 : Bytes → UInt64)

theorem finishCall_ready {s : LoadBalanceChannel M} (h : Resting s) (controller : ControllerPtr)
    (response : Option M) : Ready (finishCall s controller response).1 :=
  channels_of_eq h rfl rfl rfl rfl

theorem step_callMethod {x : RpcChannel N} (h : Idle x) (args : CallArgs N) :
    (CallChannel.channel env).step x (.callMethod args) = CallChannel.callMethod env x args := by
  simp only [CallChannel.channel,show x.pc = .idle from h]

theorem callMethod_begins (x : RpcChannel N) (args : CallArgs N) :
    (InCall args.controller.reset (CallChannel.callMethod env x args).1 ∧
      returnOf (CallChannel.callMethod env x args).2 = none) ∨
    (Idle (CallChannel.callMethod env x args).1 ∧ x.maxRetries < 0 ∧
      ∃ response, returnOf (CallChannel.callMethod env x args).2 =
        some (args.controller.reset,response)) := by
  have hout := callMethod_outcome env x args
  have hreturned := @callMethod_returned N x env args
  generalize CallChannel.callMethod env x args = r at hout hreturned ⊢
  cases hout with
  | continues c hcall hc hlive hreturn hretries => exact .inl ⟨⟨⟨c,hcall,hc⟩,hlive⟩,hreturn⟩
  | returns controller response hidle hreturn hc hretries =>
    obtain ⟨rfl,hneg⟩ := hreturned hreturn
    exact .inr ⟨hidle,hneg,response,hreturn⟩

theorem callMethod_maxRetries (x : RpcChannel N) (args : CallArgs N) :
    (CallChannel.callMethod env x args).1.maxRetries = x.maxRetries := by
  have hout := callMethod_outcome env x args
  generalize CallChannel.callMethod env x args = r at hout ⊢
  cases hout with
  | continues c hcall hc hlive hreturn hretries => exact hretries
  | returns controller response hidle hreturn hc hretries => exact hretries

theorem beginRefresh_ready {s : LoadBalanceChannel M} (h : Resting s) (args : CallArgs M)
    (response : Option M) (failed : Option ℕ) :
    Ready (beginRefresh env messages s args response failed).1 := by
  rw [beginRefresh,step_callMethod env h.registry]
  refine ⟨?_,?_,h.nodes,h.retries⟩
  · rcases callMethod_begins env s.registryChannel (discoverArgs messages s) with
      ⟨hcall,-⟩ | ⟨-,hneg,-⟩
    · exact hcall
    · rw [h.registryRetries] at hneg
      omega
  · rw [callMethod_maxRetries]
    exact h.registryRetries

theorem endAttempt_ready {s : LoadBalanceChannel M} (h : Resting s) (args : CallArgs M)
    (attempt : ℕ) (nodeKey : String) (controller : ControllerPtr) (response : Option M) :
    Ready (endAttempt env messages s args attempt nodeKey controller response).1 := by
  rw [endAttempt]
  split_ifs
  · exact finishCall_ready h controller response
  · exact finishCall_ready h controller response
  · exact finishCall_ready h controller response
  · apply beginRefresh_ready
    exact channels_of_eq h rfl rfl rfl rfl

def attempted (s : LoadBalanceChannel M) (args : CallArgs M) (nodeKey : String) :
    LoadBalanceChannel M :=
  setChannel s nodeKey { channelFor s nodeKey with
    channel := (CallChannel.callMethod env (channelFor s nodeKey).channel args).1 }

def opening (s : LoadBalanceChannel M) (args : CallArgs M) (attempt : ℕ) (nodeKey : String) :
    List (Output M) :=
  .selected attempt nodeKey args.request::
    (CallChannel.callMethod env (channelFor s nodeKey).channel args).2.map (.node nodeKey)

theorem beginAttempt_cases {s : LoadBalanceChannel M} (h : Resting s) (args : CallArgs M)
    (attempt : ℕ) (nodeKey : String) :
    (Channels Idle (onlyNode nodeKey args.controller.reset) (attempted env s args nodeKey) ∧
      beginAttempt env messages s args attempt nodeKey =
        ({ attempted env s args nodeKey with pc := .calling args attempt nodeKey },
          opening env s args attempt nodeKey)) ∨
    (s.callRetries < 0 ∧ Resting (attempted env s args nodeKey) ∧
      ∃ response, beginAttempt env messages s args attempt nodeKey =
        ({ attempted env s args nodeKey with pc := .idle },
          opening env s args attempt nodeKey++[.returned args.controller.reset response])) := by
  have hretries := (callMethod_maxRetries env (channelFor s nodeKey).channel args).trans
    (h.retries nodeKey)
  rw [beginAttempt,step_callMethod env (h.nodes nodeKey)]
  rcases callMethod_begins env (channelFor s nodeKey).channel args with
    ⟨hcall,hreturn⟩ | ⟨hidle,hneg,response,hreturn⟩
  · rw [hreturn]
    refine .inl ⟨channels_setChannel h ?_ hretries fun k hk y hy => ?_,rfl⟩
    · rw [onlyNode,if_pos rfl]
      exact hcall
    · rw [onlyNode,if_neg hk]
      exact hy
  · rw [hreturn]
    rw [h.retries nodeKey] at hneg
    refine .inr ⟨hneg,channels_setChannel h hidle hretries fun k _ y hy => hy,response,?_⟩
    dsimp only
    rw [endAttempt,if_pos (reset_not_failed args.controller)]
    rfl

theorem beginAttempt_ready {s : LoadBalanceChannel M} (h : Resting s) (args : CallArgs M)
    (attempt : ℕ) (nodeKey : String) : Ready (beginAttempt env messages s args attempt nodeKey).1 := by
  rcases beginAttempt_cases env messages h args attempt nodeKey with
    ⟨hcall,heq⟩ | ⟨-,hrest,response,heq⟩
  · rw [heq]
    exact channels_of_eq hcall rfl rfl rfl rfl
  · rw [heq]
    exact channels_of_eq hrest rfl rfl rfl rfl

theorem selectNodeKey_resting {s : LoadBalanceChannel M} (h : Resting s) (hashKey : Bytes) :
    Resting (selectNodeKey hash64 s hashKey).2 := by
  rw [selectNodeKey]
  dsimp only
  split_ifs
  · exact h
  · exact h
  · exact channels_of_eq h rfl rfl rfl rfl
  · exact channels_of_eq h rfl rfl rfl rfl

theorem selectNodeKeyForRetry_resting {s : LoadBalanceChannel M} (h : Resting s)
    (failedKey : String) : Resting (selectNodeKeyForRetry s failedKey).2 := by
  rw [selectNodeKeyForRetry]
  split_ifs
  · exact h
  · exact channels_of_eq h rfl rfl rfl rfl

theorem startCall_ready {s : LoadBalanceChannel M} (h : Resting s) (args : CallArgs M) :
    Ready (startCall env messages hash64 s args).1 := by
  rw [startCall]
  by_cases hempty : s.nodes = []
  · rw [if_pos hempty]
    exact channels_of_eq h rfl rfl rfl rfl
  · rw [if_neg hempty]
    exact beginAttempt_ready env messages (selectNodeKey_resting hash64 h _) args 0 _

theorem retryCall_ready {s : LoadBalanceChannel M} (h : Resting s) (args : CallArgs M)
    (response : Option M) (attempt : ℕ) : Ready (retryCall env messages s args response attempt).1 := by
  rw [retryCall]
  split_ifs
  · exact finishCall_ready h _ response
  · exact beginAttempt_ready env messages (selectNodeKeyForRetry_resting h _) args _ _
  · exact finishCall_ready h _ response

theorem callMethod_ready {s : LoadBalanceChannel M} (h : Resting s) (args : CallArgs M) (now : ℤ) :
    Ready (callMethod env messages hash64 s args now).1 := by
  rw [callMethod]
  dsimp only
  split_ifs
  · exact beginRefresh_ready env messages h _ none none
  · exact startCall_ready env messages hash64 h _

theorem takeNodes_resting {s : LoadBalanceChannel M} (h : Resting s) (controller : ControllerPtr)
    (answer : Option Response) (now : ℤ) : Resting (takeNodes hash64 s controller answer now) := by
  rw [takeNodes]
  split_ifs
  · exact h
  · exact channels_of_eq h rfl rfl rfl rfl

theorem endRefresh_ready {s : LoadBalanceChannel M} (h : Resting s) (args : CallArgs M)
    (response : Option M) (failed : Option ℕ) :
    Ready (endRefresh env messages hash64 s args response failed).1 := by
  cases failed with
  | none => exact startCall_ready env messages hash64 h args
  | some attempt => exact retryCall_ready env messages h args response attempt

theorem inCall_step {p : ControllerPtr} (hp : p.reset = p) {x : RpcChannel N} (h : InCall p x)
    (i : CallChannel.Input N) :
    ((CallChannel.channel env).step x i).1.maxRetries = x.maxRetries ∧
    ((InCall p ((CallChannel.channel env).step x i).1 ∧
        returnOf ((CallChannel.channel env).step x i).2 = none) ∨
      (Idle ((CallChannel.channel env).step x i).1 ∧ ∃ controller response,
        returnOf ((CallChannel.channel env).step x i).2 = some (controller,response))) := by
  obtain ⟨⟨c,hcall,hc⟩,hlive⟩ := h
  have hout := step_outcome env hcall hc hp hlive i
  generalize (CallChannel.channel env).step x i = r at hout ⊢
  cases hout with
  | continues c hcall hc hlive hreturn hretries =>
    exact ⟨hretries,.inl ⟨⟨⟨c,hcall,hc⟩,hlive⟩,hreturn⟩⟩
  | returns controller response hidle hreturn hc hretries =>
    exact ⟨hretries,.inr ⟨hidle,controller,response,hreturn⟩⟩

theorem registryStep_ready {s : LoadBalanceChannel M} {args : CallArgs M} {response : Option M}
    {failed : Option ℕ} (hpc : s.pc = .refreshing args response failed)
    (h : Channels (InCall (.minirpc {})) (fun _ => Idle) s) (i : CallChannel.Input Response)
    (now : ℤ) : Ready (registryStep env messages hash64 s args response failed i now).1 := by
  obtain ⟨hretries,⟨hcall,hreturn⟩ | ⟨hidle,controller,answer,hreturn⟩⟩ :=
    inCall_step env rfl h.registry i
  · rw [registryStep,hreturn,Ready]
    dsimp only
    rw [hpc]
    exact ⟨hcall,hretries.trans h.registryRetries,h.nodes,h.retries⟩
  · rw [registryStep,hreturn]
    apply endRefresh_ready
    apply takeNodes_resting
    exact ⟨hidle,hretries.trans h.registryRetries,h.nodes,h.retries⟩

theorem nodeStep_ready {s : LoadBalanceChannel M} {args : CallArgs M} {attempt : ℕ}
    {nodeKey : String} (hpc : s.pc = .calling args attempt nodeKey)
    (h : Channels Idle (onlyNode nodeKey args.controller.reset) s) (i : CallChannel.Input M) :
    Ready (nodeStep env messages s args attempt nodeKey i).1 := by
  obtain ⟨hretries,⟨hcall,hreturn⟩ | ⟨hidle,controller,answer,hreturn⟩⟩ :=
    inCall_step env (reset_reset _) (onlyNode_inCall h) i
  · rw [nodeStep,hreturn,Ready]
    dsimp only
    rw [show (setChannel s nodeKey _).pc = _ from hpc]
    refine channels_setChannel h ?_ (hretries.trans (h.retries nodeKey)) fun k _ y hy => hy
    rw [onlyNode,if_pos rfl]
    exact hcall
  · rw [nodeStep,hreturn]
    apply endAttempt_ready
    exact channels_setChannel h hidle (hretries.trans (h.retries nodeKey))
      fun k hk y hy => onlyNode_idle hk hy

theorem step_refreshing {s : LoadBalanceChannel M} {args : CallArgs M} {response : Option M}
    {failed : Option ℕ} (hpc : s.pc = .refreshing args response failed)
    (j : CallChannel.Input Response) (now : ℤ) :
    (balanceChannel env messages hash64).step s (.registry j now) =
      registryStep env messages hash64 s args response failed j now := by
  simp only [balanceChannel,hpc]

theorem step_calling {s : LoadBalanceChannel M} {args : CallArgs M} {attempt : ℕ} {nodeKey : String}
    (hpc : s.pc = .calling args attempt nodeKey) (j : CallChannel.Input M) :
    (balanceChannel env messages hash64).step s (.node j) =
      nodeStep env messages s args attempt nodeKey j := by
  simp only [balanceChannel,hpc]

theorem step_ready {s : LoadBalanceChannel M} (h : Ready s) (i : Input M) :
    Ready ((balanceChannel env messages hash64).step s i).1 := by
  simp only [balanceChannel]
  split
  case h_1 args now hpc =>
    rw [Ready,hpc] at h
    exact callMethod_ready env messages hash64 h args now
  case h_2 args response failed j now hpc =>
    exact registryStep_ready env messages hash64 hpc (ready_refreshing h hpc) j now
  case h_3 args attempt nodeKey j hpc =>
    exact nodeStep_ready env messages hpc (ready_calling h hpc) j
  case h_4 => exact h

theorem new_ready (serviceName : String) (type : BalanceType)
    (refreshIntervalMs callTimeoutMs callRetries : ℤ) :
    Ready (LoadBalanceChannel.new (M := M) serviceName type refreshIntervalMs callTimeoutMs
      callRetries) :=
  ⟨rfl,rfl,fun _ => rfl,fun _ => rfl⟩

theorem run_ready {s : LoadBalanceChannel M} (h : Ready s) (is : List (Input M)) :
    Ready ((balanceChannel env messages hash64).run s is).1 :=
  run_invariant _ (fun s _ => Ready s) (fun _ _ i h => step_ready env messages hash64 h i) s is h

theorem reachable_ready {s : LoadBalanceChannel M} (h : Reachable env messages hash64 s) :
    Ready s := by
  obtain ⟨_,_,_,_,_,is,rfl⟩ := h
  exact run_ready env messages hash64 (new_ready _ _ _ _ _) is

end

/-- What a call writes outside `refreshNodes`. -/
inductive Keep : LoadBalanceChannel M → LoadBalanceChannel M → Prop
  | pc (s : LoadBalanceChannel M) (pc : Pc M) : Keep s { s with pc := pc }
  | registryChannel (s : LoadBalanceChannel M) (x : RpcChannel Response) :
      Keep s { s with registryChannel := x }
  | turn (s : LoadBalanceChannel M) (r : RoundRobin) (h : r.nodeCount = s.roundRobin.nodeCount) :
      Keep s { s with roundRobin := r }
  | failedNodeKey (s : LoadBalanceChannel M) (nodeKey : String) :
      Keep s { s with failedNodeKey := nodeKey }
  | nodeChannel (s : LoadBalanceChannel M) (nodeKey : String) (x : RpcChannel M) :
      Keep s (setChannel s nodeKey { channelFor s nodeKey with channel := x })

def Keeps : LoadBalanceChannel M → LoadBalanceChannel M → Prop := Relation.ReflTransGen Keep

theorem Keep.keeps {s t : LoadBalanceChannel M} (h : Keep s t) : Keeps s t := .single h

theorem Keeps.trans {s t u : LoadBalanceChannel M} (h : Keeps s t) (h' : Keeps t u) : Keeps s u :=
  Relation.ReflTransGen.trans h h'

/-- What no single write changes is the same after all of them. -/
theorem Keeps.eq {α : Type} {f : LoadBalanceChannel M → α} (hf : ∀ s t, Keep s t → f t = f s)
    {s t : LoadBalanceChannel M} (h : Keeps s t) : f t = f s := by
  induction h with
  | refl => rfl
  | tail _ hlast ih => exact (hf _ _ hlast).trans ih

section
variable (env : Envelopes) (messages : DiscoverMessages) (hash64 : Bytes → UInt64)
variable (s : LoadBalanceChannel M) (args : CallArgs M) (response : Option M)

theorem finishCall_keeps (controller : ControllerPtr) : Keeps s (finishCall s controller response).1 :=
  (Keep.pc s _).keeps

theorem beginRefresh_keeps (failed : Option ℕ) :
    Keeps s (beginRefresh env messages s args response failed).1 :=
  (Keep.pc s (.refreshing args response failed)).keeps.trans
    (Keep.registryChannel { s with pc := .refreshing args response failed } _).keeps

theorem endAttempt_keeps (attempt : ℕ) (nodeKey : String) (controller : ControllerPtr) :
    Keeps s (endAttempt env messages s args attempt nodeKey controller response).1 := by
  rw [endAttempt]
  split_ifs
  · exact finishCall_keeps s response controller
  · exact finishCall_keeps s response controller
  · exact finishCall_keeps s response controller
  · exact (Keep.failedNodeKey s nodeKey).keeps.trans (beginRefresh_keeps env messages _ _ _ _)

theorem beginAttempt_keeps (attempt : ℕ) (nodeKey : String) :
    Keeps s (beginAttempt env messages s args attempt nodeKey).1 := by
  rw [beginAttempt]
  dsimp only
  split
  · exact (Keep.nodeChannel s nodeKey _).keeps.trans (Keep.pc _ _).keeps
  · exact (Keep.nodeChannel s nodeKey _).keeps.trans (endAttempt_keeps env messages _ _ _ _ _ _)

theorem nextByTurn_keeps : Keeps s (nextByTurn s).2 :=
  (Keep.turn s _ (next_nodeCount s.roundRobin)).keeps

theorem selectNodeKey_keeps (hashKey : Bytes) : Keeps s (selectNodeKey hash64 s hashKey).2 := by
  rw [selectNodeKey]
  dsimp only
  split_ifs
  · exact .refl
  · exact .refl
  · exact nextByTurn_keeps s
  · exact nextByTurn_keeps s

theorem selectNodeKeyForRetry_keeps (failedKey : String) :
    Keeps s (selectNodeKeyForRetry s failedKey).2 := by
  rw [selectNodeKeyForRetry]
  split_ifs
  · exact .refl
  · exact (Keep.turn s _ (scanForRetry_nodeCount _ _ _ _)).keeps

theorem startCall_keeps : Keeps s (startCall env messages hash64 s args).1 := by
  rw [startCall]
  by_cases hempty : s.nodes = []
  · rw [if_pos hempty]
    exact (Keep.pc s _).keeps
  · rw [if_neg hempty]
    exact (selectNodeKey_keeps hash64 s _).trans (beginAttempt_keeps env messages _ _ _ _)

theorem retryCall_keeps (attempt : ℕ) :
    Keeps s (retryCall env messages s args response attempt).1 := by
  rw [retryCall]
  split_ifs
  · exact finishCall_keeps s response _
  · exact (selectNodeKeyForRetry_keeps s _).trans (beginAttempt_keeps env messages _ _ _ _)
  · exact finishCall_keeps s response _

theorem endRefresh_keeps (failed : Option ℕ) :
    Keeps s (endRefresh env messages hash64 s args response failed).1 := by
  cases failed with
  | none => exact startCall_keeps env messages hash64 s args
  | some attempt => exact retryCall_keeps env messages s args response attempt

theorem callMethod_keeps (now : ℤ) : Keeps s (callMethod env messages hash64 s args now).1 := by
  rw [callMethod]
  dsimp only
  split_ifs
  · exact beginRefresh_keeps env messages s _ _ _
  · exact startCall_keeps env messages hash64 s _

theorem nodeStep_keeps (attempt : ℕ) (nodeKey : String) (i : CallChannel.Input M) :
    Keeps s (nodeStep env messages s args attempt nodeKey i).1 := by
  rw [nodeStep]
  dsimp only
  split
  · exact (Keep.nodeChannel s nodeKey _).keeps
  · exact (Keep.nodeChannel s nodeKey _).keeps.trans (endAttempt_keeps env messages _ _ _ _ _ _)

/-- A step makes such writes, and takes over a list between them if
`Discover` has returned one. -/
theorem step_writes (i : Input M) :
    Keeps s ((balanceChannel env messages hash64).step s i).1 ∨
    ∃ t nodes now, Keeps s t ∧
      Keeps (setNodes hash64 t nodes now) ((balanceChannel env messages hash64).step s i).1 := by
  simp only [balanceChannel]
  split
  case h_1 args now hpc => exact .inl (callMethod_keeps env messages hash64 s args now)
  case h_2 args response failed j now hpc =>
    have hregistry := (Keep.registryChannel s
      ((CallChannel.channel env).step s.registryChannel j).1).keeps
    rw [registryStep]
    dsimp only
    split
    · exact .inl hregistry
    · rename_i controller answer hreturn
      rw [takeNodes]
      by_cases hfailed : controller.failed = true
      · rw [if_pos hfailed]
        exact .inl (hregistry.trans (endRefresh_keeps env messages hash64 _ args response failed))
      · rw [if_neg hfailed]
        exact .inr ⟨_,_,_,hregistry,endRefresh_keeps env messages hash64 _ args response failed⟩
  case h_3 args attempt nodeKey j hpc => exact .inl (nodeStep_keeps env messages s args attempt nodeKey j)
  case h_4 => exact .inl .refl

end

structure Listing where
  type : BalanceType
  nodes : List NodeInfo
  nodeCount : ℕ
  consistentHash : ConsistentHash

def listing (s : LoadBalanceChannel M) : Listing :=
  ⟨s.type,s.nodes,s.roundRobin.nodeCount,s.consistentHash⟩

/-- The counter's range and the ring are those of the list. -/
structure Coherent (hash64 : Bytes → UInt64) (l : Listing) : Prop where
  count : l.nodeCount = l.nodes.length
  ring : l.consistentHash = ({} : ConsistentHash).setNodes hash64 (l.nodes.map nodeKey)

theorem listing_keep (s t : LoadBalanceChannel M) (h : Keep s t) : listing t = listing s := by
  cases h with
  | pc => rfl
  | registryChannel => rfl
  | turn r h => rw [listing,h]; rfl
  | failedNodeKey => rfl
  | nodeChannel => rfl

section
variable (env : Envelopes) (messages : DiscoverMessages) (hash64 : Bytes → UInt64)
variable (s : LoadBalanceChannel M) (args : CallArgs M) (response : Option M)

@[simp] theorem listing_endRefresh (failed : Option ℕ) :
    listing (endRefresh env messages hash64 s args response failed).1 = listing s :=
  Keeps.eq listing_keep (endRefresh_keeps env messages hash64 s args response failed)

@[simp] theorem listing_callMethod (now : ℤ) :
    listing (callMethod env messages hash64 s args now).1 = listing s :=
  Keeps.eq listing_keep (callMethod_keeps env messages hash64 s args now)

theorem setNodes_coherent {hash64 : Bytes → UInt64} {s : LoadBalanceChannel M}
    (h : Coherent hash64 (listing s)) (nodes : List NodeInfo) (now : ℤ) :
    Coherent hash64 (listing (setNodes hash64 s nodes now)) := by
  refine ⟨rfl,?_⟩
  have hring := h.ring
  rw [listing] at hring ⊢
  dsimp only [setNodes] at hring ⊢
  rw [hring]
  rfl

theorem takeNodes_coherent {hash64 : Bytes → UInt64} {s : LoadBalanceChannel M}
    (h : Coherent hash64 (listing s)) (controller : ControllerPtr) (answer : Option Response)
    (now : ℤ) : Coherent hash64 (listing (takeNodes hash64 s controller answer now)) := by
  rw [takeNodes]
  split_ifs
  · exact h
  · exact setNodes_coherent h _ now

theorem step_coherent {s : LoadBalanceChannel M} (h : Coherent hash64 (listing s)) (i : Input M) :
    Coherent hash64 (listing ((balanceChannel env messages hash64).step s i).1) := by
  rcases step_writes env messages hash64 s i with hkeeps | ⟨t,nodes,now,hbefore,hafter⟩
  · rw [Keeps.eq listing_keep hkeeps]
    exact h
  · rw [Keeps.eq listing_keep hafter]
    apply setNodes_coherent
    rw [Keeps.eq listing_keep hbefore]
    exact h

theorem step_type (i : Input M) :
    ((balanceChannel env messages hash64).step s i).1.type = s.type := by
  rcases step_writes env messages hash64 s i with hkeeps | ⟨t,nodes,now,hbefore,hafter⟩
  · exact congrArg Listing.type (Keeps.eq listing_keep hkeeps)
  · have hset := congrArg Listing.type (Keeps.eq listing_keep hafter)
    exact hset.trans (congrArg Listing.type (Keeps.eq listing_keep hbefore))

theorem run_type (is : List (Input M)) :
    ((balanceChannel env messages hash64).run s is).1.type = s.type :=
  run_invariant _ (fun t _ => t.type = s.type)
    (fun t _ i h => (step_type env messages hash64 t i).trans h) s is rfl

theorem reachable_coherent {s : LoadBalanceChannel M} (h : Reachable env messages hash64 s) :
    Coherent hash64 (listing s) := by
  obtain ⟨_,_,_,_,_,is,rfl⟩ := h
  exact run_invariant _ (fun s _ => Coherent hash64 (listing s))
    (fun _ _ i h => step_coherent env messages hash64 h i) _ is ⟨rfl,rfl⟩

end

def selections (os : List (Output M)) : List (ℕ × String × Bytes) :=
  os.filterMap fun
    | .selected attempt nodeKey request => some (attempt,nodeKey,request)
    | _ => none

@[simp] theorem selections_append (os os' : List (Output M)) :
    selections (os++os') = selections os++selections os' := List.filterMap_append

@[simp] theorem selections_cons_selected (attempt : ℕ) (nodeKey : String) (request : Bytes)
    (os : List (Output M)) :
    selections (.selected attempt nodeKey request::os) = (attempt,nodeKey,request)::selections os :=
  rfl

@[simp] theorem selections_cons_called (args : CallArgs M) (os : List (Output M)) :
    selections (.called args::os) = selections os := rfl

@[simp] theorem selections_registry (os : List (CallChannel.Output Response)) :
    selections (os.map (Output.registry (M := M))) = [] := by
  induction os with
  | nil => rfl
  | cons o os ih => exact ih

@[simp] theorem selections_node (nodeKey : String) (os : List (CallChannel.Output M)) :
    selections (os.map (.node nodeKey)) = [] := by
  induction os with
  | nil => rfl
  | cons o os ih => exact ih

section
variable (env : Envelopes) (messages : DiscoverMessages) (hash64 : Bytes → UInt64)
variable (s : LoadBalanceChannel M) (args : CallArgs M) (response : Option M)

@[simp] theorem selections_finishCall (controller : ControllerPtr) :
    selections (finishCall s controller response).2 = [] := rfl

@[simp] theorem selections_beginRefresh (failed : Option ℕ) :
    selections (beginRefresh env messages s args response failed).2 = [] := by
  simp [beginRefresh]

@[simp] theorem selections_endAttempt (attempt : ℕ) (nodeKey : String) (controller : ControllerPtr) :
    selections (endAttempt env messages s args attempt nodeKey controller response).2 = [] := by
  rw [endAttempt]
  split_ifs <;> simp

@[simp] theorem selections_beginAttempt (attempt : ℕ) (nodeKey : String) :
    selections (beginAttempt env messages s args attempt nodeKey).2 =
      [(attempt,nodeKey,args.request)] := by
  rw [beginAttempt]
  dsimp only
  split <;> simp

@[simp] theorem selections_nodeStep (attempt : ℕ) (nodeKey : String) (i : CallChannel.Input M) :
    selections (nodeStep env messages s args attempt nodeKey i).2 = [] := by
  rw [nodeStep]
  dsimp only
  split <;> simp

theorem selections_startCall :
    selections (startCall env messages hash64 s args).2 =
      if s.nodes = [] then []
      else [(0,(selectNodeKey hash64 s (if s.type = .kConsistentHash then args.request else [])).1,
        args.request)] := by
  rw [startCall]
  by_cases hempty : s.nodes = []
  · rw [if_pos hempty,if_pos hempty]
    cases args.done <;> rfl
  · rw [if_neg hempty,if_neg hempty]
    exact selections_beginAttempt env messages _ args 0 _

theorem selections_retryCall (attempt : ℕ) :
    selections (retryCall env messages s args response attempt).2 =
      if s.nodes.length ≤ 1 then []
      else if attempt+1 < maxAttempts args then
        [(attempt+1,(selectNodeKeyForRetry s s.failedNodeKey).1,args.request)]
      else [] := by
  rw [retryCall]
  split_ifs <;> simp

end

end MiniRpc.NodeCalls
