import MiniRpc.BalanceState
import MiniRpc.RetryScan

/-!
# What a caller of the load-balancing channel may rely on

The history of a channel tells which call is in progress, which attempts it
has made and how they ended, how often its `done` has run, and which list of
nodes the registry answered last. Every event is judged by the history before
it: a node is chosen from that list, a second one only after a failure of the
connection to the first; `done` runs once if there is one; a call returns what
its last attempt returned, or that there is no node.
-/

set_option autoImplicit false

namespace MiniRpc.BalanceContract
open MiniRpc.ByteBuffer MiniRpc.CallController MiniRpc.StepMachine MiniRpc.NodeRegistry
open MiniRpc.LoadBalancer MiniRpc.CallOutcome MiniRpc.BalanceChannel MiniRpc.NodeCalls
open MiniRpc.NodeAffinity MiniRpc.BalanceState MiniRpc.RetryScan
open MiniRpc.CallChannel (RpcChannel CallArgs Call)

variable {M N : Type}

/-- A call and its attempts. `current` is the node of the attempt that has
not returned. -/
structure CallLog (M : Type) where
  args : CallArgs M
  ended : List (String × ControllerPtr × Option M) := []
  current : Option String := none
  dones : ℕ := 0

structure History (M : Type) where
  call : Option (CallLog M) := none
  nodes : List NodeInfo := []

def History.update (h : History M) (f : CallLog M → CallLog M) : History M :=
  { h with call := h.call.map f }

def CallLog.ranDone (x : CallLog M) : CallLog M := { x with dones := x.dones+1 }

def CallLog.choose (nodeKey : String) (x : CallLog M) : CallLog M := { x with current := some nodeKey }

def CallLog.finish (e : String × ControllerPtr × Option M) (x : CallLog M) : CallLog M :=
  { x with ended := x.ended++[e], current := none }

def note (h : History M) : Output M → History M
  | .called args => { h with call := some { args } }
  | .registry (.returned controller answer) =>
    if controller.failed then h else { h with nodes := (answer.map Response.nodes).getD [] }
  | .selected _ nodeKey _ => h.update (CallLog.choose nodeKey)
  | .node nodeKey (.returned controller response) =>
    h.update (CallLog.finish (nodeKey,controller,response))
  | .node _ .doneRun => h.update CallLog.ranDone
  | .doneRun => h.update CallLog.ranDone
  | .returned _ _ => { h with call := none }
  | _ => h

def history (os : List (Output M)) : History M := os.foldl note {}

def Lost (e : String × ControllerPtr × Option M) : Prop :=
  e.2.1.failed = true ∧ connectionLevel (codeOf e.2.1) = true

/-- The next attempt of the call `x` may be made on `nodeKey`. -/
structure Chooses (x : CallLog M) (nodes : List NodeInfo) (attempt : ℕ) (nodeKey : String)
    (request : Bytes) : Prop where
  current : x.current = none
  number : x.ended.length = attempt
  allowed : attempt < maxAttempts x.args
  same : request = x.args.request
  lost : ∀ e ∈ x.ended, Lost e
  listed : nodeKey ∈ nodes.map NodeRegistry.nodeKey
  another : DistinctKeys nodes → ∀ e ∈ x.ended, e.1 ≠ nodeKey

/-- The call `x` may return. -/
structure Returns (serviceName : String) (x : CallLog M) (nodes : List NodeInfo)
    (controller : ControllerPtr) (response : Option M) : Prop where
  current : x.current = none
  dones : x.dones = x.args.done.toNat
  attempts : x.ended.length ≤ maxAttempts x.args
  unanswered : x.ended = [] → nodes = [] ∧ response = none ∧
    controller = failController x.args.controller.reset kNoService
      ("no available node for service: "++serviceName)
  last : ∀ e, x.ended.getLast? = some e → e.2 = (controller,response)
  given_up : x.ended.length < maxAttempts x.args → ∀ e, x.ended.getLast? = some e →
    ¬Lost e ∨ nodes.length ≤ 1

def Allowed (serviceName : String) (h : History M) : Output M → Prop
  | .called _ => h.call = none
  | .selected attempt nodeKey request =>
    ∃ x, h.call = some x ∧ Chooses x h.nodes attempt nodeKey request
  | .node _ .doneRun => ∃ x, h.call = some x ∧ x.dones = 0 ∧ x.args.done = true
  | .doneRun => ∃ x, h.call = some x ∧ x.dones = 0 ∧ x.args.done = true
  | .returned controller response =>
    ∃ x, h.call = some x ∧ Returns serviceName x h.nodes controller response
  | _ => True

section Channel
open MiniRpc.CallChannel

def silent : CallChannel.Output N → Bool
  | .doneRun => false
  | .returned _ _ => false
  | _ => true

def ending (done : Bool) (controller : ControllerPtr) (response : Option N) :
    List (CallChannel.Output N) :=
  (if done then [.doneRun] else [])++[.returned controller response]

inductive Part (done : Bool) : RpcChannel N × List (CallChannel.Output N) → Prop where
  | continues {x : RpcChannel N} {os : List (CallChannel.Output N)} (c : Call N)
      (hcall : callOf x.pc = some c) (hdone : c.done = done) (hos : ∀ o ∈ os, silent o = true) :
      Part done (x,os)
  | returns {x : RpcChannel N} (lead : List (CallChannel.Output N)) (controller : ControllerPtr)
      (response : Option N) (hidle : x.pc = .idle) (hlead : ∀ o ∈ lead, silent o = true) :
      Part done (x,lead++ending done controller response)

theorem finish_part (s : RpcChannel N) (c : Call N) {lead : List (CallChannel.Output N)}
    (hlead : ∀ o ∈ lead, silent o = true) : Part c.done ((finish s c).1,lead++(finish s c).2) :=
  .returns lead c.controller c.response rfl hlead

theorem startAttempt_part (s : RpcChannel N) (c : Call N) {lead : List (CallChannel.Output N)}
    (hlead : ∀ o ∈ lead, silent o = true) :
    Part c.done ((startAttempt s c).1,lead++(startAttempt s c).2) := by
  rw [startAttempt]
  by_cases hmore : (c.attempt:ℤ) ≤ s.maxRetries
  · rw [if_pos hmore]
    refine .continues { c with controller := c.controller.reset, seq := s.nextSeq } rfl rfl ?_
    intro o ho
    rcases List.mem_append.mp ho with h | h
    · exact hlead o h
    · rw [List.mem_singleton.mp h]
      rfl
  · rw [if_neg hmore]
    exact finish_part s c hlead

theorem callMethod_part (env : Envelopes) (s : RpcChannel N) (args : CallArgs N) :
    Part args.done (CallChannel.callMethod env s args) := by
  have hlead : ∀ o ∈ [CallChannel.Output.called args], silent o = true := by simp [silent]
  rw [CallChannel.callMethod.eq_def]
  cases s.fd with
  | none => exact .continues _ rfl rfl hlead
  | some fd =>
    exact startAttempt_part s
      { parseResponse := args.parseResponse, done := args.done,
        envelopeBytes := env.request.serialize ⟨args.method,args.request⟩,
        controller := args.controller.reset } hlead

theorem readAnswer_part (env : Envelopes) {s : RpcChannel N} {c : Call N} {deadline : ℤ}
    (hpc : s.pc = .waiting c deadline) (data : Bytes) : Part c.done (readAnswer env s c data) := by
  have hlead : ∀ o ∈ (.received s.fd data::
      (scanResponses c.seq (s.inputBuffer.readFd data)).decoded.map .decoded :
        List (CallChannel.Output N)), silent o = true := by
    simp [silent]
  have haccept : ∀ body, (acceptResponse env c body).done = c.done := by
    intro body
    rw [acceptResponse.eq_def]
    cases env.response.parse body with
    | none => rfl
    | some resp =>
      dsimp only
      by_cases herr : resp.errorCode ≠ kOk.value
      · rw [if_pos herr]
        rfl
      · rw [if_neg herr]
        cases c.parseResponse resp.response <;> rfl
  rw [readAnswer]
  cases (scanResponses c.seq (s.inputBuffer.readFd data)).ending with
  | waits => exact .continues c (by simp [hpc,callOf]) rfl hlead
  | rejects e => exact finish_part _ (c.fail kUnknown e.what) hlead
  | found m =>
    rw [← haccept m.body]
    exact finish_part _ (acceptResponse env c m.body) hlead

theorem step_part (env : Envelopes) {s : RpcChannel N} {c : Call N} (hcall : callOf s.pc = some c)
    (i : CallChannel.Input N) : Part c.done ((channel env).step s i) := by
  have hturn := step_turn env s i
  have hnone : ∀ o ∈ ([] : List (CallChannel.Output N)), silent o = true := by simp
  have hsame : Part c.done (s,([] : List (CallChannel.Output N))) := .continues c hcall rfl hnone
  have hthis : ∀ {d : Call N}, callOf s.pc = some d → c = d :=
    fun hd => Option.some.inj (hcall.symm.trans hd)
  generalize (channel env).step s i = r at hturn ⊢
  cases hturn with
  | ignores _ hi => exact hsame
  | calls args hpc => rw [hpc] at hcall; cases hcall
  | closes hpc => rw [hpc] at hcall; cases hcall
  | connects d failure hpc =>
    obtain rfl := hthis (d := d) (by rw [hpc]; rfl)
    cases failure with
    | some e => exact finish_part s (c.fail kSystem e.text) hnone
    | none =>
      have hlead : ∀ o ∈ ([.connected s.opened] : List (CallChannel.Output N)), silent o = true := by
        simp [silent]
      exact startAttempt_part { s with fd := some s.opened, opened := s.opened+1 } c hlead
  | sends d rest now n errno hpc hn =>
    obtain rfl := hthis (d := d) (by rw [hpc]; rfl)
    refine .continues c ?_ rfl (by simp [silent])
    by_cases hleft : rest.drop n.toNat = []
    · rw [if_pos hleft]
      rfl
    · rw [if_neg hleft]
      rfl
  | resends d rest now n errno hpc hn he => exact hsame
  | breaks d rest now n errno hpc hn he =>
    obtain rfl := hthis (d := d) (by rw [hpc]; rfl)
    refine finish_part (CallChannel.close s).1 (c.fail kSystem errno.text) ?_
    rw [CallChannel.close.eq_def]
    cases s.fd <;> simp [silent]
  | retries d deadline now r hpc =>
    obtain rfl := hthis (d := d) (by rw [hpc]; rfl)
    exact startAttempt_part s { c.fail kTimeout "rpc call timeout" with attempt := c.attempt+1 } hnone
  | repolls d deadline now r hpc => exact hsame
  | fails d deadline now r hpc code message =>
    obtain rfl := hthis (d := d) (by rw [hpc]; rfl)
    exact finish_part s (c.fail code message) hnone
  | reads d deadline now rev data hpc =>
    obtain rfl := hthis (d := d) (by rw [hpc]; rfl)
    exact readAnswer_part env hpc data

theorem returnOf_silent {os : List (CallChannel.Output N)} (h : ∀ o ∈ os, silent o = true) :
    returnOf os = none := by
  rw [returnOf,List.findSome?_eq_none_iff]
  intro o ho
  cases o with
  | returned controller response => exact absurd (h _ ho) Bool.false_ne_true
  | _ => rfl

theorem returnOf_returns {lead : List (CallChannel.Output N)} (h : ∀ o ∈ lead, silent o = true)
    (done : Bool) (controller : ControllerPtr) (response : Option N) :
    returnOf (lead++ending done controller response) = some (controller,response) := by
  rw [returnOf_append,returnOf_silent h]
  cases done <;> rfl

end Channel

/-- What happens after the history `h` is allowed. -/
def Obeys (serviceName : String) (h : History M) (os : List (Output M)) : Prop :=
  Throughout (fun before => Allowed serviceName (before.foldl note h)) os

theorem obeys_nil (serviceName : String) (h : History M) : Obeys serviceName h [] := throughout_nil _

theorem obeys_cons (serviceName : String) (h : History M) (o : Output M) (os : List (Output M)) :
    Obeys serviceName h (o::os) ↔ Allowed serviceName h o ∧ Obeys serviceName (note h o) os :=
  throughout_cons _ o os

theorem obeys_append (serviceName : String) (h : History M) (xs ys : List (Output M)) :
    Obeys serviceName h (xs++ys) ↔ Obeys serviceName h xs ∧ Obeys serviceName (xs.foldl note h) ys := by
  rw [Obeys,throughout_append]
  simp only [List.foldl_append]
  rfl

section
variable (serviceName : String) (h : History M)

theorem node_silent (nodeKey : String) {os : List (CallChannel.Output M)}
    (hos : ∀ o ∈ os, silent o = true) : Obeys serviceName h (os.map (.node nodeKey)) ∧
      (os.map (.node nodeKey)).foldl note h = h := by
  induction os with
  | nil => exact ⟨obeys_nil serviceName h,rfl⟩
  | cons o os ih =>
    obtain ⟨hobeys,hnote⟩ := ih fun x hx => hos x (List.mem_cons_of_mem o hx)
    have ho := hos o List.mem_cons_self
    rw [List.map_cons,obeys_cons,List.foldl_cons]
    cases o with
    | doneRun => cases ho
    | returned controller response => cases ho
    | _ => exact ⟨⟨trivial,hobeys⟩,hnote⟩

theorem registry_silent {os : List (CallChannel.Output Response)}
    (hos : ∀ o ∈ os, silent o = true) : Obeys (M := M) serviceName h (os.map .registry) ∧
      (os.map .registry).foldl note h = h := by
  induction os with
  | nil => exact ⟨obeys_nil serviceName h,rfl⟩
  | cons o os ih =>
    obtain ⟨hobeys,hnote⟩ := ih fun x hx => hos x (List.mem_cons_of_mem o hx)
    have ho := hos o List.mem_cons_self
    rw [List.map_cons,obeys_cons,List.foldl_cons]
    cases o with
    | returned controller response => cases ho
    | _ => exact ⟨⟨trivial,hobeys⟩,hnote⟩

theorem node_returns {h : History M} {x : CallLog M} (hx : h.call = some x) (hdones : x.dones = 0)
    {done : Bool}
    (hdone : done = x.args.done) (nodeKey : String) (controller : ControllerPtr)
    (response : Option M) :
    Obeys serviceName h ((ending done controller response).map (.node nodeKey)) ∧
    ((ending done controller response).map (.node nodeKey)).foldl note h =
      { h with call := some { x with
        ended := x.ended++[(nodeKey,controller,response)], current := none,
        dones := done.toNat } } := by
  cases done with
  | false =>
    refine ⟨(obeys_cons ..).mpr ⟨trivial,obeys_nil _ _⟩,?_⟩
    simp [ending,note,History.update,hx,CallLog.finish,hdones]
  | true =>
    refine ⟨(obeys_cons ..).mpr ⟨⟨x,hx,hdones,hdone.symm⟩,
      (obeys_cons ..).mpr ⟨trivial,obeys_nil _ _⟩⟩,?_⟩
    simp [ending,note,History.update,hx,CallLog.finish,CallLog.ranDone,hdones]

end

/-- `attempt` attempts of the call `x` have been lost, and `args` is what the
next one is made with. -/
structure Between (x : CallLog M) (args : CallArgs M) (attempt : ℕ) : Prop where
  request : args.request = x.args.request
  done : args.done = x.args.done
  current : x.current = none
  number : x.ended.length = attempt
  lost : ∀ e ∈ x.ended, Lost e

def InProgress (s : LoadBalanceChannel M) (call : Option (CallLog M)) : Prop :=
  match s.pc with
  | .idle => call = none
  | .refreshing args response none => ∃ x, call = some x ∧ Between x args 0 ∧ x.dones = 0 ∧
      args.controller = x.args.controller.reset ∧ response = none
  | .refreshing args response (some attempt) => ∃ x, call = some x ∧ Between x args (attempt+1) ∧
      attempt < maxAttempts args ∧ x.dones = args.done.toNat ∧
      x.ended.getLast? = some (s.failedNodeKey,args.controller,response)
  | .calling args attempt nodeKey => ∃ x, call = some (x.choose nodeKey) ∧ Between x args attempt ∧
      attempt < maxAttempts args ∧ x.dones = 0 ∧
      ∃ c, callOf (channelFor s nodeKey).channel.pc = some c ∧ c.done = args.done

def Plain (x : RpcChannel N) : Prop := ∀ c, callOf x.pc = some c → c.done = false

theorem idle_plain {x : RpcChannel N} (h : Idle x) : Plain x := by
  intro c hc
  rw [show x.pc = .idle from h] at hc
  cases hc

structure Tracks (serviceName : String) (s : LoadBalanceChannel M) (h : History M) : Prop where
  name : s.serviceName = serviceName
  nodes : h.nodes = s.nodes
  plain : Plain s.registryChannel
  call : InProgress s h.call

/-- From the history `h` on, a step does what is allowed and the history
keeps up with the state. -/
structure Follows (serviceName : String) (h : History M)
    (r : LoadBalanceChannel M × List (Output M)) : Prop where
  obeys : Obeys serviceName h r.2
  tracks : Tracks serviceName r.1 (r.2.foldl note h)

theorem follows_after {serviceName : String} {h : History M} {lead : List (Output M)}
    {t : LoadBalanceChannel M} {os : List (Output M)} (hlead : Obeys serviceName h lead)
    (hrest : Follows serviceName (lead.foldl note h) (t,os)) :
    Follows serviceName h (t,lead++os) where
  obeys := (obeys_append ..).mpr ⟨hlead,hrest.obeys⟩
  tracks := by
    dsimp only
    rw [List.foldl_append]
    exact hrest.tracks

theorem connectionLevel_lost {nodeKey : String} {controller : ControllerPtr} {response : Option M}
    (h : controller.failed = false ∨ connectionLevel (codeOf controller) = false) :
    ¬Lost (nodeKey,controller,response) := by
  rintro ⟨hfailed,hlevel⟩
  rcases h with h | h
  · exact Bool.false_ne_true (h.symm.trans hfailed)
  · exact Bool.false_ne_true (h.symm.trans hlevel)

theorem serviceName_keep (s t : LoadBalanceChannel M) (h : Keep s t) :
    t.serviceName = s.serviceName := by
  cases h <;> rfl

section
variable {env : Envelopes} {messages : DiscoverMessages} {hash64 : Bytes → UInt64}
  {serviceName : String} {h : History M} {s : LoadBalanceChannel M}

theorem finishCall_follows (hrest : Resting s) (hname : s.serviceName = serviceName)
    (hnodes : h.nodes = s.nodes) {x : CallLog M} (hx : h.call = some x)
    {controller : ControllerPtr} {response : Option M}
    (hreturns : Returns serviceName x s.nodes controller response) :
    Follows serviceName h (finishCall s controller response) where
  obeys := by
    rw [finishCall,obeys_cons]
    refine ⟨⟨x,hx,?_⟩,obeys_nil _ _⟩
    rw [hnodes]
    exact hreturns
  tracks := ⟨hname,hnodes,idle_plain hrest.registry,rfl⟩

theorem beginRefresh_follows (hrest : Resting s) (hname : s.serviceName = serviceName)
    (hnodes : h.nodes = s.nodes) (args : CallArgs M) (response : Option M) (failed : Option ℕ)
    (hcall : InProgress { s with pc := .refreshing args response failed } h.call) :
    Follows serviceName h (beginRefresh env messages s args response failed) := by
  rw [beginRefresh,step_callMethod env hrest.registry]
  have hpart := callMethod_part env s.registryChannel (discoverArgs messages s)
  have hretries := callMethod_begins env s.registryChannel (discoverArgs messages s)
  generalize CallChannel.callMethod env s.registryChannel (discoverArgs messages s) = r
    at hpart hretries ⊢
  cases hpart with
  | continues c hc hdone hos =>
    obtain ⟨hobeys,hnote⟩ := registry_silent serviceName h hos
    refine ⟨hobeys,?_⟩
    dsimp only
    rw [hnote]
    refine ⟨hname,hnodes,fun d hd => ?_,hcall⟩
    rw [← Option.some.inj (hc.symm.trans hd)]
    exact hdone
  | returns lead controller answer hidle hlead =>
    rcases hretries with ⟨-,hnone⟩ | ⟨-,hneg,-⟩
    · rw [returnOf_returns hlead] at hnone
      cases hnone
    · rw [hrest.registryRetries] at hneg
      omega

theorem endAttempt_follows (hrest : Resting s) (hname : s.serviceName = serviceName)
    (hnodes : h.nodes = s.nodes) {args : CallArgs M} {attempt : ℕ} {nodeKey : String}
    {controller : ControllerPtr} {response : Option M} {x : CallLog M}
    (hx : h.call = some { x with
      ended := x.ended++[(nodeKey,controller,response)], current := none,
      dones := args.done.toNat })
    (hbetween : Between x args attempt) (hmore : attempt < maxAttempts args) :
    Follows serviceName h (endAttempt env messages s args attempt nodeKey controller response) := by
  have hlen : (x.ended++[(nodeKey,controller,response)]).length = attempt+1 := by
    rw [List.length_append,hbetween.number]
    rfl
  have hmax : maxAttempts x.args = maxAttempts args := by
    rw [maxAttempts,maxAttempts,hbetween.done]
  have hreturns : (¬Lost (nodeKey,controller,response) ∨ s.nodes.length ≤ 1) →
      Returns serviceName { x with
        ended := x.ended++[(nodeKey,controller,response)], current := none,
        dones := args.done.toNat } s.nodes controller response := by
    intro hend
    refine ⟨rfl,congrArg Bool.toNat hbetween.done,?_,?_,?_,?_⟩
    · dsimp only
      rw [hlen,hmax]
      exact hmore
    · intro hnil
      simp at hnil
    · intro e he
      rw [List.getLast?_concat] at he
      rw [← Option.some.inj he]
    · intro _ e he
      rw [List.getLast?_concat] at he
      rwa [← Option.some.inj he]
  rw [endAttempt]
  by_cases hfailed : controller.failed = false
  · rw [if_pos hfailed]
    exact finishCall_follows hrest hname hnodes hx
      (hreturns (.inl (connectionLevel_lost (.inl hfailed))))
  rw [if_neg hfailed]
  by_cases hlevel : connectionLevel (codeOf controller) = false
  · rw [if_pos hlevel]
    exact finishCall_follows hrest hname hnodes hx (hreturns (.inl (connectionLevel_lost (.inr hlevel))))
  rw [if_neg hlevel]
  by_cases hfew : s.nodes.length ≤ 1
  · rw [if_pos hfew]
    exact finishCall_follows hrest hname hnodes hx (hreturns (.inr hfew))
  rw [if_neg hfew]
  refine beginRefresh_follows (s := { s with failedNodeKey := nodeKey }) ?_ hname hnodes _ response _ ?_
  · exact channels_of_eq hrest rfl rfl rfl rfl
  · refine ⟨_,hx,⟨hbetween.request,hbetween.done,rfl,hlen,?_⟩,hmore,rfl,List.getLast?_concat ..⟩
    intro e he
    rcases List.mem_append.mp he with he | he
    · exact hbetween.lost e he
    · rw [List.mem_singleton.mp he]
      exact ⟨Bool.eq_true_of_not_eq_false hfailed,Bool.eq_true_of_not_eq_false hlevel⟩

theorem beginAttempt_follows (hrest : Resting s) (hname : s.serviceName = serviceName)
    (hnodes : h.nodes = s.nodes) {args : CallArgs M} {attempt : ℕ} {nodeKey : String}
    {x : CallLog M} (hx : h.call = some x) (hbetween : Between x args attempt)
    (hmore : attempt < maxAttempts args) (hdones : x.dones = 0)
    (hlisted : nodeKey ∈ s.nodes.map NodeRegistry.nodeKey)
    (hanother : DistinctKeys s.nodes → ∀ e ∈ x.ended, e.1 ≠ nodeKey) :
    Follows serviceName h (beginAttempt env messages s args attempt nodeKey) := by
  have hmax : maxAttempts x.args = maxAttempts args := by
    rw [maxAttempts,maxAttempts,hbetween.done]
  have hselect : Allowed serviceName h (.selected attempt nodeKey args.request) := by
    refine ⟨x,hx,hbetween.current,hbetween.number,?_,hbetween.request,hbetween.lost,?_,?_⟩
    · rw [hmax]
      exact hmore
    · rw [hnodes]
      exact hlisted
    · rw [hnodes]
      exact hanother
  have hchosen : (note h (.selected attempt nodeKey args.request)).call = some (x.choose nodeKey) := by
    simp [note,History.update,hx]
  rw [beginAttempt,step_callMethod env (hrest.nodes nodeKey)]
  dsimp only
  have hpart := callMethod_part env (channelFor s nodeKey).channel args
  have hkept := (callMethod_maxRetries env (channelFor s nodeKey).channel args).trans
    (hrest.retries nodeKey)
  generalize CallChannel.callMethod env (channelFor s nodeKey).channel args = r at hpart hkept ⊢
  cases hpart with
  | @continues y os c hc hdone hos =>
    rw [returnOf_silent hos]
    obtain ⟨hobeys,hnote⟩ := node_silent serviceName
      (note h (.selected attempt nodeKey args.request)) nodeKey hos
    refine ⟨(obeys_cons ..).mpr ⟨hselect,hobeys⟩,?_⟩
    dsimp only
    rw [List.foldl_cons,hnote]
    refine ⟨hname,hnodes,idle_plain hrest.registry,x,hchosen,hbetween,hmore,hdones,c,?_,hdone⟩
    rw [← hc]
    exact congrArg (fun y : NodeChannel M => callOf y.channel.pc)
      ((channelFor_setChannel s nodeKey nodeKey _).trans (if_pos rfl))
  | @returns y lead controller response hidle hlead =>
    rw [returnOf_returns hlead]
    dsimp only
    rw [List.map_append,← List.cons_append,List.append_assoc]
    obtain ⟨hobeys,hnote⟩ := node_silent serviceName
      (note h (.selected attempt nodeKey args.request)) nodeKey hlead
    obtain ⟨hobeys',hnote'⟩ := node_returns serviceName hchosen hdones hbetween.done
      nodeKey controller response
    refine follows_after ((obeys_cons ..).mpr ⟨hselect,hobeys⟩) ?_
    rw [List.foldl_cons,hnote]
    refine follows_after hobeys' ?_
    rw [hnote']
    have hidle' : Resting (setChannel s nodeKey { channelFor s nodeKey with channel := y }) :=
      channels_setChannel hrest hidle hkept fun k _ z hz => hz
    refine endAttempt_follows (x := x) hidle' hname ?_ rfl hbetween hmore
    exact hnodes

theorem selectNodeKey_follows (hcoherent : Coherent hash64 (listing s)) (hrest : Resting s)
    (hname : s.serviceName = serviceName) (hnodes : h.nodes = s.nodes) (hsome : s.nodes ≠ [])
    {args : CallArgs M} {x : CallLog M} (hx : h.call = some x) (hbetween : Between x args 0)
    (hdones : x.dones = 0) (hashKey : Bytes) :
    Follows serviceName h (beginAttempt env messages (selectNodeKey hash64 s hashKey).2 args 0
      (selectNodeKey hash64 s hashKey).1) := by
  have hkeeps := selectNodeKey_keeps hash64 s hashKey
  have hlist : (selectNodeKey hash64 s hashKey).2.nodes = s.nodes :=
    congrArg Listing.nodes (Keeps.eq listing_keep hkeeps)
  have hpos : 0 < maxAttempts args := by
    rw [maxAttempts]
    split_ifs <;> decide
  refine beginAttempt_follows (selectNodeKey_resting hash64 hrest hashKey)
    ((Keeps.eq serviceName_keep hkeeps).trans hname) (hnodes.trans hlist.symm) hx hbetween hpos hdones
    ?_ ?_
  · rw [hlist]
    exact selectNodeKey_mem hash64 hcoherent hsome hashKey
  · intro _ e he
    rw [List.eq_nil_of_length_eq_zero hbetween.number] at he
    cases he

theorem startCall_follows (hcoherent : Coherent hash64 (listing s)) (hrest : Resting s)
    (hname : s.serviceName = serviceName) (hnodes : h.nodes = s.nodes) {args : CallArgs M}
    {x : CallLog M} (hx : h.call = some x) (hbetween : Between x args 0) (hdones : x.dones = 0)
    (hreset : args.controller = x.args.controller.reset) :
    Follows serviceName h (startCall env messages hash64 s args) := by
  have hnone := List.eq_nil_of_length_eq_zero hbetween.number
  rw [startCall]
  by_cases hempty : s.nodes = []
  · rw [if_pos hempty]
    have hreturns : ∀ n, n = x.args.done.toNat → Returns serviceName { x with dones := n } h.nodes
        (failController args.controller kNoService
          ("no available node for service: "++s.serviceName)) none := by
      intro n hn
      refine ⟨hbetween.current,hn,?_,fun _ => ⟨hnodes.trans hempty,rfl,by rw [hreset,hname]⟩,?_,?_⟩
      · rw [hnone]
        exact Nat.zero_le _
      · rw [hnone]
        exact fun y hy => absurd hy.symm (Option.some_ne_none y)
      · rw [hnone]
        exact fun _ y hy => absurd hy.symm (Option.some_ne_none y)
    cases hdone : args.done with
    | false =>
      refine ⟨(obeys_cons ..).mpr ⟨⟨x,hx,?_⟩,obeys_nil _ _⟩,⟨hname,hnodes,idle_plain hrest.registry,rfl⟩⟩
      have h := hreturns x.dones (by rw [hdones,← hbetween.done,hdone]; rfl)
      exact h
    | true =>
      refine ⟨(obeys_cons ..).mpr ⟨⟨x,hx,hdones,hbetween.done.symm.trans hdone⟩,
        (obeys_cons ..).mpr ⟨⟨x.ranDone,?_,?_⟩,obeys_nil _ _⟩⟩,
        ⟨hname,hnodes,idle_plain hrest.registry,rfl⟩⟩
      · simp [note,History.update,hx]
      · have h := hreturns (x.dones+1) (by rw [hdones,← hbetween.done,hdone]; rfl)
        exact h
  · rw [if_neg hempty]
    exact selectNodeKey_follows hcoherent hrest hname hnodes hempty hx hbetween hdones _

theorem retryCall_follows (hcoherent : Coherent hash64 (listing s)) (hrest : Resting s)
    (hname : s.serviceName = serviceName) (hnodes : h.nodes = s.nodes) {args : CallArgs M}
    {response : Option M} {attempt : ℕ} {x : CallLog M} (hx : h.call = some x)
    (hbetween : Between x args (attempt+1)) (hmore : attempt < maxAttempts args)
    (hdones : x.dones = args.done.toNat)
    (hlast : x.ended.getLast? = some (s.failedNodeKey,args.controller,response)) :
    Follows serviceName h (retryCall env messages s args response attempt) := by
  have hmax : maxAttempts x.args = maxAttempts args := by
    rw [maxAttempts,maxAttempts,hbetween.done]
  have hreturns : (x.ended.length < maxAttempts x.args → s.nodes.length ≤ 1) →
      Returns serviceName x s.nodes args.controller response := by
    intro hend
    refine ⟨hbetween.current,hdones.trans (congrArg Bool.toNat hbetween.done),?_,?_,?_,?_⟩
    · rw [hbetween.number,hmax]
      exact hmore
    · intro hnil
      rw [hnil] at hlast
      cases hlast
    · intro e he
      rw [hlast] at he
      rw [← Option.some.inj he]
    · exact fun hlt _ _ => .inr (hend hlt)
  rw [retryCall]
  by_cases hfew : s.nodes.length ≤ 1
  · rw [if_pos hfew]
    exact finishCall_follows hrest hname hnodes hx (hreturns fun _ => hfew)
  rw [if_neg hfew]
  by_cases hagain : attempt+1 < maxAttempts args
  · rw [if_pos hagain]
    have hkeeps := selectNodeKeyForRetry_keeps s s.failedNodeKey
    have hlist : (selectNodeKeyForRetry s s.failedNodeKey).2.nodes = s.nodes :=
      congrArg Listing.nodes (Keeps.eq listing_keep hkeeps)
    -- a call with a `done` has one attempt, so this one has none and it is the second attempt
    have hsync : args.done = false ∧ attempt = 0 := by
      rw [maxAttempts] at hagain
      cases hdone : args.done with
      | true =>
        rw [hdone,if_pos rfl] at hagain
        omega
      | false =>
        rw [hdone,if_neg Bool.false_ne_true] at hagain
        exact ⟨rfl,by omega⟩
    have hone : x.ended = [(s.failedNodeKey,args.controller,response)] := by
      obtain ⟨e,he⟩ := List.length_eq_one_iff.mp (hbetween.number.trans (by rw [hsync.2]))
      rw [he] at hlast ⊢
      rw [List.getLast?_singleton] at hlast
      rw [Option.some.inj hlast]
    refine beginAttempt_follows (selectNodeKeyForRetry_resting hrest s.failedNodeKey)
      ((Keeps.eq serviceName_keep hkeeps).trans hname) (hnodes.trans hlist.symm) hx hbetween hagain
      (hdones.trans (congrArg Bool.toNat hsync.1)) ?_ ?_
    · rw [hlist]
      exact selectNodeKeyForRetry_mem (List.ne_nil_of_length_pos (by omega)) _
    · rw [hlist,hone]
      intro hdistinct e he
      rw [List.mem_singleton.mp he]
      exact (selectNodeKeyForRetry_finds hdistinct (by omega) hcoherent.count _).2.symm
  · rw [if_neg hagain]
    refine finishCall_follows hrest hname hnodes hx (hreturns fun hlt => absurd ?_ hagain)
    rwa [hbetween.number,hmax] at hlt

theorem endRefresh_follows (hcoherent : Coherent hash64 (listing s)) (hrest : Resting s)
    (hname : s.serviceName = serviceName) (hnodes : h.nodes = s.nodes) {args : CallArgs M}
    {response : Option M} {failed : Option ℕ}
    (hcall : InProgress { s with pc := .refreshing args response failed } h.call) :
    Follows serviceName h (endRefresh env messages hash64 s args response failed) := by
  cases failed with
  | none =>
    obtain ⟨x,hx,hbetween,hdones,hreset,-⟩ := hcall
    exact startCall_follows hcoherent hrest hname hnodes hx hbetween hdones hreset
  | some attempt =>
    obtain ⟨x,hx,hbetween,hmore,hdones,hlast⟩ := hcall
    exact retryCall_follows hcoherent hrest hname hnodes hx hbetween hmore hdones hlast

theorem takeNodes_follows (hcoherent : Coherent hash64 (listing s)) (hrest : Resting s)
    (hname : s.serviceName = serviceName) (hnodes : h.nodes = s.nodes) {args : CallArgs M}
    {response : Option M} {failed : Option ℕ}
    (hcall : InProgress { s with pc := .refreshing args response failed } h.call)
    (controller : ControllerPtr) (answer : Option Response) (now : ℤ) :
    Follows serviceName (note h (.registry (.returned controller answer)))
      (endRefresh env messages hash64 (takeNodes hash64 s controller answer now) args response
        failed) := by
  have hcoherent' := takeNodes_coherent hcoherent controller answer now
  have hrest' := takeNodes_resting hash64 hrest controller answer now
  revert hcoherent' hrest'
  rw [takeNodes,note]
  by_cases hfailed : controller.failed = true
  · rw [if_pos hfailed,if_pos hfailed]
    exact fun hc hr => endRefresh_follows hc hr hname hnodes hcall
  · rw [if_neg hfailed,if_neg hfailed]
    exact fun hc hr => endRefresh_follows hc hr hname rfl (by cases failed <;> exact hcall)

theorem registryStep_follows {args : CallArgs M} {response : Option M} {failed : Option ℕ}
    (hpc : s.pc = .refreshing args response failed) (hcoherent : Coherent hash64 (listing s))
    (hready : Channels (InCall (.minirpc {})) (fun _ => Idle) s) (htracks : Tracks serviceName s h)
    (i : CallChannel.Input Response) (now : ℤ) :
    Follows serviceName h (registryStep env messages hash64 s args response failed i now) := by
  have hcall : InProgress { s with pc := .refreshing args response failed } h.call := by
    rw [← hpc]
    exact htracks.call
  obtain ⟨⟨c,hc,-⟩,-⟩ := hready.registry
  have hpart := step_part env hc i
  have hkept := (inCall_step env rfl hready.registry i).1.trans hready.registryRetries
  rw [htracks.plain c hc] at hpart
  rw [registryStep]
  generalize (CallChannel.channel env).step s.registryChannel i = r at hpart hkept ⊢
  cases hpart with
  | @continues y os c' hc' hdone' hos =>
    rw [returnOf_silent hos]
    obtain ⟨hobeys,hnote⟩ := registry_silent serviceName h hos
    refine ⟨hobeys,?_⟩
    dsimp only
    rw [hnote]
    refine ⟨htracks.name,htracks.nodes,fun d hd => ?_,htracks.call⟩
    rw [← Option.some.inj (hc'.symm.trans hd)]
    exact hdone'
  | @returns y lead controller answer hidle hlead =>
    rw [returnOf_returns hlead]
    dsimp only
    rw [List.map_append,List.append_assoc]
    obtain ⟨hobeys,hnote⟩ := registry_silent serviceName h hlead
    refine follows_after hobeys ?_
    rw [hnote]
    refine follows_after ((obeys_cons ..).mpr ⟨trivial,obeys_nil _ _⟩) ?_
    exact takeNodes_follows (s := { s with registryChannel := y }) hcoherent
      ⟨hidle,hkept,hready.nodes,hready.retries⟩ htracks.name htracks.nodes
      (by cases failed <;> exact hcall) controller answer now

theorem nodeStep_follows {args : CallArgs M} {attempt : ℕ} {nodeKey : String}
    (hpc : s.pc = .calling args attempt nodeKey)
    (hready : Channels Idle (onlyNode nodeKey args.controller.reset) s)
    (htracks : Tracks serviceName s h) (i : CallChannel.Input M) :
    Follows serviceName h (nodeStep env messages s args attempt nodeKey i) := by
  have hcall := htracks.call
  rw [InProgress,hpc] at hcall
  obtain ⟨x,hx,hbetween,hmore,hdones,c,hc,hdone⟩ := hcall
  have hpart := step_part env hc i
  have hkept := (inCall_step env (reset_reset _) (onlyNode_inCall hready) i).1.trans
    (hready.retries nodeKey)
  rw [hdone] at hpart
  rw [nodeStep]
  dsimp only
  generalize (CallChannel.channel env).step (channelFor s nodeKey).channel i = r at hpart hkept ⊢
  cases hpart with
  | @continues y os c' hc' hdone' hos =>
    rw [returnOf_silent hos]
    obtain ⟨hobeys,hnote⟩ := node_silent serviceName h nodeKey hos
    refine ⟨hobeys,htracks.name,?_,htracks.plain,?_⟩
    · dsimp only
      rw [hnote]
      exact htracks.nodes
    · dsimp only
      rw [hnote,InProgress,show (setChannel s nodeKey _).pc = _ from hpc]
      refine ⟨x,hx,hbetween,hmore,hdones,c',?_,hdone'⟩
      rw [← hc']
      exact congrArg (fun z : NodeChannel M => callOf z.channel.pc)
        ((channelFor_setChannel s nodeKey nodeKey _).trans (if_pos rfl))
  | @returns y lead controller response hidle hlead =>
    rw [returnOf_returns hlead]
    dsimp only
    rw [List.map_append,List.append_assoc]
    obtain ⟨hobeys,hnote⟩ := node_silent serviceName h nodeKey hlead
    obtain ⟨hobeys',hnote'⟩ := node_returns serviceName hx hdones hbetween.done
      nodeKey controller response
    refine follows_after hobeys ?_
    rw [hnote]
    refine follows_after hobeys' ?_
    rw [hnote']
    have hidle' : Resting (setChannel s nodeKey { channelFor s nodeKey with channel := y }) :=
      channels_setChannel hready hidle hkept fun k hk z hz => onlyNode_idle hk hz
    refine endAttempt_follows (x := x) hidle' htracks.name ?_ rfl hbetween hmore
    exact htracks.nodes

theorem callMethod_follows (hpc : s.pc = .idle) (hcoherent : Coherent hash64 (listing s))
    (hrest : Resting s) (htracks : Tracks serviceName s h) (args : CallArgs M) (now : ℤ) :
    Follows serviceName h (callMethod env messages hash64 s args now) := by
  have hidle := htracks.call
  rw [InProgress,hpc] at hidle
  have hbetween : Between { args := args : CallLog M }
      { args with controller := args.controller.reset } 0 :=
    ⟨rfl,rfl,rfl,rfl,fun _ he => absurd he List.not_mem_nil⟩
  rw [callMethod]
  have hcalled : Obeys serviceName h [.called args] := (obeys_cons ..).mpr ⟨hidle,obeys_nil _ _⟩
  refine follows_after hcalled ?_
  by_cases hneed : needRefresh s now = true
  · rw [if_pos hneed]
    refine beginRefresh_follows hrest htracks.name ?_ _ none none ⟨_,rfl,hbetween,rfl,rfl,rfl⟩
    exact htracks.nodes
  · rw [if_neg hneed]
    refine startCall_follows hcoherent hrest htracks.name ?_ rfl hbetween rfl rfl
    exact htracks.nodes

theorem step_follows (hready : Ready s) (hcoherent : Coherent hash64 (listing s))
    (htracks : Tracks serviceName s h) (i : Input M) :
    Follows serviceName h ((balanceChannel env messages hash64).step s i) := by
  simp only [balanceChannel]
  split
  case h_1 args now hpc =>
    rw [Ready,hpc] at hready
    exact callMethod_follows hpc hcoherent hready htracks args now
  case h_2 args response failed j now hpc =>
    exact registryStep_follows hpc hcoherent (ready_refreshing hready hpc) htracks j now
  case h_3 args attempt nodeKey j hpc =>
    exact nodeStep_follows hpc (ready_calling hready hpc) htracks j
  case h_4 => exact ⟨obeys_nil _ _,htracks⟩

end

structure Kept (hash64 : Bytes → UInt64) (serviceName : String) (s : LoadBalanceChannel M)
    (os : List (Output M)) : Prop where
  ready : Ready s
  coherent : Coherent hash64 (listing s)
  obeys : Obeys serviceName {} os
  tracks : Tracks serviceName s (history os)

theorem kept_step (env : Envelopes) (messages : DiscoverMessages) {hash64 : Bytes → UInt64}
    {serviceName : String} (s : LoadBalanceChannel M) (os : List (Output M)) (i : Input M)
    (h : Kept hash64 serviceName s os) :
    Kept hash64 serviceName ((balanceChannel env messages hash64).step s i).1
      (os++((balanceChannel env messages hash64).step s i).2) := by
  have hstep : Follows serviceName (history os) ((balanceChannel env messages hash64).step s i) :=
    step_follows h.ready h.coherent h.tracks i
  refine ⟨step_ready env messages hash64 h.ready i,step_coherent env messages hash64 h.coherent i,
    (obeys_append ..).mpr ⟨h.obeys,hstep.obeys⟩,?_⟩
  rw [history,List.foldl_append]
  exact hstep.tracks

/-- In every run of a channel, whatever is called on it and whatever its
system calls return, each event is allowed by the history before it. -/
theorem balanced_call_contract (env : Envelopes) (messages : DiscoverMessages)
    (hash64 : Bytes → UInt64) (serviceName : String) (type : BalanceType)
    (refreshIntervalMs callTimeoutMs callRetries : ℤ) (is : List (Input M)) :
    Throughout (fun before => Allowed serviceName (history before))
      ((balanceChannel env messages hash64).run
        (.new serviceName type refreshIntervalMs callTimeoutMs callRetries) is).2 := by
  have hnew : Kept (M := M) hash64 serviceName
      (.new serviceName type refreshIntervalMs callTimeoutMs callRetries) [] :=
    ⟨new_ready _ _ _ _ _,⟨rfl,rfl⟩,obeys_nil _ _,rfl,rfl,idle_plain rfl,rfl⟩
  exact (run_invariant _ (Kept hash64 serviceName) (kept_step env messages) _ is hnew).obeys

end MiniRpc.BalanceContract
