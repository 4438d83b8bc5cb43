import MiniRpc.BalanceState
import MiniRpc.RegistryLease

/-!
# How old the news is that a call is routed by

A load-balancing channel and the registry it asks. The registry handles the
requests of all nodes and clients and is not restarted; while the channel
waits for `Discover`, it may also handle a copy of that request, and what it
answers then is in `given`. That a `Discover` which succeeds returns one of
these answers is what the client channel and the server guarantee
(`RpcNetwork`); here it is a condition on the steps of the environment, and so
is that the channel reads its clock at most `exchange` after the answer was
made. A `Discover` may fail at any time.

All times, in nanoseconds, are those of one clock.
-/

set_option autoImplicit false

namespace MiniRpc.RoutedNodes
open MiniRpc.ByteBuffer MiniRpc.CallController MiniRpc.StepMachine MiniRpc.NodeRegistry
open MiniRpc.RegistryLease MiniRpc.CallOutcome MiniRpc.BalanceChannel MiniRpc.NodeCalls
open MiniRpc.BalanceState MiniRpc.ProtoWire
open MiniRpc.CallChannel (CallArgs)

variable {M : Type}

structure Cluster (M : Type) where
  registry : RegistryServiceImpl
  channel : LoadBalanceChannel M
  clock : ℤ := 0
  given : List (ℤ × List NodeInfo) := []

inductive Input (M : Type) where
  | handle (now : ℤ) (e : Event)
  | answer (now : ℤ) (order : IterOrder)
  | callMethod (args : CallArgs M) (now : ℤ)
  | refresh (i : CallChannel.Input Response) (now : ℤ)
  | node (i : CallChannel.Input M)

inductive Output (M : Type) where
  | handled (now : ℤ) (e : Event)
  | called (now : ℤ)
  | refreshed (taken : Option (ℤ × List NodeInfo))
  | channel (o : BalanceChannel.Output M)

def start (timeout : ℤ) (channel : LoadBalanceChannel M) : Cluster M :=
  { registry := RegistryLease.start timeout, channel }

def asking : Pc M → Bool
  | .refreshing _ _ _ => true
  | _ => false

def free : Pc M → Bool
  | .idle => true
  | _ => false

def nodesOf (answer : Option Response) : List NodeInfo := (answer.map Response.nodes).getD []

/-- The answer of the registry that `Discover` returns. -/
def Cluster.taken (exchange : ℤ) (s : Cluster M) (now : ℤ) (answer : Option Response) :
    Option (ℤ × List NodeInfo) :=
  s.given.find? fun x => x.2 = nodesOf answer && now-x.1 ≤ exchange

section
variable (env : Envelopes) (messages : DiscoverMessages) (hash64 : Bytes → UInt64) (exchange : ℤ)

def Cluster.refresh (s : Cluster M) (i : CallChannel.Input Response) (now : ℤ) :
    Cluster M × List (Output M) :=
  let r := (balanceChannel env messages hash64).step s.channel (.registry i now)
  match returnOf ((CallChannel.channel env).step s.channel.registryChannel i).2 with
  | none => ({ s with channel := r.1 },r.2.map .channel)
  | some (controller,answer) =>
    let taken := if controller.failed then none else s.taken exchange now answer
    if s.clock ≤ now ∧ (controller.failed || taken.isSome) then
      ({ s with channel := r.1, clock := now, given := [] },.refreshed taken::r.2.map .channel)
    else (s,[])

def cluster : Machine (Cluster M) (Input M) (Output M) where
  step s i :=
    match i with
    | .handle now e =>
      if s.clock ≤ now then
        ({ s with registry := (registry.step s.registry (now,e)).1, clock := now },[.handled now e])
      else (s,[])
    | .answer now order =>
      if s.clock ≤ now ∧ asking s.channel.pc then
        let r := discover s.registry now s.channel.serviceName order
        ({ s with registry := r.1, clock := now, given := s.given++[(now,r.2.nodes)] },
          [.handled now (.request (.discover s.channel.serviceName order))])
      else (s,[])
    | .callMethod args now =>
      if s.clock ≤ now ∧ free s.channel.pc then
        let r := (balanceChannel env messages hash64).step s.channel (.callMethod args now)
        ({ s with channel := r.1, clock := now },.called now::r.2.map .channel)
      else (s,[])
    | .refresh i now =>
      if asking s.channel.pc then s.refresh env messages hash64 exchange i now else (s,[])
    | .node i =>
      let r := (balanceChannel env messages hash64).step s.channel (.node i)
      ({ s with channel := r.1 },r.2.map .channel)

end

def handledOf (os : List (Output M)) : List (ℤ × Event) :=
  os.filterMap fun
    | .handled now e => some (now,e)
    | _ => none

/-- The time of the latest call, whether a `Discover` has failed since, and
the answer that was taken over last, with its time. -/
structure CallView where
  calledAt : ℤ := 0
  missed : Bool := false
  taken : Option (ℤ × List NodeInfo) := none

def CallView.see (v : CallView) : Output M → CallView
  | .called now => { v with calledAt := now, missed := false }
  | .refreshed none => { v with missed := true }
  | .refreshed (some x) => { v with taken := some x }
  | _ => v

def viewOf (os : List (Output M)) : CallView := os.foldl CallView.see {}

/-- `nodes` is what the registry answered to a `Discover` at time `u`, having
handled `h` before. -/
def Snapshot (timeout : ℤ) (service : String) (os : List (Output M)) (h : List (ℤ × Event)) (u : ℤ)
    (nodes : List NodeInfo) : Prop :=
  ∃ order rest, handledOf os = h++(u,.request (.discover service order))::rest ∧
    (∀ e ∈ h, e.1 ≤ u) ∧ nodes = answerAt timeout h service u order

/-- The list is new enough for the call, or could not be renewed. -/
def Fresh (interval : ℤ) (os : List (Output M)) (refreshedAt : ℤ) : Prop :=
  (viewOf os).missed = true ∨ (viewOf os).calledAt-refreshedAt ≤ max 0 (interval*1000000)

def Routed (timeout exchange interval : ℤ) (service : String) (os : List (Output M)) :
    Output M → Prop
  | .channel (.selected _ nodeKey _) =>
    ∃ u nodes h, (viewOf os).taken = some (u,nodes) ∧ Snapshot timeout service os h u nodes ∧
      nodeKey ∈ nodes.map NodeRegistry.nodeKey ∧
      ((viewOf os).missed = true ∨
        (viewOf os).calledAt-u ≤ exchange+max 0 (interval*1000000))
  | _ => True

def Current (timeout exchange : ℤ) (service : String) (os : List (Output M))
    (c : LoadBalanceChannel M) : Prop :=
  c.nodes ≠ [] → ∃ u h, (viewOf os).taken = some (u,c.nodes) ∧ c.lastRefresh-u ≤ exchange ∧
    Snapshot timeout service os h u c.nodes

def judged : Pc M → Bool
  | .idle => false
  | .refreshing _ _ failed => failed.isSome
  | .calling _ _ _ => true

structure Viewed (hash64 : Bytes → UInt64) (timeout exchange interval : ℤ) (service : String)
    (s : Cluster M) (os : List (Output M)) : Prop where
  registry : s.registry = (registry.run (RegistryLease.start timeout) (handledOf os)).1
  times : ∀ e ∈ handledOf os, e.1 ≤ s.clock
  called : (viewOf os).calledAt ≤ s.clock
  given : ∀ x ∈ s.given, ∃ h, Snapshot timeout service os h x.1 x.2
  listed : Current timeout exchange service os s.channel
  fresh : judged s.channel.pc = true → Fresh interval os s.channel.lastRefresh
  named : s.channel.serviceName = service
  every : s.channel.refreshIntervalMs = interval
  coherent : Coherent hash64 (listing s.channel)
  routed : Throughout (Routed timeout exchange interval service) os

section
variable {os : List (Output M)}

@[simp] theorem handledOf_append (os new : List (Output M)) :
    handledOf (os++new) = handledOf os++handledOf new := List.filterMap_append

@[simp] theorem handledOf_channel (xs : List (BalanceChannel.Output M)) :
    handledOf (xs.map .channel) = [] := by
  induction xs with
  | nil => rfl
  | cons x xs ih => exact ih

theorem viewOf_snoc (os : List (Output M)) (o : Output M) : viewOf (os++[o]) = (viewOf os).see o := by
  rw [viewOf,List.foldl_append]
  rfl

@[simp] theorem viewOf_channel (os : List (Output M)) (xs : List (BalanceChannel.Output M)) :
    viewOf (os++xs.map .channel) = viewOf os := by
  induction xs generalizing os with
  | nil => rw [List.map_nil,List.append_nil]
  | cons x xs ih =>
    rw [List.map_cons,List.append_cons,ih,viewOf_snoc]
    rfl

theorem snapshot_append {timeout : ℤ} {service : String} {h : List (ℤ × Event)} {u : ℤ}
    {nodes : List NodeInfo} (hsnap : Snapshot timeout service os h u nodes) (new : List (Output M)) :
    Snapshot timeout service (os++new) h u nodes := by
  obtain ⟨order,rest,hhandled,htimes,hnodes⟩ := hsnap
  refine ⟨order,rest++handledOf new,?_,htimes,hnodes⟩
  rw [handledOf_append,hhandled,List.append_assoc,List.cons_append]

theorem current_of {timeout exchange : ℤ} {service : String} {c c' : LoadBalanceChannel M}
    (h : Current timeout exchange service os c) (hnodes : c'.nodes = c.nodes)
    (hlast : c'.lastRefresh = c.lastRefresh) : Current timeout exchange service os c' := by
  rw [Current,hnodes,hlast]
  exact h

theorem current_append {timeout exchange : ℤ} {service : String} {c : LoadBalanceChannel M}
    (h : Current timeout exchange service os c) {new : List (Output M)}
    (hview : (viewOf (os++new)).taken = (viewOf os).taken) :
    Current timeout exchange service (os++new) c := by
  intro hsome
  obtain ⟨u,h,htaken,hu,hsnap⟩ := h hsome
  exact ⟨u,h,hview.trans htaken,hu,snapshot_append hsnap new⟩

theorem throughout_channel {timeout exchange interval : ℤ} {service : String}
    {xs : List (BalanceChannel.Output M)}
    (h : ∀ choice ∈ selections xs, ∃ u nodes h, (viewOf os).taken = some (u,nodes) ∧
      Snapshot timeout service os h u nodes ∧ choice.2.1 ∈ nodes.map nodeKey ∧
      ((viewOf os).missed = true ∨
        (viewOf os).calledAt-u ≤ exchange+max 0 (interval*1000000))) :
    Throughout (fun before => Routed timeout exchange interval service (os++before))
      (xs.map .channel) := by
  intro before o after hsplit
  obtain ⟨ys,zs,rfl,rfl,hzs⟩ := List.map_eq_append_iff.mp hsplit
  obtain ⟨z,rest,rfl,rfl,-⟩ := List.map_eq_cons_iff.mp hzs
  cases z with
  | selected attempt key request =>
    obtain ⟨u,nodes,h,htaken,hsnap,hkey,hbound⟩ := h (attempt,key,request) (by simp)
    refine ⟨u,nodes,h,?_,snapshot_append hsnap _,hkey,?_⟩
    · rw [viewOf_channel]
      exact htaken
    · rw [viewOf_channel]
      exact hbound
  | _ => trivial

end

section
variable {hash64 : Bytes → UInt64} {timeout exchange interval : ℤ} {service : String}
variable {s : Cluster M} {os : List (Output M)}

theorem snapshot_now (h : Viewed hash64 timeout exchange interval service s os) {now : ℤ}
    (htime : s.clock ≤ now) (order : IterOrder) :
    Snapshot timeout service (os++[.handled now (.request (.discover service order))])
      (handledOf os) now (discover s.registry now service order).2.nodes := by
  refine ⟨order,[],handledOf_append _ _,fun e he => Int.le_trans (h.times e he) htime,?_⟩
  rw [answerAt,h.registry]

theorem handled_viewed (h : Viewed hash64 timeout exchange interval service s os) {now : ℤ}
    (htime : s.clock ≤ now) (e : Event) (new : List (ℤ × List NodeInfo))
    (hnew : ∀ x ∈ new, ∃ h, Snapshot timeout service (os++[.handled now e]) h x.1 x.2) :
    Viewed hash64 timeout exchange interval service
      { s with
        registry := (registry.step s.registry (now,e)).1
        clock := now
        given := s.given++new } (os++[.handled now e]) where
  registry := by
    rw [handledOf_append,run_append,h.registry]
    rfl
  times := by
    rw [handledOf_append]
    intro x hx
    rcases List.mem_append.mp hx with hx | hx
    · exact Int.le_trans (h.times x hx) htime
    · rw [List.mem_singleton.mp hx]
  called := by
    rw [viewOf_snoc]
    exact Int.le_trans h.called htime
  given := by
    intro x hx
    rcases List.mem_append.mp hx with hx | hx
    · obtain ⟨past,hsnap⟩ := h.given x hx
      exact ⟨past,snapshot_append hsnap _⟩
    · exact hnew x hx
  listed := by
    apply current_append h.listed
    rw [viewOf_snoc]
    rfl
  fresh := by
    intro hjudged
    rw [Fresh,viewOf_snoc]
    exact h.fresh hjudged
  named := h.named
  every := h.every
  coherent := h.coherent
  routed := by
    rw [throughout_append,throughout_cons]
    exact ⟨h.routed,trivial,throughout_nil _⟩

theorem channel_viewed (h : Viewed hash64 timeout exchange interval service s os)
    (pre : List (Output M)) {c : LoadBalanceChannel M} {clock : ℤ}
    {given : List (ℤ × List NodeInfo)} {xs : List (BalanceChannel.Output M)}
    (hclock : s.clock ≤ clock) (hgiven : ∀ x ∈ given, x ∈ s.given)
    (hhandled : handledOf pre = []) (hcalled : (viewOf (os++pre)).calledAt ≤ clock)
    (hpre : Throughout (fun before => Routed timeout exchange interval service (os++before)) pre)
    (hlisted : Current timeout exchange service (os++pre) c)
    (hjudged : judged c.pc = true → Fresh interval (os++pre) c.lastRefresh)
    (hselects : selections xs = [] ∨ Fresh interval (os++pre) c.lastRefresh)
    (hchooses : ChoosesFrom c.nodes xs) (hnamed : c.serviceName = s.channel.serviceName)
    (hevery : c.refreshIntervalMs = s.channel.refreshIntervalMs)
    (hcoherent : Coherent hash64 (listing c)) :
    Viewed hash64 timeout exchange interval service
      { s with channel := c, clock := clock, given := given } (os++(pre++xs.map .channel)) := by
  have hsame : handledOf (os++(pre++xs.map .channel)) = handledOf os := by
    rw [handledOf_append,handledOf_append,hhandled,handledOf_channel,List.append_nil,List.append_nil]
  have hview : viewOf (os++(pre++xs.map .channel)) = viewOf (os++pre) := by
    rw [← List.append_assoc,viewOf_channel]
  refine ⟨?_,?_,?_,?_,?_,?_,hnamed.trans h.named,hevery.trans h.every,hcoherent,?_⟩
  · rw [hsame]
    exact h.registry
  · rw [hsame]
    exact fun e he => Int.le_trans (h.times e he) hclock
  · rw [hview]
    exact hcalled
  · intro x hx
    obtain ⟨past,hsnap⟩ := h.given x (hgiven x hx)
    exact ⟨past,snapshot_append hsnap _⟩
  · rw [← List.append_assoc]
    exact current_append hlisted (by rw [viewOf_channel])
  · intro hj
    rw [Fresh,hview]
    exact hjudged hj
  · rw [throughout_append,throughout_append]
    refine ⟨h.routed,hpre,?_⟩
    simp only [← List.append_assoc]
    refine throughout_channel fun choice hchoice => ?_
    have hfresh := hselects.resolve_left (List.ne_nil_of_mem hchoice)
    have hkey := hchooses choice hchoice
    obtain ⟨n,hn,-⟩ := List.mem_map.mp hkey
    obtain ⟨u,past,htaken,hu,hsnap⟩ := hlisted (List.ne_nil_of_mem hn)
    refine ⟨u,c.nodes,past,htaken,hsnap,hkey,hfresh.imp_right fun hle => ?_⟩
    omega

variable (env : Envelopes) (messages : DiscoverMessages)

variable (hash64) in
theorem step_named (c : LoadBalanceChannel M) (i : BalanceChannel.Input M) :
    ((balanceChannel env messages hash64).step c i).1.serviceName = c.serviceName ∧
    ((balanceChannel env messages hash64).step c i).1.refreshIntervalMs = c.refreshIntervalMs := by
  have hname : ∀ s t : LoadBalanceChannel M, Keep s t → t.serviceName = s.serviceName := by
    intro s t h
    cases h <;> rfl
  have hevery : ∀ s t : LoadBalanceChannel M, Keep s t → t.refreshIntervalMs = s.refreshIntervalMs := by
    intro s t h
    cases h <;> rfl
  rcases step_writes env messages hash64 c i with hkeeps | ⟨t,nodes,now,hbefore,hafter⟩
  · exact ⟨Keeps.eq hname hkeeps,Keeps.eq hevery hkeeps⟩
  · have hname' := Keeps.eq hname hbefore
    have hevery' := Keeps.eq hevery hbefore
    exact ⟨(Keeps.eq hname hafter).trans hname',(Keeps.eq hevery hafter).trans hevery'⟩

theorem callMethod_viewed (h : Viewed hash64 timeout exchange interval service s os)
    (hfree : free s.channel.pc = true) {now : ℤ} (htime : s.clock ≤ now) (args : CallArgs M) :
    Viewed hash64 timeout exchange interval service
      { s with
        channel := ((balanceChannel env messages hash64).step s.channel (.callMethod args now)).1
        clock := now }
      (os++(.called now::((balanceChannel env messages hash64).step s.channel
        (.callMethod args now)).2.map .channel)) := by
  have hidle : s.channel.pc = .idle := by
    cases hpc : s.channel.pc with
    | idle => rfl
    | _ => rw [hpc] at hfree; exact Bool.noConfusion hfree
  have hstep : (balanceChannel env messages hash64).step s.channel (.callMethod args now) =
      callMethod env messages hash64 s.channel args now := by
    simp only [balanceChannel,hidle]
  have hnamed := step_named hash64 env messages s.channel (.callMethod args now)
  have hcoherent := step_coherent env messages hash64 h.coherent (.callMethod args now)
  have hchooses := step_chooses env messages hash64 h.coherent (.callMethod args now)
  rw [hstep] at hnamed hcoherent hchooses ⊢
  have hkeeps := callMethod_keeps env messages hash64 s.channel args now
  have hlast : (callMethod env messages hash64 s.channel args now).1.lastRefresh =
      s.channel.lastRefresh := Keeps.eq lastRefresh_keep hkeeps
  have hnodes : (callMethod env messages hash64 s.channel args now).1.nodes = s.channel.nodes :=
    congrArg Listing.nodes (Keeps.eq listing_keep hkeeps)
  have hview : viewOf (os++[.called now]) = { viewOf os with calledAt := now, missed := false } :=
    viewOf_snoc os (.called now)
  -- The list is judged by its age here, and not used if it is too old.
  have hfresh : (judged (callMethod env messages hash64 s.channel args now).1.pc = false ∧
        selections (callMethod env messages hash64 s.channel args now).2 = []) ∨
      Fresh interval (os++[.called now]) s.channel.lastRefresh := by
    by_cases hneed : needRefresh s.channel now = true
    · left
      rw [callMethod,if_pos hneed]
      exact ⟨rfl,selections_beginRefresh env messages _ _ _ _⟩
    · right
      rw [needRefresh,Bool.or_eq_true,not_or,decide_eq_true_eq,h.every] at hneed
      refine .inr ?_
      rw [hview]
      dsimp only
      omega
  refine channel_viewed h [.called now] htime (fun _ hx => hx) rfl ?_ ?_ ?_ ?_ ?_ hchooses
    hnamed.1 hnamed.2 hcoherent
  · rw [hview]
  · rw [throughout_cons]
    exact ⟨trivial,throughout_nil _⟩
  · exact current_append (current_of h.listed hnodes hlast) (by rw [hview])
  · intro hjudged
    rw [hlast]
    exact hfresh.resolve_left fun hno => Bool.noConfusion (hno.1.symm.trans hjudged)
  · rw [hlast]
    exact hfresh.imp_left And.right

theorem node_viewed (h : Viewed hash64 timeout exchange interval service s os)
    (i : CallChannel.Input M) :
    Viewed hash64 timeout exchange interval service
      { s with channel := ((balanceChannel env messages hash64).step s.channel (.node i)).1 }
      (os++((balanceChannel env messages hash64).step s.channel (.node i)).2.map .channel) := by
  cases hpc : s.channel.pc with
  | calling args attempt key =>
    have hstep := step_calling env messages hash64 hpc i
    have hnamed := step_named hash64 env messages s.channel (.node i)
    have hcoherent := step_coherent env messages hash64 h.coherent (.node i)
    have hchooses := step_chooses env messages hash64 h.coherent (.node i)
    rw [hstep] at hnamed hcoherent hchooses ⊢
    have hkeeps := nodeStep_keeps env messages s.channel args attempt key i
    have hlast : (nodeStep env messages s.channel args attempt key i).1.lastRefresh =
        s.channel.lastRefresh := Keeps.eq lastRefresh_keep hkeeps
    have hnodes : (nodeStep env messages s.channel args attempt key i).1.nodes = s.channel.nodes :=
      congrArg Listing.nodes (Keeps.eq listing_keep hkeeps)
    have hfresh := h.fresh (by rw [hpc]; rfl)
    refine channel_viewed h [] (Int.le_refl _) (fun _ hx => hx) rfl ?_ (throughout_nil _)
      ?_ ?_ (.inl (selections_nodeStep env messages _ _ _ _ _)) hchooses hnamed.1 hnamed.2 hcoherent
    · rw [List.append_nil]
      exact h.called
    · rw [List.append_nil]
      exact current_of h.listed hnodes hlast
    · rw [List.append_nil,hlast]
      exact fun _ => hfresh
  | _ =>
    simp only [balanceChannel,hpc,List.map_nil,List.append_nil]
    exact h

theorem waits_viewed (h : Viewed hash64 timeout exchange interval service s os)
    {args : CallArgs M} {response : Option M} {failed : Option ℕ}
    (hpc : s.channel.pc = .refreshing args response failed) {i : CallChannel.Input Response}
    (hreturn : returnOf ((CallChannel.channel env).step s.channel.registryChannel i).2 = none)
    (now : ℤ) :
    Viewed hash64 timeout exchange interval service
      { s with channel := ((balanceChannel env messages hash64).step s.channel (.registry i now)).1 }
      (os++((balanceChannel env messages hash64).step s.channel (.registry i now)).2.map .channel) := by
  have hstep : (balanceChannel env messages hash64).step s.channel (.registry i now) =
      ({ s.channel with
          registryChannel := ((CallChannel.channel env).step s.channel.registryChannel i).1 },
        ((CallChannel.channel env).step s.channel.registryChannel i).2.map .registry) := by
    rw [step_refreshing env messages hash64 hpc,registryStep,hreturn]
  rw [hstep]
  have hnone := selections_registry (M := M)
    ((CallChannel.channel env).step s.channel.registryChannel i).2
  refine channel_viewed h [] (Int.le_refl _) (fun _ hx => hx) rfl ?_ (throughout_nil _) ?_ ?_
    (.inl hnone) ?_ rfl rfl h.coherent
  · rw [List.append_nil]
    exact h.called
  · rw [List.append_nil]
    exact h.listed
  · rw [List.append_nil]
    exact h.fresh
  · intro choice hchoice
    rw [hnone] at hchoice
    cases hchoice

/-- `Discover` has failed, or returned the answer `taken`. -/
def Returns (exchange : ℤ) (s : Cluster M) (now : ℤ) (controller : ControllerPtr)
    (answer : Option Response) (taken : Option (ℤ × List NodeInfo)) : Prop :=
  (controller.failed = true ∧ taken = none) ∨
  (controller.failed = false ∧ ∃ x ∈ s.given, taken = some x ∧ x.2 = nodesOf answer ∧
    now-x.1 ≤ exchange)

theorem taken_returns {now : ℤ} {controller : ControllerPtr} {answer : Option Response}
    (h : (controller.failed ||
      (if controller.failed then none else s.taken exchange now answer).isSome) = true) :
    Returns exchange s now controller answer
      (if controller.failed then none else s.taken exchange now answer) := by
  cases hfailed : controller.failed with
  | true => exact .inl ⟨hfailed,rfl⟩
  | false =>
    rw [hfailed] at h
    obtain ⟨x,hx⟩ := Option.isSome_iff_exists.mp h
    have hgood := List.find?_some hx
    rw [Bool.and_eq_true,decide_eq_true_eq,decide_eq_true_eq] at hgood
    exact .inr ⟨hfailed,x,List.mem_of_find?_eq_some hx,hx,hgood.1,hgood.2⟩

variable (hash64) in
theorem refreshed_list {c : LoadBalanceChannel M} {args : CallArgs M} {response : Option M}
    {failed : Option ℕ} (hpc : c.pc = .refreshing args response failed)
    {i : CallChannel.Input Response} {controller : ControllerPtr} {answer : Option Response}
    (hreturn : returnOf ((CallChannel.channel env).step c.registryChannel i).2 =
      some (controller,answer)) (now : ℤ) :
    ((balanceChannel env messages hash64).step c (.registry i now)).1.nodes =
      (if controller.failed then c.nodes else nodesOf answer) ∧
    ((balanceChannel env messages hash64).step c (.registry i now)).1.lastRefresh =
      (if controller.failed then c.lastRefresh else now) := by
  have hstep : ((balanceChannel env messages hash64).step c (.registry i now)).1 =
      (endRefresh env messages hash64 (takeNodes hash64 (afterFailedDiscover env c i)
        controller answer now) args response failed).1 := by
    rw [step_refreshing env messages hash64 hpc,registryStep,hreturn]
    rfl
  have hkeeps := endRefresh_keeps env messages hash64 (takeNodes hash64
    (afterFailedDiscover env c i) controller answer now) args response failed
  have hnodes := congrArg Listing.nodes (Keeps.eq listing_keep hkeeps)
  have hlast := Keeps.eq lastRefresh_keep hkeeps
  rw [← hstep] at hnodes hlast
  dsimp only [listing] at hnodes
  rw [hnodes,hlast,takeNodes]
  split_ifs <;> exact ⟨rfl,rfl⟩

theorem returns_viewed (h : Viewed hash64 timeout exchange interval service s os)
    {args : CallArgs M} {response : Option M} {failed : Option ℕ}
    (hpc : s.channel.pc = .refreshing args response failed) {i : CallChannel.Input Response}
    {controller : ControllerPtr} {answer : Option Response}
    (hreturn : returnOf ((CallChannel.channel env).step s.channel.registryChannel i).2 =
      some (controller,answer)) {now : ℤ} (htime : s.clock ≤ now)
    {taken : Option (ℤ × List NodeInfo)}
    (htaken : Returns exchange s now controller answer taken) :
    Viewed hash64 timeout exchange interval service
      { s with
        channel := ((balanceChannel env messages hash64).step s.channel (.registry i now)).1
        clock := now
        given := [] }
      (os++(.refreshed taken::
        ((balanceChannel env messages hash64).step s.channel (.registry i now)).2.map .channel)) := by
  have hnamed := step_named hash64 env messages s.channel (.registry i now)
  have hcoherent := step_coherent env messages hash64 h.coherent (.registry i now)
  have hchooses := step_chooses env messages hash64 h.coherent (.registry i now)
  obtain ⟨hnodes,hlast⟩ := refreshed_list hash64 env messages hpc hreturn now
  have hview := viewOf_snoc os (.refreshed taken)
  have hpre : Throughout (fun before => Routed timeout exchange interval service (os++before))
      [.refreshed taken] := by
    rw [throughout_cons]
    exact ⟨trivial,throughout_nil _⟩
  rcases htaken with ⟨hfailed,rfl⟩ | ⟨hfailed,x,hx,rfl,hsame,hsoon⟩
  · rw [if_pos hfailed] at hnodes hlast
    have hfresh : Fresh interval (os++[.refreshed none])
        ((balanceChannel env messages hash64).step s.channel (.registry i now)).1.lastRefresh := by
      left
      rw [hview]
      rfl
    refine channel_viewed h [.refreshed none] htime (by simp) rfl ?_ hpre ?_
      (fun _ => hfresh) (.inr hfresh) hchooses hnamed.1 hnamed.2 hcoherent
    · rw [hview]
      exact Int.le_trans h.called htime
    · exact current_append (current_of h.listed hnodes hlast) (by rw [hview]; rfl)
  · rw [if_neg (Bool.eq_false_iff.mp hfailed)] at hnodes hlast
    have hcalled : (viewOf (os++[.refreshed (some x)])).calledAt ≤ now := by
      rw [hview]
      exact Int.le_trans h.called htime
    have hfresh : Fresh interval (os++[.refreshed (some x)])
        ((balanceChannel env messages hash64).step s.channel (.registry i now)).1.lastRefresh := by
      right
      rw [hlast]
      omega
    obtain ⟨past,hsnap⟩ := h.given x hx
    refine channel_viewed h [.refreshed (some x)] htime (by simp) rfl hcalled hpre ?_
      (fun _ => hfresh) (.inr hfresh) hchooses hnamed.1 hnamed.2 hcoherent
    rw [Current,hnodes,hlast,← hsame]
    exact fun _ => ⟨x.1,past,by rw [hview]; rfl,hsoon,snapshot_append hsnap _⟩

theorem refresh_viewed (h : Viewed hash64 timeout exchange interval service s os)
    (hasking : asking s.channel.pc = true) (i : CallChannel.Input Response) (now : ℤ) :
    Viewed hash64 timeout exchange interval service
      (s.refresh env messages hash64 exchange i now).1
      (os++(s.refresh env messages hash64 exchange i now).2) := by
  cases hpc : s.channel.pc with
  | refreshing args response failed =>
    rw [Cluster.refresh]
    cases hreturn : returnOf ((CallChannel.channel env).step s.channel.registryChannel i).2 with
    | none => exact waits_viewed env messages h hpc hreturn now
    | some ret =>
      obtain ⟨controller,answer⟩ := ret
      dsimp only
      by_cases hgood : s.clock ≤ now ∧ (controller.failed ||
          (if controller.failed then none else s.taken exchange now answer).isSome) = true
      · rw [if_pos hgood]
        exact returns_viewed env messages h hpc hreturn hgood.1 (taken_returns hgood.2)
      · rw [if_neg hgood,List.append_nil]
        exact h
  | _ => rw [hpc] at hasking; exact Bool.noConfusion hasking

theorem step_viewed (h : Viewed hash64 timeout exchange interval service s os) (i : Input M) :
    Viewed hash64 timeout exchange interval service
      ((cluster env messages hash64 exchange).step s i).1
      (os++((cluster env messages hash64 exchange).step s i).2) := by
  have hidle : Viewed hash64 timeout exchange interval service s (os++[]) := by
    rw [List.append_nil]
    exact h
  cases i with
  | handle now e =>
    simp only [cluster]
    split_ifs with htime
    · have hnew := handled_viewed h htime e [] (by simp)
      rw [List.append_nil] at hnew
      exact hnew
    · exact hidle
  | answer now order =>
    simp only [cluster]
    split_ifs with hgood
    · refine handled_viewed h hgood.1 (.request (.discover s.channel.serviceName order)) _ ?_
      intro x hx
      rw [List.mem_singleton.mp hx,h.named]
      exact ⟨_,snapshot_now h hgood.1 order⟩
    · exact hidle
  | callMethod args now =>
    simp only [cluster]
    split_ifs with hgood
    · exact callMethod_viewed env messages h hgood.2 hgood.1 args
    · exact hidle
  | refresh i now =>
    simp only [cluster]
    split_ifs with hasking
    · exact refresh_viewed env messages h hasking i now
    · exact hidle
  | node i => exact node_viewed env messages h i

end

theorem start_viewed (hash64 : Bytes → UInt64) (timeout exchange interval : ℤ) (service : String)
    (type : BalanceType) (callTimeoutMs callRetries : ℤ) :
    Viewed (M := M) hash64 timeout exchange interval service
      (start timeout (.new service type interval callTimeoutMs callRetries)) [] where
  registry := rfl
  times _ he := absurd he List.not_mem_nil
  called := Int.le_refl _
  given _ hx := absurd hx List.not_mem_nil
  listed hsome := absurd rfl hsome
  fresh hjudged := Bool.noConfusion hjudged
  named := rfl
  every := rfl
  coherent := ⟨rfl,rfl⟩
  routed := throughout_nil _

/-- In every run of a channel and its registry, each node that a call is sent
to is one of the last list that the channel has taken over. That list is what
the registry answered to a `Discover` after all it had handled until then: the
node was registered, and had registered or sent an accepted heartbeat within
the timeout before. The answer is no older at the call than the refresh
interval and one exchange with the registry take, unless a `Discover` failed
during the call. -/
theorem routed_nodes_recent (env : Envelopes) (messages : DiscoverMessages)
    (hash64 : Bytes → UInt64) (timeout exchange interval : ℤ) (service : String)
    (type : BalanceType) (callTimeoutMs callRetries : ℤ) (is : List (Input M)) :
    Throughout (fun before o => ∀ attempt key request, o = .channel (.selected attempt key request) →
      ∃ u nodes h, (viewOf before).taken = some (u,nodes) ∧
        Snapshot timeout service before h u nodes ∧
        (∃ n ∈ nodes, nodeKey n = key ∧
          (∃ c, registration service n h = some c ∧ c.value = n) ∧
          (∃ a ∈ (registry.run (RegistryLease.start timeout) h).2,
            Contact service n a ∧ a.now ≤ u ∧ u-a.now ≤ timeout*1000000)) ∧
        ((viewOf before).missed = true ∨
          (viewOf before).calledAt-u ≤ exchange+max 0 (interval*1000000)))
      ((cluster env messages hash64 exchange).run
        (start timeout (.new service type interval callTimeoutMs callRetries)) is).2 := by
  have hviewed := run_invariant (cluster env messages hash64 exchange)
    (Viewed hash64 timeout exchange interval service)
    (fun s os i h => step_viewed env messages h i) _ is
    (start_viewed hash64 timeout exchange interval service type callTimeoutMs callRetries)
  intro before o after hsplit attempt key request ho
  have hrouted := hviewed.routed before o after hsplit
  rw [ho] at hrouted
  obtain ⟨u,nodes,h,htaken,hsnap,hkey,hbound⟩ := hrouted
  obtain ⟨n,hn,hkey⟩ := List.mem_map.mp hkey
  refine ⟨u,nodes,h,htaken,hsnap,⟨n,hn,hkey,?_⟩,hbound⟩
  obtain ⟨order,rest,-,htimes,hnodes⟩ := hsnap
  rw [hnodes] at hn
  exact discover_sound timeout h service u htimes order n hn

def askedAndRouted : List (Input Bytes) :=
  [.handle 0 (.request (.register "EchoService" nodeA)),.callMethod CallChannel.echoArgs 5000000,
   .refresh (.connectReturned none) 5000000,.refresh sentAll 5000000,.answer 6000000 anyOrder,
   .refresh (listedNodes 1 [nodeA]) 7000000]

example : ((cluster protoEnvelopes discoverMessages sampleHash 1000000).run
      (start 6000 (.new "EchoService" .kRoundRobin 3000 2000 1)) askedAndRouted).2.filterMap (fun
        | .channel (.selected _ key _) => some key
        | _ => none) = ["10.0.0.1:9001"] := by
  decide +kernel

end MiniRpc.RoutedNodes
