import MiniRpc.AcceptedConnections

/-!
# What the connection callback finds

`handleNewConnection` calls `connectionCallback_` when it has handed the
connection to its loop. In the loop of the server itself the connection has
then been registered, and nothing else has happened to it. Another loop may
not have come to it yet.
-/

set_option autoImplicit false

namespace MiniRpc.ConnectionCallback
open MiniRpc.ConnectionLoop (State)
open MiniRpc.StepMachine MiniRpc.ConnectionDispatch MiniRpc.ConnectionLifecycle
open MiniRpc.AcceptLoop MiniRpc.AcceptedConnections

variable {L : Type}

/-- What a connection of the server's own loop has done when its callback is
called. -/
def registered : List Action := [.setState .connected,.update ⟨true,false⟩]

/-- What the callback of connection `k` saw after the history `before`. -/
structure Seen (s : TcpServer L) (before : List AcceptLoop.Output) (k : ℕ) (state : State) : Prop where
  first : ∀ state', .connectionCallback k state' ∉ before
  current : (lifecycle.after {} (actions k before)).state = state
  connecting : state = .connecting → actions k before = []
  own : ∃ c, s.conns[k]? = some c ∧ (c.loop = s.loop → actions k before = registered)

structure Heard (s : TcpServer L) (os : List AcceptLoop.Output) : Prop where
  past : ∀ k state, .connectionCallback k state ∈ os →
    k < s.conns.length ∧ ∀ handed, s.accepting ≠ some (k,handed)
  during : ∀ k handed c, s.accepting = some (k,handed) → s.conns[k]? = some c → c.loop = s.loop →
    c.shared = false ∧ (handed = true → actions k os = registered)
  seen : ∀ before k state after, os = before++.connectionCallback k state::after →
    Seen s before k state

theorem split_old {α : Type} {xs ys before after : List α} {a : α} (h : xs++ys = before++a::after)
    (hn : a ∉ ys) : ∃ rest, xs = before++a::rest := by
  rcases List.append_eq_append_iff.mp h with ⟨zs,-,hys⟩ | ⟨zs,hxs,hrest⟩
  · rw [hys] at hn
    exact absurd (List.mem_append_right zs List.mem_cons_self) hn
  · cases zs with
    | nil =>
      rw [List.nil_append] at hrest
      exact absurd (hrest ▸ List.mem_cons_self) hn
    | cons z zs =>
      obtain ⟨rfl,-⟩ := List.cons.inj hrest
      exact ⟨zs,hxs⟩

def Stays (s t : TcpServer L) : Prop :=
  t.loop = s.loop ∧ ∀ (k : ℕ) (c : Accepted L), s.conns[k]? = some c →
    ∃ d : Accepted L, t.conns[k]? = some d ∧ d.loop = c.loop

theorem stays_length {s t : TcpServer L} (h : Stays s t) {k : ℕ} (hk : k < s.conns.length) :
    k < t.conns.length := by
  obtain ⟨d,hd,-⟩ := h.2 k s.conns[k] (List.getElem?_eq_getElem hk)
  exact (List.getElem?_eq_some_iff.mp hd).1

theorem stays_set {s t : TcpServer L} {k : ℕ} {c d : Accepted L} (hk : s.conns[k]? = some c)
    (hloop : t.loop = s.loop) (hconns : t.conns = s.conns.set k d) (hl : d.loop = c.loop) :
    Stays s t := by
  refine ⟨hloop,fun j x hj => ?_⟩
  rw [hconns,getElem?_set_some hk]
  split
  · next heq =>
    rw [heq] at hj
    exact ⟨d,rfl,Option.some.inj (hk.symm.trans hj) ▸ hl⟩
  · exact ⟨x,hj,rfl⟩

theorem stays_accept (s : TcpServer L) : Stays s s.accept.1 :=
  ⟨rfl,fun _ c hk =>
    ⟨c,(List.getElem?_append_left (List.getElem?_eq_some_iff.mp hk).1).trans hk,rfl⟩⟩

theorem seen_stays {s t : TcpServer L} (h : Stays s t) {before : List AcceptLoop.Output} {k : ℕ}
    {state : State} (hs : Seen s before k state) : Seen t before k state := by
  obtain ⟨c,hk,hown⟩ := hs.own
  obtain ⟨d,hd,hl⟩ := h.2 k c hk
  refine ⟨hs.first,hs.current,hs.connecting,d,hd,fun hloop => hown ?_⟩
  rw [← hl,hloop,h.1]

theorem heard_silent {s : TcpServer L} {os : List AcceptLoop.Output} (h : Heard s os)
    {r : TcpServer L × List AcceptLoop.Output} (hstays : Stays s r.1)
    (hno : ∀ k state, .connectionCallback k state ∉ r.2)
    (haccepting : ∀ k handed, r.1.accepting = some (k,handed) →
      (∃ handed', s.accepting = some (k,handed')) ∨ s.conns.length ≤ k)
    (hduring : ∀ k handed c, r.1.accepting = some (k,handed) → r.1.conns[k]? = some c →
      c.loop = r.1.loop → c.shared = false ∧ (handed = true → actions k (os++r.2) = registered)) :
    Heard r.1 (os++r.2) := by
  refine ⟨?_,hduring,?_⟩
  · intro k state hmem
    obtain ⟨hk,hpast⟩ := h.past k state ((List.mem_append.mp hmem).resolve_right (hno k state))
    refine ⟨stays_length hstays hk,fun handed ha => ?_⟩
    rcases haccepting k handed ha with ⟨handed',hold⟩ | hnew
    · exact hpast handed' hold
    · omega
  · intro before k state after hsplit
    obtain ⟨rest,hos⟩ := split_old hsplit (hno k state)
    exact seen_stays hstays (h.seen before k state rest hos)

theorem heard_callback {s : TcpServer L} {os : List AcceptLoop.Output} (ht : Traced s os)
    (h : Heard s os) {k : ℕ} {c : Accepted L} (ha : s.accepting = some (k,true))
    (hk : s.conns[k]? = some c) :
    Heard { s with conns := s.conns.set k { c with shared := true }, accepting := none }
      (os++[.connectionCallback k c.conn.conn.state]) := by
  have hstays : Stays s
      { s with conns := s.conns.set k { c with shared := true }, accepting := none } :=
    stays_set hk rfl rfl rfl
  have hsound := (ht.keeps k c hk).sound
  have hfresh : ∀ state, .connectionCallback k state ∉ os :=
    fun state hmem => (h.past k state hmem).2 true ha
  refine ⟨?_,fun _ _ _ hno => absurd hno.symm (Option.some_ne_none _),?_⟩
  · intro j state hmem
    refine ⟨?_,fun _ hno => absurd hno.symm (Option.some_ne_none _)⟩
    apply stays_length hstays
    rcases List.mem_append.mp hmem with hold | hnew
    · exact (h.past j state hold).1
    · obtain ⟨rfl,-⟩ := AcceptLoop.Output.connectionCallback.inj (List.mem_singleton.mp hnew)
      exact (List.getElem?_eq_some_iff.mp hk).1
  · intro before j state after hsplit
    apply seen_stays hstays
    by_cases hlast : after = []
    · rw [hlast] at hsplit
      obtain ⟨rfl,hout⟩ := List.append_inj' hsplit rfl
      obtain ⟨rfl,rfl⟩ := AcceptLoop.Output.connectionCallback.inj (List.cons.inj hout).1
      refine ⟨hfresh,hsound.state,?_,c,hk,fun hl => (h.during k true c ha hk hl).2 rfl⟩
      exact fun hcon => (ht.untouched k c hk (hsound.establishing.mpr hcon)).2
    · obtain ⟨rest,y,rfl⟩ := List.eq_nil_or_concat after |>.resolve_left hlast
      rw [List.concat_eq_append,← List.cons_append,← List.append_assoc] at hsplit
      exact h.seen before j state rest (List.append_inj_left' hsplit rfl)

variable [DecidableEq L]

theorem act_heard {s : TcpServer L} {os : List AcceptLoop.Output} (hkept : Kept s os)
    (h : Heard s os) {r : TcpServer L × List AcceptLoop.Output} (hr : Act s r) :
    Heard r.1 (os++r.2) := by
  have hmap : ∀ (k : ℕ) (as : List Action) (j : ℕ) (state : State),
      .connectionCallback j state ∉ as.map (AcceptLoop.Output.connection k) := by simp
  have hother : ∀ (k : ℕ) (as : List Action) (j : ℕ), j ≠ k →
      actions j (os++as.map (.connection k)) = actions j os := by
    intro k as j hj
    rw [actions_append,actions_other hj,List.append_nil]
  cases hr with
  | rests =>
    rw [List.append_nil]
    exact h
  | accepts hfree =>
    refine heard_silent h (stays_accept s) (fun _ _ => List.not_mem_nil) ?_ ?_
    · intro k handed ha
      obtain ⟨rfl,-⟩ := Prod.mk.inj (Option.some.inj ha)
      exact Or.inr (Nat.le_refl _)
    · intro k handed c ha hk hl
      obtain ⟨rfl,rfl⟩ := Prod.mk.inj (Option.some.inj ha)
      rcases accept_conn hk with hold | ⟨-,rfl⟩
      · exact absurd (List.getElem?_eq_some_iff.mp hold).1 (Nat.lt_irrefl _)
      · exact ⟨rfl,fun hno => Bool.noConfusion hno⟩
  | runs k c ha hk hl =>
    refine heard_silent h (stays_set hk rfl rfl rfl) (hmap k _) ?_ ?_
    · intro j handed hj
      obtain ⟨rfl,-⟩ := Prod.mk.inj (Option.some.inj hj)
      exact Or.inl ⟨false,ha⟩
    · intro j handed x hj hx _
      obtain ⟨rfl,-⟩ := Prod.mk.inj (Option.some.inj hj)
      obtain ⟨l,hv⟩ := (hkept.placed.fresh k ha).1
      obtain ⟨d,hd,-,he⟩ := view_eq.mp hv
      obtain rfl := Option.some.inj (hk.symm.trans hd)
      obtain ⟨hnew,hnone⟩ := hkept.traced.untouched k c hk he
      rcases setConn_conn (s := { s with accepting := some (k,true) }) hk hx with ⟨hne,-⟩ | ⟨-,rfl⟩
      · exact absurd rfl hne
      · refine ⟨(h.during k false c ha hk hl).1,fun _ => ?_⟩
        rw [actions_append,hnone,hnew,TcpServer.setConn,actions_same]
        rfl
  | posts k c ha hk hl =>
    refine heard_silent h ⟨rfl,fun _ x hx => ⟨x,hx,rfl⟩⟩ (fun _ _ => List.not_mem_nil) ?_ ?_
    · intro j handed hj
      obtain ⟨rfl,-⟩ := Prod.mk.inj (Option.some.inj hj)
      exact Or.inl ⟨false,ha⟩
    · intro j handed x hj hx hloop
      obtain ⟨rfl,-⟩ := Prod.mk.inj (Option.some.inj hj)
      exact absurd hloop (Option.some.inj (hk.symm.trans hx) ▸ hl)
  | callsBack k c ha hk => exact heard_callback hkept.traced h ha hk
  | functor l k ks hf hbusy =>
    obtain ⟨c,hk,rfl,he⟩ := functor_place hkept.placed hf
    simp only [TcpServer.establish,hk,if_true]
    refine heard_silent h (stays_set hk rfl rfl rfl) (hmap k _)
      (fun j handed hj => Or.inl ⟨handed,hj⟩) ?_
    intro j handed x hj hx hloop
    have hj' : s.accepting = some (j,handed) := hj
    have hne : c.loop ≠ s.loop := by
      simpa [TcpServer.busy,hj'] using hbusy
    rcases setConn_conn (s := { s with pendingFunctors := _ }) hk hx with ⟨hjk,hold⟩ | ⟨rfl,rfl⟩
    · rw [TcpServer.setConn,hother k _ j hjk]
      exact h.during j handed x hj' hold hloop
    · exact absurd hloop hne
  | moves k c i hk hserver huser hbusy =>
    refine heard_silent h (stays_set hk rfl rfl rfl) (hmap k _)
      (fun j handed hj => Or.inl ⟨handed,hj⟩) ?_
    intro j handed x hj hx hloop
    have hj' : s.accepting = some (j,handed) := hj
    rcases setConn_conn hk hx with ⟨hjk,hold⟩ | ⟨rfl,rfl⟩
    · rw [TcpServer.setConn,hother k _ j hjk]
      exact h.during j handed x hj' hold hloop
    · have hl : c.loop = s.loop := hloop
      have hunshared := (h.during j handed c hj' hk hl).1
      exfalso
      cases hi : inLoopThread i with
      | true =>
        have hb := hbusy hi
        simp [TcpServer.busy,hj',hl] at hb
      | false =>
        have hu : byUser i = true := by
          cases i <;> first | rfl | exact Bool.noConfusion hi
        exact Bool.noConfusion (hunshared.symm.trans (huser hu))

theorem run_heard (name : String) (loop : L) (ioLoops : List L) (is : List (AcceptLoop.Input L)) :
    Heard (tcpServer.run (new name loop ioLoops) is).1 (tcpServer.run (new name loop ioLoops) is).2 :=
  (run_invariant tcpServer (fun s os => Kept s os ∧ Heard s os)
    (fun s _ i h => ⟨act_kept h.1 (step_act s i),act_heard h.1 h.2 (step_act s i)⟩) _ is
    ⟨kept_new name loop ioLoops,by constructor <;> simp [new]⟩).2

theorem step_loop (s : TcpServer L) (i : AcceptLoop.Input L) : (tcpServer.step s i).1.loop = s.loop := by
  have hact := step_act s i
  generalize tcpServer.step s i = r at hact
  cases hact with
  | functor l k ks hf hbusy =>
    rw [TcpServer.establish]
    split
    · rfl
    · split <;> rfl
  | _ => rfl

theorem run_loop (s : TcpServer L) (is : List (AcceptLoop.Input L)) :
    (tcpServer.run s is).1.loop = s.loop :=
  run_invariant tcpServer (fun t _ => t.loop = s.loop) (fun t _ i h => (step_loop t i).trans h) s is rfl

/-- The callback is called at most once for a connection. It finds the
connection still connecting exactly if its loop has done nothing with it. A
connection in the loop of the server has just been registered. -/
theorem connectionCallback_finds (name : String) (loop : L) (ioLoops : List L)
    (is : List (AcceptLoop.Input L)) (before after : List AcceptLoop.Output) (k : ℕ) (state : State)
    (h : (tcpServer.run (new name loop ioLoops) is).2 =
      before++.connectionCallback k state::after) :
    (∀ state', .connectionCallback k state' ∉ before++after) ∧
    (state = .connecting ↔ actions k before = []) ∧
    ∃ c, (tcpServer.run (new name loop ioLoops) is).1.conns[k]? = some c ∧
      (c.loop = loop → state = .connected ∧
        actions k before = [.setState .connected,.update ⟨true,false⟩]) := by
  have hheard := run_heard name loop ioLoops is
  have hseen := hheard.seen before k state after h
  refine ⟨?_,⟨hseen.connecting,?_⟩,?_⟩
  · intro state' hmem
    rcases List.mem_append.mp hmem with hold | hlater
    · exact hseen.first state' hold
    · obtain ⟨mid,rest,rfl⟩ := List.append_of_mem hlater
      rw [← List.cons_append,← List.append_assoc] at h
      have hlate := hheard.seen _ k state' rest h
      exact hlate.first state (List.mem_append_right before List.mem_cons_self)
  · intro hnone
    rw [← hseen.current,hnone]
    rfl
  · obtain ⟨c,hk,hown⟩ := hseen.own
    rw [run_loop] at hown
    refine ⟨c,hk,fun hl => ?_⟩
    have hregistered := hown hl
    refine ⟨?_,hregistered⟩
    rw [← hseen.current,hregistered]
    rfl

theorem callback_before_functor :
    ∃ before after, (tcpServer.run (new "s" 0 [1])
        [.accept,.handleNewConnection,.handleNewConnection,.doPendingFunctors 1]).2 =
        before++.connectionCallback 0 .connecting::after ∧ actions 0 before = [] := by
  refine ⟨[],[.connection 0 (.setState .connected),.connection 0 (.update ⟨true,false⟩)],by rfl,?_⟩
  exact (connectionCallback_finds "s" 0 [1] [.accept,.handleNewConnection,.handleNewConnection,
    .doPendingFunctors 1] [] _ 0 .connecting (by rfl)).2.1.mp rfl

end MiniRpc.ConnectionCallback
