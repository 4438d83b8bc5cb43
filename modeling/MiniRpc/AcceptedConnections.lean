import MiniRpc.AcceptLoop

/-!
# What the server keeps of its connections

The table holds the connections that have not been closed, each under its
own name, whichever loops accept, establish and close them. A connection is
established once, by the thread of its loop, and what happens to it is a
lifecycle of `ConnectionLifecycle`. Its functor is pending exactly as long as
it is not established; the connection callback does not wait for it.
-/

set_option autoImplicit false

namespace MiniRpc.AcceptedConnections
open MiniRpc.ConnectionLoop (State TcpConnection WriteResult Functor)
open MiniRpc.KeyedTable MiniRpc.StepMachine MiniRpc.EventChannel
open MiniRpc.ConnectionDispatch MiniRpc.ConnectionLifecycle MiniRpc.AcceptLoop

structure Frame (s : Connection) (r : Connection × List Action) : Prop where
  establishing : r.1.establishing = s.establishing
  unlisted : .closeCallback ∈ r.2 → r.1.listed = false
  listed : .closeCallback ∉ r.2 → r.1.listed = s.listed

theorem frame_silent {s : Connection} {r : Connection × List Action}
    (he : r.1.establishing = s.establishing) (hl : r.1.listed = s.listed)
    (hn : .closeCallback ∉ r.2) : Frame s r := ⟨he,fun h => absurd h hn,fun _ => hl⟩

theorem frame_nil (s : Connection) : Frame s (s,[]) := frame_silent rfl rfl List.not_mem_nil

theorem frame_andThen {s : Connection} {r : Connection × List Action}
    {g : Connection → Connection × List Action} (h : Frame s r) (hg : Frame r.1 (g r.1)) :
    Frame s (andThen r g) := by
  refine ⟨hg.establishing.trans h.establishing,?_,?_⟩
  · intro hmem
    by_cases hlast : .closeCallback ∈ (g r.1).2
    · exact hg.unlisted hlast
    · have hfirst : .closeCallback ∈ r.2 := (List.mem_append.mp hmem).resolve_right hlast
      exact (hg.listed hlast).trans (h.unlisted hfirst)
  · intro hmem
    obtain ⟨hfirst,hlast⟩ := not_or.mp (mt List.mem_append.mpr hmem)
    exact (hg.listed hlast).trans (h.listed hfirst)

theorem frame_holding {s : Connection} {r : Connection × List Action} (h : Frame s r) :
    Frame s (holding r) := by
  have hmem : .closeCallback ∈ (holding r).2 ↔ .closeCallback ∈ r.2 := by simp [holding]
  exact ⟨h.establishing,fun hc => h.unlisted (hmem.mp hc),fun hc => h.listed (mt hmem.mpr hc)⟩

theorem frame_setOutput (s : Connection) (x : TcpConnection) : Frame s (s.setOutput x) := by
  refine frame_silent rfl rfl ?_
  rw [Connection.setOutput]
  split <;> simp

theorem frame_output (s : Connection) (x : TcpConnection) (os : List (ConnectionLoop.Output Unit)) :
    Frame s (andThen (s.setOutput x) fun s' => (s',completion os)) := by
  apply frame_andThen (frame_setOutput s x)
  refine frame_silent rfl rfl ?_
  rw [completion]
  split <;> simp

theorem frame_setState (s : Connection) (state : State) : Frame s (s.setState state) :=
  frame_silent rfl rfl (by simp [Connection.setState])

theorem frame_runFunctor (s : Connection) (w : WriteResult) (f : Functor) :
    Frame s (s.runFunctor w f) := by
  cases f with
  | sendInLoop message => exact frame_holding (frame_output s _ _)
  | shutdownInLoop => exact frame_holding (frame_setOutput s _)

theorem frame_call (s : Connection) (c : Call) : Frame s (s.call c) := by
  have hweak : ∀ t : Connection, Frame t t.makeWeak := fun t => frame_holding (frame_nil t)
  cases c with
  | send message w =>
    rw [Connection.call]
    split
    · exact frame_andThen (hweak s) (frame_runFunctor _ w _)
    · exact frame_nil s
  | shutdown =>
    rw [Connection.call]
    split
    · exact frame_andThen (frame_andThen (frame_setState s _) (hweak _)) (frame_runFunctor _ _ _)
    · exact frame_nil s

theorem frame_runCalls (s : Connection) (cs : List Call) : Frame s (s.runCalls cs) := by
  induction cs generalizing s with
  | nil => exact frame_nil s
  | cons c cs ih => exact frame_andThen (frame_call s c) (ih _)

theorem frame_handleClose (s : Connection) : Frame s s.handleClose := by
  have hdestroyed : ∀ t : Connection, t.connectDestroyed.1.establishing = t.establishing ∧
      t.connectDestroyed.1.listed = t.listed := by
    intro t
    rw [Connection.connectDestroyed]
    split <;> exact ⟨rfl,rfl⟩
  have hcalled : .closeCallback ∈ s.handleClose.2 := by
    simp [Connection.handleClose,andThen,holding]
  exact ⟨(hdestroyed _).1,fun _ => (hdestroyed _).2,fun hn => absurd hcalled hn⟩

theorem frame_callback (s : Connection) (rd : ReadResult) (w : WriteResult) (c : Callback) :
    Frame s (s.callback rd w c) := by
  cases c with
  | read =>
    cases rd with
    | data calls => exact frame_holding (frame_runCalls s calls)
    | eof => exact frame_handleClose s
    | again => exact frame_nil s
    | failed => exact frame_handleClose s
  | write => exact frame_output s _ _
  | close => exact frame_handleClose s
  | error => exact frame_nil s

theorem frame_callbacks (s : Connection) (rd : ReadResult) (w : WriteResult) (cs : List Callback) :
    Frame s (s.callbacks rd w cs) := by
  induction cs generalizing s with
  | nil => exact frame_nil s
  | cons c cs ih => exact frame_andThen (frame_callback s rd w c) (ih _)

theorem frame_step (s : Connection) (i : ConnectionDispatch.Input) (hi : byServer i = false) :
    Frame s (connectionStep s i) := by
  cases i with
  | connectEstablished => exact Bool.noConfusion hi
  | removeConnection => exact Bool.noConfusion hi
  | poll r =>
    rw [connectionStep]
    split
    · exact frame_nil s
    · exact frame_silent rfl rfl List.not_mem_nil
  | dispatch rd w =>
    rw [connectionStep]
    split
    · exact frame_nil s
    · next r _ =>
      have h := frame_callbacks { s with revents := none } rd w (handleEvent r)
      exact ⟨h.establishing,h.unlisted,h.listed⟩
  | call c => exact frame_call s c
  | threadSend message =>
    rw [connectionStep]
    split
    · exact frame_silent rfl rfl List.not_mem_nil
    · exact frame_nil s
  | threadShutdown =>
    rw [connectionStep]
    split
    · exact frame_andThen (frame_setState s _) (frame_silent rfl rfl List.not_mem_nil)
    · exact frame_nil s
  | functor k w =>
    rw [connectionStep]
    split
    · exact frame_nil s
    · next f _ =>
      have h := frame_runFunctor { s with functors := s.functors.eraseIdx k } w f
      exact ⟨h.establishing,h.unlisted,h.listed⟩

theorem frame_connectEstablished (s : Connection) :
    .closeCallback ∉ s.connectEstablished.2 ∧ s.connectEstablished.1.listed = s.listed := by
  simp [Connection.connectEstablished,Connection.setState,andThen]

theorem step_new (i : ConnectionDispatch.Input) (hi : byServer i = false) :
    connectionStep {} i = ({},[]) := by
  cases i with
  | connectEstablished => exact Bool.noConfusion hi
  | removeConnection => exact Bool.noConfusion hi
  | poll r => rfl
  | dispatch rd w => rfl
  | call c => cases c <;> rfl
  | threadSend message => rfl
  | threadShutdown => rfl
  | functor k w => rfl

def actions (k : ℕ) (os : List AcceptLoop.Output) : List Action :=
  os.filterMap fun o => match o with | .connection j a => if j = k then some a else none | _ => none

theorem actions_append (k : ℕ) (xs ys : List AcceptLoop.Output) :
    actions k (xs++ys) = actions k xs++actions k ys := List.filterMap_append

theorem actions_same (k : ℕ) (as : List Action) : actions k (as.map (.connection k)) = as := by
  simp [actions]

theorem actions_other {j k : ℕ} (h : k ≠ j) (as : List Action) :
    actions k (as.map (.connection j)) = [] := by
  simp [actions,h.symm]

variable {L : Type}

def view (s : TcpServer L) (k : ℕ) : Option (L × Bool) :=
  (s.conns[k]?).map fun c => (c.loop,c.conn.establishing)

theorem view_eq {s : TcpServer L} {k : ℕ} {l : L} {e : Bool} :
    view s k = some (l,e) ↔ ∃ c, s.conns[k]? = some c ∧ c.loop = l ∧ c.conn.establishing = e := by
  simp [view]

/-- A connection that is not established is the one being accepted, or its
functor is pending in its own loop, once. -/
structure Placed (v : ℕ → Option (L × Bool)) (accepting : Option (ℕ × Bool))
    (pending : L → List ℕ) : Prop where
  queued : ∀ l k, k ∈ pending l → v k = some (l,true)
  once : ∀ l, (pending l).Nodup
  waits : ∀ l k, v k = some (l,true) → accepting = some (k,false) ∨ k ∈ pending l
  fresh : ∀ k, accepting = some (k,false) → (∃ l, v k = some (l,true)) ∧ ∀ l, k ∉ pending l

theorem getElem?_set_some {s : TcpServer L} {k : ℕ} {c : Accepted L} (hk : s.conns[k]? = some c)
    (d : Accepted L) (j : ℕ) : (s.conns.set k d)[j]? = if j = k then some d else s.conns[j]? := by
  have hlt := (List.getElem?_eq_some_iff.mp hk).1
  by_cases h : j = k
  · rw [h,List.getElem?_set_self hlt,if_pos rfl]
  · rw [List.getElem?_set_ne (Ne.symm h),if_neg h]

theorem setConn_conn {s : TcpServer L} {k : ℕ} {c : Accepted L} (hk : s.conns[k]? = some c)
    {d : Accepted L} {r : Connection × List Action} {j : ℕ} {x : Accepted L}
    (hj : (s.setConn k d r).1.conns[j]? = some x) :
    j ≠ k ∧ s.conns[j]? = some x ∨ j = k ∧ x = { d with conn := r.1 } := by
  simp only [TcpServer.setConn,getElem?_set_some hk] at hj
  split at hj
  · next heq => exact Or.inr ⟨heq,(Option.some.inj hj).symm⟩
  · next hne => exact Or.inl ⟨hne,hj⟩

theorem accept_conn {s : TcpServer L} {k : ℕ} {c : Accepted L}
    (hk : s.accept.1.conns[k]? = some c) :
    s.conns[k]? = some c ∨
      k = s.conns.length ∧ c = { name := connName s.name s.nextConnId, loop := s.nextLoop } := by
  simp only [TcpServer.accept] at hk
  rcases Nat.lt_trichotomy k s.conns.length with hlt | heq | hgt
  · exact Or.inl (by rwa [List.getElem?_append_left hlt] at hk)
  · rw [heq,List.getElem?_concat_length] at hk
    exact Or.inr ⟨heq,(Option.some.inj hk).symm⟩
  · rw [List.getElem?_eq_none (by simp; omega)] at hk
    exact absurd hk.symm (Option.some_ne_none _)

theorem view_setConn {s : TcpServer L} {k : ℕ} {c d : Accepted L} (hk : s.conns[k]? = some c)
    (r : Connection × List Action) :
    view (s.setConn k d r).1 = Function.update (view s) k (some (d.loop,r.1.establishing)) := by
  funext j
  rw [view,TcpServer.setConn,getElem?_set_some hk,Function.update_apply]
  by_cases h : j = k
  · rw [if_pos h,if_pos h]
    rfl
  · rw [if_neg h,if_neg h]
    rfl

theorem view_same {s : TcpServer L} {k : ℕ} {c : Accepted L} (hk : s.conns[k]? = some c) :
    Function.update (view s) k (some (c.loop,c.conn.establishing)) = view s := by
  rw [Function.update_eq_self_iff,view,hk]
  rfl

theorem view_accept (s : TcpServer L) :
    view s.accept.1 = Function.update (view s) s.conns.length (some (s.nextLoop,true)) := by
  funext j
  rw [view,TcpServer.accept,Function.update_apply]
  by_cases h : j = s.conns.length
  · rw [if_pos h,h,List.getElem?_concat_length]
    rfl
  · rw [if_neg h,view]
    congr 1
    rcases Nat.lt_or_ge j s.conns.length with hlt | hge
    · exact List.getElem?_append_left hlt
    · rw [List.getElem?_eq_none (by simp; omega),List.getElem?_eq_none hge]

theorem placed_accept {s : TcpServer L} (hfree : s.accepting = none)
    (h : Placed (view s) s.accepting s.pendingFunctors) :
    Placed (view s.accept.1) s.accept.1.accepting s.accept.1.pendingFunctors := by
  have hunborn : view s s.conns.length = none := by
    rw [view,List.getElem?_eq_none (Nat.le_refl _)]
    rfl
  have hold : ∀ l k, k ∈ s.pendingFunctors l → k ≠ s.conns.length := by
    intro l k hk heq
    have hv := h.queued l k hk
    rw [heq,hunborn] at hv
    exact absurd hv.symm (Option.some_ne_none _)
  rw [view_accept]
  refine ⟨?_,h.once,?_,?_⟩
  · intro l k hk
    rw [Function.update_of_ne (hold l k hk)]
    exact h.queued l k hk
  · intro l k hk
    by_cases hlast : k = s.conns.length
    · exact Or.inl (congrArg (fun n => some (n,false)) hlast.symm)
    · rw [Function.update_of_ne hlast] at hk
      rcases h.waits l k hk with ha | hp
      · rw [hfree] at ha
        exact absurd ha.symm (Option.some_ne_none _)
      · exact Or.inr hp
  · rintro k heq
    obtain rfl : s.conns.length = k := congrArg Prod.fst (Option.some.inj heq)
    exact ⟨⟨s.nextLoop,Function.update_self _ _ _⟩,fun l hl => hold l _ hl rfl⟩

theorem functor_place {s : TcpServer L} (h : Placed (view s) s.accepting s.pendingFunctors) {l : L}
    {k : ℕ} {ks : List ℕ} (hf : s.pendingFunctors l = k::ks) :
    ∃ c, s.conns[k]? = some c ∧ c.loop = l ∧ c.conn.establishing = true :=
  view_eq.mp (h.queued l k (by simp [hf]))

variable {v : ℕ → Option (L × Bool)} {accepting : Option (ℕ × Bool)} {pending : L → List ℕ}

theorem placed_run {k : ℕ} {l : L} (h : Placed v (some (k,false)) pending) :
    Placed (Function.update v k (some (l,false))) (some (k,true)) pending := by
  have hnot := (h.fresh k rfl).2
  refine ⟨?_,h.once,?_,?_⟩
  · intro l' j hj
    rw [Function.update_of_ne (fun heq : j = k => hnot l' (heq ▸ hj))]
    exact h.queued l' j hj
  · intro l' j hj
    by_cases heq : j = k
    · rw [heq,Function.update_self] at hj
      simp at hj
    · rw [Function.update_of_ne heq] at hj
      refine Or.inr ((h.waits l' j hj).resolve_left fun ha => heq ?_)
      exact (congrArg Prod.fst (Option.some.inj ha)).symm
  · intro j hj
    simp at hj

/-- The history of every connection is that of a lifecycle. A connection that
is not established is as it was made; it is listed until its close callback
is called. -/
structure Traced (s : TcpServer L) (os : List AcceptLoop.Output) : Prop where
  keeps : ∀ k c, s.conns[k]? = some c → Keeps {} (c.conn,actions k os)
  untouched : ∀ k c, s.conns[k]? = some c → c.conn.establishing = true →
    c.conn = {} ∧ actions k os = []
  listed : ∀ k c, s.conns[k]? = some c →
    (c.conn.listed = true ↔ .closeCallback ∉ actions k os)
  unborn : ∀ k, s.conns[k]? = none → actions k os = []
  quiet : .aborted ∉ os

theorem traced_accept {s : TcpServer L} {os : List AcceptLoop.Output} (h : Traced s os) :
    Traced s.accept.1 (os++s.accept.2) := by
  have hnew := h.unborn s.conns.length (List.getElem?_eq_none (Nat.le_refl _))
  rw [show s.accept.2 = [] from rfl,List.append_nil]
  refine ⟨?_,?_,?_,?_,h.quiet⟩
  · intro k c hk
    rcases accept_conn hk with hold | ⟨rfl,rfl⟩
    · exact h.keeps k c hold
    · rw [hnew]
      exact keeps_nil new_sound
  · intro k c hk he
    rcases accept_conn hk with hold | ⟨rfl,rfl⟩
    · exact h.untouched k c hold he
    · exact ⟨rfl,hnew⟩
  · intro k c hk
    rcases accept_conn hk with hold | ⟨rfl,rfl⟩
    · exact h.listed k c hold
    · rw [hnew]
      simp
  · intro k hk
    apply h.unborn
    rw [List.getElem?_eq_none_iff] at hk ⊢
    simp only [TcpServer.accept,List.length_append] at hk
    omega

theorem traced_setConn {s : TcpServer L} {os : List AcceptLoop.Output} (h : Traced s os) {k : ℕ}
    {c : Accepted L} (hk : s.conns[k]? = some c) (d : Accepted L) {r : Connection × List Action}
    (hkeeps : Keeps (lifecycle.after {} (actions k os)) r)
    (huntouched : r.1.establishing = true → r = ({},[]) ∧ c.conn.establishing = true)
    (hlisted : r.1.listed = true ↔ c.conn.listed = true ∧ .closeCallback ∉ r.2) :
    Traced (s.setConn k d r).1 (os++(s.setConn k d r).2) := by
  have hsame : actions k (os++(s.setConn k d r).2) = actions k os++r.2 := by
    rw [actions_append,TcpServer.setConn,actions_same]
  have hother : ∀ j, j ≠ k → actions j (os++(s.setConn k d r).2) = actions j os := by
    intro j hj
    rw [actions_append,TcpServer.setConn,actions_other hj,List.append_nil]
  refine ⟨?_,?_,?_,?_,?_⟩
  · intro j x hj
    rcases setConn_conn hk hj with ⟨hne,hold⟩ | ⟨rfl,rfl⟩
    · rw [hother j hne]
      exact h.keeps j x hold
    · rw [hsame]
      exact keeps_andThen (g := fun _ => r) (h.keeps j c hk) hkeeps
  · intro j x hj he
    rcases setConn_conn hk hj with ⟨hne,hold⟩ | ⟨rfl,rfl⟩
    · rw [hother j hne]
      exact h.untouched j x hold he
    · obtain ⟨hr,hc⟩ := huntouched he
      rw [hsame,(h.untouched j c hk hc).2,hr]
      exact ⟨rfl,rfl⟩
  · intro j x hj
    rcases setConn_conn hk hj with ⟨hne,hold⟩ | ⟨rfl,rfl⟩
    · rw [hother j hne]
      exact h.listed j x hold
    · rw [hsame,hlisted,h.listed j c hk,List.mem_append,not_or]
  · intro j hj
    have hne : j ≠ k := by
      rintro rfl
      simp only [TcpServer.setConn,getElem?_set_some hk] at hj
      exact absurd hj (Option.some_ne_none _)
    simp only [TcpServer.setConn,getElem?_set_some hk,if_neg hne] at hj
    rw [hother j hne]
    exact h.unborn j hj
  · rw [List.mem_append,not_or]
    exact ⟨h.quiet,by simp [TcpServer.setConn]⟩

theorem listed_establish (c : Accepted L) :
    { c.conn with establishing := false }.connectEstablished.1.listed = true ↔
      c.conn.listed = true ∧
        .closeCallback ∉ { c.conn with establishing := false }.connectEstablished.2 := by
  obtain ⟨hno,hlisted⟩ := frame_connectEstablished { c.conn with establishing := false }
  rw [hlisted]
  exact ⟨fun hl => ⟨hl,hno⟩,And.left⟩

theorem listed_move (c : Connection) {i : ConnectionDispatch.Input} (hi : byServer i = false) :
    (connectionStep c i).1.listed = true ↔
      c.listed = true ∧ .closeCallback ∉ (connectionStep c i).2 := by
  have hframe := frame_step c i hi
  constructor
  · intro hl
    have hno : .closeCallback ∉ (connectionStep c i).2 := fun hmem =>
      Bool.noConfusion (hl.symm.trans (hframe.unlisted hmem))
    exact ⟨(hframe.listed hno).symm.trans hl,hno⟩
  · rintro ⟨hl,hno⟩
    exact (hframe.listed hno).trans hl

theorem traced_establish {s : TcpServer L} {os : List AcceptLoop.Output} (h : Traced s os) {k : ℕ}
    {c : Accepted L} (hk : s.conns[k]? = some c) (he : c.conn.establishing = true) :
    Traced (s.setConn k c { c.conn with establishing := false }.connectEstablished).1
      (os++(s.setConn k c { c.conn with establishing := false }.connectEstablished).2) := by
  exact traced_setConn h hk c (connectEstablished_keeps (h.keeps k c hk).sound he)
    (fun hno => Bool.noConfusion hno) (listed_establish c)

theorem traced_move {s : TcpServer L} {os : List AcceptLoop.Output} (h : Traced s os) {k : ℕ}
    {c : Accepted L} (hk : s.conns[k]? = some c) (d : Accepted L) {i : ConnectionDispatch.Input}
    (hi : byServer i = false) :
    Traced (s.setConn k d (connectionStep c.conn i)).1
      (os++(s.setConn k d (connectionStep c.conn i)).2) := by
  refine traced_setConn h hk d (step_keeps (h.keeps k c hk).sound i) ?_ (listed_move c.conn hi)
  intro he
  rw [(frame_step c.conn i hi).establishing] at he
  rw [(h.untouched k c hk he).1]
  exact ⟨step_new i hi,rfl⟩

theorem callback_setConn (s : TcpServer L) (k : ℕ) (c : Accepted L) :
    { s with conns := s.conns.set k { c with shared := true }, accepting := none } =
      { (s.setConn k { c with shared := true } (c.conn,[])).1 with accepting := none } := by
  simp [TcpServer.setConn]

theorem traced_callback {s : TcpServer L} {os : List AcceptLoop.Output} (h : Traced s os) {k : ℕ}
    {c : Accepted L} (hk : s.conns[k]? = some c) (state : State) :
    Traced (s.setConn k { c with shared := true } (c.conn,[])).1
      (os++[.connectionCallback k state]) := by
  have hset := traced_setConn h hk { c with shared := true }
    (keeps_nil (h.keeps k c hk).sound) (fun he => ⟨by rw [(h.untouched k c hk he).1],he⟩)
    ⟨fun hl => ⟨hl,List.not_mem_nil⟩,And.left⟩
  have hsame : ∀ j, actions j (os++[.connectionCallback k state]) = actions j (os++[]) := by
    intro j
    rw [actions_append,actions_append]
    rfl
  refine ⟨?_,?_,?_,?_,by simp [h.quiet]⟩
  · intro j x hj
    rw [hsame]
    exact hset.keeps j x hj
  · intro j x hj
    rw [hsame]
    exact hset.untouched j x hj
  · intro j x hj
    rw [hsame]
    exact hset.listed j x hj
  · intro j hj
    rw [hsame]
    exact hset.unborn j hj

theorem connName_inj {name : String} {j k : ℕ} (hj : j < 2^31) (hk : k < 2^31)
    (h : connName name (Int32.ofNat j) = connName name (Int32.ofNat k)) : j = k := by
  rw [connName,connName,String.append_right_inj,Int32.toInt_ofNat_of_lt hj,
    Int32.toInt_ofNat_of_lt hk] at h
  have hrepr : Nat.repr j = Nat.repr k := h
  have hdigits := congrArg (fun text => Nat.ofDigitChars 10 text.toList 0) hrepr
  simpa using hdigits

/-- Connections are numbered from one; as long as the numbers are, the names
are distinct, and the table holds the listed connections. -/
structure Named (s : TcpServer L) : Prop where
  next : s.nextConnId = Int32.ofNat (s.conns.length+1)
  named : ∀ k c, s.conns[k]? = some c → c.name = connName s.name (Int32.ofNat (k+1))
  table : s.conns.length < 2^31 → ∀ n k, s.connections.lookup n = some k ↔
    ∃ c, s.conns[k]? = some c ∧ c.name = n ∧ c.conn.listed = true

theorem names_distinct {s : TcpServer L} {name : String} (hlen : s.conns.length < 2^31)
    (h : ∀ k c, s.conns[k]? = some c → c.name = connName name (Int32.ofNat (k+1))) {j k : ℕ}
    {c d : Accepted L} (hj : s.conns[j]? = some c) (hk : s.conns[k]? = some d)
    (heq : c.name = d.name) : j = k := by
  rw [h j c hj,h k d hk] at heq
  have hj' := (List.getElem?_eq_some_iff.mp hj).1
  have hk' := (List.getElem?_eq_some_iff.mp hk).1
  exact Nat.succ.inj (connName_inj (by omega) (by omega) heq)

theorem named_accept {s : TcpServer L} (h : Named s) : Named s.accept.1 := by
  have hname : ∀ k c, s.accept.1.conns[k]? = some c →
      c.name = connName s.name (Int32.ofNat (k+1)) := by
    intro k c hk
    rcases accept_conn hk with hold | ⟨rfl,rfl⟩
    · exact h.named k c hold
    · rw [h.next]
  have hnext : s.accept.1.nextConnId = Int32.ofNat (s.accept.1.conns.length+1) := by
    simp only [TcpServer.accept,h.next,List.length_append,List.length_singleton]
    rw [Int32.ofNat_add (s.conns.length+1) 1]
    rfl
  have hlast : s.accept.1.conns[s.conns.length]? =
      some { name := connName s.name s.nextConnId, loop := s.nextLoop } := List.getElem?_concat_length
  have hold : ∀ {k c}, s.conns[k]? = some c → s.accept.1.conns[k]? = some c := fun hk =>
    (List.getElem?_append_left (List.getElem?_eq_some_iff.mp hk).1).trans hk
  refine ⟨hnext,hname,?_⟩
  intro hlen n k
  have hlen' : s.conns.length < 2^31 := by
    simp only [TcpServer.accept,List.length_append] at hlen
    omega
  have hinsert : s.accept.1.connections.lookup n =
      if n = connName s.name s.nextConnId then some s.conns.length else s.connections.lookup n :=
    lookup_insert_cases _ _ _ _
  rw [hinsert]
  split
  · next heq =>
    constructor
    · intro hk
      rw [← Option.some.inj hk]
      exact ⟨_,hlast,heq.symm,rfl⟩
    · rintro ⟨c,hk,hn,-⟩
      exact congrArg some (names_distinct hlen hname hlast hk (heq.symm.trans hn.symm))
  · next hne =>
    rw [h.table hlen' n k]
    constructor
    · rintro ⟨c,hk,hc⟩
      exact ⟨c,hold hk,hc⟩
    · rintro ⟨c,hk,hn,hl⟩
      rcases accept_conn hk with hk | ⟨-,rfl⟩
      · exact ⟨c,hk,hn,hl⟩
      · exact absurd hn.symm hne

theorem named_setConn {s : TcpServer L} (h : Named s) {k : ℕ} {c : Accepted L}
    (hk : s.conns[k]? = some c) (d : Accepted L) (hname : d.name = c.name) {r : Connection × List Action}
    (hlisted : r.1.listed = true ↔ c.conn.listed = true ∧ .closeCallback ∉ r.2) :
    Named (s.setConn k d r).1 := by
  have hlength : (s.setConn k d r).1.conns.length = s.conns.length := List.length_set
  refine ⟨?_,?_,?_⟩
  · rw [hlength]
    exact h.next
  · intro j x hj
    rcases setConn_conn hk hj with ⟨-,hold⟩ | ⟨rfl,rfl⟩
    · exact h.named j x hold
    · exact hname.trans (h.named j c hk)
  · rw [hlength]
    intro hlen n j
    have hlookup : (s.setConn k d r).1.connections.lookup n = some j ↔
        s.connections.lookup n = some j ∧ (j = k → .closeCallback ∉ r.2) := by
      simp only [TcpServer.setConn]
      split
      · next hclose =>
        rw [lookup_erase_cases,hname]
        split
        · next heq =>
          refine ⟨fun hno => absurd hno.symm (Option.some_ne_none j),fun ⟨hl,hj⟩ => ?_⟩
          obtain ⟨x,hx,hn,-⟩ := (h.table hlen n j).mp hl
          exact absurd hclose (hj (names_distinct hlen h.named hx hk (hn.trans heq)))
        · next hne =>
          refine ⟨fun hl => ⟨hl,?_⟩,And.left⟩
          rintro rfl
          obtain ⟨x,hx,hn,-⟩ := (h.table hlen n j).mp hl
          obtain rfl := Option.some.inj (hk.symm.trans hx)
          exact absurd hn.symm hne
      · next hopen => exact ⟨fun hl => ⟨hl,fun _ => hopen⟩,And.left⟩
    rw [hlookup,h.table hlen n j]
    constructor
    · rintro ⟨⟨x,hx,hn,hl⟩,hopen⟩
      by_cases heq : j = k
      · subst heq
        obtain rfl := Option.some.inj (hk.symm.trans hx)
        refine ⟨{ d with conn := r.1 },?_,hname.trans hn,hlisted.mpr ⟨hl,hopen rfl⟩⟩
        simp only [TcpServer.setConn,getElem?_set_some hk,if_true]
      · refine ⟨x,?_,hn,hl⟩
        simp only [TcpServer.setConn,getElem?_set_some hk,if_neg heq]
        exact hx
    · rintro ⟨x,hx,hn,hl⟩
      rcases setConn_conn hk hx with ⟨hne,hold⟩ | ⟨rfl,rfl⟩
      · exact ⟨⟨x,hold,hn,hl⟩,fun heq => absurd heq hne⟩
      · obtain ⟨hl',hopen⟩ := hlisted.mp hl
        exact ⟨⟨c,hk,hname.symm.trans hn,hl'⟩,fun _ => hopen⟩

variable [DecidableEq L]

theorem placed_post {k : ℕ} {l : L} (hv : v k = some (l,true))
    (h : Placed v (some (k,false)) pending) :
    Placed v (some (k,true)) (Function.update pending l (pending l++[k])) := by
  have hnot := (h.fresh k rfl).2
  refine ⟨?_,?_,?_,?_⟩
  · intro l' j hj
    rw [Function.update_apply] at hj
    split at hj
    · next heq =>
      rcases List.mem_append.mp hj with hold | hnew
      · exact heq ▸ h.queued l j hold
      · rw [List.mem_singleton.mp hnew,heq]
        exact hv
    · exact h.queued l' j hj
  · intro l'
    rw [Function.update_apply]
    split
    · exact List.nodup_append.mpr ⟨h.once l,List.nodup_singleton k,fun a ha b hb heq =>
        hnot l (List.mem_singleton.mp hb ▸ heq ▸ ha)⟩
    · exact h.once l'
  · intro l' j hj
    right
    rw [Function.update_apply]
    rcases h.waits l' j hj with ha | hp
    · obtain rfl : k = j := congrArg Prod.fst (Option.some.inj ha)
      obtain rfl : l = l' := congrArg Prod.fst (Option.some.inj (hv.symm.trans hj))
      simp
    · split
      · next heq => exact List.mem_append_left _ (heq ▸ hp)
      · exact hp
  · intro j hj
    simp at hj

theorem placed_functor {l : L} {k : ℕ} {ks : List ℕ} (hf : pending l = k::ks)
    (h : Placed v accepting pending) :
    Placed (Function.update v k (some (l,false))) accepting (Function.update pending l ks) := by
  have hmem : k ∈ pending l := by simp [hf]
  have hnodup : k ∉ ks ∧ ks.Nodup := by simpa [hf] using h.once l
  have hsub : ∀ l' j, j ∈ Function.update pending l ks l' → j ∈ pending l' := by
    intro l' j hj
    rw [Function.update_apply] at hj
    split at hj
    · next heq =>
      rw [heq,hf]
      exact List.mem_cons_of_mem k hj
    · exact hj
  have hgone : ∀ l', k ∉ Function.update pending l ks l' := by
    intro l' hk
    obtain rfl : l' = l := congrArg Prod.fst
      (Option.some.inj ((h.queued l' k (hsub l' k hk)).symm.trans (h.queued l k hmem)))
    rw [Function.update_self] at hk
    exact hnodup.1 hk
  refine ⟨?_,?_,?_,?_⟩
  · intro l' j hj
    rw [Function.update_of_ne (fun heq : j = k => hgone l' (heq ▸ hj))]
    exact h.queued l' j (hsub l' j hj)
  · intro l'
    rw [Function.update_apply]
    split
    · exact hnodup.2
    · exact h.once l'
  · intro l' j hj
    by_cases heq : j = k
    · rw [heq,Function.update_self] at hj
      simp at hj
    · rw [Function.update_of_ne heq] at hj
      refine (h.waits l' j hj).imp_right fun hp => ?_
      rw [Function.update_apply]
      split
      · next hl =>
        rw [hl,hf] at hp
        exact (List.mem_cons.mp hp).resolve_left heq
      · exact hp
  · intro j hj
    obtain ⟨⟨l',hv⟩,hnot⟩ := h.fresh j hj
    have hne : j ≠ k := fun heq => hnot l (heq ▸ hmem)
    exact ⟨⟨l',by rw [Function.update_of_ne hne]; exact hv⟩,fun l' hj' => hnot l' (hsub l' j hj')⟩

structure Kept (s : TcpServer L) (os : List AcceptLoop.Output) : Prop where
  placed : Placed (view s) s.accepting s.pendingFunctors
  traced : Traced s os
  named : Named s

theorem act_kept {s : TcpServer L} {os : List AcceptLoop.Output} (h : Kept s os)
    {r : TcpServer L × List AcceptLoop.Output} (hr : Act s r) : Kept r.1 (os++r.2) := by
  obtain ⟨hp,ht,hn⟩ := h
  cases hr with
  | rests =>
    rw [List.append_nil]
    exact ⟨hp,ht,hn⟩
  | accepts hfree => exact ⟨placed_accept hfree hp,traced_accept ht,named_accept hn⟩
  | runs k c ha hk hl =>
    have he : c.conn.establishing = true := by
      obtain ⟨l,hv⟩ := (hp.fresh k ha).1
      obtain ⟨d,hd,-,he⟩ := view_eq.mp hv
      rwa [← Option.some.inj (hk.symm.trans hd)] at he
    have ht' : Traced { s with accepting := some (k,true) } os :=
      ⟨ht.keeps,ht.untouched,ht.listed,ht.unborn,ht.quiet⟩
    have hn' : Named { s with accepting := some (k,true) } := ⟨hn.next,hn.named,hn.table⟩
    refine ⟨?_,traced_establish ht' hk he,named_setConn hn' hk c rfl (listed_establish c)⟩
    rw [view_setConn (s := { s with accepting := some (k,true) }) hk]
    rw [ha] at hp
    exact placed_run hp
  | posts k c ha hk hl =>
    rw [List.append_nil]
    refine ⟨?_,⟨ht.keeps,ht.untouched,ht.listed,ht.unborn,ht.quiet⟩,⟨hn.next,hn.named,hn.table⟩⟩
    obtain ⟨l,hv⟩ := (hp.fresh k ha).1
    obtain ⟨d,hd,hloop,he⟩ := view_eq.mp hv
    obtain rfl := Option.some.inj (hk.symm.trans hd)
    rw [ha] at hp
    exact placed_post (view_eq.mpr ⟨c,hk,rfl,he⟩) hp
  | callsBack k c ha hk =>
    rw [callback_setConn]
    have ht' := traced_callback ht hk c.conn.conn.state
    have hn' : Named (s.setConn k { c with shared := true } (c.conn,[])).1 :=
      named_setConn hn hk { c with shared := true } rfl ⟨fun hl => ⟨hl,List.not_mem_nil⟩,And.left⟩
    refine ⟨?_,⟨ht'.keeps,ht'.untouched,ht'.listed,ht'.unborn,ht'.quiet⟩,
      ⟨hn'.next,hn'.named,hn'.table⟩⟩
    have hview : view (s.setConn k { c with shared := true } (c.conn,[])).1 = view s := by
      have hsame := view_same hk
      rw [view_setConn hk]
      exact hsame
    change Placed (view (s.setConn k _ (c.conn,[])).1) none s.pendingFunctors
    rw [hview]
    refine ⟨hp.queued,hp.once,?_,fun j hj => absurd hj.symm (Option.some_ne_none _)⟩
    intro l j hj
    refine Or.inr ((hp.waits l j hj).resolve_left fun hacc => ?_)
    rw [ha] at hacc
    simp at hacc
  | functor l k ks hf hbusy =>
    obtain ⟨c,hk,rfl,he⟩ := functor_place hp hf
    simp only [TcpServer.establish,hk,if_true]
    have ht' : Traced { s with pendingFunctors := Function.update s.pendingFunctors c.loop ks } os :=
      ⟨ht.keeps,ht.untouched,ht.listed,ht.unborn,ht.quiet⟩
    have hn' : Named { s with pendingFunctors := Function.update s.pendingFunctors c.loop ks } :=
      ⟨hn.next,hn.named,hn.table⟩
    refine ⟨?_,traced_establish ht' hk he,named_setConn hn' hk c rfl (listed_establish c)⟩
    rw [view_setConn
      (s := { s with pendingFunctors := Function.update s.pendingFunctors c.loop ks }) hk]
    exact placed_functor hf hp
  | moves k c i hk hserver huser hbusy =>
    refine ⟨?_,traced_move ht hk _ hserver,named_setConn hn hk
      { c with shared := c.shared || dispatches i && c.conn.revents.isSome } rfl
        (listed_move c.conn hserver)⟩
    rw [view_setConn hk,(frame_step c.conn i hserver).establishing,view_same hk]
    exact hp

omit [DecidableEq L] in
theorem kept_new (name : String) (loop : L) (ioLoops : List L) : Kept (new name loop ioLoops) [] := by
  refine ⟨⟨?_,?_,?_,?_⟩,⟨?_,?_,?_,?_,?_⟩,⟨rfl,?_,?_⟩⟩ <;> simp [new,view,actions]

theorem run_kept (name : String) (loop : L) (ioLoops : List L) (is : List (AcceptLoop.Input L)) :
    Kept (tcpServer.run (new name loop ioLoops) is).1 (tcpServer.run (new name loop ioLoops) is).2 :=
  run_invariant tcpServer Kept (fun s _ i h => act_kept h (step_act s i)) _ is
    (kept_new name loop ioLoops)

/-- The table holds the connections that have been accepted and not closed,
each under a name of its own. No loop runs `connectEstablished` for a
connection of another one, and every connection goes through its lifecycle,
which begins when the functor of the connection has run. -/
theorem table_holds_open_connections (name : String) (loop : L) (ioLoops : List L)
    (is : List (AcceptLoop.Input L))
    (hlen : (tcpServer.run (new name loop ioLoops) is).1.conns.length < 2^31) :
    let r := tcpServer.run (new name loop ioLoops) is
    (∀ n k, r.1.connections.lookup n = some k ↔
      ∃ c, r.1.conns[k]? = some c ∧ c.name = n ∧ .closeCallback ∉ actions k r.2) ∧
    (∀ (j k : ℕ) (c d : Accepted L), r.1.conns[j]? = some c → r.1.conns[k]? = some d →
      c.name = d.name → j = k) ∧
    .aborted ∉ r.2 ∧
    ∀ k c, r.1.conns[k]? = some c → Lifecycle c.conn (actions k r.2) ∧
      (c.conn.conn.state = .connecting ↔
        r.1.accepting = some (k,false) ∨ k ∈ r.1.pendingFunctors c.loop) := by
  intro r
  obtain ⟨hp,ht,hn⟩ := run_kept name loop ioLoops is
  refine ⟨?_,?_,ht.quiet,?_⟩
  · intro n k
    rw [hn.table hlen n k]
    constructor
    · rintro ⟨c,hk,hc,hl⟩
      exact ⟨c,hk,hc,(ht.listed k c hk).mp hl⟩
    · rintro ⟨c,hk,hc,hl⟩
      exact ⟨c,hk,hc,(ht.listed k c hk).mpr hl⟩
  · exact fun j k c d => names_distinct hlen hn.named
  · intro k c hk
    have hkeeps := ht.keeps k c hk
    refine ⟨lifecycle_of_sound hkeeps.accepted hkeeps.sound,?_⟩
    rw [← hkeeps.sound.establishing]
    constructor
    · exact fun he => hp.waits c.loop k (view_eq.mpr ⟨c,hk,rfl,he⟩)
    · intro hw
      have hview : ∃ l, view r.1 k = some (l,true) := by
        rcases hw with ha | hq
        · exact (hp.fresh k ha).1
        · exact ⟨c.loop,hp.queued c.loop k hq⟩
      obtain ⟨l,hl⟩ := hview
      obtain ⟨d,hd,-,he⟩ := view_eq.mp hl
      exact Option.some.inj (hk.symm.trans hd) ▸ he

def twoConnections : List (AcceptLoop.Input ℕ) :=
  [.accept,.handleNewConnection,.handleNewConnection,.doPendingFunctors 1,.accept,
    .connection 0 (.poll { epollin := true }),.connection 0 (.dispatch .eof .again),
    .handleNewConnection]

theorem second_connection_stays :
    ((tcpServer.run (new "s" 0 [1]) twoConnections).1.connections.lookup
      (connName "s" (Int32.ofNat 1)) ≠ some 0) ∧
    ∃ k, (tcpServer.run (new "s" 0 [1]) twoConnections).1.connections.lookup
      (connName "s" (Int32.ofNat 2)) = some k := by
  have hlen : (tcpServer.run (new "s" 0 [1]) twoConnections).1.conns.length < 2^31 := by
    decide +kernel
  obtain ⟨htable,-,-,-⟩ := table_holds_open_connections "s" 0 [1] twoConnections hlen
  constructor
  · intro hmem
    obtain ⟨c,-,-,hopen⟩ := (htable _ 0).mp hmem
    exact hopen (by decide +kernel)
  · refine ⟨1,(htable _ 1).mpr ⟨{ name := connName "s" (Int32.ofNat 2), loop := 1 },?_,rfl,?_⟩⟩
    · rfl
    · decide +kernel

end MiniRpc.AcceptedConnections
