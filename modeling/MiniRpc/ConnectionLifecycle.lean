import MiniRpc.ConnectionDispatch

/-!
# The lifecycle of a connection

A monitor reads the actions of a connection and rejects a state that lies
before the current one, a mask that is not empty on a disconnected
connection, a second close callback and a second removal from the table.
Every function keeps the monitor and the connection in step.
-/

set_option autoImplicit false

namespace MiniRpc.ConnectionLifecycle
open MiniRpc.ByteBuffer MiniRpc.ConnectionLoop MiniRpc.EventChannel MiniRpc.StepMachine
open MiniRpc.ConnectionDispatch

def rank : State → ℕ
  | .connecting => 0
  | .connected => 1
  | .disconnecting => 2
  | .disconnected => 3

structure Phase where
  state : State := .connecting
  closed : Bool := false
  erased : Bool := false

def lifecycle : Monitor Phase Action where
  next f a :=
    match a with
    | .setState state => { f with state := state }
    | .closeCallback => { f with closed := true }
    | .erased => { f with erased := true }
    | _ => f
  ok f a :=
    match a with
    | .setState state => decide (rank f.state ≤ rank state)
    | .update e => f.state != .disconnected || e.isNoneEvent
    | .closeCallback => !f.closed
    | .erased => !f.erased
    | _ => true

def states (as : List Action) : List State :=
  as.filterMap fun a => match a with | .setState state => some state | _ => none

structure Lifecycle (s : Connection) (as : List Action) : Prop where
  current : (states as).getLastD .connecting = s.conn.state
  forward : (states as).Pairwise fun a b => rank a ≤ rank b
  closedOnce : as.count .closeCallback ≤ 1
  erasedOnce : as.count .erased ≤ 1
  silent : ∀ before after, as = before++.setState .disconnected::after →
    ∀ e, .update e ∈ after → e.isNoneEvent = true
  unregistered : s.conn.state = .disconnected → s.events.isNoneEvent = true

theorem rank_le_disconnected (a : State) : rank a ≤ rank .disconnected := by
  cases a <;> decide

theorem disconnected_of_rank {a : State} (h : 3 ≤ rank a) : a = .disconnected := by
  cases a with
  | connecting => exact absurd h (by decide)
  | connected => exact absurd h (by decide)
  | disconnecting => exact absurd h (by decide)
  | disconnected => rfl

theorem next_advances (f : Phase) (a : Action) (h : lifecycle.ok f a = true) :
    rank f.state ≤ rank (lifecycle.next f a).state := by
  cases a with
  | setState state => exact of_decide_eq_true h
  | update e => exact Nat.le_refl _
  | closeCallback => exact Nat.le_refl _
  | erased => exact Nat.le_refl _
  | acquire => exact Nat.le_refl _
  | release => exact Nat.le_refl _

theorem after_advances (f : Phase) (as : List Action) (h : lifecycle.accepts f as = true) :
    rank f.state ≤ rank (lifecycle.after f as).state := by
  induction as generalizing f with
  | nil => exact Nat.le_refl _
  | cons a as ih =>
    obtain ⟨hok,hrest⟩ := Bool.and_eq_true_iff.mp h
    exact (next_advances f a hok).trans (ih _ hrest)

theorem accepts_forward (f : Phase) (as : List Action) (h : lifecycle.accepts f as = true) :
    (f.state::states as).Pairwise fun a b => rank a ≤ rank b := by
  induction as generalizing f with
  | nil => exact List.pairwise_singleton _ _
  | cons a as ih =>
    obtain ⟨hok,hrest⟩ := Bool.and_eq_true_iff.mp h
    have hp := ih _ hrest
    cases a with
    | setState state =>
      have hle : rank f.state ≤ rank state := of_decide_eq_true hok
      refine List.Pairwise.cons (fun b hb => ?_) hp
      cases List.mem_cons.mp hb with
      | inl hb => exact hb ▸ hle
      | inr hb => exact hle.trans (List.rel_of_pairwise_cons hp hb)
    | update e => exact hp
    | closeCallback => exact hp
    | erased => exact hp
    | acquire => exact hp
    | release => exact hp

theorem accepts_closed (f : Phase) (as : List Action) (h : lifecycle.accepts f as = true) :
    as.count .closeCallback ≤ 1-f.closed.toNat := by
  refine accepts_count lifecycle .closeCallback Phase.closed (fun _ => rfl) (fun _ => rfl) ?_ f as h
  intro f a ha
  cases a with
  | closeCallback => exact absurd rfl ha
  | setState _ => rfl
  | update _ => rfl
  | erased => rfl
  | acquire => rfl
  | release => rfl

theorem accepts_erased (f : Phase) (as : List Action) (h : lifecycle.accepts f as = true) :
    as.count .erased ≤ 1-f.erased.toNat := by
  refine accepts_count lifecycle .erased Phase.erased (fun _ => rfl) (fun _ => rfl) ?_ f as h
  intro f a ha
  cases a with
  | erased => exact absurd rfl ha
  | setState _ => rfl
  | update _ => rfl
  | closeCallback => rfl
  | acquire => rfl
  | release => rfl

theorem accepts_silent (f : Phase) (as : List Action) (h : lifecycle.accepts f as = true)
    (hf : f.state = .disconnected) (e : Events) (he : .update e ∈ as) : e.isNoneEvent = true := by
  induction as generalizing f with
  | nil => exact absurd he List.not_mem_nil
  | cons a as ih =>
    obtain ⟨hok,hrest⟩ := Bool.and_eq_true_iff.mp h
    have hstay : (lifecycle.next f a).state = .disconnected := by
      have hle := next_advances f a hok
      rw [hf] at hle
      exact disconnected_of_rank hle
    cases List.mem_cons.mp he with
    | inl he =>
      rw [← he] at hok
      simpa [lifecycle,hf] using hok
    | inr he => exact ih _ hrest hstay he

theorem after_state (f : Phase) (as : List Action) :
    (lifecycle.after f as).state = (states as).getLastD f.state := by
  induction as generalizing f with
  | nil => rfl
  | cons a as ih =>
    have h := ih (lifecycle.next f a)
    cases a with
    | setState state =>
      refine h.trans ?_
      rw [show states (.setState state::as) = state::states as from rfl,List.getLastD_cons]
      rfl
    | update e => exact h
    | closeCallback => exact h
    | erased => exact h
    | acquire => exact h
    | release => exact h

structure Sound (s : Connection) (f : Phase) : Prop where
  state : f.state = s.conn.state
  erased : f.erased = !s.listed
  quiet : s.conn.state = .disconnected → s.events = {}
  fresh : s.conn.state = .connecting → s.events = {} ∧ s.functors = []
  establishing : s.establishing = true ↔ s.conn.state = .connecting
  closed : f.closed = true → s.conn.state = .disconnected
  pending : s.revents ≠ none → f.closed = false ∧ s.conn.state ≠ .connecting

/-- The monitor in phase `f` accepts what was done and is in step again. -/
structure Keeps (f : Phase) (r : Connection × List Action) : Prop where
  accepted : lifecycle.accepts f r.2 = true
  sound : Sound r.1 (lifecycle.after f r.2)

theorem keeps_nil {s : Connection} {f : Phase} (h : Sound s f) : Keeps f (s,[]) := ⟨rfl,h⟩

theorem keeps_andThen {f : Phase} {r : Connection × List Action}
    {g : Connection → Connection × List Action} (h : Keeps f r)
    (hg : Keeps (lifecycle.after f r.2) (g r.1)) : Keeps f (andThen r g) := by
  constructor
  · rw [andThen,accepts_append,h.accepted,hg.accepted]
    rfl
  · rw [andThen,after_append]
    exact hg.sound

theorem keeps_holding {f : Phase} {r : Connection × List Action} (h : Keeps f r) :
    Keeps f (holding r) := by
  have hafter : lifecycle.after f (holding r).2 = lifecycle.after f r.2 := by
    rw [holding,List.cons_append]
    exact (after_append lifecycle f r.2 [.release])
  constructor
  · rw [holding,List.cons_append]
    change lifecycle.accepts f (r.2++[.release]) = true
    rw [accepts_append,h.accepted]
    rfl
  · rw [hafter]
    exact h.sound

theorem write_state (x : TcpConnection) (w : WriteResult) :
    (x.handleWrite (τ := Unit) w).1.state = x.state := by
  rw [TcpConnection.handleWrite]
  split
  · rfl
  · split
    · split
      · rfl
      · split <;> rfl
    · rfl

theorem keep_state (x : TcpConnection) (rest : Bytes) : (x.keep rest).state = x.state := by
  rw [TcpConnection.keep]
  split <;> rfl

theorem send_state (x : TcpConnection) (message : Bytes) (w : WriteResult) :
    (x.sendInLoop (none : Option Unit) message w).1.state = x.state := by
  rw [TcpConnection.sendInLoop]
  split
  · rfl
  · split
    · split
      · split
        · rfl
        · exact keep_state x _
      · exact keep_state x _
    · exact keep_state x _

theorem completion_keeps {s : Connection} {f : Phase} (h : Sound s f) (os : List (Output Unit)) :
    Keeps f (s,completion os) := by
  rw [completion]
  split
  · exact ⟨rfl,h⟩
  · exact keeps_nil h

theorem setOutput_keeps {s : Connection} {f : Phase} (h : Sound s f) (x : TcpConnection)
    (hx : x.state = s.conn.state) (hc : s.conn.state ≠ .connecting)
    (hd : s.conn.state = .disconnected → x.writing = s.conn.writing) :
    Keeps f (s.setOutput x) := by
  have hsound : Sound { s with conn := x } f := by
    refine ⟨h.state.trans hx.symm,h.erased,?_,?_,?_,?_,?_⟩
    · intro hdis
      have hdis' : s.conn.state = .disconnected := hx.symm.trans hdis
      rw [Connection.events,hd hdis']
      exact h.quiet hdis'
    · exact fun hcon => absurd (hx.symm.trans hcon) hc
    · exact h.establishing.trans (by rw [hx])
    · exact fun hcl => hx.trans (h.closed hcl)
    · exact fun hp => ⟨(h.pending hp).1,fun hcon => hc (hx.symm.trans hcon)⟩
  rw [Connection.setOutput]
  split
  · exact keeps_nil hsound
  · next hne =>
    have hlive : f.state ≠ .disconnected := fun hdis => hne (hd (h.state.symm.trans hdis))
    refine ⟨?_,hsound⟩
    simp [Monitor.accepts,lifecycle,hlive]

theorem sendInLoop_keeps {s : Connection} {f : Phase} (h : Sound s f)
    (hc : s.conn.state ≠ .connecting) (message : Bytes) (w : WriteResult) :
    Keeps f (s.sendInLoop message w) := by
  have hd : s.conn.state = .disconnected →
      (s.conn.sendInLoop (none : Option Unit) message w).1.writing = s.conn.writing := by
    intro hdis
    rw [TcpConnection.sendInLoop,if_pos hdis]
  have hout := setOutput_keeps h _ (send_state s.conn message w) hc hd
  rw [Connection.sendInLoop]
  apply keeps_andThen hout
  exact completion_keeps hout.sound _

theorem shutdownInLoop_keeps {s : Connection} {f : Phase} (h : Sound s f)
    (hc : s.conn.state ≠ .connecting) : Keeps f s.shutdownInLoop := by
  have hsame : (s.conn.shutdownInLoop (τ := Unit)).1.state = s.conn.state ∧
      (s.conn.shutdownInLoop (τ := Unit)).1.writing = s.conn.writing := by
    rw [TcpConnection.shutdownInLoop]
    split
    · exact ⟨rfl,rfl⟩
    · exact ⟨rfl,rfl⟩
  exact setOutput_keeps h _ hsame.1 hc fun _ => hsame.2

theorem handleWrite_keeps {s : Connection} {f : Phase} (h : Sound s f)
    (hc : s.conn.state ≠ .connecting) (w : WriteResult) : Keeps f (s.handleWrite w) := by
  have hd : s.conn.state = .disconnected →
      (s.conn.handleWrite (τ := Unit) w).1.writing = s.conn.writing := by
    intro hdis
    have hw : s.conn.writing = false := congrArg Events.writing (h.quiet hdis)
    rw [TcpConnection.handleWrite,if_pos hw]
  have hout := setOutput_keeps h _ (write_state s.conn w) hc hd
  rw [Connection.handleWrite]
  apply keeps_andThen hout
  exact completion_keeps hout.sound _

theorem runFunctor_keeps {s : Connection} {f : Phase} (h : Sound s f)
    (hc : s.conn.state ≠ .connecting) (w : WriteResult) (g : Functor) :
    Keeps f (s.runFunctor w g) := by
  cases g with
  | sendInLoop message => exact keeps_holding (sendInLoop_keeps h hc message w)
  | shutdownInLoop => exact keeps_holding (shutdownInLoop_keeps h hc)

theorem disconnecting_keeps {s : Connection} {f : Phase} (h : Sound s f)
    (hs : s.conn.state = .connected) : Keeps f (s.setState .disconnecting) := by
  refine ⟨?_,rfl,h.erased,fun hdis => State.noConfusion hdis,fun hcon => State.noConfusion hcon,
    ?_,?_,?_⟩
  · simp [Connection.setState,Monitor.accepts,lifecycle,h.state,hs,rank]
  · refine iff_of_false (fun he => ?_) (fun hcon => State.noConfusion hcon)
    have hcon := h.establishing.mp he
    rw [hs] at hcon
    exact State.noConfusion hcon
  · intro hcl
    have hdis := h.closed hcl
    rw [hs] at hdis
    exact State.noConfusion hdis
  · exact fun hp => ⟨(h.pending hp).1,fun hcon => State.noConfusion hcon⟩

theorem call_keeps {s : Connection} {f : Phase} (h : Sound s f) (c : Call) :
    Keeps f (s.call c) := by
  cases c with
  | send message w =>
    rw [Connection.call]
    split
    · next hs =>
      have hweak : Keeps f s.makeWeak := keeps_holding (keeps_nil h)
      have hc : s.conn.state ≠ .connecting := by simp [hs]
      exact keeps_andThen hweak (runFunctor_keeps hweak.sound hc w _)
    · exact keeps_nil h
  | shutdown =>
    rw [Connection.call]
    split
    · next hs =>
      have hset := disconnecting_keeps h hs
      have hweak : Keeps _ (s.setState .disconnecting).1.makeWeak :=
        keeps_holding (keeps_nil hset.sound)
      have hboth := keeps_andThen hset hweak
      exact keeps_andThen hboth
        (runFunctor_keeps hboth.sound (fun hcon => State.noConfusion hcon) .again _)
    · exact keeps_nil h

theorem runCalls_keeps {s : Connection} {f : Phase} (h : Sound s f) (cs : List Call) :
    Keeps f (s.runCalls cs) := by
  induction cs generalizing s f with
  | nil => exact keeps_nil h
  | cons c cs ih =>
    have hc := call_keeps h c
    exact keeps_andThen hc (ih hc.sound)

theorem connectEstablished_keeps {s : Connection} {f : Phase} (h : Sound s f)
    (he : s.establishing = true) : Keeps f { s with establishing := false }.connectEstablished := by
  have hs := h.establishing.mp he
  constructor
  · simp [Connection.connectEstablished,Connection.setState,andThen,Monitor.accepts,lifecycle,
      h.state,hs,rank]
  · refine ⟨rfl,h.erased,fun hdis => State.noConfusion hdis,fun hcon => State.noConfusion hcon,
      iff_of_false Bool.false_ne_true (fun hcon => State.noConfusion hcon),?_,?_⟩
    · intro hcl
      have hdis := h.closed hcl
      rw [hs] at hdis
      exact State.noConfusion hdis
    · exact fun hp => absurd hs (h.pending hp).2

theorem connectDestroyed_keeps {s : Connection} {f : Phase} (h : Sound s f) :
    Keeps f s.connectDestroyed := by
  rw [Connection.connectDestroyed]
  split
  · next hs =>
    have hne : s.establishing ≠ true := by
      intro he
      have hcon := h.establishing.mp he
      rw [hs] at hcon
      exact State.noConfusion hcon
    constructor
    · simp [Connection.setState,Connection.disableAll,andThen,Monitor.accepts,lifecycle,h.state,hs,
        rank,Events.isNoneEvent]
    · exact ⟨rfl,h.erased,fun _ => rfl,fun hcon => State.noConfusion hcon,
        iff_of_false hne (fun hcon => State.noConfusion hcon),fun _ => rfl,
        fun hp => ⟨(h.pending hp).1,fun hcon => State.noConfusion hcon⟩⟩
  · exact keeps_nil h

theorem erase_keeps {s : Connection} {f : Phase} (h : Sound s f) :
    Keeps f ({ s with listed := false },if s.listed then [.erased] else []) := by
  cases hl : s.listed with
  | true =>
    have hf : f.erased = false := by rw [h.erased,hl]; rfl
    refine ⟨?_,h.state,rfl,h.quiet,h.fresh,h.establishing,h.closed,h.pending⟩
    simp [Monitor.accepts,lifecycle,hf]
  | false =>
    have hf : f.erased = true := by rw [h.erased,hl]; rfl
    exact ⟨rfl,h.state,hf,h.quiet,h.fresh,h.establishing,h.closed,h.pending⟩

theorem removeConnection_keeps {s : Connection} {f : Phase} (h : Sound s f) :
    Keeps f s.removeConnection := by
  have herase := erase_keeps h
  exact keeps_holding (keeps_andThen herase (connectDestroyed_keeps herase.sound))

theorem closeCallback_keeps {s : Connection} {f : Phase} (h : Sound s f) (hf : f.closed = false)
    (hs : s.conn.state = .disconnected) (hr : s.revents = none) : Keeps f (s,[.closeCallback]) := by
  refine ⟨?_,h.state,h.erased,h.quiet,h.fresh,h.establishing,fun _ => hs,fun hp => absurd hr hp⟩
  simp [Monitor.accepts,lifecycle,hf]

/-- On a connection that has not been closed before and whose event is being
dispatched. -/
theorem handleClose_keeps {s : Connection} {f : Phase} (h : Sound s f) (hf : f.closed = false)
    (hc : s.conn.state ≠ .connecting) (hr : s.revents = none) : Keeps f s.handleClose := by
  have hne : s.establishing ≠ true := fun he => hc (h.establishing.mp he)
  have hshut : Keeps f (andThen s.disableAll fun s' => s'.setState .disconnected) := by
    constructor
    · simp [Connection.setState,Connection.disableAll,andThen,Monitor.accepts,lifecycle,
        rank_le_disconnected,Events.isNoneEvent]
    · exact ⟨rfl,h.erased,fun _ => rfl,fun hcon => State.noConfusion hcon,
        iff_of_false hne (fun hcon => State.noConfusion hcon),fun _ => rfl,fun hp => absurd hr hp⟩
  have hcall := closeCallback_keeps hshut.sound hf rfl hr
  rw [Connection.handleClose]
  apply keeps_andThen hshut
  exact keeps_holding (keeps_andThen hcall (removeConnection_keeps hcall.sound))

theorem handleRead_keeps {s : Connection} {f : Phase} (h : Sound s f) (hf : f.closed = false)
    (hc : s.conn.state ≠ .connecting) (hr : s.revents = none) (rd : ReadResult) :
    Keeps f (s.handleRead rd) := by
  cases rd with
  | data calls => exact keeps_holding (runCalls_keeps h calls)
  | eof => exact handleClose_keeps h hf hc hr
  | again => exact keeps_nil h
  | failed => exact handleClose_keeps h hf hc hr

theorem keeps_connected {s : Connection} {f : Phase} (h : Sound s f)
    (hc : s.conn.state ≠ .connecting) {r : Connection × List Action} (hr : Keeps f r) :
    r.1.conn.state ≠ .connecting := by
  intro hcon
  have hle := after_advances f r.2 hr.accepted
  rw [h.state,hr.sound.state,hcon] at hle
  cases hs : s.conn.state with
  | connecting => exact hc hs
  | connected => exact absurd (hs ▸ hle) (by decide)
  | disconnecting => exact absurd (hs ▸ hle) (by decide)
  | disconnected => exact absurd (hs ▸ hle) (by decide)

theorem writeCallback_keeps {s : Connection} {f : Phase} (h : Sound s f)
    (hc : s.conn.state ≠ .connecting) (rd : ReadResult) (w : WriteResult) (out : Bool) :
    Keeps f (s.callbacks rd w (if out then [.write] else [])) := by
  cases out with
  | false => exact keeps_nil h
  | true =>
    have hw := handleWrite_keeps h hc w
    exact keeps_andThen hw (keeps_nil hw.sound)

theorem readCallback_keeps {s : Connection} {f : Phase} (h : Sound s f) (hf : f.closed = false)
    (hc : s.conn.state ≠ .connecting) (hr : s.revents = none) (rd : ReadResult) (w : WriteResult)
    (readable out : Bool) :
    Keeps f (s.callbacks rd w
      ((if readable then [.read] else [])++(if out then [.write] else []))) := by
  cases readable with
  | false => exact writeCallback_keeps h hc rd w out
  | true =>
    have hread := handleRead_keeps h hf hc hr rd
    exact keeps_andThen hread
      (writeCallback_keeps hread.sound (keeps_connected h hc hread) rd w out)

/-- No mix of events closes a connection twice. -/
theorem dispatch_keeps {s : Connection} {f : Phase} (h : Sound s f) (hp : s.revents ≠ none)
    (r : Revents) (rd : ReadResult) (w : WriteResult) : Keeps f (s.dispatch r rd w) := by
  obtain ⟨hf,hc⟩ := h.pending hp
  have h0 : Sound { s with revents := none } f :=
    ⟨h.state,h.erased,h.quiet,h.fresh,h.establishing,h.closed,fun hn => absurd rfl hn⟩
  rw [Connection.dispatch,handleEvent]
  split
  · have hclose := handleClose_keeps h0 hf hc rfl
    exact keeps_andThen hclose (keeps_nil hclose.sound)
  · have hrest := readCallback_keeps h0 hf hc rfl rd w
      (r.epollin || r.epollpri || r.epollrdhup) r.epollout
    rw [List.append_assoc]
    cases r.epollerr with
    | false => exact hrest
    | true => exact keeps_andThen (keeps_nil h0) hrest

theorem functor_connected {s : Connection} {f : Phase} (h : Sound s f) {k : ℕ} {g : Functor}
    (hk : s.functors[k]? = some g) : s.conn.state ≠ .connecting := by
  intro hcon
  rw [(h.fresh hcon).2] at hk
  exact absurd hk.symm (Option.some_ne_none g)

theorem setFunctors_sound {s : Connection} {f : Phase} (h : Sound s f)
    (hc : s.conn.state ≠ .connecting) (fs : List Functor) : Sound { s with functors := fs } f :=
  ⟨h.state,h.erased,h.quiet,fun hcon => absurd hcon hc,h.establishing,h.closed,h.pending⟩

theorem poll_sound {s : Connection} {f : Phase} (h : Sound s f) (he : s.events.isNoneEvent = false)
    (r : Revents) : Sound { s with revents := some r } f := by
  have hlive : s.conn.state ≠ .disconnected := fun hdis => by
    rw [h.quiet hdis] at he
    exact Bool.noConfusion he
  have hc : s.conn.state ≠ .connecting := fun hcon => by
    rw [(h.fresh hcon).1] at he
    exact Bool.noConfusion he
  have hf : f.closed = false := by
    cases hcl : f.closed with
    | false => rfl
    | true => exact absurd (h.closed hcl) hlive
  exact ⟨h.state,h.erased,h.quiet,h.fresh,h.establishing,h.closed,fun _ => ⟨hf,hc⟩⟩

theorem step_keeps {s : Connection} {f : Phase} (h : Sound s f) (i : Input) :
    Keeps f (connectionStep s i) := by
  cases i with
  | connectEstablished =>
    rw [connectionStep]
    split
    · next he => exact connectEstablished_keeps h he
    · exact keeps_nil h
  | poll r =>
    rw [connectionStep]
    split
    · exact keeps_nil h
    · next he =>
      have hevents : s.events.isNoneEvent = false := by
        cases hn : s.events.isNoneEvent with
        | false => rfl
        | true => exact absurd (by rw [hn]; rfl) he
      exact keeps_nil (poll_sound h hevents r)
  | dispatch rd w =>
    rw [connectionStep]
    cases hr : s.revents with
    | none => exact keeps_nil h
    | some r => exact dispatch_keeps h (by rw [hr]; exact Option.some_ne_none r) r rd w
  | call c => exact call_keeps h c
  | threadSend message =>
    rw [connectionStep]
    split
    · next hs => exact keeps_nil (setFunctors_sound h (by simp [hs]) _)
    · exact keeps_nil h
  | threadShutdown =>
    rw [connectionStep]
    split
    · next hs =>
      have hset := disconnecting_keeps h hs
      apply keeps_andThen hset
      exact keeps_nil (setFunctors_sound hset.sound (fun hcon => State.noConfusion hcon) _)
    · exact keeps_nil h
  | functor k w =>
    rw [connectionStep]
    cases hk : s.functors[k]? with
    | none => exact keeps_nil h
    | some g =>
      have hc := functor_connected h hk
      exact runFunctor_keeps (setFunctors_sound h hc (s.functors.eraseIdx k)) hc w g
  | removeConnection => exact removeConnection_keeps h

theorem new_sound : Sound {} {} :=
  ⟨rfl,rfl,fun _ => rfl,fun _ => ⟨rfl,rfl⟩,iff_of_true rfl rfl,fun h => Bool.noConfusion h,
    fun h => absurd rfl h⟩

theorem lifecycle_of_sound {s : Connection} {as : List Action}
    (ha : lifecycle.accepts {} as = true) (hs : Sound s (lifecycle.after {} as)) :
    Lifecycle s as := by
  refine ⟨?_,?_,accepts_closed {} as ha,accepts_erased {} as ha,?_,?_⟩
  · exact (after_state {} as).symm.trans hs.state
  · exact (List.pairwise_cons.mp (accepts_forward {} as ha)).2
  · intro before after hsplit e he
    rw [hsplit,accepts_append,Bool.and_eq_true_iff] at ha
    exact accepts_silent _ after (Bool.and_eq_true_iff.mp ha.2).2 rfl e he
  · intro hdis
    rw [hs.quiet hdis]
    rfl

/-- Over every sequence of events, calls, functors and removals the states
move forward, the connection is closed and erased at most once, and once it
is disconnected its channel is never registered again. -/
theorem connection_lifecycle (is : List Input) : Always connection Lifecycle {} [] is := by
  have hstep : ∀ s as i, lifecycle.accepts {} as = true ∧ Sound s (lifecycle.after {} as) → True →
      lifecycle.accepts {} (as++(connection.step s i).2) = true ∧
        Sound (connection.step s i).1 (lifecycle.after {} (as++(connection.step s i).2)) := by
    intro s as i h _
    have hk := step_keeps h.2 i
    rw [accepts_append,after_append,h.1]
    exact ⟨hk.accepted,hk.sound⟩
  exact always_of_along connection (fun _ _ => True)
    (fun s as => lifecycle.accepts {} as = true ∧ Sound s (lifecycle.after {} as)) Lifecycle
    (fun s as h => lifecycle_of_sound h.1 h.2) hstep {} [] is ⟨rfl,new_sound⟩
    (along_true connection {} is)

/-- A send that was posted before the peer closed runs after it. -/
example :
    (connection.run {} [.connectEstablished,.threadSend [7],.poll { epollin := true, epollout := true },
      .dispatch .eof .again,.functor 0 .again]).2 =
    [.setState .connected,.update { reading := true },.update {},.setState .disconnected,.acquire,
      .closeCallback,.acquire,.erased,.release,.release,.acquire,.release] := by
  decide +kernel

end MiniRpc.ConnectionLifecycle
