import MiniRpc.ConnectionLifecycle
import MiniRpc.KeyedTable

/-!
# The connections of a server

`TcpServer` accepts connections in its own loop and may give them to other
loops. `connections_` is reached by all of these threads under its mutex.
`handleNewConnection` is followed step by step: a connection is made and put
into the table, `connectEstablished` is run or posted to the loop of the
connection, and `connectionCallback_` is called; the other loops run in
between. A loop runs the functors posted to it in their order.

Each connection is that of `ConnectionDispatch`. Its close callback erases
whatever the table has under the name of the connection. User code calls a
connection once a callback has handed it over. `nextConnId_` is an `int`; it
wraps here where its overflow is undefined.
-/

set_option autoImplicit false

namespace MiniRpc.AcceptLoop
open MiniRpc.ConnectionLoop (State)
open MiniRpc.KeyedTable MiniRpc.StepMachine MiniRpc.ConnectionDispatch MiniRpc.ConnectionLifecycle

/-- `shared`: `connectionCallback_` has been called, or an event has been
dispatched, which may have called `messageCallback_`. -/
structure Accepted (L : Type) where
  name : String
  loop : L
  conn : Connection := {}
  shared : Bool := false

/-- `accepting`: the connection `handleNewConnection` is at, and whether it
has been handed to its loop. -/
structure TcpServer (L : Type) where
  name : String
  loop : L
  ioLoops : List L := []
  nextConnId : Int32 := 1
  nextIo : UInt64 := 0
  connections : Table String ℕ := ∅
  conns : List (Accepted L) := []
  pendingFunctors : L → List ℕ := fun _ => []
  accepting : Option (ℕ × Bool) := none

inductive Input (L : Type) where
  | accept
  | handleNewConnection
  | doPendingFunctors (l : L)
  | connection (k : ℕ) (i : ConnectionDispatch.Input)

/-- `aborted`: `assertInLoopThread` failed. -/
inductive Output where
  | connection (k : ℕ) (a : Action)
  | connectionCallback (k : ℕ) (state : State)
  | aborted
  deriving DecidableEq

def byServer : ConnectionDispatch.Input → Bool
  | .connectEstablished => true
  | .removeConnection => true
  | _ => false

def byUser : ConnectionDispatch.Input → Bool
  | .call _ => true
  | .threadSend _ => true
  | .threadShutdown => true
  | _ => false

def inLoopThread : ConnectionDispatch.Input → Bool
  | .threadSend _ => false
  | .threadShutdown => false
  | _ => true

def dispatches : ConnectionDispatch.Input → Bool
  | .dispatch _ _ => true
  | _ => false

def connName (name : String) (id : Int32) : String := name++"-"++toString id.toInt

variable {L : Type}

def new (name : String) (loop : L) (ioLoops : List L) : TcpServer L :=
  { name := name, loop := loop, ioLoops := ioLoops }

def TcpServer.nextLoop (s : TcpServer L) : L :=
  (s.ioLoops[s.nextIo.toNat%s.ioLoops.length]?).getD s.loop

def TcpServer.accept (s : TcpServer L) : TcpServer L × List Output :=
  ({ s with
    nextConnId := s.nextConnId+1
    nextIo := if s.ioLoops = [] then s.nextIo else s.nextIo+1
    connections := s.connections.insert (connName s.name s.nextConnId) s.conns.length
    conns := s.conns++[{ name := connName s.name s.nextConnId, loop := s.nextLoop }]
    accepting := some (s.conns.length,false) },[])

/-- The connection has changed; its close callback ends in
`removeConnectionInLoop`. -/
def TcpServer.setConn (s : TcpServer L) (k : ℕ) (c : Accepted L) (r : Connection × List Action) :
    TcpServer L × List Output :=
  ({ s with
    conns := s.conns.set k { c with conn := r.1 }
    connections := if .closeCallback ∈ r.2 then s.connections.erase c.name else s.connections },
    r.2.map (.connection k))

variable [DecidableEq L]

def TcpServer.busy (s : TcpServer L) (l : L) : Bool := s.accepting.isSome && l = s.loop

def TcpServer.establish (s : TcpServer L) (l : L) (k : ℕ) : TcpServer L × List Output :=
  match s.conns[k]? with
  | none => (s,[])
  | some c =>
    if c.loop = l then s.setConn k c { c.conn with establishing := false }.connectEstablished
    else (s,[.aborted])

def TcpServer.runInLoop (s : TcpServer L) (k : ℕ) (c : Accepted L) : TcpServer L × List Output :=
  if c.loop = s.loop then s.establish s.loop k
  else
    ({ s with pendingFunctors :=
      Function.update s.pendingFunctors c.loop (s.pendingFunctors c.loop++[k]) },[])

def tcpServer : Machine (TcpServer L) (Input L) Output where
  step s i :=
    match i with
    | .accept => if s.accepting.isSome then (s,[]) else s.accept
    | .handleNewConnection =>
      match s.accepting with
      | none => (s,[])
      | some (k,handed) =>
        match s.conns[k]? with
        | none => (s,[])
        | some c =>
          if handed then
            ({ s with conns := s.conns.set k { c with shared := true }, accepting := none },
              [.connectionCallback k c.conn.conn.state])
          else { s with accepting := some (k,true) }.runInLoop k c
    | .doPendingFunctors l =>
      if s.busy l then (s,[])
      else
        match s.pendingFunctors l with
        | [] => (s,[])
        | k::ks =>
          { s with pendingFunctors := Function.update s.pendingFunctors l ks }.establish l k
    | .connection k i =>
      match s.conns[k]? with
      | none => (s,[])
      | some c =>
        if byServer i || byUser i && !c.shared || inLoopThread i && s.busy c.loop then (s,[])
        else
          s.setConn k { c with shared := c.shared || dispatches i && c.conn.revents.isSome }
            (connectionStep c.conn i)

inductive Act (s : TcpServer L) : TcpServer L × List Output → Prop
  | rests : Act s (s,[])
  | accepts (hfree : s.accepting = none) : Act s s.accept
  | runs (k : ℕ) (c : Accepted L) (ha : s.accepting = some (k,false)) (hk : s.conns[k]? = some c)
      (hl : c.loop = s.loop) :
      Act s ({ s with accepting := some (k,true) }.setConn k c
        { c.conn with establishing := false }.connectEstablished)
  | posts (k : ℕ) (c : Accepted L) (ha : s.accepting = some (k,false)) (hk : s.conns[k]? = some c)
      (hl : c.loop ≠ s.loop) :
      Act s ({ s with
        accepting := some (k,true)
        pendingFunctors :=
          Function.update s.pendingFunctors c.loop (s.pendingFunctors c.loop++[k]) },[])
  | callsBack (k : ℕ) (c : Accepted L) (ha : s.accepting = some (k,true))
      (hk : s.conns[k]? = some c) :
      Act s ({ s with conns := s.conns.set k { c with shared := true }, accepting := none },
        [.connectionCallback k c.conn.conn.state])
  | functor (l : L) (k : ℕ) (ks : List ℕ) (hf : s.pendingFunctors l = k::ks)
      (hbusy : s.busy l = false) :
      Act s ({ s with pendingFunctors := Function.update s.pendingFunctors l ks }.establish l k)
  | moves (k : ℕ) (c : Accepted L) (i : ConnectionDispatch.Input) (hk : s.conns[k]? = some c)
      (hserver : byServer i = false) (huser : byUser i = true → c.shared = true)
      (hbusy : inLoopThread i = true → s.busy c.loop = false) :
      Act s (s.setConn k { c with shared := c.shared || dispatches i && c.conn.revents.isSome }
        (connectionStep c.conn i))

theorem step_act (s : TcpServer L) (i : Input L) : Act s (tcpServer.step s i) := by
  cases i with
  | accept =>
    simp only [tcpServer]
    split
    · exact .rests
    · next h => exact .accepts (by simpa using h)
  | handleNewConnection =>
    simp only [tcpServer]
    split
    · exact .rests
    · next k handed ha =>
      split
      · exact .rests
      · next c hk =>
        cases handed with
        | true => exact .callsBack k c ha hk
        | false =>
          rw [if_neg Bool.false_ne_true,TcpServer.runInLoop]
          split
          · next hl =>
            rw [TcpServer.establish]
            simp only [hk,if_pos hl]
            exact .runs k c ha hk hl
          · next hl => exact .posts k c ha hk hl
  | doPendingFunctors l =>
    simp only [tcpServer]
    split
    · exact .rests
    · next hbusy =>
      split
      · exact .rests
      · next k ks hf => exact .functor l k ks hf (by simpa using hbusy)
  | connection k i =>
    simp only [tcpServer]
    split
    · exact .rests
    · next c hk =>
      split
      · exact .rests
      · next hguard =>
        simp only [Bool.or_eq_true,Bool.and_eq_true,not_or,not_and,Bool.not_eq_true,
          Bool.not_eq_true'] at hguard
        exact .moves k c i hk hguard.1.1 (fun h => by simpa using hguard.1.2 h) hguard.2

end MiniRpc.AcceptLoop
