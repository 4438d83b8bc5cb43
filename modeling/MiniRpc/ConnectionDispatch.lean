import MiniRpc.ConnectionLoop
import MiniRpc.EventChannel

/-!
# Event dispatch of a connection

A connection that `TcpServer` has accepted, with its channel and its entry in
`connections_`. Every function lists what it does in order: the states it
sets, the masks it passes to the poller, the close callback, the removal of
the table entry, and the shared pointers it makes and drops.

What `messageCallback_` does to the connection is an input, a list of calls in
the loop thread. Functors posted by other threads run in any order. The
output buffer and the write side are those of the connection's loop model.
-/

set_option autoImplicit false

namespace MiniRpc.ConnectionDispatch
open MiniRpc.ByteBuffer MiniRpc.ConnectionLoop MiniRpc.EventChannel MiniRpc.StepMachine

/-- `establishing`: `connectEstablished` has been handed to the loop and has
not run yet. `revents`: returned by `epoll_wait` and not dispatched yet. -/
structure Connection where
  conn : TcpConnection := {}
  reading : Bool := false
  listed : Bool := true
  establishing : Bool := true
  revents : Option Revents := none
  functors : List Functor := []

def Connection.events (s : Connection) : Events := ⟨s.reading,s.conn.writing⟩

inductive Action where
  | setState (state : State)
  | update (events : Events)
  | closeCallback
  | erased
  | acquire
  | release
  deriving DecidableEq, Repr

inductive Call where
  | send (message : Bytes) (w : WriteResult)
  | shutdown

/-- What `readFd` returns; where it has read data, the calls of
`messageCallback_`. -/
inductive ReadResult where
  | data (calls : List Call)
  | eof
  | again
  | failed

def andThen (r : Connection × List Action) (f : Connection → Connection × List Action) :
    Connection × List Action := ((f r.1).1,r.2++(f r.1).2)

/-- A shared pointer made by `shared_from_this`, a copy or `lock` lives around
what `r` does. -/
def holding (r : Connection × List Action) : Connection × List Action :=
  (r.1,.acquire::r.2++[.release])

def completion (os : List (Output Unit)) : List Action :=
  if os.any fun o => match o with | .writeComplete => true | _ => false then [.acquire,.release]
  else []

/-- The output side has changed to `x`: a change of `isWriting` is a call of
`enableWriting` or `disableWriting`. -/
def Connection.setOutput (s : Connection) (x : TcpConnection) : Connection × List Action :=
  ({ s with conn := x },if x.writing = s.conn.writing then [] else [.update ⟨s.reading,x.writing⟩])

def Connection.sendInLoop (s : Connection) (message : Bytes) (w : WriteResult) :
    Connection × List Action :=
  let r := s.conn.sendInLoop (none : Option Unit) message w
  andThen (s.setOutput r.1) fun s' => (s',completion r.2)

def Connection.shutdownInLoop (s : Connection) : Connection × List Action :=
  s.setOutput (s.conn.shutdownInLoop (τ := Unit)).1

def Connection.handleWrite (s : Connection) (w : WriteResult) : Connection × List Action :=
  let r := s.conn.handleWrite (τ := Unit) w
  andThen (s.setOutput r.1) fun s' => (s',completion r.2)

def Connection.setState (s : Connection) (state : State) : Connection × List Action :=
  ({ s with conn := { s.conn with state := state } },[.setState state])

def Connection.disableAll (s : Connection) : Connection × List Action :=
  ({ s with conn := { s.conn with writing := false }, reading := false },[.update {}])

def Connection.runFunctor (s : Connection) (w : WriteResult) : Functor → Connection × List Action
  | .sendInLoop message => holding (s.sendInLoop message w)
  | .shutdownInLoop => holding s.shutdownInLoop

def Connection.makeWeak (s : Connection) : Connection × List Action := holding (s,[])

def Connection.call (s : Connection) : Call → Connection × List Action
  | .send message w =>
    if s.conn.state = .connected then
      andThen s.makeWeak fun s' => s'.runFunctor w (.sendInLoop message)
    else (s,[])
  | .shutdown =>
    if s.conn.state = .connected then
      andThen (andThen (s.setState .disconnecting) Connection.makeWeak) fun s' =>
        s'.runFunctor .again .shutdownInLoop
    else (s,[])

def Connection.runCalls (s : Connection) : List Call → Connection × List Action
  | [] => (s,[])
  | c::cs => andThen (s.call c) fun s' => s'.runCalls cs

def Connection.connectEstablished (s : Connection) : Connection × List Action :=
  andThen (s.setState .connected) fun s' =>
    ({ s' with reading := true },[.update ⟨true,s'.conn.writing⟩])

def Connection.connectDestroyed (s : Connection) : Connection × List Action :=
  if s.conn.state = .connected then andThen (s.setState .disconnected) Connection.disableAll
  else (s,[])

def Connection.removeConnectionInLoop (s : Connection) : Connection × List Action :=
  andThen ({ s with listed := false },if s.listed then [.erased] else []) Connection.connectDestroyed

/-- The connection's loop is the calling one, so the functor runs at once. -/
def Connection.removeConnection (s : Connection) : Connection × List Action :=
  holding s.removeConnectionInLoop

def Connection.handleClose (s : Connection) : Connection × List Action :=
  andThen (andThen s.disableAll fun s' => s'.setState .disconnected) fun s' =>
    holding (andThen (s',[.closeCallback]) Connection.removeConnection)

def Connection.handleRead (s : Connection) : ReadResult → Connection × List Action
  | .data calls => holding (s.runCalls calls)
  | .eof => s.handleClose
  | .again => (s,[])
  | .failed => s.handleClose

def Connection.callback (s : Connection) (rd : ReadResult) (w : WriteResult) :
    Callback → Connection × List Action
  | .read => s.handleRead rd
  | .write => s.handleWrite w
  | .close => s.handleClose
  | .error => (s,[])

def Connection.callbacks (s : Connection) (rd : ReadResult) (w : WriteResult) :
    List Callback → Connection × List Action
  | [] => (s,[])
  | c::cs => andThen (s.callback rd w c) fun s' => s'.callbacks rd w cs

def Connection.dispatch (s : Connection) (r : Revents) (rd : ReadResult) (w : WriteResult) :
    Connection × List Action :=
  { s with revents := none }.callbacks rd w (handleEvent r)

inductive Input where
  | connectEstablished
  | poll (r : Revents)
  | dispatch (rd : ReadResult) (w : WriteResult)
  | call (c : Call)
  | threadSend (message : Bytes)
  | threadShutdown
  | functor (k : ℕ) (w : WriteResult)
  | removeConnection

def connectionStep (s : Connection) : Input → Connection × List Action
  | .connectEstablished =>
    if s.establishing then { s with establishing := false }.connectEstablished else (s,[])
  | .poll r =>
    -- the kernel reports registered channels only
    if s.events.isNoneEvent || s.revents.isSome then (s,[]) else ({ s with revents := some r },[])
  | .dispatch rd w =>
    match s.revents with
    | none => (s,[])
    | some r => s.dispatch r rd w
  | .call c => s.call c
  | .threadSend message =>
    if s.conn.state = .connected then
      ({ s with functors := s.functors++[.sendInLoop message] },[])
    else (s,[])
  | .threadShutdown =>
    if s.conn.state = .connected then
      andThen (s.setState .disconnecting) fun s' =>
        ({ s' with functors := s'.functors++[.shutdownInLoop] },[])
    else (s,[])
  | .functor k w =>
    match s.functors[k]? with
    | none => (s,[])
    | some f => { s with functors := s.functors.eraseIdx k }.runFunctor w f
  | .removeConnection => s.removeConnection

def connection : Machine Connection Input Action := ⟨connectionStep⟩

end MiniRpc.ConnectionDispatch
