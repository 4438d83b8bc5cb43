import MiniRpc.ByteBuffer
import MiniRpc.PostedItems
import MiniRpc.StepMachine

/-!
# The output side of a connection and its event loop

`send` and `shutdown` may be called by any thread. The loop thread runs
`sendInLoop` and `shutdownInLoop` at once; any other thread checks the state
and then posts a functor, two steps between which the loop may run. An
iteration of the loop dispatches events and then runs the functors it has
swapped out of the queue. What `::write` returns is part of the input; after
`SHUT_WR` the kernel accepts nothing and `::write` fails with `EPIPE`.

`writeCompleteCallback_` is called last in its function, so what it sends is
a `send` of the loop thread in the next step. Functors of other connections
do nothing here and are left out. `connectEstablished` is called once, on a
new connection.
-/

set_option autoImplicit false

namespace MiniRpc.ConnectionLoop
open MiniRpc.ByteBuffer MiniRpc.PostedItems MiniRpc.StepMachine

inductive State where
  | connecting
  | connected
  | disconnecting
  | disconnected
  deriving DecidableEq, Repr

/-- `writing`: the channel is registered for write events. `writeShut`: the
write side of the socket was shut down. -/
structure TcpConnection where
  state : State := .connecting
  writing : Bool := false
  outputBuffer : Buffer := Buffer.new kInitialSize
  writeShut : Bool := false

inductive Functor where
  | sendInLoop (message : Bytes)
  | shutdownInLoop
  deriving DecidableEq, Repr

inductive WriteResult where
  | wrote (n : ℕ)
  | again
  | failed

structure EventLoop (τ : Type) where
  conn : TcpConnection := {}
  functors : PostQueue τ Functor := {}

/-- `sender` is `none` for the loop thread. -/
inductive Output (τ : Type) where
  | accepted (sender : Option τ) (message : Bytes)
  | sendInLoop (sender : Option τ) (message : Bytes)
  | wrote (bytes : Bytes)
  | writeComplete
  | shutdownInLoop
  | shutdownWrite

inductive Input (τ : Type) where
  | connectEstablished
  | connectDestroyed
  | handleClose
  | handleWrite (w : WriteResult)
  | send (message : Bytes) (w : WriteResult)
  | shutdown
  | threadSend (t : τ) (message : Bytes)
  | threadShutdown (t : τ)
  | queueInLoop (t : τ)
  | doPendingFunctors
  | runFunctor (w : WriteResult)

variable {τ : Type}

/-- The bytes `::write` accepted, or `none` when it returned -1. -/
def TcpConnection.write (x : TcpConnection) (data : Bytes) : WriteResult → Option ℕ
  | .wrote n => if x.writeShut then none else some (min n data.length)
  | .again => none
  | .failed => none

def TcpConnection.keep (x : TcpConnection) (rest : Bytes) : TcpConnection :=
  if rest = [] then x else { x with outputBuffer := x.outputBuffer.append rest, writing := true }

def TcpConnection.sendInLoop (x : TcpConnection) (sender : Option τ) (message : Bytes)
    (w : WriteResult) : TcpConnection × List (Output τ) :=
  if x.state = .disconnected then (x,[])
  else if x.writing = false ∧ x.outputBuffer.readableBytes = 0 then
    match x.write message w with
    | some n =>
      if message.length-n = 0 then (x,[.sendInLoop sender message,.wrote message,.writeComplete])
      else (x.keep (message.drop n),[.sendInLoop sender message,.wrote (message.take n)])
    | none => (x.keep message,[.sendInLoop sender message])
  else (x.keep message,[.sendInLoop sender message])

def TcpConnection.shutdownInLoop (x : TcpConnection) : TcpConnection × List (Output τ) :=
  if x.writing then (x,[.shutdownInLoop])
  else ({ x with writeShut := true },[.shutdownInLoop,.shutdownWrite])

def TcpConnection.handleWrite (x : TcpConnection) (w : WriteResult) :
    TcpConnection × List (Output τ) :=
  if x.writing = false then (x,[])
  else
    match x.write x.outputBuffer.readable w with
    | some n =>
      if n = 0 then (x,[])
      else if (x.outputBuffer.retrieve n).readableBytes = 0 then
        ({ x with outputBuffer := x.outputBuffer.retrieve n, writing := false },
          [.wrote (x.outputBuffer.readable.take n),.writeComplete])
      else ({ x with outputBuffer := x.outputBuffer.retrieve n },
          [.wrote (x.outputBuffer.readable.take n)])
    | none => (x,[])

def TcpConnection.handleClose (x : TcpConnection) : TcpConnection :=
  { x with writing := false, state := .disconnected }

def TcpConnection.connectDestroyed (x : TcpConnection) : TcpConnection :=
  if x.state = .connected then x.handleClose else x

def EventLoop.runSend (s : EventLoop τ) (sender : Option τ) (message : Bytes) (w : WriteResult) :
    EventLoop τ × List (Output τ) :=
  ({ s with conn := (s.conn.sendInLoop sender message w).1 },
    (s.conn.sendInLoop sender message w).2)

def EventLoop.runShutdown (s : EventLoop τ) : EventLoop τ × List (Output τ) :=
  let r := s.conn.shutdownInLoop
  ({ s with conn := r.1 },r.2)

def EventLoop.setState (s : EventLoop τ) (state : State) : EventLoop τ :=
  { s with conn := { s.conn with state := state } }

def EventLoop.setBatch (s : EventLoop τ) (batch : Option (List (τ × Functor))) : EventLoop τ :=
  { s with functors := { s.functors with batch := batch } }

def runFunctor (s : EventLoop τ) (w : WriteResult) : EventLoop τ × List (Output τ) :=
  match s.functors.batch with
  | none => (s,[])
  | some [] => (s.setBatch none,[])
  | some ((t,.sendInLoop message)::fs) => (s.setBatch (some fs)).runSend (some t) message w
  | some ((_,.shutdownInLoop)::fs) => (s.setBatch (some fs)).runShutdown

/-- The peer closed, or the server gave the connection up. -/
def closing : Input τ → Bool
  | .handleClose => true
  | .connectDestroyed => true
  | _ => false

variable [DecidableEq τ]

def eventLoop : Machine (EventLoop τ) (Input τ) (Output τ) where
  step s i :=
    match i with
    | .connectEstablished => if s.conn.state = .connecting then (s.setState .connected,[]) else (s,[])
    | .connectDestroyed => ({ s with conn := s.conn.connectDestroyed },[])
    | .handleClose =>
      if s.functors.batch.isNone then ({ s with conn := s.conn.handleClose },[]) else (s,[])
    | .handleWrite w =>
      if s.functors.batch.isNone then
        ({ s with conn := (s.conn.handleWrite (τ := τ) w).1 },(s.conn.handleWrite w).2)
      else (s,[])
    | .send message w =>
      if s.conn.state = .connected then
        ((s.runSend none message w).1,.accepted none message::(s.runSend none message w).2)
      else (s,[])
    | .shutdown =>
      if s.conn.state = .connected then (s.setState .disconnecting).runShutdown else (s,[])
    | .threadSend t message =>
      if s.functors.busy t = false ∧ s.conn.state = .connected then
        ({ s with functors := s.functors.start t (.sendInLoop message) },
          [.accepted (some t) message])
      else (s,[])
    | .threadShutdown t =>
      if s.functors.busy t = false ∧ s.conn.state = .connected then
        ({ s.setState .disconnecting with functors := s.functors.start t .shutdownInLoop },[])
      else (s,[])
    | .queueInLoop t => ({ s with functors := s.functors.post t },[])
    | .doPendingFunctors =>
      if s.functors.batch.isNone then ({ s with functors := s.functors.swap },[]) else (s,[])
    | .runFunctor w => runFunctor s w

inductive Move (s : EventLoop τ) : Input τ → EventLoop τ × List (Output τ) → Prop where
  | stays (i : Input τ) : Move s i (s,[])
  | establishes (hs : s.conn.state = .connecting) :
      Move s .connectEstablished (s.setState .connected,[])
  | closes (i : Input τ) (hi : closing i = true) : Move s i ({ s with conn := s.conn.handleClose },[])
  | writes (w : WriteResult) (hb : s.functors.batch = none) :
      Move s (.handleWrite w)
        ({ s with conn := (s.conn.handleWrite (τ := τ) w).1 },(s.conn.handleWrite w).2)
  | sends (message : Bytes) (w : WriteResult) (hs : s.conn.state = .connected) :
      Move s (.send message w)
        ((s.runSend none message w).1,.accepted none message::(s.runSend none message w).2)
  | shuts (hs : s.conn.state = .connected) :
      Move s .shutdown (s.setState .disconnecting).runShutdown
  | accepts (t : τ) (message : Bytes) (hs : s.conn.state = .connected) :
      Move s (.threadSend t message)
        ({ s with functors := s.functors.start t (.sendInLoop message) },
          [.accepted (some t) message])
  | shutsLater (t : τ) (hs : s.conn.state = .connected) :
      Move s (.threadShutdown t)
        ({ s.setState .disconnecting with functors := s.functors.start t .shutdownInLoop },[])
  | posts (t : τ) : Move s (.queueInLoop t) ({ s with functors := s.functors.post t },[])
  | swaps (hb : s.functors.batch = none) :
      Move s .doPendingFunctors ({ s with functors := s.functors.swap },[])
  | polls (w : WriteResult) (hb : s.functors.batch = some []) :
      Move s (.runFunctor w) (s.setBatch none,[])
  | runsSend (w : WriteResult) (t : τ) (message : Bytes) (fs : List (τ × Functor))
      (hb : s.functors.batch = some ((t,.sendInLoop message)::fs)) :
      Move s (.runFunctor w) ((s.setBatch (some fs)).runSend (some t) message w)
  | runsShutdown (w : WriteResult) (t : τ) (fs : List (τ × Functor))
      (hb : s.functors.batch = some ((t,.shutdownInLoop)::fs)) :
      Move s (.runFunctor w) (s.setBatch (some fs)).runShutdown

theorem runFunctor_move (s : EventLoop τ) (w : WriteResult) :
    Move s (.runFunctor w) (runFunctor s w) := by
  rw [runFunctor.eq_def]
  cases hb : s.functors.batch with
  | none => exact .stays _
  | some fs =>
    cases fs with
    | nil => exact .polls w hb
    | cons x fs =>
      obtain ⟨t,f⟩ := x
      cases f with
      | sendInLoop message => exact .runsSend w t message fs hb
      | shutdownInLoop => exact .runsShutdown w t fs hb

theorem step_move (s : EventLoop τ) (i : Input τ) : Move s i (eventLoop.step s i) := by
  cases i with
  | connectEstablished =>
    by_cases hs : s.conn.state = .connecting
    · simpa only [eventLoop,if_pos hs] using Move.establishes hs
    · simpa only [eventLoop,if_neg hs] using Move.stays _
  | connectDestroyed =>
    simp only [eventLoop,TcpConnection.connectDestroyed]
    by_cases hs : s.conn.state = .connected
    · rw [if_pos hs]
      exact .closes _ rfl
    · rw [if_neg hs]
      exact .stays _
  | handleClose =>
    by_cases hb : s.functors.batch.isNone = true
    · simpa only [eventLoop,if_pos hb] using Move.closes _ rfl
    · simpa only [eventLoop,if_neg hb] using Move.stays _
  | handleWrite w =>
    by_cases hb : s.functors.batch.isNone = true
    · simpa only [eventLoop,if_pos hb] using Move.writes w (Option.isNone_iff_eq_none.mp hb)
    · simpa only [eventLoop,if_neg hb] using Move.stays _
  | send message w =>
    by_cases hs : s.conn.state = .connected
    · simpa only [eventLoop,if_pos hs] using Move.sends message w hs
    · simpa only [eventLoop,if_neg hs] using Move.stays _
  | shutdown =>
    by_cases hs : s.conn.state = .connected
    · simpa only [eventLoop,if_pos hs] using Move.shuts hs
    · simpa only [eventLoop,if_neg hs] using Move.stays _
  | threadSend t message =>
    by_cases hs : s.functors.busy t = false ∧ s.conn.state = .connected
    · simpa only [eventLoop,if_pos hs] using Move.accepts t message hs.2
    · simpa only [eventLoop,if_neg hs] using Move.stays _
  | threadShutdown t =>
    by_cases hs : s.functors.busy t = false ∧ s.conn.state = .connected
    · simpa only [eventLoop,if_pos hs] using Move.shutsLater t hs.2
    · simpa only [eventLoop,if_neg hs] using Move.stays _
  | queueInLoop t => exact .posts t
  | doPendingFunctors =>
    by_cases hb : s.functors.batch.isNone = true
    · simpa only [eventLoop,if_pos hb] using Move.swaps (Option.isNone_iff_eq_none.mp hb)
    · simpa only [eventLoop,if_neg hb] using Move.stays _
  | runFunctor w => exact runFunctor_move s w

end MiniRpc.ConnectionLoop
