import Mathlib.Init

/-!
# Channels

`events_` has at most the two bits that the enabling functions set,
`kReadEvent` and `kWriteEvent`. `revents_` is what `epoll_wait` has returned,
and `handleEvent` decides from it which callbacks run, in which order.
-/

set_option autoImplicit false

namespace MiniRpc.EventChannel

structure Events where
  reading : Bool := false
  writing : Bool := false
  deriving DecidableEq, Repr

def Events.isNoneEvent (e : Events) : Bool := !e.reading && !e.writing

inductive EventChange where
  | enableReading
  | disableReading
  | enableWriting
  | disableWriting
  | disableAll
  deriving DecidableEq, Repr

def EventChange.apply (e : Events) : EventChange → Events
  | .enableReading => { e with reading := true }
  | .disableReading => { e with reading := false }
  | .enableWriting => { e with writing := true }
  | .disableWriting => { e with writing := false }
  | .disableAll => {}

structure Revents where
  epollin : Bool := false
  epollpri : Bool := false
  epollrdhup : Bool := false
  epollout : Bool := false
  epollerr : Bool := false
  epollhup : Bool := false
  deriving DecidableEq, Repr

inductive Callback where
  | read
  | write
  | close
  | error
  deriving DecidableEq, Repr

/-- The callbacks `handleEvent` runs, in order. A hang-up without data to read
runs the close callback alone. -/
def handleEvent (r : Revents) : List Callback :=
  if r.epollhup && !r.epollin then [.close]
  else (if r.epollerr then [.error] else [])++
    (if r.epollin || r.epollpri || r.epollrdhup then [.read] else [])++
    (if r.epollout then [.write] else [])

end MiniRpc.EventChannel
