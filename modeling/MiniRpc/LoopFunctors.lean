import MiniRpc.ReactorLoop

/-!
# The functors of a loop

Whoever queues a functor, the loop thread runs the functors one by one in the
order in which they were queued, and runs none twice. One poll may come
between the queueing of a functor and its run, a second one may not.
-/

set_option autoImplicit false

namespace MiniRpc.LoopFunctors
open MiniRpc.StepMachine MiniRpc.ReactorLoop

variable {φ : Type}

def queues (s : EventLoop φ) : Input φ → List φ
  | .push f => [f]
  | .queueInLoop f => if s.pc.userCode then [f] else []
  | _ => []

def ranOf (os : List (Output φ)) : List φ :=
  os.filterMap fun
    | .ran f => some f
    | .polled => none

def batch : LoopPc φ → List φ
  | .running fs => fs
  | _ => []

def waiting (s : EventLoop φ) : List φ := batch s.pc++s.pendingFunctors

@[simp] theorem ranOf_append (xs ys : List (Output φ)) : ranOf (xs++ys) = ranOf xs++ranOf ys :=
  List.filterMap_append

end MiniRpc.LoopFunctors
