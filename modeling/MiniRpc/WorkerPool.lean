import MiniRpc.StepMachine
import Mathlib.Data.List.Perm.Basic

/-!
# The thread pool

One step is one access of one thread to the shared members; `taskQueueMutex_`
is held by `owner`, the sections of `threadSetMutex_` and
`callbackQueueMutex_` are one step each. Submitting threads have a place in
the state only while they hold `taskQueueMutex_`. A worker is known by its
position in `workers`; its `std::thread::id` may be that of an earlier worker
which is gone. The machine starts where `Start` has stored the configuration
and enters its loop of `CreateThread` calls.

`size_t` is `UInt64`. Tasks are numbered in the order in which they are
pushed; what they do is not modelled, only that a task submitted with a
callback queues it before it ends, unless it throws.
-/

set_option autoImplicit false

namespace MiniRpc.WorkerPool
open MiniRpc.StepMachine

inductive PoolMode where
  | kFixed
  | kCached
  deriving DecidableEq, Repr

structure Func where
  serial : ℕ
  callback : Bool
  deriving DecidableEq, Repr

structure PrioritizedTask where
  priority : Int
  func : Func
  deriving DecidableEq, Repr

def PrioritizedTask.less (x y : PrioritizedTask) : Bool := x.priority > y.priority

/-- The tasks that `taskQueue_.top()` may be: those less than no other. -/
def topTasks (q : List PrioritizedTask) : List PrioritizedTask :=
  q.filter fun x => q.all fun y => !x.less y

structure ThreadPoolConfig where
  mode : PoolMode := .kFixed
  initThreadCount : UInt64
  maxThreadCount : UInt64 := 8
  maxQueueSize : UInt64 := 1024

inductive CreatePc (τ : Type) where
  | entering
  | counted
  | created (t : τ)
  deriving DecidableEq

inductive CreateResult (τ : Type) where
  | goesOn (pc : CreatePc τ)
  | returned
  | threw

/-- Inside `WorkerThread`. `looking`, `testing`, `blocking`, `ready`, `taking`
and `leaving` hold `taskQueueMutex_`: `looking` is at the condition of the
inner loop, `testing` evaluates the predicate of the wait, `ready` is past
it. -/
inductive WorkerPc where
  | top
  | locking
  | looking
  | testing (timed timedOut : Bool)
  | blocking (timed : Bool)
  | asleep (timed : Bool)
  | waking (timed timedOut : Bool)
  | ready
  | taking
  | executing (f : Func) (queued : Bool)
  | exiting
  | leaving
  | exited (locked : Bool)
  | gone
  deriving DecidableEq, Repr

structure Worker (τ : Type) where
  threadId : τ
  pc : WorkerPc := .top

/-- Who holds `taskQueueMutex_`: a thread in `enqueueTask`, which has pushed
`f` and then may be inside `CreateThread`, or a worker. -/
inductive Owner (τ : Type) where
  | submitter (f : Func) (pc : Option (CreatePc τ))
  | worker (k : ℕ)

inductive DestructorPc where
  | notCalled
  | stopped
  | waiting
  | returned
  | destroyed
  deriving DecidableEq, Repr

structure ThreadPool (τ : Type) where
  isRunning : Bool := true
  threads : List τ := []
  currentThreadCount : UInt64 := 0
  idleThreadCount : UInt64 := 0
  taskQueueSize : UInt64 := 0
  taskQueue : List PrioritizedTask := []
  pushed : ℕ := 0
  owner : Option (Owner τ) := none
  workers : List (Worker τ) := []
  starting : ℕ
  startPc : Option (CreatePc τ) := none
  callbackQueue : List Func := []
  callbackRuns : List (List Func) := []
  destructor : DestructorPc := .notCalled

inductive Output where
  | accepted (f : Func)
  | submitted (f : Func)
  | refused
  | threw (f : Func)
  | dequeued (k : ℕ) (x : PrioritizedTask)
  | finished (f : Func)
  | callbackRun (f : Func)
  deriving DecidableEq, Repr

inductive Input (τ : Type) where
  | enqueueTask (priority : Int) (callback : Bool)
  | enqueueTimeout
  | submitter (spawn : Option τ)
  | start (spawn : Option τ)
  | worker (k choice : ℕ)
  | wake (k : ℕ)
  | timeout (k : ℕ)
  | queueCallback (k : ℕ)
  | finish (k : ℕ)
  | runPendingCallbacks
  | runCallback (r : ℕ) (threw : Bool)
  | destructor

variable {τ : Type}

def Start (config : ThreadPoolConfig) : ThreadPool τ :=
  { starting := config.initThreadCount.toNat }

def ThreadPool.setPc (s : ThreadPool τ) (k : ℕ) (w : Worker τ) (pc : WorkerPc) : ThreadPool τ :=
  { s with workers := s.workers.set k { w with pc := pc } }

def ThreadPool.lock (s : ThreadPool τ) (k : ℕ) : ThreadPool τ := { s with owner := some (.worker k) }

def ThreadPool.unlock (s : ThreadPool τ) : ThreadPool τ := { s with owner := none }

def WorkerPc.notified : WorkerPc → WorkerPc
  | .asleep timed => .waking timed false
  | pc => pc

def ThreadPool.notifyNotEmpty (s : ThreadPool τ) : ThreadPool τ :=
  { s with workers := s.workers.map fun w => { w with pc := w.pc.notified } }

def ThreadPool.hasWork (s : ThreadPool τ) : Bool := s.taskQueueSize > 0 || !s.isRunning

def ThreadPool.hasRoom (config : ThreadPoolConfig) (s : ThreadPool τ) : Bool :=
  s.taskQueueSize < config.maxQueueSize || !s.isRunning

def Owner.createPc : Option (Owner τ) → Option (CreatePc τ)
  | some (.submitter _ pc) => pc
  | _ => none

section
variable [DecidableEq τ]

/-- No thread has the id `t`: none that runs, and none that was not detached
yet. -/
def ThreadPool.freeId (s : ThreadPool τ) (t : τ) : Bool :=
  s.workers.all (fun w => w.pc = .gone || w.threadId ≠ t) && s.startPc ≠ some (.created t) &&
    Owner.createPc s.owner ≠ some (.created t)

/-- `spawn` is the id of the new thread, or `none` if `std::thread` throws. -/
def ThreadPool.createThread (config : ThreadPoolConfig) (s : ThreadPool τ) (spawn : Option τ) :
    CreatePc τ → ThreadPool τ × CreateResult τ
  | .entering =>
    if s.currentThreadCount ≥ config.maxThreadCount then (s,.returned)
    else ({ s with
      currentThreadCount := s.currentThreadCount+1
      idleThreadCount := s.idleThreadCount+1 },.goesOn .counted)
  | .counted =>
    match spawn with
    | none => (s,.threw)
    | some t =>
      if s.freeId t then ({ s with workers := s.workers++[{ threadId := t }] },.goesOn (.created t))
      else (s,.goesOn .counted)
  | .created t => ({ s with threads := s.threads.insert t },.returned)

def ThreadPool.submitterStep (config : ThreadPoolConfig) (s : ThreadPool τ) (spawn : Option τ) :
    ThreadPool τ × List Output :=
  match s.owner with
  | some (.submitter f none) =>
    if config.mode = .kCached ∧ s.taskQueueSize > s.idleThreadCount ∧
        s.currentThreadCount < config.maxThreadCount then
      ({ s with owner := some (.submitter f (some .entering)) },[])
    else (s.unlock,[.submitted f])
  | some (.submitter f (some pc)) =>
    match s.createThread config spawn pc with
    | (s',.goesOn pc') => ({ s' with owner := some (.submitter f (some pc')) },[])
    | (s',.returned) => (s'.unlock,[.submitted f])
    | (s',.threw) => (s'.unlock,[.threw f])
  | _ => (s,[])

def ThreadPool.startStep (config : ThreadPoolConfig) (s : ThreadPool τ) (spawn : Option τ) :
    ThreadPool τ :=
  match s.startPc with
  | none =>
    if s.starting = 0 then s
    else { s with starting := s.starting-1, startPc := some .entering }
  | some pc =>
    match s.createThread config spawn pc with
    | (s',.goesOn pc') => { s' with startPc := some pc' }
    | (s',.returned) => { s' with startPc := none }
    | (s',.threw) => { s' with starting := 0, startPc := none }

def ThreadPool.threadExit (s : ThreadPool τ) (t : τ) : ThreadPool τ :=
  if t ∈ s.threads then
    { s with
      threads := s.threads.erase t
      currentThreadCount := s.currentThreadCount-1
      idleThreadCount := s.idleThreadCount-1 }
  else s

end

/-- `enqueueTask` up to the growth of the pool, once its wait is over. -/
def ThreadPool.enqueueTask (config : ThreadPoolConfig) (s : ThreadPool τ) (priority : Int)
    (callback : Bool) : ThreadPool τ × List Output :=
  if s.owner.isSome || !s.hasRoom config then (s,[])
  else if s.isRunning = false then (s,[.refused])
  else
    let f : Func := { serial := s.pushed, callback := callback }
    ({ s.notifyNotEmpty with
      taskQueue := s.taskQueue++[{ priority := priority, func := f }]
      taskQueueSize := s.taskQueueSize+1
      pushed := s.pushed+1
      owner := some (.submitter f none) },[.accepted f])

def ThreadPool.takeTask (s : ThreadPool τ) (k : ℕ) (w : Worker τ) (choice : ℕ) :
    ThreadPool τ × List Output :=
  match (topTasks s.taskQueue)[choice]? with
  | none => (s,[])
  | some x =>
    ({ s.setPc k w (.executing x.func false) with
      idleThreadCount := s.idleThreadCount-1
      taskQueue := s.taskQueue.erase x
      taskQueueSize := s.taskQueueSize-1
      owner := none },[.dequeued k x])

def ThreadPool.workerStep [DecidableEq τ] (config : ThreadPoolConfig) (s : ThreadPool τ) (k : ℕ)
    (w : Worker τ) (choice : ℕ) : ThreadPool τ × List Output :=
  match w.pc with
  | .top => (s.setPc k w (if s.isRunning then .locking else .exiting),[])
  | .locking => if s.owner.isNone then ((s.lock k).setPc k w .looking,[]) else (s,[])
  | .looking =>
    if s.taskQueueSize = 0 then
      (s.setPc k w (.testing (config.mode = .kCached ∧
        s.currentThreadCount > config.initThreadCount) false),[])
    else if s.isRunning then (s.setPc k w .taking,[])
    else (s.unlock.setPc k w .exiting,[])
  | .testing timed timedOut =>
    (s.setPc k w (if s.hasWork then .ready else if timedOut then .leaving else .blocking timed),[])
  | .blocking timed => (s.unlock.setPc k w (.asleep timed),[])
  | .asleep _ => (s,[])
  | .waking timed timedOut =>
    if s.owner.isNone then ((s.lock k).setPc k w (.testing timed timedOut),[]) else (s,[])
  | .ready =>
    if s.isRunning then (s.setPc k w .looking,[]) else (s.unlock.setPc k w .exiting,[])
  | .taking => s.takeTask k w choice
  | .executing _ _ => (s,[])
  | .exiting => ((s.threadExit w.threadId).setPc k w (.exited false),[])
  | .leaving => ((s.threadExit w.threadId).setPc k w (.exited true),[])
  | .exited locked => ((if locked then s.unlock else s).setPc k w .gone,[])
  | .gone => (s,[])

/-- The wait of worker `k` ends by a wake-up, spurious ones included, or by
its timeout. -/
def ThreadPool.wakeStep (s : ThreadPool τ) (k : ℕ) (w : Worker τ) (timedOut : Bool) : ThreadPool τ :=
  match w.pc with
  | .asleep timed =>
    if timedOut = true ∧ timed = false then s else s.setPc k w (.waking timed timedOut)
  | _ => s

def ThreadPool.queueCallback (s : ThreadPool τ) (k : ℕ) (w : Worker τ) : ThreadPool τ :=
  match w.pc with
  | .executing f false =>
    if f.callback then
      { s.setPc k w (.executing f true) with callbackQueue := s.callbackQueue++[f] }
    else s
  | _ => s

def ThreadPool.finishTask (s : ThreadPool τ) (k : ℕ) (w : Worker τ) : ThreadPool τ × List Output :=
  match w.pc with
  | .executing f _ =>
    ({ s.setPc k w .top with idleThreadCount := s.idleThreadCount+1 },[.finished f])
  | _ => (s,[])

def ThreadPool.runPendingCallbacks (s : ThreadPool τ) : ThreadPool τ :=
  { s with callbackQueue := [], callbackRuns := s.callbackRuns++[s.callbackQueue] }

/-- The next callback of a running `runPendingCallbacks`; one that throws
ends it, and the rest of its queue is destroyed. -/
def ThreadPool.runCallback (s : ThreadPool τ) (r : ℕ) (threw : Bool) : ThreadPool τ × List Output :=
  match s.callbackRuns[r]? with
  | some (f::fs) =>
    ({ s with callbackRuns := s.callbackRuns.set r (if threw then [] else fs) },[.callbackRun f])
  | _ => (s,[])

def ThreadPool.destructorStep (s : ThreadPool τ) : ThreadPool τ :=
  match s.destructor with
  | .notCalled => { s with isRunning := false, destructor := .stopped }
  | .stopped => { s.notifyNotEmpty with destructor := .waiting }
  | .waiting => if s.threads.isEmpty then { s with destructor := .returned } else s
  | .returned => { s.runPendingCallbacks with destructor := .destroyed }
  | .destroyed => s

def ThreadPool.withWorker (s : ThreadPool τ) (k : ℕ)
    (f : Worker τ → ThreadPool τ × List Output) : ThreadPool τ × List Output :=
  match s.workers[k]? with
  | some w => f w
  | none => (s,[])

variable [DecidableEq τ]

def threadPool (config : ThreadPoolConfig) : Machine (ThreadPool τ) (Input τ) Output where
  step s i :=
    match i with
    | .enqueueTask priority callback => s.enqueueTask config priority callback
    | .enqueueTimeout =>
      if s.owner.isNone ∧ s.hasRoom config = false then (s,[.refused]) else (s,[])
    | .submitter spawn => s.submitterStep config spawn
    | .start spawn => (s.startStep config spawn,[])
    | .worker k choice => s.withWorker k fun w => s.workerStep config k w choice
    | .wake k => s.withWorker k fun w => (s.wakeStep k w false,[])
    | .timeout k => s.withWorker k fun w => (s.wakeStep k w true,[])
    | .queueCallback k => s.withWorker k fun w => (s.queueCallback k w,[])
    | .finish k => s.withWorker k fun w => s.finishTask k w
    | .runPendingCallbacks => (s.runPendingCallbacks,[])
    | .runCallback r threw => s.runCallback r threw
    | .destructor => (s.destructorStep,[])

end MiniRpc.WorkerPool
