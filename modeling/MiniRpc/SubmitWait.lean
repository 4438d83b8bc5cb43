import MiniRpc.PoolMutex

/-!
# Threads that wait for room in the queue

`enqueueTask` waits on `notFull_` while the queue is full, at most for its
timeout. Here the calls of `enqueueTask` have a place in the state from their
first line on: outside `taskQueueMutex_` in `waiting`, inside it, up to the
push, in `inside`. A worker that has popped a task calls
`notFull_.notify_all()` after it has released the mutex and before it calls
the function of the task; until then it is in `notifying`. The destructor
notifies `notFull_` after `notEmpty_`, without the mutex.

Everything else is the pool of `WorkerPool`, of which this model has only
runs: a call that goes on after its wait is its step `enqueueTask`, one that
gives up is its step `enqueueTimeout`. Nobody takes the mutex while a call is
inside.
-/

set_option autoImplicit false

namespace MiniRpc.SubmitWait
open MiniRpc.StepMachine MiniRpc.WorkerPool MiniRpc.PoolSteps
open MiniRpc.PoolAccounting MiniRpc.PoolMutex

structure Submission where
  priority : Int
  callback : Bool
  deriving DecidableEq, Repr

inductive WaitPc where
  | locking
  | asleep
  | waking (timedOut : Bool)
  deriving DecidableEq, Repr

/-- A call that holds it: `testing` evaluates the predicate of the wait. -/
inductive InsidePc where
  | testing (timedOut : Bool)
  | blocking
  deriving DecidableEq, Repr

structure Waiter where
  call : Submission
  pc : WaitPc := .locking
  deriving DecidableEq, Repr

structure SharedPool (τ : Type) where
  pool : ThreadPool τ
  waiting : List Waiter := []
  inside : Option (Submission × InsidePc) := none
  notifying : List ℕ := []
  stopNotified : Bool := false

inductive Input (τ : Type) where
  | submit (call : Submission)
  | lock (j : ℕ)
  | inside
  | wake (j : ℕ)
  | timeout (j : ℕ)
  | notifyNotFull (k : ℕ)
  | notifyStop
  | pool (i : WorkerPool.Input τ)

variable {τ : Type}

def start (config : ThreadPoolConfig) : SharedPool τ := { pool := Start config }

def WaitPc.notified : WaitPc → WaitPc
  | .asleep => .waking false
  | pc => pc

def SharedPool.notifyNotFull (s : SharedPool τ) : SharedPool τ :=
  { s with waiting := s.waiting.map fun x => { x with pc := x.pc.notified } }

def SharedPool.free (s : SharedPool τ) : Bool := s.pool.owner.isNone && s.inside.isNone

def SharedPool.enter (s : SharedPool τ) (j : ℕ) (x : Waiter) (timedOut : Bool) : SharedPool τ :=
  if s.free then
    { s with waiting := s.waiting.eraseIdx j, inside := some (x.call,.testing timedOut) }
  else s

def SharedPool.lock (s : SharedPool τ) (j : ℕ) : SharedPool τ :=
  match s.waiting[j]? with
  | some x =>
    match x.pc with
    | .locking => s.enter j x false
    | .asleep => s
    | .waking timedOut => s.enter j x timedOut
  | none => s

/-- The wait of call `j` ends by a wake-up, spurious ones included, or by its
timeout. -/
def SharedPool.wake (s : SharedPool τ) (j : ℕ) (timedOut : Bool) : SharedPool τ :=
  match s.waiting[j]? with
  | some x =>
    if x.pc = .asleep then { s with waiting := s.waiting.set j { x with pc := .waking timedOut } }
    else s
  | none => s

def poppedBy (os : List Output) : List ℕ :=
  os.filterMap fun
    | .dequeued k _ => some k
    | _ => none

/-- The destructor has notified `notEmpty_` and not yet `notFull_`. -/
def SharedPool.stopPending (s : SharedPool τ) : Bool :=
  s.pool.destructor = .waiting && !s.stopNotified

/-- Steps that are not the pool's to take: those of a call that waits, and
those of a thread that has yet to notify. -/
def SharedPool.defers (s : SharedPool τ) : WorkerPool.Input τ → Bool
  | .enqueueTask _ _ => true
  | .enqueueTimeout => true
  | .worker k _ => k ∈ s.notifying
  | .queueCallback k => k ∈ s.notifying
  | .finish k => k ∈ s.notifying
  | .destructor => s.stopPending
  | _ => false

section
variable [DecidableEq τ]

def SharedPool.goOn (config : ThreadPoolConfig) (s : SharedPool τ) : SharedPool τ × List Output :=
  match s.inside with
  | none => (s,[])
  | some (call,.testing timedOut) =>
    if s.pool.hasRoom config then
      let r := (threadPool config).step s.pool (.enqueueTask call.priority call.callback)
      ({ s with pool := r.1, inside := none },r.2)
    else if timedOut then
      let r := (threadPool config).step s.pool .enqueueTimeout
      ({ s with pool := r.1, inside := none },r.2)
    else ({ s with inside := some (call,.blocking) },[])
  | some (call,.blocking) =>
    ({ s with waiting := s.waiting++[⟨call,.asleep⟩], inside := none },[])

def SharedPool.poolStep (config : ThreadPoolConfig) (s : SharedPool τ) (i : WorkerPool.Input τ) :
    SharedPool τ × List Output :=
  let r := (threadPool config).step s.pool i
  if s.defers i || (s.inside.isSome && r.1.owner.isSome) then (s,[])
  else ({ s with pool := r.1, notifying := s.notifying++poppedBy r.2 },r.2)

def sharedPool (config : ThreadPoolConfig) : Machine (SharedPool τ) (Input τ) Output where
  step s i :=
    match i with
    | .submit call => ({ s with waiting := s.waiting++[{ call }] },[])
    | .lock j => (s.lock j,[])
    | .inside => s.goOn config
    | .wake j => (s.wake j false,[])
    | .timeout j => (s.wake j true,[])
    | .notifyNotFull k =>
      if k ∈ s.notifying then ({ s.notifyNotFull with notifying := s.notifying.erase k },[])
      else (s,[])
    | .notifyStop =>
      if s.stopPending then ({ s.notifyNotFull with stopNotified := true },[]) else (s,[])
    | .pool i => s.poolStep config i

inductive Turn (config : ThreadPoolConfig) (s : SharedPool τ) :
    Input τ → SharedPool τ × List Output → Prop where
  | rests (i : Input τ) : Turn config s i (s,[])
  | arrives (call : Submission) :
      Turn config s (.submit call) ({ s with waiting := s.waiting++[{ call }] },[])
  | enters (j : ℕ) (x : Waiter) (timedOut : Bool) (hx : s.waiting[j]? = some x)
      (hpc : x.pc = .waking timedOut ∨ x.pc = .locking ∧ timedOut = false)
      (howner : s.pool.owner = none) (hinside : s.inside = none) :
      Turn config s (.lock j)
        ({ s with waiting := s.waiting.eraseIdx j, inside := some (x.call,.testing timedOut) },[])
  | enqueues (call : Submission) (timedOut : Bool) (hinside : s.inside = some (call,.testing timedOut))
      (hroom : s.pool.hasRoom config = true) :
      Turn config s .inside
        ({ s with
          pool := ((threadPool config).step s.pool (.enqueueTask call.priority call.callback)).1
          inside := none },
        ((threadPool config).step s.pool (.enqueueTask call.priority call.callback)).2)
  | givesUp (call : Submission) (hinside : s.inside = some (call,.testing true))
      (hroom : s.pool.hasRoom config = false) :
      Turn config s .inside
        ({ s with pool := ((threadPool config).step s.pool .enqueueTimeout).1, inside := none },
        ((threadPool config).step s.pool .enqueueTimeout).2)
  | blocks (call : Submission) (hinside : s.inside = some (call,.testing false))
      (hroom : s.pool.hasRoom config = false) :
      Turn config s .inside ({ s with inside := some (call,.blocking) },[])
  | sleeps (call : Submission) (hinside : s.inside = some (call,.blocking)) :
      Turn config s .inside
        ({ s with waiting := s.waiting++[⟨call,.asleep⟩], inside := none },[])
  | wakes (i : Input τ) (j : ℕ) (x : Waiter) (timedOut : Bool) (hx : s.waiting[j]? = some x)
      (hi : i = .wake j ∨ i = .timeout j) :
      Turn config s i
        ({ s with waiting := s.waiting.set j { x with pc := .waking timedOut } },[])
  | notifies (k : ℕ) (hk : k ∈ s.notifying) :
      Turn config s (.notifyNotFull k)
        ({ s.notifyNotFull with notifying := s.notifying.erase k },[])
  | stops (hstop : s.stopPending = true) :
      Turn config s .notifyStop ({ s.notifyNotFull with stopNotified := true },[])
  | pools (i : WorkerPool.Input τ) (hdefers : s.defers i = false)
      (hmutex : s.inside = none ∨ ((threadPool config).step s.pool i).1.owner = none) :
      Turn config s (.pool i)
        ({ s with
          pool := ((threadPool config).step s.pool i).1
          notifying := s.notifying++poppedBy ((threadPool config).step s.pool i).2 },
        ((threadPool config).step s.pool i).2)

section
variable (config : ThreadPoolConfig) (s : SharedPool τ)

theorem enter_turn {j : ℕ} {x : Waiter} (hx : s.waiting[j]? = some x) {timedOut : Bool}
    (hpc : x.pc = .waking timedOut ∨ x.pc = .locking ∧ timedOut = false) :
    Turn config s (.lock j) (s.enter j x timedOut,[]) := by
  rw [SharedPool.enter]
  by_cases hfree : s.free = true
  · rw [if_pos hfree]
    rw [SharedPool.free,Bool.and_eq_true] at hfree
    exact .enters j x timedOut hx hpc (Option.isNone_iff_eq_none.mp hfree.1)
      (Option.isNone_iff_eq_none.mp hfree.2)
  · rw [if_neg hfree]
    exact .rests _

theorem wake_turn {i : Input τ} {j : ℕ} (hi : i = .wake j ∨ i = .timeout j) (timedOut : Bool) :
    Turn config s i (s.wake j timedOut,[]) := by
  rw [SharedPool.wake.eq_def]
  cases hx : s.waiting[j]? with
  | none => exact .rests _
  | some x =>
    dsimp only
    by_cases hpc : x.pc = .asleep
    · rw [if_pos hpc]
      exact .wakes i j x timedOut hx hi
    · rw [if_neg hpc]
      exact .rests _

theorem goOn_turn : Turn config s .inside (s.goOn config) := by
  rw [SharedPool.goOn.eq_def]
  cases hinside : s.inside with
  | none => exact .rests _
  | some y =>
    obtain ⟨call,pc⟩ := y
    cases pc with
    | blocking => exact .sleeps call hinside
    | testing timedOut =>
      dsimp only
      by_cases hroom : s.pool.hasRoom config = true
      · rw [if_pos hroom]
        exact .enqueues call timedOut hinside hroom
      · rw [if_neg hroom]
        have hfull := Bool.not_eq_true _ ▸ hroom
        cases timedOut with
        | false => exact .blocks call hinside hfull
        | true => exact .givesUp call hinside hfull

theorem poolStep_turn (i : WorkerPool.Input τ) :
    Turn config s (.pool i) (s.poolStep config i) := by
  rw [SharedPool.poolStep]
  by_cases hno : (s.defers i || (s.inside.isSome &&
      ((threadPool config).step s.pool i).1.owner.isSome)) = true
  · rw [if_pos hno]
    exact .rests _
  · rw [if_neg hno]
    rw [Bool.not_eq_true,Bool.or_eq_false_iff,Bool.and_eq_false_iff] at hno
    refine .pools i hno.1 (hno.2.imp ?_ ?_)
    · exact Option.not_isSome_iff_eq_none.mp ∘ (Bool.not_eq_true _).mpr
    · exact Option.not_isSome_iff_eq_none.mp ∘ (Bool.not_eq_true _).mpr

theorem step_turn (i : Input τ) : Turn config s i ((sharedPool config).step s i) := by
  cases i with
  | submit call => exact .arrives call
  | lock j =>
    simp only [sharedPool,SharedPool.lock]
    cases hx : s.waiting[j]? with
    | none => exact .rests _
    | some x =>
      cases hpc : x.pc with
      | locking => simpa only [hpc] using enter_turn config s hx (.inr ⟨hpc,rfl⟩)
      | asleep => simpa only [hpc] using Turn.rests _
      | waking timedOut => simpa only [hpc] using enter_turn config s hx (.inl hpc)
  | inside => exact goOn_turn config s
  | wake j => exact wake_turn config s (.inl rfl) false
  | timeout j => exact wake_turn config s (.inr rfl) true
  | notifyNotFull k =>
    by_cases hk : k ∈ s.notifying
    · simpa only [sharedPool,if_pos hk] using Turn.notifies k hk
    · simpa only [sharedPool,if_neg hk] using Turn.rests _
  | notifyStop =>
    by_cases hstop : s.stopPending = true
    · simpa only [sharedPool,if_pos hstop] using Turn.stops hstop
    · simpa only [sharedPool,if_neg hstop] using Turn.rests _
  | pool i => exact poolStep_turn config s i

end

inductive QueueMove (config : ThreadPoolConfig) (s : ThreadPool τ) (i : WorkerPool.Input τ)
    (r : ThreadPool τ × List Output) : Prop where
  | keeps (hqueue : r.1.taskQueue = s.taskQueue) (hsize : r.1.taskQueueSize = s.taskQueueSize)
      (hpopped : poppedBy r.2 = [])
  | pushes (priority : Int) (callback : Bool) (hi : i = .enqueueTask priority callback)
      (hroom : s.taskQueueSize < config.maxQueueSize) (hsize : r.1.taskQueueSize = s.taskQueueSize+1)
      (hpopped : poppedBy r.2 = [])
  | pops (k : ℕ) (w : Worker τ) (hk : s.workers[k]? = some w) (hpc : w.pc = .taking)
      (hlen : r.1.taskQueue.length+1 = s.taskQueue.length) (hpopped : poppedBy r.2 = [k])

section
variable {config : ThreadPoolConfig}

theorem act_queue {s : ThreadPool τ} {i : WorkerPool.Input τ} {r : ThreadPool τ × List Output}
    (h : Act config s i r) : QueueMove config s i r := by
  cases h with
  | accepts priority callback hfree hroom hrun => exact .pushes priority callback rfl hroom rfl rfl
  | creates spawn f pc r res howner hr =>
    obtain ⟨workers,threads,current,idle,rfl⟩ := createThread_writes hr
    cases res <;> exact .keeps rfl rfl rfl
  | starts spawn pc r res hpc hr =>
    obtain ⟨workers,threads,current,idle,rfl⟩ := createThread_writes hr
    cases res <;> exact .keeps rfl rfl rfl
  | takes k choice w x hk hpc hx =>
    have hmem := (mem_topTasks.mp hx).1
    refine .pops k w hk hpc ?_ rfl
    rw [List.length_erase_of_mem hmem]
    exact Nat.sub_add_cancel (List.length_pos_of_mem hmem)
  | exits k choice w locked hk hpc =>
    refine .keeps ?_ ?_ rfl
    · rw [ThreadPool.setPc,ThreadPool.threadExit]
      split_ifs <;> rfl
    · exact (threadExit_same s w.threadId).2.2
  | destroys =>
    have hd := destructorStep_destroy s
    generalize s.destructorStep = t at hd ⊢
    cases hd <;> exact .keeps rfl rfl rfl
  | _ => exact .keeps rfl rfl rfl

theorem run_pool (config : ThreadPoolConfig) (is : List (Input τ)) :
    ∃ js, (threadPool config).run (Start config) js =
      (((sharedPool config).run (start config) is).1.pool,
        ((sharedPool config).run (start config : SharedPool τ) is).2) := by
  have h := run_simulates (m := sharedPool config) (threadPool config) SharedPool.pool (fun o => [o])
    ?_ (start config) is
  · simpa only [List.flatMap_singleton',start] using h
  · intro s i
    rw [List.flatMap_singleton']
    have hone : ∀ j, (threadPool config).run s.pool [j] =
        (((threadPool config).step s.pool j).1,((threadPool config).step s.pool j).2) := by
      intro j
      rw [Machine.run,Machine.run,List.append_nil]
    generalize hr : (sharedPool config).step s i = r
    have hturn := hr ▸ step_turn config s i
    cases hturn with
    | enqueues call timedOut hinside hroom => exact ⟨_,hone _⟩
    | givesUp call hinside hroom => exact ⟨_,hone _⟩
    | pools i hdefers hmutex => exact ⟨_,hone i⟩
    | _ => exact ⟨[],rfl⟩

end

end

/-- A call that is about to sleep has seen a full queue, under the mutex; one
that sleeps while there is room is going to be notified. -/
structure Heard (config : ThreadPoolConfig) (s : SharedPool τ) : Prop where
  locked : Locked s.pool
  mutex : s.inside ≠ none → s.pool.owner = none
  full : ∀ call, s.inside = some (call,.blocking) → ¬s.pool.taskQueueSize < config.maxQueueSize
  notified : s.pool.taskQueueSize < config.maxQueueSize → s.notifying = [] →
    ∀ x ∈ s.waiting, x.pc ≠ .asleep

section
variable {config : ThreadPoolConfig} {s : SharedPool τ}

theorem notified_awake (pc : WaitPc) : pc.notified ≠ .asleep := by
  cases pc <;> exact WaitPc.noConfusion

theorem notifyNotFull_awake : ∀ x ∈ s.notifyNotFull.waiting, x.pc ≠ .asleep := by
  intro x hx
  obtain ⟨y,-,rfl⟩ := List.mem_map.mp hx
  exact notified_awake y.pc

theorem hasRoom_false (h : s.pool.hasRoom config = false) :
    ¬s.pool.taskQueueSize < config.maxQueueSize := by
  rw [ThreadPool.hasRoom,Bool.or_eq_false_iff,decide_eq_false_iff_not] at h
  exact h.1

theorem start_heard (config : ThreadPoolConfig) : Heard config (start config : SharedPool τ) where
  locked := locked_start config
  mutex hin := absurd rfl hin
  full _ hin := absurd hin.symm (Option.some_ne_none _)
  notified _ _ _ hx := absurd hx List.not_mem_nil

variable [DecidableEq τ]

theorem pools_heard (h : Heard config s) {i : WorkerPool.Input τ} (hdefers : s.defers i = false)
    (hmutex : s.inside = none ∨ ((threadPool config).step s.pool i).1.owner = none) :
    Heard config { s with
      pool := ((threadPool config).step s.pool i).1
      notifying := s.notifying++poppedBy ((threadPool config).step s.pool i).2 } := by
  have hfree : s.inside ≠ none → ((threadPool config).step s.pool i).1.owner = none :=
    fun hin => hmutex.resolve_left hin
  have hlocked := step_locked config h.locked i
  cases act_queue (step_act config s.pool i) with
  | keeps hqueue hsize hpopped =>
    refine ⟨hlocked,hfree,?_,?_⟩
    · rw [hsize]
      exact h.full
    · rw [hsize,hpopped,List.append_nil]
      exact h.notified
  | pushes priority callback hi hroom hsize hpopped =>
    rw [hi] at hdefers
    exact Bool.noConfusion hdefers
  | pops k w hk hpc hlen hpopped =>
    refine ⟨hlocked,hfree,?_,?_⟩
    · intro call hin
      have howner := (h.locked.holder k w hk).mp (by rw [hpc]; rfl)
      rw [h.mutex (by rw [hin]; exact Option.some_ne_none _)] at howner
      cases howner
    · intro _ hnone
      rw [hpopped] at hnone
      exact absurd hnone (by simp)

theorem leaves_heard (h : Heard config s) (i : WorkerPool.Input τ) (hin : s.inside ≠ none) :
    Heard config { s with pool := ((threadPool config).step s.pool i).1, inside := none } := by
  have hfree := h.mutex hin
  refine ⟨step_locked config h.locked i,fun hno => absurd rfl hno,fun _ hno => absurd hno.symm
    (Option.some_ne_none _),?_⟩
  cases act_queue (step_act config s.pool i) with
  | keeps hqueue hsize hpopped =>
    rw [hsize]
    exact h.notified
  | pushes priority callback hi hroom hsize hpopped => exact fun _ => h.notified hroom
  | pops k w hk hpc hlen hpopped =>
    have howner := (h.locked.holder k w hk).mp (by rw [hpc]; rfl)
    rw [hfree] at howner
    cases howner

theorem turn_heard (h : Heard config s) {i : Input τ} {r : SharedPool τ × List Output}
    (ht : Turn config s i r) : Heard config r.1 := by
  cases ht with
  | rests i => exact h
  | arrives call =>
    refine ⟨h.locked,h.mutex,h.full,fun hroom hnone x hx => ?_⟩
    rcases List.mem_append.mp hx with hx | hx
    · exact h.notified hroom hnone x hx
    · rw [List.mem_singleton.mp hx]
      exact WaitPc.noConfusion
  | enters j x timedOut hx hpc howner hinside =>
    refine ⟨h.locked,fun _ => howner,fun call hin => ?_,fun hroom hnone y hy => ?_⟩
    · cases hin
    · exact h.notified hroom hnone y (List.mem_of_mem_eraseIdx hy)
  | enqueues call timedOut hinside hroom =>
    exact leaves_heard h _ (by rw [hinside]; exact Option.some_ne_none _)
  | givesUp call hinside hroom =>
    exact leaves_heard h _ (by rw [hinside]; exact Option.some_ne_none _)
  | blocks call hinside hroom =>
    refine ⟨h.locked,fun _ => h.mutex (by rw [hinside]; exact Option.some_ne_none _),?_,h.notified⟩
    exact fun _ _ => hasRoom_false hroom
  | sleeps call hinside =>
    refine ⟨h.locked,fun hno => absurd rfl hno,fun _ hno => absurd hno.symm (Option.some_ne_none _),?_⟩
    exact fun hroom => absurd hroom (h.full call hinside)
  | wakes i j x timedOut hx hi =>
    refine ⟨h.locked,h.mutex,h.full,fun hroom hnone y hy => ?_⟩
    rcases List.mem_or_eq_of_mem_set hy with hy | rfl
    · exact h.notified hroom hnone y hy
    · exact WaitPc.noConfusion
  | notifies k hk => exact ⟨h.locked,h.mutex,h.full,fun _ _ => notifyNotFull_awake⟩
  | stops hstop => exact ⟨h.locked,h.mutex,h.full,fun _ _ => notifyNotFull_awake⟩
  | pools i hdefers hmutex => exact pools_heard h hdefers hmutex

end

variable [DecidableEq τ] in
theorem run_heard (config : ThreadPoolConfig) (is : List (Input τ)) :
    Heard config ((sharedPool config).run (start config : SharedPool τ) is).1 :=
  run_invariant (sharedPool config) (fun s _ => Heard config s)
    (fun s _ i h => turn_heard h (step_turn config s i)) (start config) is (start_heard config)

end MiniRpc.SubmitWait
