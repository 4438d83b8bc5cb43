import MiniRpc.PoolRegistry

/-!
# Submissions that fail

A submission fails when its wait for room in the queue times out, when the
pool has been stopped, and when the pool grows for it and `std::thread`
throws. In the last case the task has been queued and a thread counted, and
the exception leaves both as they are. What the steps of the submitting
thread do to the queue and the counters is recorded beside the pool.
-/

set_option autoImplicit false

namespace MiniRpc.RejectedTasks
open MiniRpc.StepMachine MiniRpc.WorkerPool MiniRpc.PoolSteps MiniRpc.PoolAccounting
open MiniRpc.PoolMutex MiniRpc.PoolRegistry

variable {τ : Type}

/-- What a submission has added: the tasks it has queued, and to each of the
three counters. -/
structure Trace where
  queued : List Func := []
  size : Int := 0
  current : Int := 0
  idle : Int := 0
  deriving DecidableEq, Repr

def Trace.add (t u : Trace) : Trace :=
  ⟨t.queued++u.queued,t.size+u.size,t.current+u.current,t.idle+u.idle⟩

def difference (s s' : ThreadPool τ) (os : List Output) : Trace where
  queued := acceptedOf os
  size := s'.taskQueueSize.toNat-s.taskQueueSize.toNat
  current := s'.currentThreadCount.toNat-s.currentThreadCount.toNat
  idle := s'.idleThreadCount.toNat-s.idleThreadCount.toNat

/-- A submission that is still waiting changes nothing and has no place in
the state; the trace is that of the last one that was not. -/
def Trace.after (t : Trace) (s s' : ThreadPool τ) (os : List Output) : Input τ → Trace
  | .enqueueTask _ _ => if os = [] then t else difference s s' os
  | .enqueueTimeout => if os = [] then t else difference s s' os
  | .submitter _ => t.add (difference s s' os)
  | _ => t

section
variable [DecidableEq τ] (config : ThreadPoolConfig)

def submissions : Machine (ThreadPool τ × Trace) (Input τ) Output where
  step p i :=
    let r := (threadPool config).step p.1 i
    ((r.1,p.2.after p.1 r.1 r.2 i),r.2)

theorem submissions_run (is : List (Input τ)) (s : ThreadPool τ) (t : Trace) :
    (threadPool config).run s is =
      (((submissions config).run (s,t) is).1.1,((submissions config).run (s,t) is).2) :=
  run_refines (submissions config) (threadPool config) Prod.fst (fun _ _ => rfl) (s,t) is

end

def counted : Option (CreatePc τ) → Int
  | some .counted => 1
  | some (.created _) => 1
  | _ => 0

def Tracked (s : ThreadPool τ) (t : Trace) : Prop :=
  ∀ f pc, s.owner = some (.submitter f pc) →
    t = ⟨[f],1,counted pc,counted pc⟩ ∧ f ∈ s.taskQueue.map PrioritizedTask.func

/-- Nobody but a submitting thread gets hold of the mutex for a submission,
and nobody takes a task while it has it. -/
def Undisturbed (s s' : ThreadPool τ) : Prop :=
  ∀ f pc, s'.owner = some (.submitter f pc) →
    s.owner = some (.submitter f pc) ∧ s'.taskQueue = s.taskQueue

section
variable {s s' : ThreadPool τ}

theorem undisturbed_same (howner : s'.owner = s.owner) (hqueue : s'.taskQueue = s.taskQueue) :
    Undisturbed s s' := fun _ _ h => ⟨howner.symm.trans h,hqueue⟩

theorem undisturbed_free (h : s'.owner = none) : Undisturbed s s' := by
  intro f pc hsub
  rw [h] at hsub
  cases hsub

theorem undisturbed_worker {k : ℕ} (h : s'.owner = some (.worker k)) : Undisturbed s s' := by
  intro f pc hsub
  rw [h] at hsub
  cases hsub

theorem tracked_undisturbed {t : Trace} (h : Tracked s t) (hs : Undisturbed s s') : Tracked s' t := by
  intro f pc howner
  obtain ⟨howner',hqueue⟩ := hs f pc howner
  obtain ⟨ht,hf⟩ := h f pc howner'
  rw [hqueue]
  exact ⟨ht,hf⟩

theorem destroy_undisturbed (h : Destroy s s') : Undisturbed s s' := by
  cases h <;> exact undisturbed_same rfl rfl

theorem difference_same (os : List Output) (hos : acceptedOf os = [])
    (hsize : s'.taskQueueSize = s.taskQueueSize) (hcurrent : s'.currentThreadCount = s.currentThreadCount)
    (hidle : s'.idleThreadCount = s.idleThreadCount) : difference s s' os = {} := by
  rw [difference,hos,hsize,hcurrent,hidle,Trace.mk.injEq]
  exact ⟨rfl,Int.sub_self _,Int.sub_self _,Int.sub_self _⟩

theorem add_nothing (t : Trace) : t.add {} = t := by
  rw [Trace.add,List.append_nil,Int.add_zero,Int.add_zero,Int.add_zero]

theorem tracked_free {t : Trace} (h : s.owner = none) : Tracked s t := by
  intro f pc howner
  rw [h] at howner
  cases howner

theorem after_rests (t : Trace) (s : ThreadPool τ) (i : Input τ) : t.after s s [] i = t := by
  cases i with
  | enqueueTask priority callback => rfl
  | enqueueTimeout => rfl
  | submitter spawn => exact (congrArg t.add (difference_same [] rfl rfl rfl rfl)).trans (add_nothing t)
  | _ => rfl

variable [DecidableEq τ] {config : ThreadPoolConfig}

theorem createThread_difference {os : List Output}
    (hb : Balanced config (books s) os) {pc pc' : CreatePc τ} {spawn : Option τ} {r : ThreadPool τ}
    (hr : s.createThread config spawn pc = (r,.goesOn pc')) :
    difference s r [] =
      ⟨[],0,counted (some pc')-counted (some pc),counted (some pc')-counted (some pc)⟩ := by
  rw [difference,Trace.mk.injEq]
  cases createThread_create hr with
  | counts hroom =>
    have hlt : s.currentThreadCount.toNat < config.maxThreadCount.toNat := hroom
    have hbooks : s.idleThreadCount.toNat+(executing s.workers).length =
      s.currentThreadCount.toNat := hb.idle
    have hidle : s.idleThreadCount < config.maxThreadCount :=
      show s.idleThreadCount.toNat < config.maxThreadCount.toNat by omega
    dsimp only [counted]
    rw [toNat_succ hroom,toNat_succ hidle]
    exact ⟨rfl,Int.sub_self _,by omega,by omega⟩
  | waits t hspawn => exact ⟨rfl,Int.sub_self _,Int.sub_self _,Int.sub_self _⟩
  | spawns t hspawn hfree => exact ⟨rfl,Int.sub_self _,Int.sub_self _,Int.sub_self _⟩

omit [DecidableEq τ] in
theorem accepts_tracked {t : Trace} {priority : Int} {callback : Bool}
    (hroom : s.taskQueueSize < config.maxQueueSize)
    (howner : s'.owner = some (.submitter ⟨s.pushed,callback⟩ none))
    (hqueue : s'.taskQueue = s.taskQueue++[{ priority := priority, func := ⟨s.pushed,callback⟩ }])
    (hsize : s'.taskQueueSize = s.taskQueueSize+1)
    (hcurrent : s'.currentThreadCount = s.currentThreadCount)
    (hidle : s'.idleThreadCount = s.idleThreadCount) :
    Tracked s' (t.after s s' [.accepted ⟨s.pushed,callback⟩] (.enqueueTask priority callback)) := by
  intro f pc howner'
  obtain ⟨rfl,rfl⟩ : f = ⟨s.pushed,callback⟩ ∧ pc = none := by
    rw [howner] at howner'
    cases howner'
    exact ⟨rfl,rfl⟩
  refine ⟨?_,by rw [hqueue]; simp⟩
  rw [Trace.after,if_neg (List.cons_ne_nil _ _),difference,hsize,hcurrent,hidle,toNat_succ hroom,
    Trace.mk.injEq]
  exact ⟨rfl,by omega,Int.sub_self _,Int.sub_self _⟩

theorem creates_tracked {os : List Output} (hb : Balanced config (books s) os) {t : Trace}
    (h : Tracked s t) {spawn : Option τ} {f : Func} {pc : CreatePc τ} {r : ThreadPool τ}
    {res : CreateResult τ} (howner : s.owner = some (.submitter f (some pc)))
    (hr : s.createThread config spawn pc = (r,res)) :
    Tracked (submitterAfter f r res).1
      (t.after s (submitterAfter f r res).1 (submitterAfter f r res).2 (.submitter spawn)) := by
  cases res with
  | returned => exact tracked_free rfl
  | threw => exact tracked_free rfl
  | goesOn pc' =>
    obtain ⟨ht,hf⟩ := h f (some pc) howner
    intro f' pc'' howner'
    cases howner'
    refine ⟨?_,?_⟩
    · rw [Trace.after,show difference s (submitterAfter f r (.goesOn pc')).1
        (submitterAfter f r (.goesOn pc')).2 = difference s r [] from rfl,
        createThread_difference hb hr,ht,Trace.add,Trace.mk.injEq]
      dsimp only
      exact ⟨rfl,rfl,by omega,by omega⟩
    · obtain ⟨workers,threads,current,idle,rfl⟩ := createThread_writes hr
      exact hf

theorem act_tracked {os : List Output} (hb : Balanced config (books s) os) {t : Trace}
    (h : Tracked s t) {i : Input τ} {r : ThreadPool τ × List Output} (ha : Act config s i r) :
    Tracked r.1 (t.after s r.1 r.2 i) := by
  have hundisturbed : ∀ {s'}, Undisturbed s s' → Tracked s' t := tracked_undisturbed h
  cases ha with
  | rests i =>
    rw [after_rests]
    exact h
  | refuses i priority callback hfree hi => exact tracked_free hfree
  | accepts priority callback hfree hroom hrun => exact accepts_tracked hroom rfl rfl rfl rfl rfl
  | grows spawn f howner =>
    obtain ⟨ht,hf⟩ := h f none howner
    intro f' pc' howner'
    cases howner'
    have hnone : difference s { s with owner := some (.submitter f (some .entering)) } [] = {} :=
      difference_same [] rfl rfl rfl rfl
    refine ⟨?_,hf⟩
    rw [Trace.after,hnone,add_nothing,ht]
    rfl
  | submits spawn f howner => exact tracked_free rfl
  | creates spawn f pc r res howner hr => exact creates_tracked hb h howner hr
  | startsNext spawn hpc hleft => exact hundisturbed (undisturbed_same rfl rfl)
  | starts spawn pc r res hpc hr =>
    obtain ⟨workers,threads,current,idle,rfl⟩ := createThread_writes hr
    cases res <;> exact hundisturbed (undisturbed_same rfl rfl)
  | walks i k w pc owner hk hwalk hi =>
    have hnew : Undisturbed s { s.setPc k w pc with owner := owner } := by
      rcases walk_owner hwalk with rfl | rfl | rfl
      · exact undisturbed_same rfl rfl
      · exact undisturbed_free rfl
      · exact undisturbed_worker rfl
    rcases hi with ⟨choice,rfl⟩ | rfl | rfl <;> exact hundisturbed hnew
  | takes k choice w x hk hpc hx => exact hundisturbed (undisturbed_free rfl)
  | exits k choice w locked hk hpc =>
    apply hundisturbed
    rw [ThreadPool.threadExit]
    split_ifs <;> exact undisturbed_same rfl rfl
  | queues k w f hk hpc hf => exact hundisturbed (undisturbed_same rfl rfl)
  | finishes k w f queued hk hpc => exact hundisturbed (undisturbed_same rfl rfl)
  | runsPending => exact hundisturbed (undisturbed_same rfl rfl)
  | calls n threw f fs hn => exact hundisturbed (undisturbed_same rfl rfl)
  | destroys => exact hundisturbed (destroy_undisturbed (destructorStep_destroy s))

def reportsFailure : Output → Bool
  | .refused => true
  | .threw _ => true
  | _ => false

/-- How a submission can fail, and in what state. -/
inductive Failure (s : ThreadPool τ) (i : Input τ) : ThreadPool τ × List Output → Prop where
  | refuses (priority : Int) (callback : Bool)
      (hi : i = .enqueueTask priority callback ∨ i = .enqueueTimeout) : Failure s i (s,[.refused])
  | throws (f : Func) (hi : i = .submitter none)
      (howner : s.owner = some (.submitter f (some .counted))) : Failure s i (s.unlock,[.threw f])

theorem act_failure {i : Input τ} {r : ThreadPool τ × List Output} (ha : Act config s i r) {o : Output}
    (ho : o ∈ r.2) (hfail : reportsFailure o = true) : Failure s i r := by
  cases ha with
  | refuses i priority callback hfree hi => exact .refuses priority callback hi
  | creates spawn f pc r res howner hr =>
    cases res with
    | goesOn pc' => cases ho
    | returned =>
      rw [List.mem_singleton.mp ho] at hfail
      cases hfail
    | threw =>
      obtain ⟨rfl,rfl,rfl⟩ := createThread_threw hr
      exact .throws f rfl howner
  | accepts priority callback hfree hroom hrun =>
    rw [List.mem_singleton.mp ho] at hfail
    cases hfail
  | submits spawn f howner =>
    rw [List.mem_singleton.mp ho] at hfail
    cases hfail
  | takes k choice w x hk hpc hx =>
    rw [List.mem_singleton.mp ho] at hfail
    cases hfail
  | finishes k w f queued hk hpc =>
    rw [List.mem_singleton.mp ho] at hfail
    cases hfail
  | calls n threw f fs hn =>
    rw [List.mem_singleton.mp ho] at hfail
    cases hfail
  | _ => cases ho

/-- `std::thread` throws where the submitting thread creates a worker. -/
def spawnFails : Input τ → Bool
  | .submitter none => true
  | _ => false

omit [DecidableEq τ] in
theorem refused_after (t : Trace) (s : ThreadPool τ) {i : Input τ} {priority : Int} {callback : Bool}
    (hi : i = .enqueueTask priority callback ∨ i = .enqueueTimeout) :
    t.after s s [.refused] i = {} ∧ spawnFails i = false := by
  have hnone : difference s s [.refused] = {} := difference_same _ rfl rfl rfl rfl
  rcases hi with rfl | rfl <;> exact ⟨hnone,rfl⟩

omit [DecidableEq τ] in
theorem threw_after {t : Trace} (h : Tracked s t) {f : Func}
    (howner : s.owner = some (.submitter f (some .counted))) :
    t.after s s.unlock [.threw f] (.submitter none) = ⟨[f],1,1,1⟩ := by
  have hnone : difference s s.unlock [.threw f] = {} := difference_same _ rfl rfl rfl rfl
  rw [Trace.after,hnone,(h f (some .counted) howner).1]
  rfl

def reached (config : ThreadPoolConfig) (is : List (Input τ)) : ThreadPool τ × Trace :=
  ((submissions config).run (Start config,{}) is).1

theorem reached_tracked (config : ThreadPoolConfig) (is : List (Input τ)) :
    Tracked (reached config is).1 (reached config is).2 := by
  have h := run_invariant (submissions config)
    (fun p os => Balanced config (books p.1) os ∧ Tracked p.1 p.2)
    (fun p os i h => ⟨balanced_booking h.1 (step_booking p.1 i),
      act_tracked h.1 h.2 (step_act config p.1 i)⟩)
    (Start config,{}) is ⟨run_balanced config [],?_⟩
  · exact h.2
  · intro f pc howner
    cases howner

end

/-- A submission that fails leaves no trace if and only if it has not failed
because of `std::thread`: then it was refused, and the pool is as before. If
`std::thread` has thrown, the task is in the queue, and all three counters have
been raised. -/
theorem rejected_submission_iff [DecidableEq τ] (config : ThreadPoolConfig) (is : List (Input τ))
    (i : Input τ) (o : Output)
    (ho : o ∈ ((submissions config).step (reached config is) i).2)
    (hfail : reportsFailure o = true) :
    (reached config is).1 = ((threadPool config).run (Start config) is).1 ∧
    (((submissions config).step (reached config is) i).1.2 = {} ↔ spawnFails i = false) ∧
    (spawnFails i = false ↔ o = .refused) ∧
    (o = .refused →
      ((submissions config).step (reached config is) i).1.1 = (reached config is).1) ∧
    ∀ f, o = .threw f →
      ((submissions config).step (reached config is) i).1.2 = ⟨[f],1,1,1⟩ ∧
      f ∈ ((submissions config).step (reached config is) i).1.1.taskQueue.map
        PrioritizedTask.func := by
  have htracked := reached_tracked config is
  refine ⟨(congrArg Prod.fst (submissions_run config is (Start config) {})).symm,?_⟩
  generalize reached config is = p at *
  have hfailure := act_failure (step_act config p.1 i) ho hfail
  have hstep : (submissions config).step p i =
      ((((threadPool config).step p.1 i).1,p.2.after p.1 ((threadPool config).step p.1 i).1
        ((threadPool config).step p.1 i).2 i),((threadPool config).step p.1 i).2) := rfl
  rw [hstep] at ho ⊢
  generalize (threadPool config).step p.1 i = r at hfailure ho ⊢
  cases hfailure with
  | refuses priority callback hi =>
    obtain rfl := List.mem_singleton.mp ho
    obtain ⟨htrace,hspawn⟩ := refused_after p.2 p.1 hi
    refine ⟨iff_of_true htrace hspawn,iff_of_true hspawn rfl,fun _ => rfl,fun f hf => ?_⟩
    cases hf
  | throws f hi howner =>
    obtain rfl := List.mem_singleton.mp ho
    have htrace := threw_after htracked howner
    rw [← hi] at htrace
    have hleft : p.2.after p.1 p.1.unlock [.threw f] i ≠ {} := by
      rw [htrace]
      intro h
      cases h
    have hspawn : ¬spawnFails i = false := by
      rw [hi]
      exact Bool.noConfusion
    have hthrew : Output.threw f ≠ .refused := Output.noConfusion
    refine ⟨iff_of_false hleft hspawn,iff_of_false hspawn hthrew,fun h => absurd h hthrew,
      fun f' hf => ?_⟩
    cases hf
    exact ⟨htrace,(htracked f (some .counted) howner).2⟩

def smallConfig : ThreadPoolConfig where
  mode := .kCached
  initThreadCount := 1
  maxThreadCount := 2
  maxQueueSize := 1

def fullQueue : List (Input ℕ) :=
  [.start none,.start none,.start (some 10),.start none,.enqueueTask 1 false,.submitter none]

theorem full_queue_refuses :
    ((submissions smallConfig).step (reached smallConfig fullQueue) .enqueueTimeout).1.2 = {} ∧
    ((submissions smallConfig).step (reached smallConfig fullQueue) .enqueueTimeout).1.1 =
      (reached smallConfig fullQueue).1 :=
  have h := rejected_submission_iff smallConfig fullQueue .enqueueTimeout .refused
    (by decide +kernel) rfl
  ⟨h.2.1.mpr rfl,h.2.2.2.1 rfl⟩

def growsForTask : List (Input ℕ) := taskGrowsPool.dropLast

def threadFails : List (Input ℕ) := [.submitter none]

def takesNext : List (Input ℕ) :=
  [.finish 0,.worker 0 0,.worker 0 0,.worker 0 0,.worker 0 0,.finish 0]

/-- `submit` throws. The task is executed all the same, and two threads are
counted where there is one. -/
theorem rejected_task_runs :
    ((threadPool growingConfig).run ((threadPool growingConfig).run (Start growingConfig)
      growsForTask).1 threadFails).2 = [.threw ⟨1,false⟩] ∧
    .finished ⟨1,false⟩ ∈ ((threadPool growingConfig).run (Start growingConfig)
      (growsForTask++threadFails++takesNext)).2 ∧
    ((threadPool growingConfig).run (Start growingConfig)
      (growsForTask++threadFails)).1.currentThreadCount = 2 ∧
    ((threadPool growingConfig).run (Start growingConfig)
      (growsForTask++threadFails)).1.idleThreadCount = 1 ∧
    ((threadPool growingConfig).run (Start growingConfig)
      (growsForTask++threadFails)).1.taskQueueSize = 1 ∧
    ((threadPool growingConfig).run (Start growingConfig)
      (growsForTask++threadFails)).1.workers.length = 1 := by
  decide +kernel

end MiniRpc.RejectedTasks
