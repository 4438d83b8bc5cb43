import MiniRpc.WorkerPool

/-!
# What one step of the pool does

Everything a step can do, with the condition under which it does it and the
state it leads to. The properties of the pool that follow from what single
steps read and write are derived from this list.
-/

set_option autoImplicit false

namespace MiniRpc.PoolSteps
open MiniRpc.StepMachine MiniRpc.WorkerPool

variable {τ : Type}

/-- How worker `k` goes on in `WorkerThread` and `waitForWork`: from where, to
where, and who has `taskQueueMutex_` then. -/
inductive Walk (s : ThreadPool τ) (k : ℕ) : WorkerPc → WorkerPc → Option (Owner τ) → Prop where
  | begins (hrun : s.isRunning = true) : Walk s k .top .locking s.owner
  | stops (hstop : s.isRunning = false) : Walk s k .top .exiting s.owner
  | locks (hfree : s.owner = none) : Walk s k .locking .looking (some (.worker k))
  | looks (timed : Bool) : Walk s k .looking (.testing timed false) s.owner
  | sees (hsome : s.taskQueueSize ≠ 0) (hrun : s.isRunning = true) :
      Walk s k .looking .taking s.owner
  | gives (hstop : s.isRunning = false) : Walk s k .looking .exiting none
  | finds (timed timedOut : Bool) : Walk s k (.testing timed timedOut) .ready s.owner
  | expires (timed : Bool) (hwork : s.hasWork = false) : Walk s k (.testing timed true) .leaving s.owner
  | blocks (timed : Bool) (hwork : s.hasWork = false) :
      Walk s k (.testing timed false) (.blocking timed) s.owner
  | sleeps (timed : Bool) : Walk s k (.blocking timed) (.asleep timed) none
  | wakes (timed timedOut : Bool) : Walk s k (.asleep timed) (.waking timed timedOut) s.owner
  | relocks (timed timedOut : Bool) (hfree : s.owner = none) :
      Walk s k (.waking timed timedOut) (.testing timed timedOut) (some (.worker k))
  | looksAgain (hrun : s.isRunning = true) : Walk s k .ready .looking s.owner
  | givesUp (hstop : s.isRunning = false) : Walk s k .ready .exiting none
  | leaves : Walk s k (.exited false) .gone s.owner
  | leavesLocked : Walk s k (.exited true) .gone none

theorem walk_owner {s : ThreadPool τ} {k : ℕ} {pc pc' : WorkerPc} {owner : Option (Owner τ)}
    (h : Walk s k pc pc' owner) : owner = s.owner ∨ owner = none ∨ owner = some (.worker k) := by
  cases h with
  | locks hfree => exact .inr (.inr rfl)
  | relocks timed timedOut hfree => exact .inr (.inr rfl)
  | gives hstop => exact .inr (.inl rfl)
  | sleeps timed => exact .inr (.inl rfl)
  | givesUp hstop => exact .inr (.inl rfl)
  | leavesLocked => exact .inr (.inl rfl)
  | _ => exact .inl rfl

def submitterAfter (f : Func) (r : ThreadPool τ) : CreateResult τ → ThreadPool τ × List Output
  | .goesOn pc => ({ r with owner := some (.submitter f (some pc)) },[])
  | .returned => (r.unlock,[.submitted f])
  | .threw => (r.unlock,[.threw f])

def startAfter (r : ThreadPool τ) : CreateResult τ → ThreadPool τ
  | .goesOn pc => { r with startPc := some pc }
  | .returned => { r with startPc := none }
  | .threw => { r with starting := 0, startPc := none }

inductive Destroy (s : ThreadPool τ) : ThreadPool τ → Prop where
  | rests : Destroy s s
  | stops (hd : s.destructor = .notCalled) :
      Destroy s { s with isRunning := false, destructor := .stopped }
  | notifies (hd : s.destructor = .stopped) : Destroy s { s.notifyNotEmpty with destructor := .waiting }
  | returns (hd : s.destructor = .waiting) (hempty : s.threads = []) :
      Destroy s { s with destructor := .returned }
  | ends (hd : s.destructor = .returned) :
      Destroy s { s.runPendingCallbacks with destructor := .destroyed }

theorem destructorStep_destroy (s : ThreadPool τ) : Destroy s s.destructorStep := by
  rw [ThreadPool.destructorStep.eq_def]
  cases hd : s.destructor with
  | notCalled => exact .stops hd
  | stopped => exact .notifies hd
  | waiting =>
    by_cases hempty : s.threads.isEmpty = true
    · dsimp only
      rw [if_pos hempty]
      exact .returns hd (List.isEmpty_iff.mp hempty)
    · dsimp only
      rw [if_neg hempty]
      exact .rests
  | returned => exact .ends hd
  | destroyed => exact .rests

variable [DecidableEq τ]

inductive Act (config : ThreadPoolConfig) (s : ThreadPool τ) :
    Input τ → ThreadPool τ × List Output → Prop where
  | rests (i : Input τ) : Act config s i (s,[])
  | refuses (i : Input τ) (priority : Int) (callback : Bool) (hfree : s.owner = none)
      (hi : i = .enqueueTask priority callback ∨ i = .enqueueTimeout) : Act config s i (s,[.refused])
  | accepts (priority : Int) (callback : Bool) (hfree : s.owner = none)
      (hroom : s.taskQueueSize < config.maxQueueSize) (hrun : s.isRunning = true) :
      Act config s (.enqueueTask priority callback)
        ({ s.notifyNotEmpty with
          taskQueue := s.taskQueue++[{ priority := priority, func := ⟨s.pushed,callback⟩ }]
          taskQueueSize := s.taskQueueSize+1
          pushed := s.pushed+1
          owner := some (.submitter ⟨s.pushed,callback⟩ none) },[.accepted ⟨s.pushed,callback⟩])
  | grows (spawn : Option τ) (f : Func) (howner : s.owner = some (.submitter f none)) :
      Act config s (.submitter spawn) ({ s with owner := some (.submitter f (some .entering)) },[])
  | submits (spawn : Option τ) (f : Func) (howner : s.owner = some (.submitter f none)) :
      Act config s (.submitter spawn) (s.unlock,[.submitted f])
  | creates (spawn : Option τ) (f : Func) (pc : CreatePc τ) (r : ThreadPool τ) (res : CreateResult τ)
      (howner : s.owner = some (.submitter f (some pc)))
      (hr : s.createThread config spawn pc = (r,res)) :
      Act config s (.submitter spawn) (submitterAfter f r res)
  | startsNext (spawn : Option τ) (hpc : s.startPc = none) (hleft : s.starting ≠ 0) :
      Act config s (.start spawn) ({ s with starting := s.starting-1, startPc := some .entering },[])
  | starts (spawn : Option τ) (pc : CreatePc τ) (r : ThreadPool τ) (res : CreateResult τ)
      (hpc : s.startPc = some pc) (hr : s.createThread config spawn pc = (r,res)) :
      Act config s (.start spawn) (startAfter r res,[])
  | walks (i : Input τ) (k : ℕ) (w : Worker τ) (pc : WorkerPc) (owner : Option (Owner τ))
      (hk : s.workers[k]? = some w) (hwalk : Walk s k w.pc pc owner)
      (hi : (∃ choice, i = .worker k choice) ∨ i = .wake k ∨ i = .timeout k) :
      Act config s i ({ s.setPc k w pc with owner := owner },[])
  | takes (k choice : ℕ) (w : Worker τ) (x : PrioritizedTask) (hk : s.workers[k]? = some w)
      (hpc : w.pc = .taking) (hx : x ∈ topTasks s.taskQueue) :
      Act config s (.worker k choice)
        ({ s.setPc k w (.executing x.func false) with
          idleThreadCount := s.idleThreadCount-1
          taskQueue := s.taskQueue.erase x
          taskQueueSize := s.taskQueueSize-1
          owner := none },[.dequeued k x])
  | exits (k choice : ℕ) (w : Worker τ) (locked : Bool) (hk : s.workers[k]? = some w)
      (hpc : w.pc = if locked then .leaving else .exiting) :
      Act config s (.worker k choice) ((s.threadExit w.threadId).setPc k w (.exited locked),[])
  | queues (k : ℕ) (w : Worker τ) (f : Func) (hk : s.workers[k]? = some w)
      (hpc : w.pc = .executing f false) (hf : f.callback = true) :
      Act config s (.queueCallback k)
        ({ s.setPc k w (.executing f true) with callbackQueue := s.callbackQueue++[f] },[])
  | finishes (k : ℕ) (w : Worker τ) (f : Func) (queued : Bool) (hk : s.workers[k]? = some w)
      (hpc : w.pc = .executing f queued) :
      Act config s (.finish k)
        ({ s.setPc k w .top with idleThreadCount := s.idleThreadCount+1 },[.finished f])
  | runsPending : Act config s .runPendingCallbacks (s.runPendingCallbacks,[])
  | calls (n : ℕ) (threw : Bool) (f : Func) (fs : List Func)
      (hn : s.callbackRuns[n]? = some (f::fs)) :
      Act config s (.runCallback n threw)
        ({ s with callbackRuns := s.callbackRuns.set n (if threw then [] else fs) },[.callbackRun f])
  | destroys : Act config s .destructor (s.destructorStep,[])

section
variable {config : ThreadPoolConfig} {s : ThreadPool τ}

inductive Create (config : ThreadPoolConfig) (s : ThreadPool τ) (spawn : Option τ) :
    CreatePc τ → ThreadPool τ → CreateResult τ → Prop where
  | full (hfull : config.maxThreadCount ≤ s.currentThreadCount) :
      Create config s spawn .entering s .returned
  | counts (hroom : s.currentThreadCount < config.maxThreadCount) :
      Create config s spawn .entering { s with
        currentThreadCount := s.currentThreadCount+1
        idleThreadCount := s.idleThreadCount+1 } (.goesOn .counted)
  | throws (hspawn : spawn = none) : Create config s spawn .counted s .threw
  | waits (t : τ) (hspawn : spawn = some t) : Create config s spawn .counted s (.goesOn .counted)
  | spawns (t : τ) (hspawn : spawn = some t) (hfree : s.freeId t = true) :
      Create config s spawn .counted { s with workers := s.workers++[{ threadId := t }] }
        (.goesOn (.created t))
  | inserts (t : τ) : Create config s spawn (.created t) { s with threads := s.threads.insert t } .returned

theorem createThread_create {pc : CreatePc τ} {spawn : Option τ} {r : ThreadPool τ}
    {res : CreateResult τ} (hr : s.createThread config spawn pc = (r,res)) :
    Create config s spawn pc r res := by
  cases pc with
  | entering =>
    rw [ThreadPool.createThread] at hr
    by_cases hfull : s.currentThreadCount ≥ config.maxThreadCount
    · rw [if_pos hfull] at hr
      cases hr
      exact .full hfull
    · rw [if_neg hfull] at hr
      cases hr
      exact .counts (by simpa using hfull)
  | counted =>
    cases spawn with
    | none => cases hr; exact .throws rfl
    | some t =>
      rw [ThreadPool.createThread] at hr
      by_cases hfree : s.freeId t = true
      · rw [if_pos hfree] at hr
        cases hr
        exact .spawns t rfl hfree
      · rw [if_neg hfree] at hr
        cases hr
        exact .waits t rfl
  | created t => cases hr; exact .inserts t

theorem createThread_writes {pc : CreatePc τ} {spawn : Option τ} {r : ThreadPool τ}
    {res : CreateResult τ} (hr : s.createThread config spawn pc = (r,res)) :
    ∃ workers threads current idle, r = { s with
      workers := workers
      threads := threads
      currentThreadCount := current
      idleThreadCount := idle } := by
  cases createThread_create hr <;> exact ⟨_,_,_,_,rfl⟩

theorem createThread_threw {pc : CreatePc τ} {spawn : Option τ} {r : ThreadPool τ}
    (hr : s.createThread config spawn pc = (r,.threw)) : pc = .counted ∧ spawn = none ∧ r = s := by
  cases createThread_create hr with
  | throws hspawn => exact ⟨rfl,hspawn,rfl⟩

theorem enqueueTask_act (priority : Int) (callback : Bool) :
    Act config s (.enqueueTask priority callback) (s.enqueueTask config priority callback) := by
  rw [ThreadPool.enqueueTask]
  by_cases hwait : (s.owner.isSome || !s.hasRoom config) = true
  · rw [if_pos hwait]
    exact .rests _
  · rw [if_neg hwait]
    obtain ⟨hfree,hroom⟩ : s.owner = none ∧ s.hasRoom config = true := by simpa using hwait
    by_cases hrun : s.isRunning = false
    · rw [if_pos hrun]
      exact .refuses _ priority callback hfree (.inl rfl)
    · rw [if_neg hrun]
      rw [Bool.not_eq_false] at hrun
      exact .accepts priority callback hfree (by simpa [ThreadPool.hasRoom,hrun] using hroom) hrun

theorem submitterStep_act (spawn : Option τ) :
    Act config s (.submitter spawn) (s.submitterStep config spawn) := by
  rw [ThreadPool.submitterStep.eq_def]
  split
  case h_1 f howner =>
    split_ifs
    · exact .grows spawn f howner
    · exact .submits spawn f howner
  case h_2 f pc howner =>
    cases hr : s.createThread config spawn pc with
    | mk r res =>
      have hact := Act.creates spawn f pc r res howner hr
      cases res <;> exact hact
  case h_3 => exact .rests _

theorem startStep_act (spawn : Option τ) :
    Act config s (.start spawn) (s.startStep config spawn,[]) := by
  rw [ThreadPool.startStep.eq_def]
  cases hpc : s.startPc with
  | none =>
    dsimp only
    split_ifs with hleft
    · exact .rests _
    · exact .startsNext spawn hpc hleft
  | some pc =>
    dsimp only
    cases hr : s.createThread config spawn pc with
    | mk r res =>
      have hact := Act.starts spawn pc r res hpc hr
      cases res <;> exact hact

theorem workerStep_act {k : ℕ} {w : Worker τ} (hk : s.workers[k]? = some w) (choice : ℕ) :
    Act config s (.worker k choice) (s.workerStep config k w choice) := by
  have hwalks : ∀ {pc : WorkerPc} {owner : Option (Owner τ)}, Walk s k w.pc pc owner →
      Act config s (.worker k choice) ({ s.setPc k w pc with owner := owner },[]) :=
    fun hwalk => .walks _ k w _ _ hk hwalk (.inl ⟨choice,rfl⟩)
  rw [ThreadPool.workerStep.eq_def]
  cases hpc : w.pc with
  | top =>
    cases hrun : s.isRunning with
    | false => exact hwalks (hpc ▸ .stops hrun)
    | true => exact hwalks (hpc ▸ .begins hrun)
  | locking =>
    dsimp only
    split_ifs with hfree
    · exact hwalks (hpc ▸ .locks (Option.isNone_iff_eq_none.mp hfree))
    · exact .rests _
  | looking =>
    dsimp only
    split_ifs with hempty hrun
    · exact hwalks (hpc ▸ .looks _)
    · exact hwalks (hpc ▸ .sees hempty hrun)
    · exact hwalks (hpc ▸ .gives (by simpa using hrun))
  | testing timed timedOut =>
    cases hwork : s.hasWork with
    | true => exact hwalks (hpc ▸ .finds timed timedOut)
    | false =>
      cases timedOut with
      | true => exact hwalks (hpc ▸ .expires timed hwork)
      | false => exact hwalks (hpc ▸ .blocks timed hwork)
  | blocking timed => exact hwalks (hpc ▸ .sleeps timed)
  | asleep timed => exact .rests _
  | waking timed timedOut =>
    dsimp only
    split_ifs with hfree
    · exact hwalks (hpc ▸ .relocks timed timedOut (Option.isNone_iff_eq_none.mp hfree))
    · exact .rests _
  | ready =>
    dsimp only
    split_ifs with hrun
    · exact hwalks (hpc ▸ .looksAgain hrun)
    · exact hwalks (hpc ▸ .givesUp (by simpa using hrun))
  | taking =>
    dsimp only
    rw [ThreadPool.takeTask.eq_def]
    cases hx : (topTasks s.taskQueue)[choice]? with
    | none => exact .rests _
    | some x => exact .takes k choice w x hk hpc (List.mem_of_getElem? hx)
  | executing f queued => exact .rests _
  | exiting => exact .exits k choice w false hk hpc
  | leaving => exact .exits k choice w true hk hpc
  | exited locked =>
    cases locked with
    | false => exact hwalks (hpc ▸ .leaves)
    | true => exact hwalks (hpc ▸ .leavesLocked)
  | gone => exact .rests _

theorem wakeStep_act {k : ℕ} {w : Worker τ} (hk : s.workers[k]? = some w) (timedOut : Bool)
    {i : Input τ} (hi : i = .wake k ∨ i = .timeout k) :
    Act config s i (s.wakeStep k w timedOut,[]) := by
  rw [ThreadPool.wakeStep.eq_def]
  cases hpc : w.pc with
  | asleep timed =>
    dsimp only
    split_ifs
    · exact .rests _
    · exact .walks i k w _ _ hk (hpc ▸ .wakes timed timedOut) (.inr hi)
  | _ => exact .rests _

theorem queueCallback_act {k : ℕ} {w : Worker τ} (hk : s.workers[k]? = some w) :
    Act config s (.queueCallback k) (s.queueCallback k w,[]) := by
  rw [ThreadPool.queueCallback.eq_def]
  split
  case h_1 f hpc =>
    split_ifs with hf
    · exact .queues k w f hk hpc hf
    · exact .rests _
  case h_2 => exact .rests _

theorem finishTask_act {k : ℕ} {w : Worker τ} (hk : s.workers[k]? = some w) :
    Act config s (.finish k) (s.finishTask k w) := by
  rw [ThreadPool.finishTask.eq_def]
  split
  case h_1 f queued hpc => exact .finishes k w f queued hk hpc
  case h_2 => exact .rests _

theorem withWorker_act (k : ℕ) {i : Input τ} {f : Worker τ → ThreadPool τ × List Output}
    (hf : ∀ w, s.workers[k]? = some w → Act config s i (f w)) : Act config s i (s.withWorker k f) := by
  rw [ThreadPool.withWorker.eq_def]
  cases hk : s.workers[k]? with
  | none => exact .rests i
  | some w => exact hf w hk

theorem runCallback_act (n : ℕ) (threw : Bool) :
    Act config s (.runCallback n threw) (s.runCallback n threw) := by
  rw [ThreadPool.runCallback.eq_def]
  split
  case h_1 f fs hn => exact .calls n threw f fs hn
  case h_2 => exact .rests _

end

theorem step_act (config : ThreadPoolConfig) (s : ThreadPool τ) (i : Input τ) :
    Act config s i ((threadPool config).step s i) := by
  cases i with
  | enqueueTask priority callback => exact enqueueTask_act priority callback
  | enqueueTimeout =>
    simp only [threadPool]
    split_ifs with hfull
    · exact .refuses _ 0 false (Option.isNone_iff_eq_none.mp hfull.1) (.inr rfl)
    · exact .rests _
  | submitter spawn => exact submitterStep_act spawn
  | start spawn => exact startStep_act spawn
  | worker k choice => exact withWorker_act k fun w hk => workerStep_act hk choice
  | wake k => exact withWorker_act k fun w hk => wakeStep_act hk false (.inl rfl)
  | timeout k => exact withWorker_act k fun w hk => wakeStep_act hk true (.inr rfl)
  | queueCallback k => exact withWorker_act k fun w hk => queueCallback_act hk
  | finish k => exact withWorker_act k fun w hk => finishTask_act hk
  | runPendingCallbacks => exact .runsPending
  | runCallback n threw => exact runCallback_act n threw
  | destructor => exact .destroys

end MiniRpc.PoolSteps
