import MiniRpc.PoolRegistry

/-!
# The destructor of the thread pool

`~ThreadPool` stores the stop flag and notifies without `taskQueueMutex_`, so
a worker that has just found its predicate false may miss the notification
and sleep on. And it returns as soon as it finds `threads_` empty, while a
worker that has removed itself has yet to notify `exitCond_` and, if its wait
timed out, to unlock `taskQueueMutex_`.
-/

set_option autoImplicit false

namespace MiniRpc.PoolShutdown
open MiniRpc.StepMachine MiniRpc.WorkerPool MiniRpc.PoolSteps MiniRpc.PoolAccounting
open MiniRpc.PoolMutex MiniRpc.PoolThreads MiniRpc.PoolRegistry

variable {τ : Type}

structure Frame (s s' : ThreadPool τ) : Prop where
  isRunning : s'.isRunning = s.isRunning
  destructor : s'.destructor = s.destructor
  starting : s'.starting = s.starting
  startPc : s'.startPc = s.startPc

structure WorkerFrame (s s' : ThreadPool τ) : Prop extends Frame s s' where
  submits : submitting s' = true → submitting s = true

theorem frame_owner {s s' : ThreadPool τ} (h : Frame s s') (ho : s'.owner = s.owner) :
    WorkerFrame s s' := ⟨h,fun hs => by rwa [submitting,ho] at hs⟩

theorem frame_taken {s s' : ThreadPool τ} (h : Frame s s') (hs : submitting s' = false) :
    WorkerFrame s s' := ⟨h,fun hs' => absurd (hs.symm.trans hs') Bool.false_ne_true⟩

section
variable {s : ThreadPool τ}

theorem walk_frame {k : ℕ} {w : Worker τ} {pc : WorkerPc} {owner : Option (Owner τ)}
    (h : Walk s k w.pc pc owner) : WorkerFrame s { s.setPc k w pc with owner := owner } := by
  rcases walk_owner h with rfl | rfl | rfl
  · exact frame_owner ⟨rfl,rfl,rfl,rfl⟩ rfl
  · exact frame_taken ⟨rfl,rfl,rfl,rfl⟩ rfl
  · exact frame_taken ⟨rfl,rfl,rfl,rfl⟩ rfl

variable [DecidableEq τ]

theorem threadExit_frame (k : ℕ) (w : Worker τ) (pc : WorkerPc) :
    WorkerFrame s ((s.threadExit w.threadId).setPc k w pc) := by
  rw [ThreadPool.threadExit]
  split_ifs <;> exact frame_owner ⟨rfl,rfl,rfl,rfl⟩ rfl

theorem act_frame {config : ThreadPoolConfig} {i : Input τ} {r : ThreadPool τ × List Output}
    (h : Act config s i r) : Frame s r.1 ∨ (∃ spawn, i = .start spawn) ∨ i = .destructor := by
  cases h with
  | creates spawn f pc r res howner hr =>
    obtain ⟨workers,threads,current,idle,rfl⟩ := createThread_writes hr
    cases res <;> exact .inl ⟨rfl,rfl,rfl,rfl⟩
  | startsNext spawn hpc hleft => exact .inr (.inl ⟨spawn,rfl⟩)
  | starts spawn pc r res hpc hr => exact .inr (.inl ⟨spawn,rfl⟩)
  | exits k choice w locked hk hpc => exact .inl (threadExit_frame k w _).toFrame
  | destroys => exact .inr (.inr rfl)
  | _ => exact .inl ⟨rfl,rfl,rfl,rfl⟩

theorem step_frame (config : ThreadPoolConfig) (s : ThreadPool τ) (i : Input τ) :
    Frame s ((threadPool config).step s i).1 ∨
    (∃ spawn, i = .start spawn ∧ ((threadPool config).step s i).1 = s.startStep config spawn) ∨
    (i = .destructor ∧ ((threadPool config).step s i).1 = s.destructorStep) := by
  rcases act_frame (step_act config s i) with h | ⟨spawn,rfl⟩ | rfl
  · exact .inl h
  · exact .inr (.inl ⟨spawn,rfl,rfl⟩)
  · exact .inr (.inr ⟨rfl,rfl⟩)

theorem startStep_flag (config : ThreadPoolConfig) (spawn : Option τ) :
    (s.startStep config spawn).isRunning = s.isRunning ∧
    (s.startStep config spawn).destructor = s.destructor ∧
    (s.startStep config spawn).owner = s.owner := by
  rw [ThreadPool.startStep.eq_def]
  cases s.startPc with
  | none =>
    dsimp only
    split_ifs <;> exact ⟨rfl,rfl,rfl⟩
  | some pc =>
    dsimp only
    cases hr : s.createThread config spawn pc with
    | mk r res =>
      obtain ⟨-,howner,hrunning,hdestructor,-⟩ := createThread_frame hr
      cases res <;> exact ⟨hrunning,hdestructor,howner⟩

theorem startStep_done (config : ThreadPoolConfig) (spawn : Option τ) (h0 : s.starting = 0)
    (hpc : s.startPc = none) : s.startStep config spawn = s := by
  simp only [ThreadPool.startStep,hpc,h0,if_true]

theorem step_flag (config : ThreadPoolConfig) (s : ThreadPool τ) (i : Input τ) :
    (((threadPool config).step s i).1.isRunning = s.isRunning ∧
      ((threadPool config).step s i).1.destructor = s.destructor) ∨
    (i = .destructor ∧ ((threadPool config).step s i).1 = s.destructorStep) := by
  rcases step_frame config s i with h | ⟨spawn,-,h⟩ | h
  · exact .inl ⟨h.isRunning,h.destructor⟩
  · rw [h]
    obtain ⟨h1,h2,-⟩ := startStep_flag (s := s) config spawn
    exact .inl ⟨h1,h2⟩
  · exact .inr h

omit [DecidableEq τ] in
theorem destroy_running {s' : ThreadPool τ} (hd : Destroy s s') (h : s'.isRunning = true) :
    s.isRunning = true := by
  cases hd with
  | stops hd => cases h
  | _ => exact h

theorem step_running (config : ThreadPoolConfig) {i : Input τ}
    (h : ((threadPool config).step s i).1.isRunning = true) : s.isRunning = true := by
  rcases step_flag config s i with ⟨hsame,-⟩ | ⟨-,hs⟩
  · exact hsame.symm.trans h
  · rw [hs] at h
    exact destroy_running (destructorStep_destroy s) h

def FlagTrue (s : ThreadPool τ) : Prop := s.isRunning = true ↔ s.destructor = .notCalled

omit [DecidableEq τ] in
theorem destroy_flagTrue {s' : ThreadPool τ} (h : FlagTrue s) (hd : Destroy s s') : FlagTrue s' := by
  have hlater : ∀ {t : ThreadPool τ}, s.destructor ≠ .notCalled → t.isRunning = s.isRunning →
      t.destructor ≠ .notCalled → FlagTrue t := by
    intro t hs hrun ht
    rw [FlagTrue,hrun]
    exact ⟨fun hr => absurd (Iff.mp h hr) hs,fun hnot => absurd hnot ht⟩
  cases hd with
  | rests => exact h
  | stops hd => exact ⟨Bool.noConfusion,DestructorPc.noConfusion⟩
  | notifies hd => exact hlater (hd ▸ DestructorPc.noConfusion) rfl DestructorPc.noConfusion
  | returns hd hempty => exact hlater (hd ▸ DestructorPc.noConfusion) rfl DestructorPc.noConfusion
  | ends hd => exact hlater (hd ▸ DestructorPc.noConfusion) rfl DestructorPc.noConfusion

theorem step_flagTrue (config : ThreadPoolConfig) (h : FlagTrue s) (i : Input τ) :
    FlagTrue ((threadPool config).step s i).1 := by
  rcases step_flag config s i with ⟨h1,h2⟩ | ⟨-,hs⟩
  · rw [FlagTrue,h1,h2]
    exact h
  · rw [hs]
    exact destroy_flagTrue h (destructorStep_destroy s)

end

def hasNotified : DestructorPc → Bool
  | .notCalled => false
  | .stopped => false
  | _ => true

/-- After that no worker is asleep in a wait that only a notification ends. -/
def NoSleeper (s : ThreadPool τ) : Prop :=
  hasNotified s.destructor = true → ∀ w ∈ s.workers, w.pc ≠ .asleep false

/-- The destructor notifies while a worker is between the evaluation of its
predicate and the wait. -/
def notifiesEarly (s : ThreadPool τ) : Input τ → Bool
  | .destructor => s.destructor = .stopped && s.workers.any fun w => w.pc = .blocking false
  | _ => false

def Woken (s : ThreadPool τ) : Prop :=
  hasNotified s.destructor = true → ∀ (k : ℕ) (w : Worker τ), s.workers[k]? = some w →
    w.pc ≠ .asleep false ∧ w.pc ≠ .blocking false

section
variable {s s' : ThreadPool τ}

theorem move_woken (hrun : s.isRunning = false) {pc pc' : WorkerPc} (h : PcMove s pc pc')
    (hpc : pc ≠ .asleep false ∧ pc ≠ .blocking false) :
    pc' ≠ .asleep false ∧ pc' ≠ .blocking false := by
  cases h with
  | stays => exact hpc
  | blocks timed timedOut hrun' => rw [hrun] at hrun'; cases hrun'
  | sleeps timed =>
    refine ⟨fun he => hpc.2 ?_,WorkerPc.noConfusion⟩
    cases he
    rfl
  | _ => exact ⟨WorkerPc.noConfusion,WorkerPc.noConfusion⟩

variable [DecidableEq τ]

theorem change_woken {i : Input τ} (hrun : s.isRunning = false) (h : Change s i s')
    (hs : ∀ (k : ℕ) (w : Worker τ), s.workers[k]? = some w →
      w.pc ≠ .asleep false ∧ w.pc ≠ .blocking false)
    (k : ℕ) (w : Worker τ) (hk : s'.workers[k]? = some w) :
    w.pc ≠ .asleep false ∧ w.pc ≠ .blocking false := by
  cases h with
  | works hw ht hstart hg =>
    obtain ⟨u,hu,-,hpc⟩ := moved_back hw hk
    exact move_woken hrun hpc (hs k u hu)
  | exits j choice v locked hi hj hpc hw ht hstart hg =>
    rcases setPc_get hj hw hk with ⟨-,hexit⟩ | ⟨-,hk'⟩
    · rw [hexit]
      exact ⟨WorkerPc.noConfusion,WorkerPc.noConfusion⟩
    · exact hs k w hk'
  | spawns t hfree hw ht hid =>
    rw [hw] at hk
    rcases spawned_get hk with hk | ⟨-,rfl⟩
    · exact hs k w hk
    · exact ⟨WorkerPc.noConfusion,WorkerPc.noConfusion⟩
  | inserts t hw ht hid =>
    rw [hw] at hk
    exact hs k w hk

omit [DecidableEq τ] in
theorem notify_woken {i : Input τ} (hd : s.destructor = .stopped) (hi : notifiesEarly s i = false)
    (hdestructor : i = .destructor) (k : ℕ) (w : Worker τ)
    (hk : s.notifyNotEmpty.workers[k]? = some w) : w.pc ≠ .asleep false ∧ w.pc ≠ .blocking false := by
  rw [hdestructor] at hi
  simp only [notifiesEarly,hd,decide_true,Bool.true_and,List.any_eq_false,decide_eq_true_eq] at hi
  simp only [ThreadPool.notifyNotEmpty,List.getElem?_map,Option.map_eq_some_iff] at hk
  obtain ⟨u,hu,rfl⟩ := hk
  have hblock := hi u (List.mem_of_getElem? hu)
  cases hpc : u.pc with
  | asleep timed => simp [WorkerPc.notified]
  | blocking timed =>
    rw [hpc] at hblock
    exact ⟨WorkerPc.noConfusion,hblock⟩
  | _ => simp [WorkerPc.notified]

theorem step_woken (config : ThreadPoolConfig) (hl : Locked s) (hf : FlagTrue s) (h : Woken s)
    {i : Input τ} (hi : notifiesEarly s i = false) : Woken ((threadPool config).step s i).1 := by
  have hchange := step_change config hl i
  have hrun : hasNotified s.destructor = true → s.isRunning = false := by
    intro hd
    rw [← Bool.not_eq_true]
    intro hr
    rw [Iff.mp hf hr] at hd
    cases hd
  rcases step_flag config s i with ⟨-,hd⟩ | ⟨hdes,hs⟩
  · intro hnotified k w hk
    rw [hd] at hnotified
    exact change_woken (hrun hnotified) hchange (h hnotified) k w hk
  · cases hd : s.destructor with
    | notCalled =>
      intro hnotified
      rw [hs,ThreadPool.destructorStep.eq_def,hd] at hnotified
      cases hnotified
    | stopped =>
      intro _ k w hk
      rw [hs,ThreadPool.destructorStep.eq_def,hd] at hk
      exact notify_woken hd hi hdes k w hk
    | _ =>
      have hnotified : hasNotified s.destructor = true := by rw [hd]; rfl
      exact fun _ => change_woken (hrun hnotified) hchange (h hnotified)

theorem early_notification_missed (config : ThreadPoolConfig) {i : Input τ}
    (hi : notifiesEarly s i = true) :
    ∃ j, ¬ NoSleeper ((threadPool config).step ((threadPool config).step s i).1 j).1 := by
  rw [notifiesEarly.eq_def] at hi
  split at hi
  case h_2 => cases hi
  case h_1 =>
    simp only [Bool.and_eq_true,List.any_eq_true,decide_eq_true_eq] at hi
    obtain ⟨hd,w,hw,hpc⟩ := hi
    obtain ⟨k,hk⟩ := List.mem_iff_getElem?.mp hw
    have hstep : ((threadPool config).step s .destructor).1 =
        { s.notifyNotEmpty with destructor := .waiting } := by
      simp only [threadPool,ThreadPool.destructorStep,hd]
    have hk' : ((threadPool config).step s .destructor).1.workers[k]? = some w := by
      rw [hstep]
      simp only [ThreadPool.notifyNotEmpty,List.getElem?_map,hk,Option.map_some,hpc,
        WorkerPc.notified]
      rw [← hpc]
    refine ⟨.worker k 0,fun hno => ?_⟩
    have hlast : ((threadPool config).step ((threadPool config).step s .destructor).1
        (.worker k 0)).1 =
        ((threadPool config).step s .destructor).1.unlock.setPc k w (.asleep false) := by
      generalize (threadPool config).step s .destructor = r at hk' ⊢
      simp only [threadPool,ThreadPool.withWorker,hk',ThreadPool.workerStep,hpc]
    rw [hlast] at hno
    refine hno ?_ { w with pc := .asleep false } ?_ rfl
    · rw [hstep]
      rfl
    · apply List.mem_of_getElem? (i := k)
      exact List.getElem?_set_self (List.getElem?_eq_some_iff.mp hk').1

end

variable [DecidableEq τ]

/-- As long as the destructor does not notify while a worker is about to
wait, no worker sleeps after the notification; and a worker that is about to
wait then is asleep after its next step. -/
theorem destructor_wakes_workers (config : ThreadPoolConfig) :
    (∀ is : List (Input τ),
      Along (threadPool config) (fun s i => notifiesEarly s i = false) (Start config) is →
        Always (threadPool config) (fun s _ => NoSleeper s) (Start config) [] is) ∧
    (∀ (is : List (Input τ)) (i : Input τ),
      notifiesEarly ((threadPool config).run (Start config) is).1 i = true →
        ∃ j, ¬ NoSleeper ((threadPool config).run (Start config) (is++[i,j])).1) := by
  refine ⟨fun is hc => ?_,fun is i hi => ?_⟩
  · refine always_of_along (threadPool config) (fun s i => notifiesEarly s i = false)
      (fun s _ => Locked s ∧ FlagTrue s ∧ Woken s) _ ?_ ?_ _ _ is
      ⟨locked_start config,by simp [FlagTrue,Start],fun h => Bool.noConfusion h⟩ hc
    · intro s _ h hd w hw
      obtain ⟨k,hk⟩ := List.mem_iff_getElem?.mp hw
      exact (h.2.2 hd k w hk).1
    · intro s _ i h hi
      exact ⟨step_locked config h.1 i,step_flagTrue config h.2.1 i,
        step_woken config h.1 h.2.1 h.2.2 hi⟩
  · obtain ⟨j,hj⟩ := early_notification_missed config hi
    refine ⟨j,?_⟩
    rw [run_append]
    exact hj

def fixedConfig : ThreadPoolConfig where
  initThreadCount := 1

def startsWorker : List (Input ℕ) := [.start none,.start none,.start (some 10),.start none]

def aboutToWait : List (Input ℕ) :=
  startsWorker++[.worker 0 0,.worker 0 0,.worker 0 0,.worker 0 0]

theorem sleeping_worker_woken :
    Always (threadPool fixedConfig) (fun s _ => NoSleeper s) (Start fixedConfig) []
      (aboutToWait++[.worker 0 0,.destructor,.destructor,.worker 0 0,.worker 0 0]) ∧
    ∃ j, ¬ NoSleeper ((threadPool fixedConfig).run (Start fixedConfig)
      ((aboutToWait++[.destructor])++[.destructor,j])).1 :=
  ⟨(destructor_wakes_workers fixedConfig).1 _ (by decide +kernel),
    (destructor_wakes_workers fixedConfig).2 _ .destructor (by decide +kernel)⟩

/-- The flag is stored and the notification sent while the worker is about to
wait; then it waits. -/
theorem worker_misses_notification :
    ((threadPool fixedConfig).run (Start fixedConfig)
      (aboutToWait++[.destructor,.destructor,.worker 0 0])).1.destructor = .waiting ∧
    ((threadPool fixedConfig).run (Start fixedConfig)
      (aboutToWait++[.destructor,.destructor,.worker 0 0])).1.workers.map Worker.pc =
        [.asleep false] ∧
    ¬ NoSleeper ((threadPool fixedConfig).run (Start fixedConfig)
      (aboutToWait++[.destructor,.destructor,.worker 0 0])).1 := by
  refine ⟨by decide +kernel,by decide +kernel,?_⟩
  rw [NoSleeper]
  decide +kernel

/-- The worker has removed itself from `threads_`, but has yet to notify
`exitCond_`. -/
def leaving : WorkerPc → Bool
  | .exited _ => true
  | _ => false

structure Quiet (s : ThreadPool τ) : Prop where
  stopped : s.isRunning = false
  starting : s.starting = 0
  startPc : s.startPc = none
  submitting : submitting s = false

section
variable {s : ThreadPool τ}

omit [DecidableEq τ] in
theorem quiet_owner (h : Quiet s) (f : Func) (pc : Option (CreatePc τ)) :
    s.owner ≠ some (.submitter f pc) := by
  intro howner
  have hs := h.submitting
  rw [submitting,howner] at hs
  cases hs

omit [DecidableEq τ] in
theorem quiet_frame {s' : ThreadPool τ} (h : Quiet s) (hf : WorkerFrame s s') : Quiet s' := by
  refine ⟨hf.isRunning.trans h.stopped,hf.starting.trans h.starting,hf.startPc.trans h.startPc,?_⟩
  rw [← Bool.not_eq_true]
  intro hs
  exact Bool.false_ne_true (h.submitting.symm.trans (hf.submits hs))

omit [DecidableEq τ] in
theorem destroy_quiet {s' : ThreadPool τ} (h : Quiet s) (hd : Destroy s s') : Quiet s' := by
  obtain ⟨h1,h2,h3,h4⟩ := h
  cases hd with
  | stops hd => exact ⟨rfl,h2,h3,h4⟩
  | _ => exact ⟨h1,h2,h3,h4⟩

theorem act_quiet {config : ThreadPoolConfig} (hq : Quiet s) {i : Input τ}
    {r : ThreadPool τ × List Output} (h : Act config s i r) : Quiet r.1 := by
  cases h with
  | accepts priority callback hfree hroom hrun =>
    rw [hq.stopped] at hrun
    cases hrun
  | grows spawn f howner => exact absurd howner (quiet_owner hq _ _)
  | submits spawn f howner => exact absurd howner (quiet_owner hq _ _)
  | creates spawn f pc r res howner hr => exact absurd howner (quiet_owner hq _ _)
  | startsNext spawn hpc hleft => exact absurd hq.starting hleft
  | starts spawn pc r res hpc hr =>
    rw [hq.startPc] at hpc
    cases hpc
  | walks i k w pc owner hk hwalk hi => exact quiet_frame hq (walk_frame hwalk)
  | takes k choice w x hk hpc hx => exact quiet_frame hq (frame_taken ⟨rfl,rfl,rfl,rfl⟩ rfl)
  | exits k choice w locked hk hpc => exact quiet_frame hq (threadExit_frame k w _)
  | destroys => exact destroy_quiet hq (destructorStep_destroy s)
  | _ => exact quiet_frame hq (frame_owner ⟨rfl,rfl,rfl,rfl⟩ rfl)

theorem step_quiet (config : ThreadPoolConfig) (h : Quiet s) (i : Input τ) :
    Quiet ((threadPool config).step s i).1 := act_quiet h (step_act config s i)

omit [DecidableEq τ] in
theorem quiet_registered (h : Quiet s) (t : τ) : ¬ Unregistered s t := by
  rintro (hid | hid)
  · rw [startId,h.startPc] at hid
    cases hid
  · rw [growId] at hid
    cases ho : s.owner with
    | none => rw [ho] at hid; cases hid
    | some o =>
      cases o with
      | worker k => rw [ho] at hid; cases hid
      | submitter f pc => exact quiet_owner h f pc ho

/-- In a quiet pool no worker comes, so what holds wherever a worker is, not
before `threadExit`, and is kept by its moves goes on to hold. -/
theorem step_ended (config : ThreadPoolConfig) (hl : Locked s) (hq : Quiet s) (P : WorkerPc → Prop)
    (hmove : ∀ pc pc', PcMove s pc pc' → P pc → P pc') (hexiting : ¬ P .exiting) (hleaving : ¬ P .leaving)
    (h : ∀ w ∈ s.workers, P w.pc) (i : Input τ) :
    ∀ w ∈ ((threadPool config).step s i).1.workers, P w.pc := by
  have hq' := step_quiet config hq i
  intro w hw
  obtain ⟨k,hk⟩ := List.mem_iff_getElem?.mp hw
  cases step_change config hl i with
  | works hmoved ht hs hg =>
    obtain ⟨u,hu,-,hpc⟩ := moved_back hmoved hk
    exact hmove _ _ hpc (h u (List.mem_of_getElem? hu))
  | exits j choice v locked hi hj hpc hset ht hs hg =>
    have hp := h v (List.mem_of_getElem? hj)
    rw [hpc] at hp
    cases locked with
    | false => exact absurd hp hexiting
    | true => exact absurd hp hleaving
  | spawns t hfree hset ht hid =>
    exact absurd ((unregistered_pends hid t).mpr (.inl rfl)) (quiet_registered hq' t)
  | inserts t hset ht hid =>
    exact absurd ((unregistered_pends hid t).mpr (.inl rfl)) (quiet_registered hq t)

theorem step_gone (config : ThreadPoolConfig) (hl : Locked s) (hq : Quiet s)
    (h : ∀ w ∈ s.workers, w.pc = .gone) (i : Input τ) :
    ∀ w ∈ ((threadPool config).step s i).1.workers, w.pc = .gone := by
  refine step_ended config hl hq (· = .gone) ?_ WorkerPc.noConfusion WorkerPc.noConfusion h i
  intro pc pc' hpc hgone
  by_contra hne
  exact move_gone hpc hne hgone

def AllExited (s : ThreadPool τ) : Prop := ∀ w ∈ s.workers, isLive w.pc = false

theorem step_exited (config : ThreadPoolConfig) (hl : Locked s) (hq : Quiet s) (h : AllExited s)
    (i : Input τ) : AllExited ((threadPool config).step s i).1 :=
  step_ended config hl hq (isLive · = false) (fun _ _ hpc hdead => (move_live hpc).trans hdead)
    Bool.noConfusion Bool.noConfusion h i

omit [DecidableEq τ] in
theorem destroy_start {s' : ThreadPool τ} (h : Destroy s s') :
    s'.starting = s.starting ∧ s'.startPc = s.startPc := by
  cases h <;> exact ⟨rfl,rfl⟩

def Started (s : ThreadPool τ) : Prop :=
  s.destructor ≠ .notCalled → s.starting = 0 ∧ s.startPc = none

theorem step_started (config : ThreadPoolConfig) (h : Started s) {i : Input τ} (hi : Proper s i) :
    Started ((threadPool config).step s i).1 := by
  rcases step_frame config s i with hf | ⟨spawn,-,hs⟩ | ⟨hdes,hs⟩
  · rw [Started,hf.destructor,hf.starting,hf.startPc]
    exact h
  · rw [hs]
    obtain ⟨-,hd,-⟩ := startStep_flag (s := s) config spawn
    rw [Started,hd]
    intro hne
    obtain ⟨h0,hpc⟩ := h hne
    rw [startStep_done config spawn h0 hpc]
    exact ⟨h0,hpc⟩
  · rw [hs]
    have hdone : s.starting = 0 ∧ s.startPc = none := by
      by_cases hd : s.destructor = .notCalled
      · exact hi.1 (by rw [hdes]; exact decide_eq_true hd)
      · exact h hd
    obtain ⟨hstarting,hpc⟩ := destroy_start (destructorStep_destroy s)
    intro _
    rw [hstarting,hpc]
    exact hdone

omit [DecidableEq τ] in
theorem empty_quiet (hf : FlagTrue s) (hr : Registry s) (hs : Started s) (hp : Proper s .destructor)
    (hd : s.destructor = .waiting) (hempty : s.threads = []) : Quiet s := by
  have hcalled : s.destructor ≠ .notCalled := by
    rw [hd]
    exact DestructorPc.noConfusion
  obtain ⟨h0,hpc⟩ := hs hcalled
  have hstopped : s.isRunning = false := by
    rw [← Bool.not_eq_true]
    exact fun hrun => hcalled (Iff.mp hf hrun)
  refine ⟨hstopped,h0,hpc,?_⟩
  rw [← Bool.not_eq_true]
  intro hsub
  obtain ⟨w,hw,hexec⟩ := hp.2 hcalled hsub
  obtain ⟨k,hk⟩ := List.mem_iff_getElem?.mp hw
  obtain ⟨f,queued,hbusy⟩ : ∃ f queued, w.pc = .executing f queued := by
    cases hw : w.pc <;> rw [hw] at hexec <;> first | exact ⟨_,_,rfl⟩ | cases hexec
  have hlive : isLive w.pc = true := by
    rw [hbusy]
    rfl
  rcases hr.recorded hk hlive with hmem | hid | hid
  · rw [hempty] at hmem
    exact List.not_mem_nil hmem
  · rw [startId,hpc] at hid
    cases hid
  · have hbefore := hr.growing hk hid
    rw [hbusy] at hbefore
    cases hbefore

omit [DecidableEq τ] in
theorem quiet_exited (hr : Registry s) (hq : Quiet s) (hempty : s.threads = []) : AllExited s := by
  intro w hw
  obtain ⟨k,hk⟩ := List.mem_iff_getElem?.mp hw
  rw [← Bool.not_eq_true]
  intro hlive
  rcases hr.recorded hk hlive with hmem | hun
  · rw [hempty] at hmem
    exact List.not_mem_nil hmem
  · exact quiet_registered hq _ hun

omit [DecidableEq τ] in
theorem quiet_gone (hr : Registry s) (hq : Quiet s) (hempty : s.threads = [])
    (h : ∀ w ∈ s.workers, leaving w.pc = false) : ∀ w ∈ s.workers, w.pc = .gone := by
  intro w hw
  have hdead := quiet_exited hr hq hempty w hw
  have hleft := h w hw
  cases hpc : w.pc with
  | gone => rfl
  | exited locked => rw [hpc] at hleft; cases hleft
  | _ => rw [hpc] at hdead; cases hdead

theorem run_started (config : ThreadPoolConfig) {is : List (Input τ)}
    (h : Along (threadPool config) Proper (Start config) is) :
    Started ((threadPool config).run (Start config) is).1 ∧
    FlagTrue ((threadPool config).run (Start config) is).1 :=
  run_invariant_along (threadPool config) Proper (fun s _ => Started s ∧ FlagTrue s)
    (fun _ _ i hs hi => ⟨step_started config hs.1 hi,step_flagTrue config hs.2 i⟩) _ [] is
    ⟨fun hne => absurd rfl hne,by simp [FlagTrue,Start]⟩ h

end

/-- The wait of the destructor ends, in a pool that is destroyed properly: no
worker has a step left to make exactly if none is between its removal from
`threads_` and the end of its exit path. -/
theorem destroyed_pool_untouched (config : ThreadPoolConfig) (is : List (Input τ))
    (hproper : Along (threadPool config) Proper (Start config) (is++[.destructor]))
    (hwait : ((threadPool config).run (Start config) is).1.destructor = .waiting)
    (hempty : ((threadPool config).run (Start config) is).1.threads = []) :
    (∀ more : List (Input τ), ∀ w ∈ ((threadPool config).run (Start config)
      (is++.destructor::more)).1.workers, w.pc = .gone) ↔
    ∀ w ∈ ((threadPool config).run (Start config) is).1.workers, leaving w.pc = false := by
  obtain ⟨hbefore,hlast⟩ := (along_append _ _ _ _ _).mp hproper
  obtain ⟨hstarted,hflag⟩ := run_started config hbefore
  have hl := run_locked config is
  have hr := run_registry config is
  have hq := empty_quiet hflag hr hstarted hlast.1 hwait hempty
  constructor
  · intro h w hw
    have hsame : ((threadPool config).step ((threadPool config).run (Start config) is).1
        .destructor).1.workers = ((threadPool config).run (Start config) is).1.workers := by
      simp only [threadPool,ThreadPool.destructorStep] at hwait ⊢
      rw [hwait]
      dsimp only
      split_ifs <;> rfl
    have hgone := h [] w (by rw [run_append]; exact hsame ▸ hw)
    rw [hgone]
    rfl
  · intro h more
    have hgone := quiet_gone hr hq hempty h
    rw [run_append]
    exact (run_invariant (threadPool config)
      (fun s _ => Locked s ∧ Quiet s ∧ ∀ w ∈ s.workers, w.pc = .gone)
      (fun _ _ i hs => ⟨step_locked config hs.1 i,step_quiet config hs.2.1 i,
        step_gone config hs.1 hs.2.1 hs.2.2 i⟩) _ (.destructor::more) ⟨hl,hq,hgone⟩).2.2

theorem exited_worker_is_gone :
    ((threadPool fixedConfig).run (Start fixedConfig)
      (startsWorker++[.destructor,.worker 0 0,.worker 0 0,.worker 0 0,.destructor])).1.threads = [] ∧
    ∀ more : List (Input ℕ), ∀ w ∈ ((threadPool fixedConfig).run (Start fixedConfig)
      ((startsWorker++[.destructor,.worker 0 0,.worker 0 0,.worker 0 0,.destructor])++
        .destructor::more)).1.workers, w.pc = .gone :=
  ⟨by decide +kernel,(destroyed_pool_untouched fixedConfig _ (by decide +kernel) (by decide +kernel)
    (by decide +kernel)).mpr (by decide +kernel)⟩

def idleConfig : ThreadPoolConfig where
  mode := .kCached
  initThreadCount := 0
  maxThreadCount := 1

def timesOut : List (Input ℕ) :=
  [.enqueueTask 1 false,.submitter none,.submitter none,.submitter (some 10),.submitter none,
   .worker 0 0,.worker 0 0,.worker 0 0,.worker 0 0,.finish 0,.worker 0 0,.worker 0 0,.worker 0 0,
   .worker 0 0,.worker 0 0,.timeout 0,.worker 0 0,.worker 0 0]

/-- On either exit path the destructor can find `threads_` empty and return
while the worker has yet to notify `exitCond_`. -/
theorem exiting_worker_outlives_pool :
    (Along (threadPool fixedConfig) Proper (Start fixedConfig)
      (startsWorker++[.destructor,.worker 0 0,.worker 0 0,.destructor,.destructor]) ∧
    ((threadPool fixedConfig).run (Start fixedConfig)
      (startsWorker++[.destructor,.worker 0 0,.worker 0 0,.destructor,.destructor])).1.destructor =
        .returned ∧
    ((threadPool fixedConfig).run (Start fixedConfig)
      (startsWorker++[.destructor,.worker 0 0,.worker 0 0,.destructor,.destructor])).1.workers.map
        Worker.pc = [.exited false]) ∧
    Along (threadPool idleConfig) Proper (Start idleConfig)
      (timesOut++[.destructor,.destructor,.worker 0 0,.destructor]) ∧
    ((threadPool idleConfig).run (Start idleConfig)
      (timesOut++[.destructor,.destructor,.worker 0 0,.destructor])).1.destructor = .returned ∧
    ((threadPool idleConfig).run (Start idleConfig)
      (timesOut++[.destructor,.destructor,.worker 0 0,.destructor])).1.workers.map Worker.pc =
        [.exited true] := by
  decide +kernel

end MiniRpc.PoolShutdown
