import MiniRpc.PoolAttention
import MiniRpc.Settling

/-!
# The pool does what it has accepted

The steps of the pool's own threads, the submission in progress and `Start`
among them, are bounded by what is queued and running. Once none of them
changes anything every accepted task has finished, unless all workers have
left, which those of a fixed pool do not.
-/

set_option autoImplicit false

namespace MiniRpc.PoolProgress
open MiniRpc.StepMachine MiniRpc.Settling MiniRpc.WorkerPool MiniRpc.PoolSteps
open MiniRpc.PoolAccounting MiniRpc.PoolMutex MiniRpc.PoolShutdown MiniRpc.PoolAttention

variable {τ : Type}

/-- The steps of the pool's own threads: of the submission in progress, of
`Start`, of the workers and of the tasks they execute. -/
def ownStep : Input τ → Bool
  | .submitter _ => true
  | .start _ => true
  | .worker _ _ => true
  | .queueCallback _ => true
  | .finish _ => true
  | _ => false

/-- How many steps a worker has yet to take before it is asleep or gone, if it
gets no task. -/
def pcRank (empty : Bool) : WorkerPc → ℕ
  | .top => 7
  | .locking => 6
  | .looking => 5
  | .testing _ _ => if empty then 4 else 7
  | .blocking _ => 1
  | .asleep _ => 0
  | .waking _ _ => 8
  | .ready => if empty then 3 else 6
  | .taking => 4
  | .executing _ queued => if queued then 8 else 9
  | .exiting => 2
  | .leaving => 2
  | .exited _ => 1
  | .gone => 0

def workersRank (empty : Bool) : List (Worker τ) → ℕ
  | [] => 0
  | w::ws => pcRank empty w.pc+workersRank empty ws

def createRank : Option (CreatePc τ) → ℕ
  | none => 0
  | some .entering => 11
  | some .counted => 10
  | some (.created _) => 1

def ownerRank : Option (Owner τ) → ℕ
  | some (.submitter _ none) => 12
  | some (.submitter _ pc) => createRank pc
  | _ => 0

def queueEmpty (s : ThreadPool τ) : Bool := s.taskQueueSize == 0

/-- A task that is taken from the queue costs its worker nine steps. -/
def rank (s : ThreadPool τ) : ℕ :=
  20*s.taskQueue.length+workersRank (queueEmpty s) s.workers+ownerRank s.owner+
    12*s.starting+createRank s.startPc

theorem queueEmpty_true {s : ThreadPool τ} (h : s.taskQueueSize = 0) : queueEmpty s = true :=
  beq_iff_eq.mpr h

theorem queueEmpty_false {s : ThreadPool τ} (h : s.taskQueueSize ≠ 0) : queueEmpty s = false :=
  beq_eq_false_iff_ne.mpr h

theorem pcRank_mono (empty : Bool) (pc : WorkerPc) : pcRank empty pc ≤ pcRank false pc := by
  cases empty <;> cases pc <;> simp [pcRank]

theorem workersRank_mono (empty : Bool) (ws : List (Worker τ)) :
    workersRank empty ws ≤ workersRank false ws := by
  induction ws with
  | nil => exact Nat.le_refl _
  | cons w ws ih => exact Nat.add_le_add (pcRank_mono empty w.pc) ih

theorem workersRank_append (empty : Bool) (ws vs : List (Worker τ)) :
    workersRank empty (ws++vs) = workersRank empty ws+workersRank empty vs := by
  induction ws with
  | nil => exact (Nat.zero_add _).symm
  | cons w ws ih => rw [List.cons_append,workersRank,workersRank,ih,Nat.add_assoc]

theorem workersRank_set (empty : Bool) {ws : List (Worker τ)} {k : ℕ} {w : Worker τ}
    (hk : ws[k]? = some w) (v : Worker τ) :
    workersRank empty (ws.set k v)+pcRank empty w.pc = workersRank empty ws+pcRank empty v.pc := by
  induction ws generalizing k with
  | nil => cases hk
  | cons u ws ih =>
    cases k with
    | zero =>
      cases hk
      rw [List.set_cons_zero,workersRank,workersRank]
      omega
    | succ k =>
      have hrest := ih hk
      rw [List.set_cons_succ,workersRank,workersRank]
      omega

theorem workersRank_le (empty : Bool) (ws : List (Worker τ)) : workersRank empty ws ≤ 9*ws.length := by
  have hpc : ∀ pc, pcRank empty pc ≤ 9 := by
    intro pc
    cases pc <;> simp [pcRank] <;> split_ifs <;> omega
  induction ws with
  | nil => exact Nat.le_refl _
  | cons w ws ih =>
    have hw := hpc w.pc
    rw [workersRank,List.length_cons]
    omega

section
variable {config : ThreadPoolConfig} {s s' : ThreadPool τ}

theorem rank_falls (hqueue : s'.taskQueue = s.taskQueue) (hsize : s'.taskQueueSize = s.taskQueueSize)
    (hlt : workersRank (queueEmpty s) s'.workers+ownerRank s'.owner+12*s'.starting+
      createRank s'.startPc < workersRank (queueEmpty s) s.workers+ownerRank s.owner+
      12*s.starting+createRank s.startPc) : rank s' < rank s := by
  have hempty : queueEmpty s' = queueEmpty s := by rw [queueEmpty,queueEmpty,hsize]
  rw [rank,rank,hqueue,hempty]
  omega

theorem rank_setPc {k : ℕ} {w : Worker τ} (hk : s.workers[k]? = some w) {pc : WorkerPc}
    (hw : s'.workers = s.workers.set k { w with pc := pc }) (hqueue : s'.taskQueue = s.taskQueue)
    (hsize : s'.taskQueueSize = s.taskQueueSize) (howner : ownerRank s'.owner ≤ ownerRank s.owner)
    (hleft : s'.starting = s.starting) (hstart : s'.startPc = s.startPc)
    (hpc : pcRank (queueEmpty s) pc < pcRank (queueEmpty s) w.pc) : rank s' < rank s := by
  have hset := workersRank_set (queueEmpty s) hk { w with pc := pc }
  apply rank_falls hqueue hsize
  rw [hw,hleft,hstart]
  dsimp only at hset
  omega

theorem walk_owner_rank {k : ℕ} {pc pc' : WorkerPc} {owner : Option (Owner τ)}
    (h : Walk s k pc pc' owner) : ownerRank owner ≤ ownerRank s.owner := by
  rcases walk_owner h with rfl | rfl | rfl
  · exact Nat.le_refl _
  · exact Nat.zero_le _
  · exact Nat.zero_le _

theorem walk_rank (h : Attentive s) {k : ℕ} {w : Worker τ} (hmem : w ∈ s.workers) {pc : WorkerPc}
    {owner : Option (Owner τ)} (hwalk : Walk s k w.pc pc owner) (hseen : Seen config s w.pc pc)
    (hawake : ∀ timed, w.pc ≠ .asleep timed) :
    pcRank (queueEmpty s) pc < pcRank (queueEmpty s) w.pc := by
  have hready := h.ready w hmem
  generalize w.pc = before at hwalk hseen hawake hready
  cases hwalk with
  | looks timed => simp [pcRank,queueEmpty_true hseen.1]
  | finds timed timedOut => simp only [pcRank]; split_ifs <;> omega
  | expires timed hwork => simp [pcRank,queueEmpty_true (hasWork_false_size hwork)]
  | blocks timed hwork => simp [pcRank,queueEmpty_true (hasWork_false_size hwork)]
  | wakes timed timedOut => exact absurd rfl (hawake timed)
  | relocks timed timedOut hfree => simp only [pcRank]; split_ifs <;> omega
  | looksAgain hrun =>
    have hsome : s.taskQueueSize ≠ 0 := by
      intro hnone
      simpa [ThreadPool.hasWork,hnone,hrun] using hready rfl
    simp [pcRank,queueEmpty_false hsome]
  | givesUp hstop => simp only [pcRank]; split_ifs <;> omega
  | _ => simp [pcRank]

theorem takes_rank (hl : Locked s) {k : ℕ} {w : Worker τ} (hk : s.workers[k]? = some w)
    (hpc : w.pc = .taking) {x : PrioritizedTask} (hx : x ∈ topTasks s.taskQueue) :
    rank { s.setPc k w (.executing x.func false) with
      idleThreadCount := s.idleThreadCount-1
      taskQueue := s.taskQueue.erase x
      taskQueueSize := s.taskQueueSize-1
      owner := none } < rank s := by
  have hsome := hl.taking k w hk hpc
  have hmem := (mem_topTasks.mp hx).1
  have hlen := List.length_erase_of_mem hmem
  have hpos := List.length_pos_of_mem hmem
  have hset := workersRank_set false hk { w with pc := .executing x.func false }
  have hmono := workersRank_mono (s.taskQueueSize-1 == 0)
    (s.workers.set k { w with pc := .executing x.func false })
  rw [rank,rank,queueEmpty_false hsome,queueEmpty]
  simp only [ThreadPool.setPc,hpc,pcRank,ownerRank,Bool.false_eq_true,if_false] at hset ⊢
  omega

variable [DecidableEq τ]

theorem createThread_rank {pc : CreatePc τ} {spawn : Option τ} {r : ThreadPool τ}
    {res : CreateResult τ} (hr : s.createThread config spawn pc = (r,res)) :
    r = s ∧ nextPc res = some pc ∨
    createRank (nextPc res)+workersRank (queueEmpty s) r.workers <
      createRank (some pc)+workersRank (queueEmpty s) s.workers := by
  cases createThread_create hr with
  | full hfull => exact .inr (Nat.add_lt_add_right (by decide : 0 < 11) _)
  | counts hroom => exact .inr (Nat.add_lt_add_right (by decide : 10 < 11) _)
  | throws hspawn => exact .inr (Nat.add_lt_add_right (by decide : 0 < 10) _)
  | waits t hspawn => exact .inl ⟨rfl,rfl⟩
  | spawns t hspawn hfree =>
    right
    rw [workersRank_append]
    simp only [nextPc,createRank,workersRank,pcRank]
    omega
  | inserts t => exact .inr (Nat.add_lt_add_right (by decide : 0 < 1) _)

theorem creates_rank {f : Func} {pc : CreatePc τ} {spawn : Option τ} {r : ThreadPool τ}
    {res : CreateResult τ} (howner : s.owner = some (.submitter f (some pc)))
    (hr : s.createThread config spawn pc = (r,res)) :
    (submitterAfter f r res).1 = s ∨ rank (submitterAfter f r res).1 < rank s := by
  rcases createThread_rank hr with ⟨rfl,hpc⟩ | hlt
  · left
    cases res with
    | goesOn pc' =>
      cases hpc
      rw [submitterAfter,← howner]
    | returned => cases hpc
    | threw => cases hpc
  · right
    obtain ⟨workers,threads,current,idle,rfl⟩ := createThread_writes hr
    apply rank_falls
    · cases res <;> rfl
    · cases res <;> rfl
    · have hnext : ownerRank (submitterAfter f { s with
          workers := workers
          threads := threads
          currentThreadCount := current
          idleThreadCount := idle } res).1.owner = createRank (nextPc res) := by cases res <;> rfl
      have hthis : ownerRank s.owner = createRank (some pc) := by rw [howner]; rfl
      rw [hnext,hthis]
      dsimp only at hlt
      cases res <;> dsimp only [submitterAfter,ThreadPool.unlock] <;> omega

theorem starts_rank {pc : CreatePc τ} {spawn : Option τ} {r : ThreadPool τ} {res : CreateResult τ}
    (hstart : s.startPc = some pc) (hr : s.createThread config spawn pc = (r,res)) :
    startAfter r res = s ∨ rank (startAfter r res) < rank s := by
  rcases createThread_rank hr with ⟨rfl,hpc⟩ | hlt
  · left
    cases res with
    | goesOn pc' =>
      cases hpc
      rw [startAfter,← hstart]
    | returned => cases hpc
    | threw => cases hpc
  · right
    obtain ⟨workers,threads,current,idle,rfl⟩ := createThread_writes hr
    apply rank_falls
    · cases res <;> rfl
    · cases res <;> rfl
    · have hnext : createRank (startAfter { s with
          workers := workers
          threads := threads
          currentThreadCount := current
          idleThreadCount := idle } res).startPc = createRank (nextPc res) := by cases res <;> rfl
      rw [hnext,hstart]
      dsimp only at hlt
      cases res <;> dsimp only [startAfter] <;> omega

theorem act_rank (hl : Locked s) (h : Attentive s) {i : Input τ} (hown : ownStep i = true)
    {r : ThreadPool τ × List Output} (ha : Act config s i r)
    (hseen : ∀ {j : ℕ} {u v : Worker τ}, s.workers[j]? = some u → r.1.workers[j]? = some v →
      Seen config s u.pc v.pc)
    (hawake : ∀ k choice w timed, i = .worker k choice → s.workers[k]? = some w →
      w.pc = .asleep timed → r.1 = s) :
    r.1 = s ∨ rank r.1 < rank s := by
  cases ha with
  | rests i => exact .inl rfl
  | refuses i priority callback hfree hi => exact .inl rfl
  | accepts priority callback hfree hroom hrun => exact Bool.noConfusion hown
  | grows spawn f howner =>
    refine .inr (rank_falls rfl rfl ?_)
    rw [howner]
    dsimp only [ownerRank,createRank]
    omega
  | submits spawn f howner =>
    refine .inr (rank_falls rfl rfl ?_)
    rw [howner]
    dsimp only [ThreadPool.unlock,ownerRank]
    omega
  | creates spawn f pc r res howner hr => exact creates_rank howner hr
  | startsNext spawn hpc hleft =>
    refine .inr (rank_falls rfl rfl ?_)
    rw [hpc]
    dsimp only [createRank]
    omega
  | starts spawn pc r res hpc hr => exact starts_rank hpc hr
  | walks i k w pc owner hk hwalk hi =>
    obtain ⟨choice,rfl⟩ : ∃ choice, i = .worker k choice := by
      rcases hi with hi | rfl | rfl
      · exact hi
      · exact Bool.noConfusion hown
      · exact Bool.noConfusion hown
    by_cases hsleep : ∃ timed, w.pc = .asleep timed
    · obtain ⟨timed,hpc⟩ := hsleep
      exact .inl (hawake k choice w timed rfl hk hpc)
    · have hw : (s.setPc k w pc).workers[k]? = some { w with pc := pc } :=
        List.getElem?_set_self (List.getElem?_eq_some_iff.mp hk).1
      have hlt := walk_rank h (List.mem_of_getElem? hk) hwalk (hseen hk hw)
        fun timed hpc => hsleep ⟨timed,hpc⟩
      exact .inr (rank_setPc hk rfl rfl rfl (walk_owner_rank hwalk) rfl rfl hlt)
  | takes k choice w x hk hpc hx => exact .inr (takes_rank hl hk hpc hx)
  | exits k choice w locked hk hpc =>
    right
    have hlt : pcRank (queueEmpty s) (.exited locked) < pcRank (queueEmpty s) w.pc := by
      rw [hpc]
      cases locked <;> exact (by decide : 1 < 2)
    rw [ThreadPool.threadExit]
    split_ifs
    · exact rank_setPc hk rfl rfl rfl (Nat.le_refl _) rfl rfl hlt
    · exact rank_setPc hk rfl rfl rfl (Nat.le_refl _) rfl rfl hlt
  | queues k w f hk hpc hf =>
    exact .inr (rank_setPc hk rfl rfl rfl (Nat.le_refl _) rfl rfl
      (by rw [hpc]; exact (by decide : 8 < 9)))
  | finishes k w f queued hk hpc =>
    refine .inr (rank_setPc hk rfl rfl rfl (Nat.le_refl _) rfl rfl ?_)
    rw [hpc]
    cases queued
    · exact (by decide : 7 < 9)
    · exact (by decide : 7 < 8)
  | runsPending => exact Bool.noConfusion hown
  | calls n threw f fs hn => exact Bool.noConfusion hown
  | destroys => exact Bool.noConfusion hown

theorem asleep_rests {k choice : ℕ} {w : Worker τ} {timed : Bool} (hk : s.workers[k]? = some w)
    (hpc : w.pc = .asleep timed) : ((threadPool config).step s (.worker k choice)).1 = s := by
  simp only [threadPool,ThreadPool.withWorker,hk,ThreadPool.workerStep,hpc]

end

theorem pool_ranked [DecidableEq τ] (config : ThreadPoolConfig) :
    Ranked (threadPool config) (fun i : Input τ => ownStep i = true)
      (fun s => Locked s ∧ Attentive s) rank where
  keeps s i h hown := ⟨step_locked config h.1 i,step_attentive h.1 h.2 i⟩
  falls s i h hown := by
    refine act_rank h.1 h.2 hown (step_act config s i) (step_seen s i) ?_
    rintro k choice w timed rfl hk hpc
    exact asleep_rests hk hpc

structure AtRest (s : ThreadPool τ) : Prop where
  owner : s.owner = none
  startPc : s.startPc = none
  starting : s.starting = 0
  workers : ∀ w ∈ s.workers, (∃ timed, w.pc = .asleep timed) ∨ w.pc = .gone

section
variable {s s' : ThreadPool τ}

theorem setPc_differs {k : ℕ} {w : Worker τ} (hk : s.workers[k]? = some w) {pc : WorkerPc}
    (hw : s'.workers = s.workers.set k { w with pc := pc }) (hpc : pc ≠ w.pc) : s' ≠ s := by
  intro hsame
  rw [hsame] at hw
  have hself := List.getElem?_set_self (a := { w with pc := pc }) (List.getElem?_eq_some_iff.mp hk).1
  rw [← hw,hk] at hself
  exact hpc (congrArg Worker.pc (Option.some.inj hself)).symm

variable [DecidableEq τ] (config : ThreadPoolConfig)

theorem submitter_moves {f : Func} {pc : Option (CreatePc τ)}
    (howner : s.owner = some (.submitter f pc)) :
    ((threadPool config).step s (.submitter none)).1.owner ≠ s.owner := by
  simp only [threadPool,ThreadPool.submitterStep,howner]
  cases pc with
  | none =>
    dsimp only
    split_ifs <;> simp [ThreadPool.unlock]
  | some pc =>
    cases pc with
    | entering =>
      dsimp only [ThreadPool.createThread]
      split_ifs <;> simp [ThreadPool.unlock]
    | counted => simp [ThreadPool.createThread,ThreadPool.unlock]
    | created t => simp [ThreadPool.createThread,ThreadPool.unlock]

theorem start_moves {pc : CreatePc τ} (hpc : s.startPc = some pc) :
    ((threadPool config).step s (.start none)).1.startPc ≠ s.startPc := by
  simp only [threadPool,ThreadPool.startStep,hpc]
  cases pc with
  | entering =>
    dsimp only [ThreadPool.createThread]
    split_ifs <;> simp
  | counted => simp [ThreadPool.createThread]
  | created t => simp [ThreadPool.createThread]

theorem worker_moves {k : ℕ} {w : Worker τ} (hk : s.workers[k]? = some w)
    (hfree : w.pc = .locking ∨ (∃ timed timedOut, w.pc = .waking timed timedOut) → s.owner = none)
    (htask : w.pc = .taking → topTasks s.taskQueue ≠ [])
    (hsleep : ∀ timed, w.pc ≠ .asleep timed) (hgone : w.pc ≠ .gone)
    (hexec : ∀ f queued, w.pc ≠ .executing f queued) :
    ((threadPool config).step s (.worker k 0)).1 ≠ s := by
  have hmoves : ∀ {r : ThreadPool τ} {pc : WorkerPc},
      r.workers = s.workers.set k { w with pc := pc } → pc ≠ w.pc → r ≠ s :=
    fun hw hpc => setPc_differs hk hw hpc
  simp only [threadPool,ThreadPool.withWorker,hk,ThreadPool.workerStep]
  cases hpc : w.pc with
  | top =>
    refine hmoves rfl ?_
    rw [hpc]
    split_ifs <;> exact WorkerPc.noConfusion
  | locking =>
    simp only [hfree (.inl hpc),Option.isNone_none,if_true]
    exact hmoves rfl (by rw [hpc]; exact WorkerPc.noConfusion)
  | looking =>
    dsimp only
    split_ifs
    · exact hmoves rfl (by rw [hpc]; exact WorkerPc.noConfusion)
    · exact hmoves rfl (by rw [hpc]; exact WorkerPc.noConfusion)
    · exact hmoves rfl (by rw [hpc]; exact WorkerPc.noConfusion)
  | testing timed timedOut =>
    refine hmoves rfl ?_
    rw [hpc]
    split_ifs <;> exact WorkerPc.noConfusion
  | blocking timed => exact hmoves rfl (by rw [hpc]; exact WorkerPc.noConfusion)
  | asleep timed => exact absurd hpc (hsleep timed)
  | waking timed timedOut =>
    simp only [hfree (.inr ⟨timed,timedOut,hpc⟩),Option.isNone_none,if_true]
    exact hmoves rfl (by rw [hpc]; exact WorkerPc.noConfusion)
  | ready =>
    dsimp only
    split_ifs
    · exact hmoves rfl (by rw [hpc]; exact WorkerPc.noConfusion)
    · exact hmoves rfl (by rw [hpc]; exact WorkerPc.noConfusion)
  | taking =>
    obtain ⟨x,xs,hx⟩ := List.exists_cons_of_ne_nil (htask hpc)
    simp only [ThreadPool.takeTask,hx,List.getElem?_cons_zero]
    exact hmoves rfl (by rw [hpc]; exact WorkerPc.noConfusion)
  | executing f queued => exact absurd hpc (hexec f queued)
  | exiting =>
    exact hmoves (congrArg (List.set · k _) (threadExit_same s w.threadId).1)
      (by rw [hpc]; exact WorkerPc.noConfusion)
  | leaving =>
    exact hmoves (congrArg (List.set · k _) (threadExit_same s w.threadId).1)
      (by rw [hpc]; exact WorkerPc.noConfusion)
  | exited locked => cases locked <;> exact hmoves rfl (by rw [hpc]; exact WorkerPc.noConfusion)
  | gone => exact absurd hpc hgone

theorem finish_moves {k : ℕ} {w : Worker τ} (hk : s.workers[k]? = some w) {f : Func} {queued : Bool}
    (hpc : w.pc = .executing f queued) : ((threadPool config).step s (.finish k)).1 ≠ s := by
  simp only [threadPool,ThreadPool.withWorker,hk,ThreadPool.finishTask,hpc]
  exact setPc_differs hk rfl (by rw [hpc]; exact WorkerPc.noConfusion)

theorem settled_rests (hl : Locked s)
    (htask : ∀ (k : ℕ) (w : Worker τ), s.workers[k]? = some w → w.pc = .taking →
      topTasks s.taskQueue ≠ [])
    (h : Settled (threadPool config) (fun i => ownStep i = true) s) : AtRest s := by
  have hworker : ∀ {k : ℕ} {w : Worker τ}, s.workers[k]? = some w →
      (w.pc = .locking ∨ (∃ timed timedOut, w.pc = .waking timed timedOut) → s.owner = none) →
      (∃ timed, w.pc = .asleep timed) ∨ w.pc = .gone := by
    intro k w hk hfree
    by_contra hno
    rw [not_or,not_exists] at hno
    have hexec : ∀ f queued, w.pc ≠ .executing f queued :=
      fun f queued hpc => finish_moves config hk hpc (h (.finish k) rfl)
    exact worker_moves config hk hfree (htask k w hk) hno.1 hno.2 hexec (h (.worker k 0) rfl)
  have howner : s.owner = none := by
    cases ho : s.owner with
    | none => rfl
    | some o =>
      exfalso
      cases o with
      | submitter f pc =>
        exact submitter_moves config ho (congrArg ThreadPool.owner (h (.submitter none) rfl))
      | worker k =>
        obtain ⟨w,hk⟩ : ∃ w, s.workers[k]? = some w := ⟨_,List.getElem?_eq_getElem (hl.known k ho)⟩
        have hheld := (hl.holder k w hk).mpr ho
        have hout : ∀ {pc : WorkerPc}, holdsMutex pc = false → w.pc ≠ pc := by
          intro pc hpc heq
          rw [heq,hpc] at hheld
          exact Bool.noConfusion hheld
        rcases hworker hk (by
          rintro (hpc | ⟨timed,timedOut,hpc⟩)
          · exact absurd hpc (hout rfl)
          · exact absurd hpc (hout rfl)) with ⟨timed,hpc⟩ | hpc
        · exact hout rfl hpc
        · exact hout rfl hpc
  have hstart : s.startPc = none := by
    cases hpc : s.startPc with
    | none => rfl
    | some pc =>
      exact absurd (congrArg ThreadPool.startPc (h (.start none) rfl)) (start_moves config hpc)
  refine ⟨howner,hstart,?_,?_⟩
  · by_contra hleft
    have hsame := congrArg ThreadPool.startPc (h (.start none) rfl)
    simp [threadPool,ThreadPool.startStep,hstart,hleft] at hsame
  · intro w hw
    obtain ⟨k,hk⟩ := List.getElem?_of_mem hw
    exact hworker hk fun _ => howner

theorem act_own {i : Input τ} {r : ThreadPool τ × List Output} (ha : Act config s i r)
    (hown : ownStep i = true) : acceptedOf r.2 = [] ∧ s.workers.length ≤ r.1.workers.length := by
  have hcreate : ∀ {pc : CreatePc τ} {spawn : Option τ} {t : ThreadPool τ} {res : CreateResult τ},
      s.createThread config spawn pc = (t,res) → s.workers.length ≤ t.workers.length := by
    intro pc spawn t res hr
    obtain ⟨⟨new,hnew,-⟩,-⟩ := createThread_workers hr
    rw [hnew,List.length_append]
    exact Nat.le_add_right _ _
  cases ha with
  | accepts priority callback hfree hroom hrun => exact Bool.noConfusion hown
  | creates spawn f pc r res howner hr =>
    have hlen := hcreate hr
    cases res <;> exact ⟨rfl,hlen⟩
  | starts spawn pc r res hpc hr =>
    have hlen := hcreate hr
    cases res <;> exact ⟨rfl,hlen⟩
  | walks i k w pc owner hk hwalk hi => exact ⟨rfl,Nat.le_of_eq List.length_set.symm⟩
  | takes k choice w x hk hpc hx => exact ⟨rfl,Nat.le_of_eq List.length_set.symm⟩
  | exits k choice w locked hk hpc =>
    refine ⟨rfl,Nat.le_of_eq ?_⟩
    rw [ThreadPool.setPc,List.length_set,(threadExit_same s w.threadId).1]
  | queues k w f hk hpc hf => exact ⟨rfl,Nat.le_of_eq List.length_set.symm⟩
  | finishes k w f queued hk hpc => exact ⟨rfl,Nat.le_of_eq List.length_set.symm⟩
  | destroys => exact Bool.noConfusion hown
  | _ => exact ⟨rfl,Nat.le_refl _⟩

theorem own_run {js : List (Input τ)} (hown : ∀ j ∈ js, ownStep j = true) :
    acceptedOf ((threadPool config).run s js).2 = [] ∧
    s.workers.length ≤ ((threadPool config).run s js).1.workers.length ∧
    ((threadPool config).run s js).1.isRunning = s.isRunning := by
  induction js generalizing s with
  | nil => exact ⟨rfl,Nat.le_refl _,rfl⟩
  | cons j js ih =>
    have hj := hown j List.mem_cons_self
    obtain ⟨hacc,hlen⟩ := act_own config (step_act config s j) hj
    have hflag : ((threadPool config).step s j).1.isRunning = s.isRunning := by
      rcases step_flag config s j with ⟨hsame,-⟩ | ⟨rfl,-⟩
      · exact hsame
      · exact Bool.noConfusion hj
    obtain ⟨hacc',hlen',hflag'⟩ := ih (s := ((threadPool config).step s j).1)
      fun l hl => hown l (List.mem_cons_of_mem j hl)
    refine ⟨?_,Nat.le_trans hlen hlen',hflag'.trans hflag⟩
    rw [Machine.run,acceptedOf_append,hacc,hacc']
    rfl

end

theorem executing_rest {ws : List (Worker τ)}
    (h : ∀ w ∈ ws, (∃ timed, w.pc = .asleep timed) ∨ w.pc = .gone) : executing ws = [] := by
  rw [executing,List.filterMap_eq_nil_iff]
  intro w hw
  rcases h w hw with ⟨timed,hpc⟩ | hpc
  · rw [hpc]
    rfl
  · rw [hpc]
    rfl

theorem rank_bound (s : ThreadPool τ) :
    rank s ≤ 20*s.taskQueue.length+9*s.workers.length+12*s.starting+23 := by
  have hworkers := workersRank_le (queueEmpty s) s.workers
  have hcreate : ∀ pc : Option (CreatePc τ), createRank pc ≤ 11 := by
    intro pc
    rcases pc with _ | (_ | _ | t)
    · exact Nat.zero_le _
    · exact Nat.le_refl _
    · exact (by decide : 10 ≤ 11)
    · exact (by decide : 1 ≤ 11)
  have howner : ownerRank s.owner ≤ 12 := by
    rcases s.owner with _ | (⟨f,_ | pc⟩ | k)
    · exact Nat.zero_le _
    · exact Nat.le_refl _
    · exact Nat.le_succ_of_le (hcreate (some pc))
    · exact Nat.zero_le _
  have hstart := hcreate s.startPc
  rw [rank]
  omega

section
variable [DecidableEq τ] {config : ThreadPoolConfig}

variable (config) in
theorem settled_empty (is : List (Input τ))
    (h : Settled (threadPool config) (fun i : Input τ => ownStep i = true)
      ((threadPool config).run (Start config) is).1) {w : Worker τ}
    (hw : w ∈ ((threadPool config).run (Start config : ThreadPool τ) is).1.workers)
    (hpc : w.pc ≠ .gone) :
    ((threadPool config).run (Start config : ThreadPool τ) is).1.taskQueue = [] ∧
    executing ((threadPool config).run (Start config : ThreadPool τ) is).1.workers = [] := by
  have hrest := settled_rests config (run_locked config is)
    (fun k w hk hpc => taking_finds_task config is k w hk hpc) h
  obtain ⟨timed,hsleep⟩ := (hrest.workers w hw).resolve_right hpc
  refine ⟨?_,executing_rest hrest.workers⟩
  by_contra hsome
  have hsize := (run_balanced config is).size
  have hawake := (run_attentive config is).awake (fun hzero => hsome ?_) w hw
  · rw [hsleep] at hawake
    exact Bool.noConfusion hawake
  · rw [← List.length_eq_zero_iff]
    refine hsize.symm.trans ?_
    rw [books,hzero]
    rfl

theorem settled_finished (is : List (Input τ))
    (h : Settled (threadPool config) (fun i : Input τ => ownStep i = true)
      ((threadPool config).run (Start config) is).1) :
    (finishedOf ((threadPool config).run (Start config : ThreadPool τ) is).2).Perm
      (acceptedOf ((threadPool config).run (Start config : ThreadPool τ) is).2) ∨
    ∀ w ∈ ((threadPool config).run (Start config : ThreadPool τ) is).1.workers, w.pc = .gone := by
  by_cases hgone : ∀ w ∈ ((threadPool config).run (Start config : ThreadPool τ) is).1.workers,
      w.pc = .gone
  · exact .inr hgone
  · left
    simp only [not_forall,exists_prop] at hgone
    obtain ⟨w,hw,hpc⟩ := hgone
    obtain ⟨hempty,hidle⟩ := settled_empty config is h hw hpc
    have hplaces := (run_balanced config is).places
    rw [books,hempty,hidle] at hplaces
    exact hplaces

/-- From any point of any run of a running pool that has a worker: whatever
the order in which the pool's own threads then take their steps, no more of
these do anything than the pool has work for; from wherever they are they can
go on until nothing is left to do; and when nothing is, the tasks that were
accepted have finished, each once. In a cached pool the workers may all have
left instead. -/
theorem accepted_tasks_finish (is js : List (Input τ))
    (hrun : ((threadPool config).run (Start config : ThreadPool τ) is).1.isRunning = true)
    (hworkers : ((threadPool config).run (Start config : ThreadPool τ) is).1.workers ≠ [])
    (hown : ∀ j ∈ js, ownStep j = true) :
    (∃ ks, ks.Sublist js ∧
      Along (threadPool config) (Effective (threadPool config) fun i => ownStep i = true)
        ((threadPool config).run (Start config) is).1 ks ∧
      ((threadPool config).run ((threadPool config).run (Start config) is).1 ks).1 =
        ((threadPool config).run (Start config) (is++js)).1 ∧
      ks.length ≤ 20*((threadPool config).run (Start config : ThreadPool τ) is).1.taskQueue.length+
        9*((threadPool config).run (Start config : ThreadPool τ) is).1.workers.length+
        12*((threadPool config).run (Start config : ThreadPool τ) is).1.starting+23) ∧
    (∃ ls, (∀ l ∈ ls, ownStep l = true) ∧
      Settled (threadPool config) (fun i : Input τ => ownStep i = true)
        ((threadPool config).run (Start config) (is++(js++ls))).1) ∧
    (Settled (threadPool config) (fun i : Input τ => ownStep i = true)
        ((threadPool config).run (Start config) (is++js)).1 →
      (finishedOf ((threadPool config).run (Start config : ThreadPool τ) (is++js)).2).Perm
        (acceptedOf ((threadPool config).run (Start config : ThreadPool τ) is).2) ∨
      (config.mode = .kCached ∧
        ∀ w ∈ ((threadPool config).run (Start config : ThreadPool τ) (is++js)).1.workers,
          w.pc = .gone)) := by
  have hinv := And.intro (run_locked config is) (run_attentive config is)
  obtain ⟨hacc,hlen,hflag⟩ := own_run config (s := ((threadPool config).run (Start config) is).1) hown
  refine ⟨?_,?_,?_⟩
  · obtain ⟨ks,hsub,heff,hsame,hle⟩ := own_run_bounded (pool_ranked config) hinv hown
    refine ⟨ks,hsub,heff,?_,Nat.le_trans hle (rank_bound _)⟩
    rw [run_append]
    exact hsame
  · obtain ⟨ls,hls,hset⟩ := exists_settled (pool_ranked config)
      (run_ranked (pool_ranked config) hinv hown)
    refine ⟨ls,hls,?_⟩
    rw [← List.append_assoc,run_append,run_append]
    exact hset
  · intro hset
    rcases settled_finished (is++js) hset with hfin | hgone
    · left
      rw [run_append] at hfin ⊢
      dsimp only at hfin ⊢
      rwa [acceptedOf_append,hacc,List.append_nil] at hfin
    · right
      refine ⟨?_,hgone⟩
      cases hmode : config.mode with
      | kCached => rfl
      | kFixed =>
        exfalso
        have hstaffed := run_staffed config hmode (is++js)
        rw [run_append] at hgone hstaffed
        have hsome := Nat.lt_of_lt_of_le (List.length_pos_iff.mpr hworkers) hlen
        obtain ⟨w,hmem,hpc⟩ := staffed_worker hstaffed (hflag.trans hrun) hsome
        exact hpc (hgone w hmem)

end

theorem arrived_task_finishes :
    ∃ ls : List (Input ℕ), (∀ l ∈ ls, ownStep l = true) ∧
      (finishedOf ((threadPool fixedConfig).run (Start fixedConfig) (taskArrives++ls)).2).Perm
        [⟨0,false⟩] := by
  have hrun : ((threadPool fixedConfig).run (Start fixedConfig) taskArrives).1.isRunning = true := by
    decide +kernel
  have hworkers : ((threadPool fixedConfig).run (Start fixedConfig) taskArrives).1.workers ≠ [] := by
    decide +kernel
  obtain ⟨-,⟨ls,hls,hset⟩,-⟩ := accepted_tasks_finish taskArrives [] hrun hworkers (by simp)
  obtain ⟨-,-,hfin⟩ := accepted_tasks_finish taskArrives ls hrun hworkers hls
  exact ⟨ls,hls,(hfin hset).resolve_right fun h => PoolMode.noConfusion h.1⟩

end MiniRpc.PoolProgress
