import MiniRpc.PoolShutdown

/-!
# No worker sleeps while a task is waiting

A worker goes to sleep only under `taskQueueMutex_` and with an empty queue,
and a submission wakes every sleeper under the same mutex. So in every
interleaving no worker waits for work while there is some. In a fixed pool
no wait has a time limit, and no worker leaves while the pool is running.
-/

set_option autoImplicit false

namespace MiniRpc.PoolAttention
open MiniRpc.StepMachine MiniRpc.WorkerPool MiniRpc.PoolSteps
open MiniRpc.PoolAccounting MiniRpc.PoolMutex MiniRpc.PoolShutdown

variable {τ : Type}

/-- What a worker that gets from `pc` to `pc'` has seen, where `Walk` leaves
it open. -/
def Seen (config : ThreadPoolConfig) (s : ThreadPool τ) : WorkerPc → WorkerPc → Prop
  | .looking, .testing timed _ => s.taskQueueSize = 0 ∧ (timed = true → config.mode = .kCached)
  | .testing _ _, .ready => s.hasWork = true
  | .asleep timed, .waking _ timedOut => timedOut = true → timed = true
  | _, _ => True

theorem seen_same (config : ThreadPoolConfig) (s : ThreadPool τ) (pc : WorkerPc) :
    Seen config s pc pc := by
  cases pc <;> trivial

theorem seen_notified (config : ThreadPoolConfig) (s : ThreadPool τ) (pc : WorkerPc) :
    Seen config s pc pc.notified := by
  cases pc with
  | asleep timed => exact Bool.noConfusion
  | _ => trivial

section
variable {config : ThreadPoolConfig} {s s' : ThreadPool τ}

theorem seen_setPc {k : ℕ} {w : Worker τ} (hk : s.workers[k]? = some w) {pc : WorkerPc}
    (hw : s'.workers = s.workers.set k { w with pc := pc }) (hpc : Seen config s w.pc pc) {j : ℕ}
    {u v : Worker τ} (hu : s.workers[j]? = some u) (hv : s'.workers[j]? = some v) :
    Seen config s u.pc v.pc := by
  rcases setPc_get hk hw hv with ⟨rfl,hnew⟩ | ⟨hj,hold⟩
  · rw [hk] at hu
    cases hu
    rw [hnew]
    exact hpc
  · rw [hu] at hold
    cases hold
    exact seen_same config s u.pc

theorem seen_workers (hw : s'.workers = s.workers) {j : ℕ} {u v : Worker τ}
    (hu : s.workers[j]? = some u) (hv : s'.workers[j]? = some v) : Seen config s u.pc v.pc := by
  rw [hw,hu] at hv
  cases hv
  exact seen_same config s u.pc

theorem seen_destroy (hd : Destroy s s') {j : ℕ} {u v : Worker τ} (hu : s.workers[j]? = some u)
    (hv : s'.workers[j]? = some v) : Seen config s u.pc v.pc := by
  cases hd with
  | notifies hd =>
    simp only [ThreadPool.notifyNotEmpty,List.getElem?_map,hu,Option.map_some,Option.some.injEq] at hv
    rw [← hv]
    exact seen_notified config s u.pc
  | _ => exact seen_workers rfl hu hv

theorem wakeStep_seen {k : ℕ} {w : Worker τ} (hk : s.workers[k]? = some w) (timedOut : Bool) {j : ℕ}
    {u v : Worker τ} (hu : s.workers[j]? = some u)
    (hv : (s.wakeStep k w timedOut).workers[j]? = some v) : Seen config s u.pc v.pc := by
  rw [ThreadPool.wakeStep.eq_def] at hv
  cases hpc : w.pc with
  | asleep timed =>
    rw [hpc] at hv
    dsimp only at hv
    split_ifs at hv with hno
    · exact seen_workers rfl hu hv
    · refine seen_setPc hk rfl ?_ hu hv
      rw [hpc]
      intro hout
      by_contra htimed
      exact hno ⟨hout,by simpa using htimed⟩
  | _ =>
    rw [hpc] at hv
    exact seen_workers rfl hu hv

theorem withWorker_seen (k : ℕ) {f : Worker τ → ThreadPool τ × List Output} {j : ℕ} {u v : Worker τ}
    (hf : ∀ w, s.workers[k]? = some w → (f w).1.workers[j]? = some v → Seen config s u.pc v.pc)
    (hu : s.workers[j]? = some u) (hv : (s.withWorker k f).1.workers[j]? = some v) :
    Seen config s u.pc v.pc := by
  rw [ThreadPool.withWorker.eq_def] at hv
  cases hk : s.workers[k]? with
  | none =>
    rw [hk] at hv
    exact seen_workers rfl hu hv
  | some w =>
    rw [hk] at hv
    exact hf w hk hv

variable [DecidableEq τ]

theorem workerStep_seen {k : ℕ} {w : Worker τ} (hk : s.workers[k]? = some w) (choice : ℕ) {j : ℕ}
    {u v : Worker τ} (hu : s.workers[j]? = some u)
    (hv : (s.workerStep config k w choice).1.workers[j]? = some v) : Seen config s u.pc v.pc := by
  have hmoves : ∀ {r : ThreadPool τ} {pc : WorkerPc}, r.workers[j]? = some v →
      r.workers = s.workers.set k { w with pc := pc } → Seen config s w.pc pc →
      Seen config s u.pc v.pc := fun hv hw hpc => seen_setPc hk hw hpc hu hv
  rw [ThreadPool.workerStep.eq_def] at hv
  cases hpc : w.pc with
  | looking =>
    rw [hpc] at hv hmoves
    dsimp only at hv
    split_ifs at hv with hnone hrun
    · exact hmoves hv rfl ⟨hnone,fun h => (of_decide_eq_true h).1⟩
    · exact hmoves hv rfl trivial
    · exact hmoves hv rfl trivial
  | testing timed timedOut =>
    rw [hpc] at hv hmoves
    dsimp only at hv
    split_ifs at hv with hwork hout
    · exact hmoves hv rfl hwork
    · exact hmoves hv rfl trivial
    · exact hmoves hv rfl trivial
  | taking =>
    rw [hpc] at hv hmoves
    dsimp only at hv
    rw [ThreadPool.takeTask.eq_def] at hv
    split at hv
    · exact seen_workers rfl hu hv
    · exact hmoves hv rfl trivial
  | exiting =>
    rw [hpc] at hv hmoves
    exact hmoves hv (congrArg (List.set · k _) (threadExit_same s w.threadId).1) trivial
  | leaving =>
    rw [hpc] at hv hmoves
    exact hmoves hv (congrArg (List.set · k _) (threadExit_same s w.threadId).1) trivial
  | exited locked =>
    rw [hpc] at hv hmoves
    cases locked <;> exact hmoves hv rfl trivial
  | top =>
    rw [hpc] at hv hmoves
    exact hmoves hv rfl trivial
  | locking =>
    rw [hpc] at hv hmoves
    dsimp only at hv
    split_ifs at hv
    · exact hmoves hv rfl trivial
    · exact seen_workers rfl hu hv
  | waking timed timedOut =>
    rw [hpc] at hv hmoves
    dsimp only at hv
    split_ifs at hv
    · exact hmoves hv rfl trivial
    · exact seen_workers rfl hu hv
  | ready =>
    rw [hpc] at hv hmoves
    dsimp only at hv
    split_ifs at hv <;> exact hmoves hv rfl trivial
  | blocking timed =>
    rw [hpc] at hv hmoves
    exact hmoves hv rfl trivial
  | _ =>
    rw [hpc] at hv
    exact seen_workers rfl hu hv

theorem createThread_seen {pc : CreatePc τ} {spawn : Option τ} {r : ThreadPool τ}
    {res : CreateResult τ} (hr : s.createThread config spawn pc = (r,res))
    (hw : s'.workers = r.workers) {j : ℕ} {u v : Worker τ} (hu : s.workers[j]? = some u)
    (hv : s'.workers[j]? = some v) : Seen config s u.pc v.pc := by
  obtain ⟨⟨new,hnew,-⟩,-⟩ := createThread_workers hr
  rw [hw,hnew,List.getElem?_append_left (List.getElem?_eq_some_iff.mp hu).1,hu] at hv
  cases hv
  exact seen_same config s u.pc

theorem act_seen {i : Input τ} {r : ThreadPool τ × List Output} (h : Act config s i r)
    (hi : ∀ k choice, i ≠ .worker k choice ∧ i ≠ .wake k ∧ i ≠ .timeout k) {j : ℕ} {u v : Worker τ}
    (hu : s.workers[j]? = some u) (hv : r.1.workers[j]? = some v) : Seen config s u.pc v.pc := by
  cases h with
  | accepts priority callback hfree hroom hrun =>
    simp only [ThreadPool.notifyNotEmpty,List.getElem?_map,hu,Option.map_some,Option.some.injEq] at hv
    rw [← hv]
    exact seen_notified config s u.pc
  | creates spawn f pc r res howner hr => cases res <;> exact createThread_seen hr rfl hu hv
  | starts spawn pc r res hpc hr => cases res <;> exact createThread_seen hr rfl hu hv
  | walks i k w pc owner hk hwalk hw =>
    rcases hw with ⟨choice,hw⟩ | hw | hw
    · exact absurd hw (hi k choice).1
    · exact absurd hw (hi k 0).2.1
    · exact absurd hw (hi k 0).2.2
  | takes k choice w x hk hpc hx => exact absurd rfl (hi k choice).1
  | exits k choice w locked hk hpc => exact absurd rfl (hi k choice).1
  | queues k w f hk hpc hf => exact seen_setPc hk rfl (by rw [hpc]; trivial) hu hv
  | finishes k w f queued hk hpc => exact seen_setPc hk rfl (by rw [hpc]; trivial) hu hv
  | destroys => exact seen_destroy (destructorStep_destroy s) hu hv
  | _ => exact seen_workers rfl hu hv

theorem step_seen (s : ThreadPool τ) (i : Input τ) {j : ℕ} {u v : Worker τ}
    (hu : s.workers[j]? = some u)
    (hv : ((threadPool config).step s i).1.workers[j]? = some v) : Seen config s u.pc v.pc := by
  cases i with
  | worker k choice => exact withWorker_seen k (fun w hk hv => workerStep_seen hk choice hu hv) hu hv
  | wake k => exact withWorker_seen k (fun w hk hv => wakeStep_seen hk false hu hv) hu hv
  | timeout k => exact withWorker_seen k (fun w hk hv => wakeStep_seen hk true hu hv) hu hv
  | _ => exact act_seen (step_act config s _) (by simp) hu hv

end

def waits : WorkerPc → Bool
  | .blocking _ => true
  | .asleep _ => true
  | _ => false

/-- No worker waits while a task is queued, and one that is past its wait has
found the condition of the wait true. -/
structure Attentive (s : ThreadPool τ) : Prop where
  awake : s.taskQueueSize ≠ 0 → ∀ w ∈ s.workers, waits w.pc = false
  ready : ∀ w ∈ s.workers, w.pc = .ready → s.hasWork = true

theorem attentive_start (config : ThreadPoolConfig) : Attentive (Start config : ThreadPool τ) :=
  ⟨by simp [Start],by simp [Start]⟩

section
variable {s s' : ThreadPool τ}

theorem attentive_moves (h : Attentive s) (hsize : s'.taskQueueSize = s.taskQueueSize)
    (hrun : s'.isRunning = true → s.isRunning = true)
    (hw : ∀ v ∈ s'.workers, (∃ u ∈ s.workers, u.pc = v.pc) ∨
      ((waits v.pc = true → s.taskQueueSize = 0) ∧ (v.pc = .ready → s.hasWork = true))) :
    Attentive s' := by
  have hmono : s.hasWork = true → s'.hasWork = true := by
    simp only [ThreadPool.hasWork,hsize,Bool.or_eq_true,Bool.not_eq_true']
    intro hwork
    rcases hwork with hsome | hstop
    · exact .inl hsome
    · refine .inr (Bool.eq_false_iff.mpr fun hr => ?_)
      rw [hrun hr] at hstop
      exact Bool.noConfusion hstop
  refine ⟨?_,?_⟩
  · intro hsome v hv
    rw [hsize] at hsome
    rcases hw v hv with ⟨u,hu,hpc⟩ | ⟨hwaits,-⟩
    · rw [← hpc]
      exact h.awake hsome u hu
    · exact Bool.eq_false_iff.mpr fun hv => hsome (hwaits hv)
  · intro v hv hready
    apply hmono
    rcases hw v hv with ⟨u,hu,hpc⟩ | ⟨-,hfound⟩
    · exact h.ready u hu (hpc.trans hready)
    · exact hfound hready

theorem attentive_frame (h : Attentive s) (hsize : s'.taskQueueSize = s.taskQueueSize)
    (hrun : s'.isRunning = true → s.isRunning = true) (hw : s'.workers = s.workers) :
    Attentive s' :=
  attentive_moves h hsize hrun fun v hv => .inl ⟨v,hw ▸ hv,rfl⟩

theorem attentive_setPc (h : Attentive s) {k : ℕ} {w : Worker τ} {pc : WorkerPc}
    (hw : s'.workers = s.workers.set k { w with pc := pc })
    (hsize : s'.taskQueueSize = s.taskQueueSize) (hrun : s'.isRunning = s.isRunning)
    (hwaits : waits pc = true → s.taskQueueSize = 0) (hready : pc = .ready → s.hasWork = true) :
    Attentive s' := by
  refine attentive_moves h hsize (fun hr => hrun ▸ hr) fun v hv => ?_
  rw [hw] at hv
  rcases List.mem_or_eq_of_mem_set hv with hmem | rfl
  · exact .inl ⟨v,hmem,rfl⟩
  · exact .inr ⟨hwaits,hready⟩

theorem notified_pc (pc : WorkerPc) :
    pc.notified = pc ∨ (waits pc.notified = false ∧ pc.notified ≠ .ready) := by
  cases pc with
  | asleep timed => exact .inr ⟨rfl,WorkerPc.noConfusion⟩
  | _ => exact .inl rfl

theorem attentive_notified (h : Attentive s) (hsize : s'.taskQueueSize = s.taskQueueSize)
    (hrun : s'.isRunning = s.isRunning) (hw : s'.workers = s.notifyNotEmpty.workers) :
    Attentive s' := by
  refine attentive_moves h hsize (fun hr => hrun ▸ hr) fun v hv => ?_
  rw [hw,ThreadPool.notifyNotEmpty] at hv
  obtain ⟨u,hu,rfl⟩ := List.mem_map.mp hv
  rcases notified_pc u.pc with hpc | ⟨hwaits,hready⟩
  · exact .inl ⟨u,hu,hpc.symm⟩
  · exact .inr ⟨fun hv => Bool.noConfusion (hwaits.symm.trans hv),fun hv => absurd hv hready⟩

/-- A submission finds the mutex free, so no worker is between its look at the
queue and its wait. -/
theorem attentive_accepts (hl : Locked s) (hfree : s.owner = none)
    (hw : s'.workers = s.notifyNotEmpty.workers) : Attentive s' := by
  have hoff : ∀ v ∈ s'.workers, waits v.pc = false ∧ v.pc ≠ .ready := by
    intro v hv
    rw [hw,ThreadPool.notifyNotEmpty] at hv
    obtain ⟨u,hu,rfl⟩ := List.mem_map.mp hv
    obtain ⟨k,hk⟩ := List.getElem?_of_mem hu
    have hout : holdsMutex u.pc = false := by
      rw [← Bool.not_eq_true,hl.holder k u hk,hfree]
      simp
    dsimp only
    cases hpc : u.pc with
    | blocking timed => rw [hpc] at hout; exact Bool.noConfusion hout
    | ready => rw [hpc] at hout; exact Bool.noConfusion hout
    | _ => exact ⟨rfl,WorkerPc.noConfusion⟩
  exact ⟨fun _ v hv => (hoff v hv).1,fun v hv hready => absurd hready (hoff v hv).2⟩

theorem attentive_destroy (h : Attentive s) (hd : Destroy s s') : Attentive s' := by
  cases hd with
  | stops hd => exact attentive_frame h rfl Bool.noConfusion rfl
  | notifies hd => exact attentive_notified h rfl rfl rfl
  | _ => exact attentive_frame h rfl id rfl

theorem hasWork_false_size (h : s.hasWork = false) : s.taskQueueSize = 0 := by
  simp only [ThreadPool.hasWork,Bool.or_eq_false_iff,decide_eq_false_iff_not] at h
  exact UInt64.le_antisymm (UInt64.not_lt.mp h.1) (UInt64.zero_le)

variable {config : ThreadPoolConfig}

theorem walk_attentive (h : Attentive s) {k : ℕ} {w : Worker τ} (hk : s.workers[k]? = some w)
    {pc : WorkerPc} {owner : Option (Owner τ)} (hwalk : Walk s k w.pc pc owner)
    (hseen : Seen config s w.pc pc) : Attentive { s.setPc k w pc with owner := owner } := by
  have hmem := List.mem_of_getElem? hk
  refine attentive_setPc h rfl rfl rfl ?_ ?_
  · intro hwaits
    generalize hpc : w.pc = before at hwalk
    cases hwalk with
    | blocks timed hwork => exact hasWork_false_size hwork
    | sleeps timed =>
      by_contra hsome
      have hno := h.awake hsome w hmem
      rw [hpc] at hno
      exact Bool.noConfusion hno
    | _ => exact Bool.noConfusion hwaits
  · intro hready
    generalize hpc : w.pc = before at hwalk hseen
    cases hwalk with
    | finds timed timedOut => exact hseen
    | _ => exact WorkerPc.noConfusion hready

variable [DecidableEq τ]

theorem act_attentive (hl : Locked s) (h : Attentive s) {i : Input τ}
    {r : ThreadPool τ × List Output} (ha : Act config s i r)
    (hseen : ∀ {j : ℕ} {u v : Worker τ}, s.workers[j]? = some u → r.1.workers[j]? = some v →
      Seen config s u.pc v.pc) : Attentive r.1 := by
  have hcreate : ∀ {pc : CreatePc τ} {spawn : Option τ} {t : ThreadPool τ} {res : CreateResult τ}
      {s' : ThreadPool τ}, s.createThread config spawn pc = (t,res) → s'.workers = t.workers →
      s'.taskQueueSize = t.taskQueueSize → s'.isRunning = t.isRunning → Attentive s' := by
    intro pc spawn t res s' hr hw hsize hrun
    obtain ⟨⟨new,hnew,htop⟩,hsame⟩ := createThread_workers hr
    refine attentive_moves h (hsize.trans hsame) ?_ fun v hv => ?_
    · rw [hrun,(createThread_frame hr).2.2.1]
      exact id
    · rw [hw,hnew,List.mem_append] at hv
      rcases hv with hold | hlast
      · exact .inl ⟨v,hold,rfl⟩
      · rw [htop v hlast]
        exact .inr ⟨Bool.noConfusion,WorkerPc.noConfusion⟩
  cases ha with
  | accepts priority callback hfree hroom hrun => exact attentive_accepts hl hfree rfl
  | creates spawn f pc r res howner hr => cases res <;> exact hcreate hr rfl rfl rfl
  | starts spawn pc r res hpc hr => cases res <;> exact hcreate hr rfl rfl rfl
  | walks i k w pc owner hk hwalk hi =>
    have hw : (s.setPc k w pc).workers[k]? = some { w with pc := pc } :=
      List.getElem?_set_self (List.getElem?_eq_some_iff.mp hk).1
    exact walk_attentive h hk hwalk (hseen hk hw)
  | takes k choice w x hk hpc hx =>
    have hsome := hl.taking k w hk hpc
    refine ⟨fun _ v hv => ?_,fun v hv hready => ?_⟩
    · rcases List.mem_or_eq_of_mem_set hv with hmem | rfl
      · exact h.awake hsome v hmem
      · rfl
    · obtain ⟨j,hj⟩ := List.getElem?_of_mem hv
      rcases setPc_get hk rfl hj with ⟨rfl,hnew⟩ | ⟨hne,hold⟩
      · exact WorkerPc.noConfusion (hnew.symm.trans hready)
      · exact absurd (locked_exclusive hl hold hk (by rw [hready]; rfl) (by rw [hpc]; rfl)) hne
  | exits k choice w locked hk hpc =>
    obtain ⟨hworkers,-,hsize⟩ := threadExit_same s w.threadId
    refine attentive_setPc h (congrArg (List.set · k _) hworkers) hsize ?_ Bool.noConfusion
      WorkerPc.noConfusion
    show (s.threadExit w.threadId).isRunning = s.isRunning
    rw [ThreadPool.threadExit]
    split_ifs <;> rfl
  | queues k w f hk hpc hf => exact attentive_setPc h rfl rfl rfl Bool.noConfusion WorkerPc.noConfusion
  | finishes k w f queued hk hpc =>
    exact attentive_setPc h rfl rfl rfl Bool.noConfusion WorkerPc.noConfusion
  | destroys => exact attentive_destroy h (destructorStep_destroy s)
  | _ => exact attentive_frame h rfl id rfl

theorem step_attentive (hl : Locked s) (h : Attentive s) (i : Input τ) :
    Attentive ((threadPool config).step s i).1 :=
  act_attentive hl h (step_act config s i) (step_seen s i)

end

theorem run_attentive [DecidableEq τ] (config : ThreadPoolConfig) (is : List (Input τ)) :
    Attentive ((threadPool config).run (Start config : ThreadPool τ) is).1 :=
  (run_invariant (threadPool config) (fun s _ => Locked s ∧ Attentive s)
    (fun _ _ i h => ⟨step_locked config h.1 i,step_attentive h.1 h.2 i⟩) (Start config) is
    ⟨locked_start config,attentive_start config⟩).2

/-- No wake-up is lost: in every interleaving, while a task is queued no worker
is asleep, or past its last look at the queue on its way to sleep. -/
theorem queued_task_finds_workers_awake [DecidableEq τ] (config : ThreadPoolConfig)
    (is : List (Input τ))
    (hqueue : ((threadPool config).run (Start config : ThreadPool τ) is).1.taskQueue ≠ []) :
    ∀ w ∈ ((threadPool config).run (Start config : ThreadPool τ) is).1.workers,
      ∀ timed, w.pc ≠ .blocking timed ∧ w.pc ≠ .asleep timed := by
  intro w hw timed
  have hsome : ((threadPool config).run (Start config : ThreadPool τ) is).1.taskQueueSize ≠ 0 := by
    intro hzero
    have hsize := (run_balanced config is).size
    rw [books,hzero] at hsize
    exact hqueue (List.length_eq_zero_iff.mp hsize.symm)
  have hawake := (run_attentive config is).awake hsome w hw
  constructor
  · intro hpc
    rw [hpc] at hawake
    exact Bool.noConfusion hawake
  · intro hpc
    rw [hpc] at hawake
    exact Bool.noConfusion hawake

def taskArrives : List (Input ℕ) := aboutToWait++[.worker 0 0,.enqueueTask 1 false]

theorem arrived_task_wakes_worker :
    ((threadPool fixedConfig).run (Start fixedConfig) taskArrives).1.workers.map Worker.pc =
      [.waking false false] ∧
    ∀ w ∈ ((threadPool fixedConfig).run (Start fixedConfig) taskArrives).1.workers,
      ∀ timed, w.pc ≠ .blocking timed ∧ w.pc ≠ .asleep timed :=
  ⟨by decide +kernel,queued_task_finds_workers_awake fixedConfig taskArrives (by decide +kernel)⟩

def steady : WorkerPc → Bool
  | .testing timed timedOut => !timed && !timedOut
  | .blocking timed => !timed
  | .asleep timed => !timed
  | .waking timed timedOut => !timed && !timedOut
  | .exiting => false
  | .leaving => false
  | .exited _ => false
  | .gone => false
  | _ => true

def Staffed (s : ThreadPool τ) : Prop := s.isRunning = true → ∀ w ∈ s.workers, steady w.pc = true

section
variable {config : ThreadPoolConfig} {s : ThreadPool τ}

theorem walk_steady (hmode : config.mode = .kFixed) (hrun : s.isRunning = true) {k : ℕ}
    {pc pc' : WorkerPc} {owner : Option (Owner τ)} (h : Walk s k pc pc' owner)
    (hseen : Seen config s pc pc') (hpc : steady pc = true) : steady pc' = true := by
  cases h with
  | stops hstop => exact Bool.noConfusion (hrun.symm.trans hstop)
  | gives hstop => exact Bool.noConfusion (hrun.symm.trans hstop)
  | givesUp hstop => exact Bool.noConfusion (hrun.symm.trans hstop)
  | looks timed =>
    have htimed : timed ≠ true := fun ht => PoolMode.noConfusion (hmode.symm.trans (hseen.2 ht))
    simp [steady,htimed]
  | expires timed hwork => simp [steady] at hpc
  | blocks timed hwork => simpa [steady] using hpc
  | wakes timed timedOut =>
    have htimed : timed = false := by simpa [steady] using hpc
    have hout : timedOut ≠ true := fun ho => Bool.noConfusion (htimed.symm.trans (hseen ho))
    simp [steady,htimed,hout]
  | leaves => exact hpc
  | leavesLocked => exact hpc
  | _ => first | exact hpc | rfl

theorem notified_steady {pc : WorkerPc} (h : steady pc = true) : steady pc.notified = true := by
  cases pc with
  | asleep timed => simpa [steady,WorkerPc.notified] using h
  | _ => exact h

variable [DecidableEq τ]

theorem act_steady (hmode : config.mode = .kFixed) (hrun : s.isRunning = true) {i : Input τ}
    {r : ThreadPool τ × List Output} (ha : Act config s i r)
    (hseen : ∀ {j : ℕ} {u v : Worker τ}, s.workers[j]? = some u → r.1.workers[j]? = some v →
      Seen config s u.pc v.pc)
    (h : ∀ w ∈ s.workers, steady w.pc = true) : ∀ w ∈ r.1.workers, steady w.pc = true := by
  have hset : ∀ {s' : ThreadPool τ} {k : ℕ} {w : Worker τ} {pc : WorkerPc},
      s'.workers = s.workers.set k { w with pc := pc } → steady pc = true →
      ∀ v ∈ s'.workers, steady v.pc = true := by
    intro s' k w pc hw hpc v hv
    rw [hw] at hv
    rcases List.mem_or_eq_of_mem_set hv with hmem | rfl
    · exact h v hmem
    · exact hpc
  have hnotified : ∀ v ∈ s.notifyNotEmpty.workers, steady v.pc = true := by
    intro v hv
    obtain ⟨u,hu,rfl⟩ := List.mem_map.mp hv
    exact notified_steady (h u hu)
  have hcreate : ∀ {pc : CreatePc τ} {spawn : Option τ} {t : ThreadPool τ} {res : CreateResult τ},
      s.createThread config spawn pc = (t,res) → ∀ v ∈ t.workers, steady v.pc = true := by
    intro pc spawn t res hr v hv
    obtain ⟨⟨new,hnew,htop⟩,-⟩ := createThread_workers hr
    rw [hnew,List.mem_append] at hv
    rcases hv with hold | hlast
    · exact h v hold
    · rw [htop v hlast]
      rfl
  cases ha with
  | accepts priority callback hfree hroom hrun => exact hnotified
  | creates spawn f pc r res howner hr =>
    have hall := hcreate hr
    cases res <;> exact hall
  | starts spawn pc r res hpc hr =>
    have hall := hcreate hr
    cases res <;> exact hall
  | walks i k w pc owner hk hwalk hi =>
    have hw : (s.setPc k w pc).workers[k]? = some { w with pc := pc } :=
      List.getElem?_set_self (List.getElem?_eq_some_iff.mp hk).1
    exact hset rfl (walk_steady hmode hrun hwalk (hseen hk hw) (h w (List.mem_of_getElem? hk)))
  | takes k choice w x hk hpc hx => exact hset rfl rfl
  | exits k choice w locked hk hpc =>
    have hw := h w (List.mem_of_getElem? hk)
    rw [hpc] at hw
    cases locked <;> exact Bool.noConfusion hw
  | queues k w f hk hpc hf => exact hset rfl rfl
  | finishes k w f queued hk hpc => exact hset rfl rfl
  | destroys =>
    have hd := destructorStep_destroy s
    generalize s.destructorStep = s' at hd
    cases hd with
    | notifies hd => exact hnotified
    | _ => exact h
  | _ => exact h

theorem step_staffed (hmode : config.mode = .kFixed) (h : Staffed s) (i : Input τ) :
    Staffed ((threadPool config).step s i).1 := by
  intro hrun
  have hbefore := step_running config hrun
  exact act_steady hmode hbefore (step_act config s i) (step_seen s i) (h hbefore)

end

theorem run_staffed [DecidableEq τ] (config : ThreadPoolConfig) (hmode : config.mode = .kFixed)
    (is : List (Input τ)) : Staffed ((threadPool config).run (Start config : ThreadPool τ) is).1 :=
  run_invariant (threadPool config) (fun s _ => Staffed s) (fun _ _ i h => step_staffed hmode h i)
    (Start config) is (by simp [Staffed,Start])

theorem staffed_worker {s : ThreadPool τ} (h : Staffed s) (hrun : s.isRunning = true)
    (hsome : 0 < s.workers.length) : ∃ w ∈ s.workers, w.pc ≠ .gone := by
  obtain ⟨w,ws,hw⟩ := List.exists_cons_of_length_pos hsome
  have hmem : w ∈ s.workers := hw ▸ List.mem_cons_self
  refine ⟨w,hmem,fun hpc => ?_⟩
  have hsteady := h hrun w hmem
  rw [hpc] at hsteady
  exact Bool.noConfusion hsteady

end MiniRpc.PoolAttention
