import Mathlib.Data.Fintype.EquivFin
import MiniRpc.PoolMoves
import MiniRpc.PoolProgress

/-!
# The threads that `Start` created

A worker of a cached pool that finds more than `initThreadSize_` threads
waits with a time limit, and leaves when the limit is reached. It compares the
number of threads before the wait only, and does not see how many others wait
like this already. So the threads that `Start` created are kept as long as no
more workers are in timed waits than there are threads in excess of them, and
where one more begins such a wait, time alone can take the pool below.
-/

set_option autoImplicit false

namespace MiniRpc.CoreThreads
open MiniRpc.StepMachine MiniRpc.Settling MiniRpc.WorkerPool MiniRpc.PoolSteps
open MiniRpc.PoolAccounting MiniRpc.PoolMutex MiniRpc.PoolMoves MiniRpc.PoolThreads
open MiniRpc.PoolRegistry MiniRpc.PoolShutdown MiniRpc.PoolAttention MiniRpc.PoolProgress

variable {τ : Type}

def enters : Option (CreatePc τ) → ℕ
  | some .entering => 1
  | _ => 0

def toStart (s : ThreadPool τ) : ℕ := s.starting+enters s.startPc

/-- While the pool is running, there are the threads that `Start` was asked
for, but for those it has yet to count. -/
def CoreKept (config : ThreadPoolConfig) (s : ThreadPool τ) : Prop :=
  s.isRunning = true → config.initThreadCount.toNat ≤ s.currentThreadCount.toNat+toStart s

def startThrows (s : ThreadPool τ) : Input τ → Bool
  | .start none =>
    match s.startPc with
    | some .counted => true
    | _ => false
  | _ => false

/-- The wait for work has a time limit, and the worker has neither found work
nor left. -/
def timedWait : WorkerPc → Bool
  | .testing timed timedOut => timed || timedOut
  | .blocking timed => timed
  | .asleep timed => timed
  | .waking timed timedOut => timed || timedOut
  | .leaving => true
  | _ => false

def timedWaits (s : ThreadPool τ) : ℕ := s.workers.countP fun w => timedWait w.pc

/-- The threads there are once `Start` is through. -/
def crew (config : ThreadPoolConfig) (s : ThreadPool τ) : ℕ :=
  min (s.currentThreadCount.toNat+toStart s) config.maxThreadCount.toNat

/-- A worker finds the queue empty and decides to wait with a time limit. -/
def beginsTimed (config : ThreadPoolConfig) (s : ThreadPool τ) : Input τ → Bool
  | .worker k _ =>
    match s.workers[k]? with
    | some w => w.pc = .looking && s.taskQueueSize = 0 && config.mode = .kCached &&
        s.currentThreadCount > config.initThreadCount
    | none => false
  | _ => false

/-- It does so while as many workers wait like this as there are threads in
excess of `initThreadCount`. -/
def overbooks (config : ThreadPoolConfig) (s : ThreadPool τ) (i : Input τ) : Bool :=
  beginsTimed config s i && s.isRunning &&
    crew config s ≤ config.initThreadCount.toNat+timedWaits s

section
variable [DecidableEq τ] {s : ThreadPool τ}

inductive Headcount (config : ThreadPoolConfig) (s : ThreadPool τ) (i : Input τ)
    (s' : ThreadPool τ) : Prop where
  | same (hcount : s'.currentThreadCount = s.currentThreadCount)
  | counts (hroom : s.currentThreadCount < config.maxThreadCount)
      (hcount : s'.currentThreadCount = s.currentThreadCount+1)
  | exits (k choice : ℕ) (w : Worker τ) (hi : i = .worker k choice) (hk : s.workers[k]? = some w)
      (hpc : w.pc = .leaving ∨ w.pc = .exiting) (hmem : w.threadId ∈ s.threads)
      (hcount : s'.currentThreadCount = s.currentThreadCount-1)

theorem createThread_headcount {config : ThreadPoolConfig} {pc : CreatePc τ} {spawn : Option τ}
    {r : ThreadPool τ} {res : CreateResult τ} (hr : s.createThread config spawn pc = (r,res)) :
    r.currentThreadCount = s.currentThreadCount ∨
    (s.currentThreadCount < config.maxThreadCount ∧
      r.currentThreadCount = s.currentThreadCount+1) := by
  cases createThread_create hr with
  | counts hroom => exact .inr ⟨hroom,rfl⟩
  | _ => exact .inl rfl

omit [DecidableEq τ] in
theorem destroy_counts {s' : ThreadPool τ} (h : Destroy s s') :
    s'.currentThreadCount = s.currentThreadCount ∧ toStart s' = toStart s := by
  cases h <;> exact ⟨rfl,rfl⟩

theorem threadExit_headcount {config : ThreadPoolConfig} {k choice : ℕ} {w : Worker τ}
    (hk : s.workers[k]? = some w) (hpc : w.pc = .leaving ∨ w.pc = .exiting) (pc : WorkerPc) :
    Headcount config s (.worker k choice) ((s.threadExit w.threadId).setPc k w pc) := by
  rw [ThreadPool.threadExit]
  by_cases hmem : w.threadId ∈ s.threads
  · rw [if_pos hmem]
    exact .exits k choice w rfl hk hpc hmem rfl
  · rw [if_neg hmem]
    exact .same rfl

theorem act_headcount {config : ThreadPoolConfig} {i : Input τ} {r : ThreadPool τ × List Output}
    (h : Act config s i r) : Headcount config s i r.1 := by
  cases h with
  | creates spawn f pc r res howner hr =>
    rcases createThread_headcount hr with hsame | ⟨hroom,hcount⟩
    · cases res <;> exact .same hsame
    · cases res <;> exact .counts hroom hcount
  | starts spawn pc r res hpc hr =>
    rcases createThread_headcount hr with hsame | ⟨hroom,hcount⟩
    · cases res <;> exact .same hsame
    · cases res <;> exact .counts hroom hcount
  | exits k choice w locked hk hpc =>
    cases locked with
    | false => exact threadExit_headcount hk (.inr hpc) _
    | true => exact threadExit_headcount hk (.inl hpc) _
  | destroys => exact .same (destroy_counts (destructorStep_destroy s)).1
  | _ => exact .same rfl

variable (config : ThreadPoolConfig)

theorem step_headcount (s : ThreadPool τ) (i : Input τ) :
    Headcount config s i ((threadPool config).step s i).1 := act_headcount (step_act config s i)

theorem act_toStart {i : Input τ} {r : ThreadPool τ × List Output} (h : Act config s i r)
    (hno : startThrows s i = false) :
    toStart r.1 = toStart s ∨
    toStart s = toStart r.1+1 ∧
      (s.currentThreadCount < config.maxThreadCount ∧
        r.1.currentThreadCount = s.currentThreadCount+1 ∨
      config.maxThreadCount ≤ s.currentThreadCount ∧
        r.1.currentThreadCount = s.currentThreadCount) := by
  cases h with
  | creates spawn f pc r res howner hr =>
    obtain ⟨workers,threads,current,idle,rfl⟩ := createThread_writes hr
    cases res <;> exact .inl rfl
  | startsNext spawn hpc hleft =>
    left
    rw [toStart,toStart,hpc]
    exact Nat.succ_pred_eq_of_ne_zero hleft
  | starts spawn pc r res hpc hr =>
    rw [toStart,toStart,hpc]
    cases createThread_create hr with
    | full hfull => exact .inr ⟨rfl,.inr ⟨hfull,rfl⟩⟩
    | counts hroom => exact .inr ⟨rfl,.inl ⟨hroom,rfl⟩⟩
    | throws hspawn =>
      rw [startThrows.eq_def,hspawn,hpc] at hno
      cases hno
    | _ => exact .inl rfl
  | exits k choice w locked hk hpc =>
    rw [ThreadPool.threadExit]
    split_ifs <;> exact .inl rfl
  | destroys => exact .inl (destroy_counts (destructorStep_destroy s)).2
  | _ => exact .inl rfl

theorem step_toStart {i : Input τ} (hno : startThrows s i = false) :
    toStart ((threadPool config).step s i).1 = toStart s ∨
    toStart s = toStart ((threadPool config).step s i).1+1 ∧
      (s.currentThreadCount < config.maxThreadCount ∧
        ((threadPool config).step s i).1.currentThreadCount = s.currentThreadCount+1 ∨
      config.maxThreadCount ≤ s.currentThreadCount ∧
        ((threadPool config).step s i).1.currentThreadCount = s.currentThreadCount) :=
  act_toStart config (step_act config s i) hno

def ExitsStopped (s : ThreadPool τ) : Prop := ∀ w ∈ s.workers, w.pc = .exiting → s.isRunning = false

theorem step_exitsStopped (h : ExitsStopped s) (i : Input τ) :
    ExitsStopped ((threadPool config).step s i).1 := by
  intro w hw hpc
  have hstopped : s.isRunning = false := by
    have harrives := step_arrives config s i w hw
    rw [hpc] at harrives
    rcases harrives with ⟨u,hu,hexit⟩ | harrival
    · exact h u hu hexit
    · cases harrival with
      | idles _ hexit => exact absurd rfl hexit
      | stops hstop => exact hstop
  rw [← Bool.not_eq_true]
  intro hrun
  rw [step_running config hrun] at hstopped
  cases hstopped

omit [DecidableEq τ] in
theorem live_counted {os : List Output} (hb : Balanced config (books s) os) {k : ℕ} {w : Worker τ}
    (hk : s.workers[k]? = some w) (hlive : isLive w.pc = true) : 0 < s.currentThreadCount.toNat := by
  obtain ⟨others,-,hcount,-⟩ := worker_share hk
  have hload : liveCount s.workers+spawns s ≤ s.currentThreadCount.toNat := hb.load
  rw [hcount,if_pos hlive] at hload
  omega

omit [DecidableEq τ] in
theorem timedWaits_set {k : ℕ} {w : Worker τ} (hk : s.workers[k]? = some w) (s' : ThreadPool τ)
    {pc : WorkerPc} (hw : s'.workers = s.workers.set k { w with pc := pc }) :
    timedWaits s'+(timedWait w.pc).toNat = timedWaits s+(timedWait pc).toNat := by
  obtain ⟨hlt,hget⟩ := List.getElem?_eq_some_iff.mp hk
  have hall : s.workers.Perm (w::s.workers.eraseIdx k) := by
    rw [← hget]
    exact (List.getElem_cons_eraseIdx_perm hlt).symm
  rw [timedWaits,timedWaits,hw,hall.countP_eq,
    (List.set_perm_cons_eraseIdx hlt { w with pc := pc }).countP_eq,List.countP_cons,List.countP_cons]
  cases timedWait w.pc <;> cases timedWait pc <;> simp

omit [DecidableEq τ] in
theorem timedWaits_walk {k : ℕ} {w : Worker τ} (hk : s.workers[k]? = some w) {s' : ThreadPool τ}
    {pc : WorkerPc} (hw : s'.workers = s.workers.set k { w with pc := pc })
    (hpc : timedWait pc = true → timedWait w.pc = true) : timedWaits s' ≤ timedWaits s := by
  have hset := timedWaits_set hk s' hw
  have hle : (timedWait pc).toNat ≤ (timedWait w.pc).toNat := Bool.toNat_le_toNat hpc
  omega

omit [DecidableEq τ] in
theorem timedWaits_notify (s : ThreadPool τ) : timedWaits s.notifyNotEmpty = timedWaits s := by
  rw [timedWaits,ThreadPool.notifyNotEmpty,List.countP_map]
  apply List.countP_congr
  intro w _
  dsimp only [Function.comp]
  cases w.pc <;> simp [WorkerPc.notified,timedWait]

omit [DecidableEq τ] in
theorem timedWaits_append {s' : ThreadPool τ} {new : List (Worker τ)}
    (hw : s'.workers = s.workers++new) (htop : ∀ w ∈ new, w.pc = .top) :
    timedWaits s' = timedWaits s := by
  have hnone : new.countP (fun w => timedWait w.pc) = 0 := by
    apply List.countP_eq_zero.mpr
    intro w hmem
    rw [htop w hmem]
    exact Bool.false_ne_true
  rw [timedWaits,hw,List.countP_append,hnone]
  rfl

theorem workerStep_timedWaits {k : ℕ} {w : Worker τ} (hk : s.workers[k]? = some w) (choice : ℕ) :
    timedWaits (s.workerStep config k w choice).1 ≤
      timedWaits s+(beginsTimed config s (.worker k choice)).toNat := by
  have hmoves : ∀ {s' : ThreadPool τ} {pc : WorkerPc},
      s'.workers = s.workers.set k { w with pc := pc } →
      (timedWait pc = true → timedWait w.pc = true) →
      timedWaits s' ≤ timedWaits s+(beginsTimed config s (.worker k choice)).toNat :=
    fun hw hpc => (timedWaits_walk hk hw hpc).trans (Nat.le_add_right _ _)
  rw [ThreadPool.workerStep.eq_def]
  cases hpc : w.pc with
  | top => split_ifs <;> exact hmoves rfl Bool.noConfusion
  | locking =>
    dsimp only
    split_ifs
    · exact hmoves rfl Bool.noConfusion
    · exact Nat.le_add_right _ _
  | looking =>
    dsimp only
    split_ifs with hempty hrun
    · have hset := timedWaits_set hk (s.setPc k w (.testing (config.mode = .kCached ∧
        s.currentThreadCount > config.initThreadCount) false)) rfl
      have hdecides : beginsTimed config s (.worker k choice) =
          decide (config.mode = .kCached ∧ s.currentThreadCount > config.initThreadCount) := by
        simp [beginsTimed,hk,hpc,hempty]
      rw [hpc] at hset
      rw [hdecides]
      simpa [timedWait] using Nat.le_of_eq hset
    · exact hmoves rfl Bool.noConfusion
    · exact hmoves rfl Bool.noConfusion
  | testing timed timedOut =>
    dsimp only
    split_ifs with hwork hout
    · exact hmoves rfl Bool.noConfusion
    · exact hmoves rfl fun _ => by rw [hpc,timedWait,hout,Bool.or_true]
    · exact hmoves rfl fun htimed => by rw [hpc,timedWait,show timed = true from htimed,Bool.true_or]
  | blocking timed => exact hmoves rfl fun htimed => by rw [hpc]; exact htimed
  | waking timed timedOut =>
    dsimp only
    split_ifs
    · exact hmoves rfl fun htimed => by rw [hpc]; exact htimed
    · exact Nat.le_add_right _ _
  | ready =>
    dsimp only
    split_ifs <;> exact hmoves rfl Bool.noConfusion
  | taking =>
    dsimp only
    rw [ThreadPool.takeTask]
    split
    · exact Nat.le_add_right _ _
    · exact hmoves rfl Bool.noConfusion
  | exiting => exact hmoves (congrArg (List.set · k _) (threadExit_same s w.threadId).1) Bool.noConfusion
  | leaving => exact hmoves (congrArg (List.set · k _) (threadExit_same s w.threadId).1) Bool.noConfusion
  | exited locked => cases locked <;> exact hmoves rfl Bool.noConfusion
  | _ => exact Nat.le_add_right _ _

omit [DecidableEq τ] in
theorem wakeStep_timedWaits {k : ℕ} {w : Worker τ} (hk : s.workers[k]? = some w) (timedOut : Bool) :
    timedWaits (s.wakeStep k w timedOut) ≤ timedWaits s := by
  rw [ThreadPool.wakeStep.eq_def]
  cases hpc : w.pc with
  | asleep timed =>
    dsimp only
    split_ifs with hno
    · exact Nat.le_refl _
    · refine timedWaits_walk hk rfl fun htimed => ?_
      rw [hpc]
      cases timed with
      | true => rfl
      | false => exact absurd ⟨htimed,rfl⟩ hno
  | _ => exact Nat.le_refl _

def ofWorker : Input τ → Bool
  | .worker _ _ => true
  | .wake _ => true
  | .timeout _ => true
  | _ => false

theorem act_timedWaits {i : Input τ} {r : ThreadPool τ × List Output} (h : Act config s i r)
    (hi : ofWorker i = false) : timedWaits r.1 ≤ timedWaits s := by
  cases h with
  | accepts priority callback hfree hroom hrun => exact Nat.le_of_eq (timedWaits_notify s)
  | creates spawn f pc r res howner hr =>
    obtain ⟨⟨new,hnew,htop⟩,-⟩ := createThread_workers hr
    cases res <;> exact Nat.le_of_eq (timedWaits_append hnew htop)
  | starts spawn pc r res hpc hr =>
    obtain ⟨⟨new,hnew,htop⟩,-⟩ := createThread_workers hr
    cases res <;> exact Nat.le_of_eq (timedWaits_append hnew htop)
  | walks i k w pc owner hk hwalk hworker =>
    rcases hworker with ⟨choice,rfl⟩ | rfl | rfl <;> exact Bool.noConfusion hi
  | takes k choice w x hk hpc hx => exact Bool.noConfusion hi
  | exits k choice w locked hk hpc => exact Bool.noConfusion hi
  | queues k w f hk hpc hf => exact timedWaits_walk hk rfl Bool.noConfusion
  | finishes k w f queued hk hpc => exact timedWaits_walk hk rfl Bool.noConfusion
  | destroys =>
    have hd := destructorStep_destroy s
    generalize s.destructorStep = t at hd ⊢
    cases hd with
    | notifies hd => exact Nat.le_of_eq (timedWaits_notify s)
    | _ => exact Nat.le_refl _
  | _ => exact Nat.le_refl _

theorem step_timedWaits (s : ThreadPool τ) (i : Input τ) :
    timedWaits ((threadPool config).step s i).1 ≤ timedWaits s+(beginsTimed config s i).toNat := by
  cases hi : ofWorker i with
  | false => exact (act_timedWaits config (step_act config s i) hi).trans (Nat.le_add_right _ _)
  | true =>
    cases i with
    | worker k choice =>
      simp only [threadPool,ThreadPool.withWorker]
      cases hk : s.workers[k]? with
      | none => exact Nat.le_add_right _ _
      | some w => exact workerStep_timedWaits config hk choice
    | wake k =>
      simp only [threadPool,ThreadPool.withWorker]
      cases hk : s.workers[k]? with
      | none => exact Nat.le_add_right _ _
      | some w => exact wakeStep_timedWaits hk false
    | timeout k =>
      simp only [threadPool,ThreadPool.withWorker]
      cases hk : s.workers[k]? with
      | none => exact Nat.le_add_right _ _
      | some w => exact wakeStep_timedWaits hk true
    | _ => exact Bool.noConfusion hi

theorem leaving_step {k : ℕ} {w : Worker τ} (hk : s.workers[k]? = some w) (hpc : w.pc = .leaving)
    (choice : ℕ) : ((threadPool config).step s (.worker k choice)).1 =
      (s.threadExit w.threadId).setPc k w (.exited true) := by
  simp only [threadPool,ThreadPool.withWorker,hk,ThreadPool.workerStep,hpc]

/-- While the pool is running, every timed wait is that of a thread in
excess. -/
def Covered (config : ThreadPoolConfig) (s : ThreadPool τ) : Prop :=
  s.isRunning = true → config.initThreadCount.toNat+timedWaits s ≤ crew config s

omit [DecidableEq τ] in
theorem coreKept_of_covered (h : Covered config s) : CoreKept config s := by
  intro hrun
  have := h hrun
  rw [crew] at this
  omega

theorem step_covered {os : List Output} (hb : Balanced config (books s) os) (hstop : ExitsStopped s)
    (hcovered : Covered config s) {i : Input τ} (hno : startThrows s i = false)
    (hi : overbooks config s i = false) : Covered config ((threadPool config).step s i).1 := by
  intro hrun'
  have hrun := step_running config hrun'
  have hfits := hcovered hrun
  have htimed := step_timedWaits config s i
  have hroom : config.initThreadCount.toNat+timedWaits s+(beginsTimed config s i).toNat ≤
      crew config s := by
    cases hbegins : beginsTimed config s i with
    | false => exact hfits
    | true =>
      simp only [overbooks,hbegins,hrun,Bool.true_and,decide_eq_false_iff_not,Nat.not_le] at hi
      exact hi
  rw [crew] at hroom ⊢
  rcases step_toStart config hno with hstart | ⟨hstart,⟨hroom',hcount⟩ | ⟨hfull,hcount⟩⟩
  · rw [hstart]
    cases step_headcount config s i with
    | same hcount =>
      rw [hcount]
      omega
    | counts hroom' hcount =>
      rw [hcount,toNat_succ hroom']
      omega
    | exits k choice w hin hk hpc hmem hcount =>
      have hpos := live_counted config hb hk (by rcases hpc with h | h <;> rw [h] <;> rfl)
      rcases hpc with hleaving | hexiting
      · have hset := timedWaits_set hk ((s.threadExit w.threadId).setPc k w (.exited true))
          (congrArg (List.set · k _) (threadExit_same s w.threadId).1)
        rw [← leaving_step config hk hleaving choice,← hin,hleaving] at hset
        have hless : timedWaits ((threadPool config).step s i).1+1 = timedWaits s := hset
        rw [hcount,toNat_pred hpos]
        omega
      · have hstopped := hstop w (List.mem_of_getElem? hk) hexiting
        rw [hrun] at hstopped
        cases hstopped
  · rw [hcount,toNat_succ hroom']
    omega
  · have hfull' : config.maxThreadCount.toNat ≤ s.currentThreadCount.toNat := hfull
    rw [hcount]
    omega

/-- `s'` is reached from `s` by steps in which no worker begins a timed wait
and `Start` does not fail. -/
def Lapses (s s' : ThreadPool τ) : Prop :=
  ∃ js, Along (threadPool config)
      (fun s j => beginsTimed config s j = false ∧ startThrows s j = false) s js ∧
    ((threadPool config).run s js).1 = s'

theorem lapses_refl (s : ThreadPool τ) : Lapses config s s := ⟨[],trivial,rfl⟩

theorem lapses_trans {s₁ s₂ s₃ : ThreadPool τ} (h : Lapses config s₁ s₂) (h' : Lapses config s₂ s₃) :
    Lapses config s₁ s₃ := by
  obtain ⟨js,hjs,rfl⟩ := h
  obtain ⟨ks,hks,rfl⟩ := h'
  exact ⟨js++ks,(along_append _ _ _ _ _).mpr ⟨hjs,hks⟩,by rw [run_append]⟩

theorem lapses_step (s : ThreadPool τ) {j : Input τ} (hbegins : beginsTimed config s j = false)
    (hno : startThrows s j = false) : Lapses config s ((threadPool config).step s j).1 :=
  ⟨[j],⟨⟨hbegins,hno⟩,trivial⟩,rfl⟩

theorem lapses_worker {k : ℕ} {w : Worker τ} (hk : s.workers[k]? = some w) (hpc : w.pc ≠ .looking) :
    Lapses config s (s.workerStep config k w 0).1 := by
  have hstep : ((threadPool config).step s (.worker k 0)).1 = (s.workerStep config k w 0).1 := by
    simp only [threadPool,ThreadPool.withWorker,hk]
  rw [← hstep]
  exact lapses_step config s (by simp [beginsTimed,hk,hpc]) rfl

def placed (s : ThreadPool τ) (k : ℕ) (w : Worker τ) (pc : WorkerPc) (owner : Option (Owner τ)) :
    ThreadPool τ := { s.setPc k w pc with owner := owner }

omit [DecidableEq τ] in
@[simp] theorem placed_setPc (k : ℕ) (w : Worker τ) (pc pc' : WorkerPc) (owner : Option (Owner τ)) :
    (placed s k w pc owner).setPc k { w with pc := pc } pc' = placed s k w pc' owner := by
  simp only [placed,ThreadPool.setPc,List.set_set]

theorem placed_threadExit (k : ℕ) (w : Worker τ) (pc : WorkerPc) (owner : Option (Owner τ)) (t : τ) :
    (placed s k w pc owner).threadExit t = placed (s.threadExit t) k w pc owner := by
  rw [ThreadPool.threadExit,ThreadPool.threadExit]
  split_ifs with h h' h' <;> first | rfl | exact absurd h h' | exact absurd h' h

section
variable {config} {k : ℕ} {w : Worker τ} (hk : s.workers[k]? = some w)
include hk

omit [DecidableEq τ] in
theorem placed_get (pc : WorkerPc) (owner : Option (Owner τ)) :
    (placed s k w pc owner).workers[k]? = some { w with pc := pc } :=
  List.getElem?_set_self (List.getElem?_eq_some_iff.mp hk).1

omit [DecidableEq τ] in
theorem placed_self : placed s k w w.pc s.owner = s := by
  obtain ⟨hlt,hget⟩ := List.getElem?_eq_some_iff.mp hk
  have hset : s.workers.set k w = s.workers := by
    rw [← hget]
    exact List.set_getElem_self hlt
  show { s with workers := s.workers.set k w } = s
  rw [hset]

theorem lapses_placed {pc pc' : WorkerPc} {owner owner' : Option (Owner τ)} (hpc : pc ≠ .looking)
    (h : ((placed s k w pc owner).workerStep config k { w with pc := pc } 0).1 =
      placed s k w pc' owner') :
    Lapses config (placed s k w pc owner) (placed s k w pc' owner') := by
  rw [← h]
  exact lapses_worker config (placed_get hk pc owner) hpc

theorem lapses_timeout (owner : Option (Owner τ)) :
    Lapses config (placed s k w (.asleep true) owner) (placed s k w (.waking true true) owner) := by
  have hstep : ((threadPool config).step (placed s k w (.asleep true) owner) (.timeout k)).1 =
      placed s k w (.waking true true) owner := by
    simp [threadPool,ThreadPool.withWorker,placed_get hk,ThreadPool.wakeStep]
  rw [← hstep]
  exact lapses_step config _ rfl rfl

theorem lapses_sleeps (hwork : s.hasWork = false) :
    Lapses config (placed s k w (.testing true false) (some (.worker k)))
      (placed s k w (.asleep true) none) := by
  have hwork' : (placed s k w (.testing true false) (some (.worker k))).hasWork = false := hwork
  have hblocks : Lapses config (placed s k w (.testing true false) (some (.worker k)))
      (placed s k w (.blocking true) (some (.worker k))) :=
    lapses_placed hk WorkerPc.noConfusion (by simp [ThreadPool.workerStep,hwork'])
  have hsleeps : Lapses config (placed s k w (.blocking true) (some (.worker k)))
      (placed s k w (.asleep true) none) :=
    lapses_placed hk WorkerPc.noConfusion
      (placed_setPc (s := s) k w (.blocking true) (.asleep true) none)
  exact lapses_trans config hblocks hsleeps

theorem lapses_leaves (timed : Bool) (hwork : s.hasWork = false) :
    Lapses config (placed s k w (.waking timed true) none)
      (placed (s.threadExit w.threadId) k w .gone none) := by
  have hwork' : (placed s k w (.testing timed true) (some (.worker k))).hasWork = false := hwork
  have hexit := placed_threadExit (s := s) k w .leaving (some (.worker k)) w.threadId
  have hk' : (s.threadExit w.threadId).workers[k]? = some w := by
    rw [(threadExit_same s w.threadId).1]
    exact hk
  have hlock : Lapses config (placed s k w (.waking timed true) none)
      (placed s k w (.testing timed true) (some (.worker k))) :=
    lapses_placed hk WorkerPc.noConfusion
      (placed_setPc (s := s) k w (.waking timed true) (.testing timed true) (some (.worker k)))
  have htest : Lapses config (placed s k w (.testing timed true) (some (.worker k)))
      (placed s k w .leaving (some (.worker k))) :=
    lapses_placed hk WorkerPc.noConfusion (by simp [ThreadPool.workerStep,hwork'])
  have hleave : Lapses config (placed s k w .leaving (some (.worker k)))
      (placed (s.threadExit w.threadId) k w (.exited true) (some (.worker k))) := by
    have h := lapses_worker config (placed_get hk .leaving (some (.worker k))) WorkerPc.noConfusion
    rwa [show ((placed s k w .leaving (some (.worker k))).workerStep config k
      { w with pc := .leaving } 0).1 = _ from congrArg (ThreadPool.setPc · k _ (.exited true)) hexit,
      placed_setPc] at h
  have hgo : Lapses config (placed (s.threadExit w.threadId) k w (.exited true) (some (.worker k)))
      (placed (s.threadExit w.threadId) k w .gone none) :=
    lapses_placed hk' WorkerPc.noConfusion
      (placed_setPc (s := s.threadExit w.threadId) k w (.exited true) .gone none)
  exact lapses_trans config hlock (lapses_trans config htest (lapses_trans config hleave hgo))

theorem lapses_expires (hfree : s.owner = none) (hheld : holdsMutex w.pc = false)
    (htimed : timedWait w.pc = true) (hwork : s.hasWork = false) :
    ∃ timed, Lapses config s (placed s k w (.waking timed true) none) := by
  have hself : s = placed s k w w.pc none := by
    rw [← hfree]
    exact (placed_self hk).symm
  have hasleep : Lapses config (placed s k w (.asleep true) none)
      (placed s k w (.waking true true) none) := lapses_timeout hk none
  cases hpc : w.pc with
  | asleep timed =>
    rw [hpc] at htimed hself
    obtain rfl : timed = true := htimed
    rw [← hself] at hasleep
    exact ⟨true,hasleep⟩
  | waking timed timedOut =>
    rw [hpc] at htimed hself
    cases timedOut with
    | true => exact ⟨timed,by rw [← hself]; exact lapses_refl config s⟩
    | false =>
      obtain rfl : timed = true := by simpa [timedWait] using htimed
      have hlock : Lapses config (placed s k w (.waking true false) none)
          (placed s k w (.testing true false) (some (.worker k))) :=
        lapses_placed hk WorkerPc.noConfusion
          (placed_setPc (s := s) k w (.waking true false) (.testing true false) (some (.worker k)))
      rw [← hself] at hlock
      exact ⟨true,lapses_trans config hlock (lapses_trans config (lapses_sleeps hk hwork) hasleep)⟩
  | _ => rw [hpc] at htimed hheld; first | exact Bool.noConfusion htimed | exact Bool.noConfusion hheld

end

theorem exists_freeId [Infinite τ] (s : ThreadPool τ) : ∃ t, s.freeId t = true := by
  obtain ⟨t,ht⟩ := Infinite.exists_notMem_finset
    (s.workers.map Worker.threadId++((startId s).toList++(growId s).toList)).toFinset
  simp only [List.mem_toFinset,List.mem_append,not_or] at ht
  obtain ⟨hworkers,hstart,hgrow⟩ := ht
  refine ⟨t,?_⟩
  simp only [ThreadPool.freeId,Bool.and_eq_true,List.all_eq_true,decide_eq_true_eq]
  refine ⟨⟨fun w hw => ?_,fun hpc => hstart ?_⟩,fun hpc => hgrow ?_⟩
  · rw [Bool.or_eq_true,decide_eq_true_eq,decide_eq_true_eq]
    exact .inr fun hid => hworkers (hid ▸ List.mem_map_of_mem hw)
  · rw [startId,hpc]
    exact List.mem_singleton_self t
  · rw [growId,hpc]
    exact List.mem_singleton_self t

structure StartFrame (s s' : ThreadPool τ) : Prop where
  owner : s'.owner = s.owner
  work : s'.hasWork = s.hasWork
  timed : timedWaits s' = timedWaits s
  crew : crew config s' = crew config s
  current : s'.currentThreadCount.toNat ≤ config.maxThreadCount.toNat

theorem act_starts {t : τ} {i : Input τ} (hi : i = .start (some t)) {r : ThreadPool τ × List Output}
    (h : Act config s i r) (hmax : s.currentThreadCount.toNat ≤ config.maxThreadCount.toNat) :
    StartFrame config s r.1 := by
  cases h with
  | rests => exact ⟨rfl,rfl,rfl,rfl,hmax⟩
  | startsNext spawn hpc hleft =>
    have hsame : toStart { s with starting := s.starting-1, startPc := some .entering } =
        toStart s := by
      rw [toStart,toStart,hpc]
      exact Nat.succ_pred_eq_of_ne_zero hleft
    exact ⟨rfl,rfl,rfl,by rw [crew,crew,hsame],hmax⟩
  | starts spawn pc r res hpc hr =>
    cases hi
    cases createThread_create hr with
    | full hfull =>
      have hfull' : config.maxThreadCount.toNat ≤ s.currentThreadCount.toNat := hfull
      refine ⟨rfl,rfl,rfl,?_,hmax⟩
      rw [crew,crew]
      dsimp only [startAfter]
      omega
    | counts hroom =>
      have hroom' : s.currentThreadCount.toNat < config.maxThreadCount.toNat := hroom
      have hcount : (startAfter { s with
          currentThreadCount := s.currentThreadCount+1
          idleThreadCount := s.idleThreadCount+1 } (.goesOn .counted)).currentThreadCount.toNat =
          s.currentThreadCount.toNat+1 := toNat_succ hroom
      refine ⟨rfl,rfl,rfl,?_,hcount.trans_le hroom'⟩
      have hleft : toStart s = s.starting+1 := by
        rw [toStart,hpc]
        rfl
      rw [crew,crew,hcount,hleft,Nat.add_right_comm,Nat.add_assoc]
      rfl
    | throws hspawn => cases hspawn
    | waits t hspawn =>
      rw [startAfter,← hpc]
      exact ⟨rfl,rfl,rfl,rfl,hmax⟩
    | spawns t hspawn hfree =>
      refine ⟨rfl,rfl,timedWaits_append rfl (by simp),?_,hmax⟩
      rw [crew,crew,toStart,toStart,hpc]
      rfl
    | inserts t =>
      refine ⟨rfl,rfl,rfl,?_,hmax⟩
      rw [crew,crew,toStart,toStart,hpc]
      rfl
  | refuses i priority callback hfree hi' => rcases hi' with rfl | rfl <;> cases hi
  | walks i k w pc owner hk hwalk hi' => rcases hi' with ⟨choice,rfl⟩ | rfl | rfl <;> cases hi
  | _ => cases hi

theorem settled_started [Infinite τ]
    (h : Settled (threadPool config) (fun i : Input τ => ∃ t, i = .start (some t)) s) :
    s.startPc = none ∧ s.starting = 0 := by
  obtain ⟨t,ht⟩ := exists_freeId s
  have hsame : s.startStep config (some t) = s := h _ ⟨t,rfl⟩
  cases hpc : s.startPc with
  | none =>
    refine ⟨rfl,?_⟩
    by_contra hleft
    simp only [ThreadPool.startStep,hpc,if_neg hleft] at hsame
    have hnext := congrArg ThreadPool.startPc hsame
    rw [hpc] at hnext
    cases hnext
  | some pc =>
    exfalso
    have hnext := congrArg ThreadPool.startPc hsame
    rw [hpc] at hnext
    simp only [ThreadPool.startStep,hpc] at hnext
    cases pc with
    | entering =>
      dsimp only [ThreadPool.createThread] at hnext
      split_ifs at hnext
      cases hnext
    | counted =>
      rw [ThreadPool.createThread,if_pos ht] at hnext
      cases hnext
    | created t => cases hnext

theorem start_completes [Infinite τ] (hl : Locked s) (ha : Attentive s)
    (hmax : s.currentThreadCount.toNat ≤ config.maxThreadCount.toNat) :
    ∃ s', Lapses config s s' ∧ StartFrame config s s' ∧ s'.startPc = none ∧ s'.starting = 0 := by
  have hranked : Ranked (threadPool config) (fun i : Input τ => ∃ t, i = .start (some t))
      (fun s' => (Locked s' ∧ Attentive s') ∧ StartFrame config s s') rank := by
    refine ⟨?_,?_⟩
    · rintro s' i ⟨hinv,hframe⟩ ⟨t,rfl⟩
      have hnext := act_starts config rfl (step_act config s' (.start (some t))) hframe.current
      exact ⟨(pool_ranked config).keeps s' _ hinv rfl,hnext.owner.trans hframe.owner,
        hnext.work.trans hframe.work,hnext.timed.trans hframe.timed,hnext.crew.trans hframe.crew,
        hnext.current⟩
    · rintro s' i ⟨hinv,-⟩ ⟨t,rfl⟩
      exact (pool_ranked config).falls s' _ hinv rfl
  have hs : (Locked s ∧ Attentive s) ∧ StartFrame config s s := ⟨⟨hl,ha⟩,rfl,rfl,rfl,rfl,hmax⟩
  obtain ⟨js,hown,hset⟩ := exists_settled hranked hs
  obtain ⟨hpc,hleft⟩ := settled_started config hset
  refine ⟨_,⟨js,?_,rfl⟩,(run_ranked hranked hs hown).2,hpc,hleft⟩
  refine along_of_along (threadPool config) (fun _ i => ∃ t, i = .start (some t)) _ (fun _ => True) ?_
    (fun _ _ _ _ => trivial) s js trivial (along_of_forall _ _ s js hown)
  rintro s' i - ⟨t,rfl⟩
  exact ⟨rfl,rfl⟩

/-- The mutex is free, there is no work, and `Start` is through. -/
structure Lull (s : ThreadPool τ) : Prop where
  owner : s.owner = none
  work : s.hasWork = false
  startPc : s.startPc = none
  starting : s.starting = 0

omit [DecidableEq τ] in
theorem lull_toStart (h : Lull s) : toStart s = 0 := by
  rw [toStart,h.starting,h.startPc]
  rfl

theorem lull_leaves {is : List (Input τ)} (hs : ((threadPool config).run (Start config) is).1 = s)
    (h : Lull s) (htimed : 0 < timedWaits s) :
    ∃ s', Lapses config s s' ∧ Lull s' ∧ timedWaits s'+1 = timedWaits s ∧
      s'.currentThreadCount.toNat+1 = s.currentThreadCount.toNat := by
  obtain ⟨w,hw,hwait⟩ := List.countP_pos_iff.mp htimed
  obtain ⟨k,hk⟩ := List.getElem?_of_mem hw
  have hheld : holdsMutex w.pc = false := by
    rw [← Bool.not_eq_true]
    intro hholds
    have howner := ((hs ▸ run_locked config is).holder k w hk).mp hholds
    rw [h.owner] at howner
    cases howner
  have hlive : isLive w.pc = true := by
    cases hpc : w.pc with
    | asleep timed => rfl
    | waking timed timedOut => rfl
    | _ => rw [hpc] at hwait hheld; first | exact Bool.noConfusion hwait | exact Bool.noConfusion hheld
  have hmem : w.threadId ∈ s.threads := by
    refine ((hs ▸ run_registry config is).recorded hk hlive).resolve_right ?_
    rintro (hid | hid)
    · rw [startId,h.startPc] at hid
      cases hid
    · rw [growId_free h.owner] at hid
      cases hid
  obtain ⟨timed,hexpires⟩ : ∃ timed, Lapses config s (placed s k w (.waking timed true) none) :=
    lapses_expires hk h.owner hheld hwait h.work
  refine ⟨_,lapses_trans config hexpires (lapses_leaves hk timed h.work),?_,?_,?_⟩
  · rw [ThreadPool.threadExit,if_pos hmem]
    exact ⟨rfl,h.work,h.startPc,h.starting⟩
  · have hset := timedWaits_set hk (placed (s.threadExit w.threadId) k w .gone none)
      (congrArg (List.set · k _) (threadExit_same s w.threadId).1)
    rw [hwait] at hset
    exact hset
  · have hbooks := run_balanced config is
    rw [hs] at hbooks
    have hpos := live_counted config hbooks hk hlive
    rw [ThreadPool.threadExit,if_pos hmem]
    show (s.currentThreadCount-1).toNat+1 = _
    rw [toNat_pred hpos]
    omega

theorem lapses_reached {is : List (Input τ)} {s' : ThreadPool τ}
    (hs : ((threadPool config).run (Start config) is).1 = s) (h : Lapses config s s') :
    ∃ js, ((threadPool config).run (Start config) (is++js)).1 = s' := by
  obtain ⟨js,-,hjs⟩ := h
  exact ⟨js,by rw [run_append,hs,hjs]⟩

theorem lull_empties {is : List (Input τ)} (hs : ((threadPool config).run (Start config) is).1 = s)
    (h : Lull s) :
    ∃ s', Lapses config s s' ∧ Lull s' ∧
      s'.currentThreadCount.toNat+timedWaits s = s.currentThreadCount.toNat := by
  induction hn : timedWaits s generalizing s is with
  | zero => exact ⟨s,lapses_refl config s,h,rfl⟩
  | succ n ih =>
    obtain ⟨s₁,hone,hlull,htimed,hcount⟩ := lull_leaves config hs h (by omega)
    obtain ⟨js,hjs⟩ := lapses_reached config hs hone
    obtain ⟨s₂,hrest,hlull',hcount'⟩ := ih hjs hlull (by omega)
    exact ⟨s₂,lapses_trans config hone hrest,hlull',by omega⟩

theorem beginsTimed_step (hl : Locked s) {i : Input τ} (h : beginsTimed config s i = true) :
    ∃ k w, s.workers[k]? = some w ∧ w.pc = .looking ∧ s.taskQueueSize = 0 ∧
      ((threadPool config).step s i).1 = placed s k w (.testing true false) (some (.worker k)) := by
  cases i with
  | worker k choice =>
    rw [beginsTimed] at h
    cases hk : s.workers[k]? with
    | none => rw [hk] at h; cases h
    | some w =>
      simp only [hk,Bool.and_eq_true,decide_eq_true_eq] at h
      obtain ⟨⟨⟨hpc,hempty⟩,hmode⟩,hmore⟩ := h
      have howner : s.owner = some (.worker k) := (hl.holder k w hk).mp (by rw [hpc]; rfl)
      refine ⟨k,w,hk,hpc,hempty,?_⟩
      simp only [threadPool,ThreadPool.withWorker,hk,ThreadPool.workerStep,hpc,if_pos hempty,hmode,hmore,
        and_self,decide_true]
      rw [placed,← howner]
      rfl
  | _ => cases h

/-- A decision too many: all that wait with a time limit leave, and fewer are
left than `Start` was asked for. -/
theorem overbooks_breaks [Infinite τ] {is : List (Input τ)}
    (hs : ((threadPool config).run (Start config) is).1 = s) {i : Input τ}
    (hi : overbooks config s i = true) :
    ∃ s', Lapses config ((threadPool config).step s i).1 s' ∧ ¬ CoreKept config s' := by
  simp only [overbooks,Bool.and_eq_true,decide_eq_true_eq] at hi
  obtain ⟨⟨hbegins,hrun⟩,hfew⟩ := hi
  have hlocked : Locked s := hs ▸ run_locked config is
  obtain ⟨k,w,hk,hpc,hempty,hstep⟩ := beginsTimed_step config hlocked hbegins
  have hwork : s.hasWork = false := by
    rw [ThreadPool.hasWork,hempty,hrun]
    rfl
  have hsleeps : Lapses config ((threadPool config).step s i).1 (placed s k w (.asleep true) none) := by
    rw [hstep]
    exact lapses_sleeps hk hwork
  have htimed : timedWaits (placed s k w (.asleep true) none) = timedWaits s+1 := by
    have hset := timedWaits_set hk (placed s k w (.asleep true) none) rfl
    rw [hpc] at hset
    exact hset
  obtain ⟨js,hjs⟩ : ∃ js, ((threadPool config).run (Start config) (is++js)).1 =
      placed s k w (.asleep true) none := by
    obtain ⟨js,-,hjs⟩ := hsleeps
    exact ⟨i::js,by rw [run_append,hs]; exact hjs⟩
  have hmax : (placed s k w (.asleep true) none).currentThreadCount.toNat ≤
      config.maxThreadCount.toNat := by
    have hbooks := run_balanced config (is++js)
    rw [hjs] at hbooks
    exact hbooks.current
  obtain ⟨s₁,hstarts,hframe,hstartPc,hstarting⟩ := start_completes config (hjs ▸ run_locked config _)
    (hjs ▸ run_attentive config _) hmax
  obtain ⟨ks,hks⟩ := lapses_reached config hjs hstarts
  have hlull₁ : Lull s₁ := ⟨hframe.owner,hframe.work.trans hwork,hstartPc,hstarting⟩
  obtain ⟨s₂,hleave,hlull₂,hcount⟩ := lull_empties config hks hlull₁
  refine ⟨s₂,lapses_trans config hsleeps (lapses_trans config hstarts hleave),fun hkept => ?_⟩
  have hcrew : s₁.currentThreadCount.toNat = crew config s := by
    have hsame := hframe.crew
    rwa [crew,lull_toStart hlull₁,Nat.add_zero,Nat.min_eq_left hframe.current] at hsame
  have hkept' := hkept (hasWork_false hlull₂.work)
  rw [lull_toStart hlull₂] at hkept'
  have htimed₁ := hframe.timed.trans htimed
  omega

end

/-- A running pool keeps the threads it was started with throughout a run in
which `Start` does not fail, if no worker decides to wait with a time limit
while as many wait like this as there are threads in excess. If one does, the
pool may come to have fewer without any further such decision: `Start` goes
on, and the limits of the waits are reached. -/
theorem core_threads_survive [DecidableEq τ] [Infinite τ] (config : ThreadPoolConfig)
    (hinit : config.initThreadCount ≤ config.maxThreadCount) :
    (∀ is : List (Input τ),
      Along (threadPool config) (fun s i => startThrows s i = false ∧ overbooks config s i = false)
        (Start config) is →
      Always (threadPool config) (fun s _ => CoreKept config s) (Start config) [] is) ∧
    (∀ (is : List (Input τ)) (i : Input τ),
      overbooks config ((threadPool config).run (Start config) is).1 i = true →
      ∃ js, Along (threadPool config)
          (fun s j => beginsTimed config s j = false ∧ startThrows s j = false)
          ((threadPool config).run (Start config) (is++[i])).1 js ∧
        ¬ CoreKept config ((threadPool config).run (Start config) (is++i::js)).1) := by
  constructor
  · intro is hc
    refine always_of_along (threadPool config) _
      (fun s os => Balanced config (books s) os ∧ ExitsStopped s ∧ Covered config s) _
      (fun s os h => coreKept_of_covered config h.2.2) ?_ (Start config) [] is
      ⟨run_balanced config [],?_,?_⟩ hc
    · intro s os i ⟨hb,hstop,hcovered⟩ hi
      exact ⟨balanced_booking hb (step_booking s i),step_exitsStopped config hstop i,
        step_covered config hb hstop hcovered hi.1 hi.2⟩
    · intro w hw
      cases hw
    · intro _
      have hinit' : config.initThreadCount.toNat ≤ config.maxThreadCount.toNat := hinit
      exact Nat.le_min.mpr ⟨Nat.le_add_left _ _,hinit'⟩
  · intro is i hi
    obtain ⟨s',⟨js,hjs,rfl⟩,hbroken⟩ := overbooks_breaks config rfl hi
    refine ⟨js,?_,?_⟩
    · rw [run_append]
      exact hjs
    · rw [run_append]
      exact hbroken

def goesIdle (k : ℕ) : List (Input ℕ) :=
  [.finish k,.worker k 0,.worker k 0,.worker k 0,.worker k 0,.worker k 0]

def leavesIdle (k : ℕ) : List (Input ℕ) :=
  [.timeout k,.worker k 0,.worker k 0,.worker k 0,.worker k 0]

def secondTask : List (Input ℕ) := [.submitter none,.worker 1 0,.worker 1 0,.worker 1 0,.worker 1 0]

def bothWait : List (Input ℕ) := taskGrowsPool++secondTask++goesIdle 0++goesIdle 1

def waitInTurn : List (Input ℕ) := taskGrowsPool++secondTask++goesIdle 1++leavesIdle 1++goesIdle 0

/-- Where the workers wait one after the other, a thread is left. Where the
second decides to wait with a time limit while the first does, none may be. -/
theorem one_idle_worker_leaves :
    Always (threadPool growingConfig) (fun s _ => CoreKept growingConfig s) (Start growingConfig) []
      waitInTurn ∧
    ((threadPool growingConfig).run (Start growingConfig) waitInTurn).1.threads = [10] ∧
    ∃ js, ¬ CoreKept growingConfig ((threadPool growingConfig).run (Start growingConfig)
      (bothWait.dropLast.dropLast++js)).1 := by
  obtain ⟨hkept,hbroken⟩ := core_threads_survive (τ := ℕ) growingConfig (by decide)
  obtain ⟨js,-,hjs⟩ := hbroken bothWait.dropLast.dropLast.dropLast (.worker 1 0) (by decide +kernel)
  exact ⟨hkept waitInTurn (by decide +kernel),by decide +kernel,js,hjs⟩

/-- Both leave, and the running pool has no thread. -/
theorem all_idle_workers_leave :
    ((threadPool growingConfig).run (Start growingConfig)
      (bothWait++leavesIdle 1++leavesIdle 0)).1.currentThreadCount = 0 ∧
    ((threadPool growingConfig).run (Start growingConfig)
      (bothWait++leavesIdle 1++leavesIdle 0)).1.isRunning = true ∧
    growingConfig.initThreadCount = 1 := by
  decide +kernel

end MiniRpc.CoreThreads
