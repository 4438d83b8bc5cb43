import MiniRpc.PoolThreads

/-!
# Which threads are registered

`threads_` is to hold the ids of the workers that have not run `threadExit`,
since the destructor waits for it to be empty. A live worker is always
registered or about to be. The other way round it fails: a worker may run
`threadExit` before its creator has inserted its id, and then the id stays.
-/

set_option autoImplicit false

namespace MiniRpc.PoolRegistry
open MiniRpc.StepMachine MiniRpc.WorkerPool MiniRpc.PoolAccounting MiniRpc.PoolMutex
open MiniRpc.PoolThreads

variable {τ : Type}

def beforeLock : WorkerPc → Bool
  | .top => true
  | .locking => true
  | .exiting => true
  | .exited locked => !locked
  | .gone => true
  | _ => false

theorem move_beforeLock {s : ThreadPool τ} (howner : s.owner ≠ none) {pc pc' : WorkerPc}
    (h : PcMove s pc pc') (hpc : beforeLock pc = true) : beforeLock pc' = true := by
  cases h with
  | stays => exact hpc
  | begins => rfl
  | stops => rfl
  | locks hfree => exact absurd hfree howner
  | leaves => rfl
  | gives pc hgive => rcases hgive with rfl | rfl <;> cases hpc
  | _ => cases hpc

variable [DecidableEq τ]

theorem freeId_gone {s : ThreadPool τ} {t : τ} (h : s.freeId t = true) {k : ℕ} {w : Worker τ}
    (hk : s.workers[k]? = some w) (ht : w.threadId = t) : w.pc = .gone := by
  simp only [ThreadPool.freeId,Bool.and_eq_true,List.all_eq_true] at h
  have hw := h.1.1 w (List.mem_of_getElem? hk)
  simpa [ht] using hw

/-- Workers with the same id are never around together, and every worker
that has not run `threadExit` is registered or about to be. -/
structure Registry (s : ThreadPool τ) : Prop where
  nodup : s.threads.Nodup
  unique : ∀ {j k : ℕ} {v w : Worker τ}, s.workers[j]? = some v → s.workers[k]? = some w →
    v.pc ≠ .gone → w.pc ≠ .gone → v.threadId = w.threadId → j = k
  recorded : ∀ {k : ℕ} {w : Worker τ}, s.workers[k]? = some w → isLive w.pc = true →
    w.threadId ∈ s.threads ∨ Unregistered s w.threadId
  growing : ∀ {k : ℕ} {w : Worker τ}, s.workers[k]? = some w → growId s = some w.threadId →
    beforeLock w.pc = true

omit [DecidableEq τ] in
theorem registry_start (config : ThreadPoolConfig) : Registry (Start config : ThreadPool τ) :=
  ⟨List.nodup_nil,by simp [Start],by simp [Start],by simp [Start]⟩

section
variable {s s' : ThreadPool τ}

omit [DecidableEq τ] in
theorem unregistered_iff (hs : startId s' = startId s) (hg : growId s' = growId s) (t : τ) :
    Unregistered s' t ↔ Unregistered s t := by
  rw [Unregistered,Unregistered,hs,hg]

omit [DecidableEq τ] in
theorem unregistered_pends {t : τ} (h : Pends s s' t) (t' : τ) :
    Unregistered s' t' ↔ t' = t ∨ Unregistered s t' := by
  rw [Unregistered,Unregistered]
  rcases h with ⟨hnone,hsome,hsame⟩ | ⟨hnone,hsome,hsame⟩
  · rw [hnone,hsome,hsame]
    simp [eq_comm]
  · rw [hnone,hsome,hsame]
    simp [eq_comm,or_comm]

omit [DecidableEq τ] in
theorem owner_of_growId {t : τ} (h : growId s = some t) : s.owner ≠ none := by
  intro ho
  rw [growId_free ho] at h
  cases h

omit [DecidableEq τ] in
theorem registry_works (h : Registry s) (hw : Moved s s') (ht : s'.threads = s.threads)
    (hs : startId s' = startId s) (hg : growId s' = growId s) : Registry s' := by
  refine ⟨?_,?_,?_,?_⟩
  · rw [ht]
    exact h.nodup
  · intro j k v w hv hw' hv1 hw1 hid
    obtain ⟨v0,hv0,hvid,hvpc⟩ := moved_back hw hv
    obtain ⟨w0,hw0,hwid,hwpc⟩ := moved_back hw hw'
    exact h.unique hv0 hw0 (move_gone hvpc hv1) (move_gone hwpc hw1)
      (hvid.symm.trans (hid.trans hwid))
  · intro k w hk hlive
    obtain ⟨u,hu,hid,hpc⟩ := moved_back hw hk
    rw [ht,unregistered_iff hs hg,hid]
    exact h.recorded hu (by rwa [← move_live hpc])
  · intro k w hk hgrow
    obtain ⟨u,hu,hid,hpc⟩ := moved_back hw hk
    rw [hg,hid] at hgrow
    exact move_beforeLock (owner_of_growId hgrow) hpc (h.growing hu hgrow)

theorem registry_exits (h : Registry s) {k : ℕ} {w : Worker τ} (hk : s.workers[k]? = some w)
    {locked : Bool} (hpc : w.pc = if locked then .leaving else .exiting)
    (hw : s'.workers = s.workers.set k { w with pc := .exited locked })
    (ht : s'.threads = s.threads.erase w.threadId) (hs : startId s' = startId s)
    (hg : growId s' = growId s) : Registry s' := by
  have hback : ∀ {j : ℕ} {v : Worker τ}, s'.workers[j]? = some v →
      ∃ u, s.workers[j]? = some u ∧ u.threadId = v.threadId ∧ (v.pc ≠ .gone → u.pc ≠ .gone) := by
    intro j v hv
    rcases setPc_get hk hw hv with ⟨rfl,-⟩ | ⟨-,hv'⟩
    · rw [hw,List.getElem?_set_self (List.getElem?_eq_some_iff.mp hk).1] at hv
      cases hv
      refine ⟨w,hk,rfl,fun _ => ?_⟩
      rw [hpc]
      cases locked <;> exact WorkerPc.noConfusion
    · exact ⟨v,hv',rfl,id⟩
  have hself : w.pc ≠ .gone := by
    rw [hpc]
    cases locked <;> exact WorkerPc.noConfusion
  refine ⟨?_,?_,?_,?_⟩
  · rw [ht]
    exact h.nodup.erase _
  · intro j l u v hu hv hu1 hv1 hid
    obtain ⟨u0,hu0,huid,hupc⟩ := hback hu
    obtain ⟨v0,hv0,hvid,hvpc⟩ := hback hv
    exact h.unique hu0 hv0 (hupc hu1) (hvpc hv1) (huid.trans (hid.trans hvid.symm))
  · intro j v hv hlive
    rw [ht,unregistered_iff hs hg]
    rcases setPc_get hk hw hv with ⟨-,hexit⟩ | ⟨hj,hv'⟩
    · rw [hexit] at hlive
      cases hlive
    · refine (h.recorded hv' hlive).imp_left fun hmem => ?_
      apply (List.mem_erase_of_ne _).mpr hmem
      intro hid
      refine hj (h.unique hv' hk ?_ hself hid)
      intro hgone
      rw [hgone] at hlive
      cases hlive
  · intro j v hv hgrow
    rw [hg] at hgrow
    rcases setPc_get hk hw hv with ⟨rfl,hexit⟩ | ⟨hj,hv'⟩
    · obtain ⟨u,hu,huid,-⟩ := hback hv
      rw [hk] at hu
      cases hu
      have hbefore := h.growing hk (by rw [huid]; exact hgrow)
      rw [hexit]
      cases locked with
      | true => rw [hpc] at hbefore; cases hbefore
      | false => rfl
    · exact h.growing hv' hgrow

theorem registry_spawns (h : Registry s) {t : τ} (hfree : s.freeId t = true)
    (hw : s'.workers = s.workers++[{ threadId := t }]) (ht : s'.threads = s.threads)
    (hid : Pends s s' t) : Registry s' := by
  have hother : ∀ {k : ℕ} {w : Worker τ}, s.workers[k]? = some w → w.pc ≠ .gone → w.threadId ≠ t :=
    fun hk hpc he => hpc (freeId_gone hfree hk he)
  refine ⟨?_,?_,?_,?_⟩
  · rw [ht]
    exact h.nodup
  · intro j k v w hv hk hv1 hw1 he
    rw [hw] at hv hk
    rcases spawned_get hv with hv | ⟨hj,rfl⟩
    · rcases spawned_get hk with hk | ⟨-,rfl⟩
      · exact h.unique hv hk hv1 hw1 he
      · exact absurd he (hother hv hv1)
    · rcases spawned_get hk with hk | ⟨hk,-⟩
      · exact absurd he.symm (hother hk hw1)
      · exact hj.trans hk.symm
  · intro k w hk hlive
    rw [hw] at hk
    rw [ht]
    rcases spawned_get hk with hk | ⟨-,rfl⟩
    · exact (h.recorded hk hlive).imp_right fun hun => (unregistered_pends hid _).mpr (.inr hun)
    · exact .inr ((unregistered_pends hid t).mpr (.inl rfl))
  · intro k w hk hgrow
    rw [hw] at hk
    rcases spawned_get hk with hk | ⟨-,rfl⟩
    · rcases hid with ⟨-,-,hg⟩ | ⟨-,hg,-⟩
      · exact h.growing hk (hg.symm.trans hgrow)
      · rw [hg] at hgrow
        rw [freeId_gone hfree hk (Option.some.inj hgrow).symm]
        rfl
    · rfl

theorem registry_inserts (h : Registry s) {t : τ} (hw : s'.workers = s.workers)
    (ht : s'.threads = s.threads.insert t) (hid : Pends s' s t) : Registry s' := by
  refine ⟨?_,?_,?_,?_⟩
  · rw [ht]
    exact h.nodup.insert
  · rw [hw]
    exact h.unique
  · intro k w hk hlive
    rw [hw] at hk
    rw [ht,List.mem_insert_iff]
    rcases h.recorded hk hlive with hmem | hun
    · exact .inl (.inr hmem)
    · exact ((unregistered_pends hid _).mp hun).imp_left .inl
  · intro k w hk hgrow
    rw [hw] at hk
    rcases hid with ⟨-,-,hg⟩ | ⟨hg,-,-⟩
    · exact h.growing hk (hg.trans hgrow)
    · rw [hg] at hgrow
      cases hgrow

theorem step_registry (config : ThreadPoolConfig) (hl : Locked s) (h : Registry s) (i : Input τ) :
    Registry ((threadPool config).step s i).1 := by
  cases step_change config hl i with
  | works hw ht hs hg => exact registry_works h hw ht hs hg
  | exits k choice w locked hi hk hpc hw ht hs hg => exact registry_exits h hk hpc hw ht hs hg
  | spawns t hfree hw ht hid => exact registry_spawns h hfree hw ht hid
  | inserts t hw ht hid => exact registry_inserts h hw ht hid

theorem run_registry (config : ThreadPoolConfig) (is : List (Input τ)) :
    Registry ((threadPool config).run (Start config : ThreadPool τ) is).1 := by
  have hinv := run_invariant (threadPool config)
    (fun (s : ThreadPool τ) (_ : List Output) => Locked s ∧ Registry s)
    (fun _ _ i h => ⟨step_locked config h.1 i,step_registry config h.1 h.2 i⟩)
    (Start config) is ⟨locked_start config,registry_start config⟩
  exact hinv.2

def OnlyLive (s : ThreadPool τ) : Prop :=
  ∀ t ∈ s.threads, ∃ w ∈ s.workers, w.threadId = t ∧ isLive w.pc = true

/-- A worker runs `threadExit` before its creator has inserted its id. -/
def exitsEarly (s : ThreadPool τ) : Input τ → Bool
  | .worker k _ =>
    match s.workers[k]? with
    | some w => (w.pc = .exiting || w.pc = .leaving) &&
        (startId s = some w.threadId || growId s = some w.threadId)
    | none => false
  | _ => false

def AllLive (s : ThreadPool τ) : Prop :=
  ∀ t, t ∈ s.threads ∨ Unregistered s t →
    ∃ (k : ℕ) (w : Worker τ), s.workers[k]? = some w ∧ w.threadId = t ∧ isLive w.pc = true

theorem allLive_exits (hr : Registry s) (h : AllLive s) {k choice : ℕ} {w : Worker τ}
    (hk : s.workers[k]? = some w) {locked : Bool}
    (hpc : w.pc = if locked then .leaving else .exiting)
    (hearly : exitsEarly s (.worker k choice) = false)
    (hw : s'.workers = s.workers.set k { w with pc := .exited locked })
    (ht : s'.threads = s.threads.erase w.threadId) (hs : startId s' = startId s)
    (hg : growId s' = growId s) : AllLive s' := by
  have hregistered : ¬ Unregistered s w.threadId := by
    intro hun
    simp only [exitsEarly,hk,hpc] at hearly
    rcases hun with hun | hun <;> cases locked <;> simp [hun] at hearly
  intro t htid
  rw [ht,unregistered_iff hs hg] at htid
  have hne : t ≠ w.threadId := by
    rintro rfl
    rcases htid with hmem | hun
    · exact hr.nodup.not_mem_erase hmem
    · exact hregistered hun
  obtain ⟨j,v,hj,hid,hlive⟩ := h t (htid.imp_left List.mem_of_mem_erase)
  refine ⟨j,v,?_,hid,hlive⟩
  have hjk : k ≠ j := by
    rintro rfl
    rw [hk] at hj
    cases hj
    exact hne hid.symm
  rw [hw,List.getElem?_set_ne hjk]
  exact hj

theorem step_allLive (config : ThreadPoolConfig) (hl : Locked s) (hr : Registry s) (h : AllLive s)
    {i : Input τ} (hi : exitsEarly s i = false) : AllLive ((threadPool config).step s i).1 := by
  cases step_change config hl i with
  | works hw ht hs hg =>
    intro t htid
    rw [ht,unregistered_iff hs hg] at htid
    obtain ⟨k,u,hk,hid,hlive⟩ := h t htid
    obtain ⟨v,hv,hvid,hvpc⟩ := moved_forth hw hk
    exact ⟨k,v,hv,hvid.trans hid,(move_live hvpc).trans hlive⟩
  | exits k choice w locked hi' hk hpc hw ht hs hg =>
    rw [hi'] at hi
    exact allLive_exits hr h hk hpc hi hw ht hs hg
  | spawns t hfree hw ht hid =>
    intro t' htid
    rw [ht] at htid
    by_cases hnew : t' = t
    · refine ⟨s.workers.length,{ threadId := t },?_,hnew.symm,rfl⟩
      rw [hw,List.getElem?_concat_length]
    · have hold : t' ∈ s.threads ∨ Unregistered s t' :=
        htid.imp_right fun hun => ((unregistered_pends hid t').mp hun).resolve_left hnew
      obtain ⟨k,w,hk,hrest⟩ := h t' hold
      refine ⟨k,w,?_,hrest⟩
      rw [hw,List.getElem?_append_left (List.getElem?_eq_some_iff.mp hk).1]
      exact hk
  | inserts t hw ht hid =>
    intro t' htid
    rw [hw]
    apply h
    rw [ht,List.mem_insert_iff] at htid
    rcases htid with (rfl | hmem) | hun
    · exact .inr ((unregistered_pends hid t').mpr (.inl rfl))
    · exact .inl hmem
    · exact .inr ((unregistered_pends hid t').mpr (.inr hun))

omit [DecidableEq τ] in
theorem onlyLive_of_allLive (h : AllLive s) : OnlyLive s := by
  intro t ht
  obtain ⟨k,w,hk,hid,hlive⟩ := h t (.inl ht)
  exact ⟨w,List.mem_of_getElem? hk,hid,hlive⟩

theorem insert_step (config : ThreadPoolConfig) {t : τ} (h : Unregistered s t) :
    ∃ j : Input τ, t ∈ ((threadPool config).step s j).1.threads ∧
      ((threadPool config).step s j).1.workers = s.workers := by
  rcases h with h | h
  · refine ⟨.start none,?_⟩
    have hpc : s.startPc = some (.created t) := by
      rw [startId,createdId.eq_def] at h
      split at h
      · cases h
        assumption
      · cases h
    have hstep : ((threadPool config).step s (.start none)).1 =
        { s with threads := s.threads.insert t, startPc := none } := by
      simp only [threadPool,ThreadPool.startStep,hpc,ThreadPool.createThread]
    rw [hstep]
    exact ⟨List.mem_insert_self,rfl⟩
  · refine ⟨.submitter none,?_⟩
    obtain ⟨f,howner⟩ : ∃ f, s.owner = some (.submitter f (some (.created t))) := by
      rw [growId,createdId.eq_def] at h
      split at h
      · rename_i hpc
        cases h
        rw [Owner.createPc.eq_def] at hpc
        split at hpc
        · rename_i f pc howner
          exact ⟨f,by rw [howner,hpc]⟩
        · cases hpc
      · cases h
    have hstep : ((threadPool config).step s (.submitter none)).1 =
        { s with threads := s.threads.insert t, owner := none } := by
      simp only [threadPool,ThreadPool.submitterStep,howner,ThreadPool.createThread,ThreadPool.unlock]
    rw [hstep]
    exact ⟨List.mem_insert_self,rfl⟩

/-- The id of a worker that was too early stays. -/
theorem early_exit_leaves_id (config : ThreadPoolConfig) (hr : Registry s) {i : Input τ}
    (hi : exitsEarly s i = true) :
    ∃ j, ¬ OnlyLive ((threadPool config).step ((threadPool config).step s i).1 j).1 := by
  rw [exitsEarly.eq_def] at hi
  split at hi
  case h_2 => cases hi
  case h_1 k choice =>
    cases hk : s.workers[k]? with
    | none => rw [hk] at hi; cases hi
    | some w =>
      simp only [hk,Bool.and_eq_true,Bool.or_eq_true,decide_eq_true_eq] at hi
      obtain ⟨hpc,hun⟩ := hi
      obtain ⟨locked,hstep⟩ : ∃ locked, ((threadPool config).step s (.worker k choice)).1 =
          (s.threadExit w.threadId).setPc k w (.exited locked) := by
        rcases hpc with hpc | hpc
        · exact ⟨false,by simp only [threadPool,ThreadPool.withWorker,hk,ThreadPool.workerStep,hpc]⟩
        · exact ⟨true,by simp only [threadPool,ThreadPool.withWorker,hk,ThreadPool.workerStep,hpc]⟩
      have hw : ((threadPool config).step s (.worker k choice)).1.workers =
          s.workers.set k { w with pc := .exited locked } := by
        rw [hstep]
        exact congrArg (List.set · k _) (threadExit_same s w.threadId).1
      have hun' : Unregistered ((threadPool config).step s (.worker k choice)).1 w.threadId := by
        rw [hstep,ThreadPool.threadExit]
        split_ifs <;> exact hun
      obtain ⟨j,hmem,hsame⟩ := insert_step config hun'
      refine ⟨j,fun honly => ?_⟩
      obtain ⟨v,hv,hid,hlive⟩ := honly _ hmem
      rw [hsame] at hv
      obtain ⟨l,hl⟩ := List.mem_iff_getElem?.mp hv
      rcases setPc_get hk hw hl with ⟨-,hexit⟩ | ⟨hne,hl⟩
      · rw [hexit] at hlive
        cases hlive
      · refine hne (hr.unique hl hk ?_ ?_ hid)
        · intro hgone
          rw [hgone] at hlive
          cases hlive
        · rcases hpc with hpc | hpc <;> rw [hpc] <;> exact WorkerPc.noConfusion

end

/-- As long as no worker runs `threadExit` before its creator has inserted
its id, `threads_` holds ids of live workers only; and any worker that does
is left behind by its creator's next step. -/
theorem registered_ids_live (config : ThreadPoolConfig) :
    (∀ is : List (Input τ),
      Along (threadPool config) (fun s i => exitsEarly s i = false) (Start config) is →
        Always (threadPool config) (fun s _ => OnlyLive s) (Start config) [] is) ∧
    (∀ (is : List (Input τ)) (i : Input τ),
      exitsEarly ((threadPool config).run (Start config) is).1 i = true →
        ∃ j, ¬ OnlyLive ((threadPool config).run (Start config) (is++[i,j])).1) := by
  refine ⟨fun is hc => ?_,fun is i hi => ?_⟩
  · refine always_of_along (threadPool config) (fun s i => exitsEarly s i = false)
      (fun s _ => Locked s ∧ Registry s ∧ AllLive s) _ (fun s _ h => onlyLive_of_allLive h.2.2) ?_
      _ _ is ⟨locked_start config,registry_start config,?_⟩ hc
    · intro s _ i h hi
      exact ⟨step_locked config h.1 i,step_registry config h.1 h.2.1 i,
        step_allLive config h.1 h.2.1 h.2.2 hi⟩
    · intro t ht
      simp [Start,Unregistered,startId,growId,createdId,Owner.createPc] at ht
  · obtain ⟨j,hj⟩ := early_exit_leaves_id config (run_registry config is) hi
    refine ⟨j,?_⟩
    rw [run_append]
    exact hj

def growingConfig : ThreadPoolConfig where
  mode := .kCached
  initThreadCount := 1
  maxThreadCount := 2

def taskGrowsPool : List (Input ℕ) :=
  [.start none,.start none,.start (some 10),.start none,.enqueueTask 1 false,.submitter none,
   .worker 0 0,.worker 0 0,.worker 0 0,.worker 0 0,.enqueueTask 1 false,.submitter none,
   .submitter none,.submitter (some 11)]

theorem registered_worker_exits :
    Always (threadPool growingConfig) (fun s _ => OnlyLive s) (Start growingConfig) []
      (taskGrowsPool++[.submitter none,.destructor,.worker 1 0,.worker 1 0,.worker 1 0]) ∧
    ∃ j, ¬ OnlyLive ((threadPool growingConfig).run (Start growingConfig)
      ((taskGrowsPool++[.destructor,.worker 1 0])++[.worker 1 0,j])).1 :=
  ⟨(registered_ids_live growingConfig).1 _ (by decide +kernel),
    (registered_ids_live growingConfig).2 _ (.worker 1 0) (by decide +kernel)⟩

def submitting (s : ThreadPool τ) : Bool :=
  match s.owner with
  | some (.submitter _ _) => true
  | _ => false

def callsDestructor (s : ThreadPool τ) : Input τ → Bool
  | .destructor => s.destructor = .notCalled
  | _ => false

/-- The pool is destroyed only when `Start` has returned, and from then on
only tasks that its workers execute submit to it. -/
def Proper (s : ThreadPool τ) (i : Input τ) : Prop :=
  (callsDestructor s i = true → s.starting = 0 ∧ s.startPc = none) ∧
  (s.destructor ≠ .notCalled → submitting s = true → ∃ w ∈ s.workers, (funcOf w.pc).isSome = true)

instance (s : ThreadPool τ) (i : Input τ) : Decidable (Proper s i) :=
  inferInstanceAs (Decidable (_ ∧ _))

/-- The pool is destroyed while a task is adding a worker to it: the worker
sees the stop flag and is gone before its id is inserted. -/
theorem early_worker_stays_registered :
    Along (threadPool growingConfig) Proper (Start growingConfig)
      (taskGrowsPool++[.destructor,.worker 1 0,.worker 1 0,.submitter none]) ∧
    ((threadPool growingConfig).run (Start growingConfig)
      (taskGrowsPool++[.destructor,.worker 1 0,.worker 1 0,.submitter none])).1.threads = [11,10] ∧
    ¬ OnlyLive ((threadPool growingConfig).run (Start growingConfig)
      (taskGrowsPool++[.destructor,.worker 1 0,.worker 1 0,.submitter none])).1 := by
  refine ⟨by decide +kernel,by decide +kernel,?_⟩
  rw [OnlyLive]
  decide +kernel

end MiniRpc.PoolRegistry
