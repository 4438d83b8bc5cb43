import MiniRpc.PoolAccounting

/-!
# Who holds the mutex of the task queue

The places of `WorkerThread` inside the lock and the owner of
`taskQueueMutex_` agree in every reachable state, so at most one thread is
inside. A worker that saw a task in the queue therefore still finds one when
it pops.
-/

set_option autoImplicit false

namespace MiniRpc.PoolMutex
open MiniRpc.StepMachine MiniRpc.WorkerPool MiniRpc.PoolSteps MiniRpc.PoolAccounting

variable {τ : Type}

def holdsMutex : WorkerPc → Bool
  | .looking => true
  | .testing _ _ => true
  | .blocking _ => true
  | .ready => true
  | .taking => true
  | .leaving => true
  | .exited locked => locked
  | _ => false

/-- A worker is inside the lock exactly if it owns it; one that is about to
pop has seen a task. -/
structure Locked (s : ThreadPool τ) : Prop where
  known : ∀ k, s.owner = some (.worker k) → k < s.workers.length
  holder : ∀ (k : ℕ) (w : Worker τ), s.workers[k]? = some w →
    (holdsMutex w.pc = true ↔ s.owner = some (.worker k))
  taking : ∀ (k : ℕ) (w : Worker τ), s.workers[k]? = some w → w.pc = .taking → s.taskQueueSize ≠ 0

theorem locked_start (config : ThreadPoolConfig) : Locked (Start config : ThreadPool τ) :=
  ⟨by simp [Start],by simp [Start],by simp [Start]⟩

section
variable {s s' : ThreadPool τ}

theorem locked_exclusive (h : Locked s) {j k : ℕ} {v w : Worker τ} (hj : s.workers[j]? = some v)
    (hk : s.workers[k]? = some w) (hv : holdsMutex v.pc = true) (hw : holdsMutex w.pc = true) :
    j = k := by
  have ho := ((h.holder j v hj).mp hv).symm.trans ((h.holder k w hk).mp hw)
  cases ho
  rfl

theorem setPc_get {k : ℕ} {w : Worker τ} (hk : s.workers[k]? = some w) {pc : WorkerPc}
    (hw : s'.workers = s.workers.set k { w with pc := pc }) {j : ℕ} {v : Worker τ}
    (hv : s'.workers[j]? = some v) : (j = k ∧ v.pc = pc) ∨ (j ≠ k ∧ s.workers[j]? = some v) := by
  rw [hw] at hv
  by_cases hj : j = k
  · subst hj
    rw [List.getElem?_set_self (List.getElem?_eq_some_iff.mp hk).1] at hv
    cases hv
    exact .inl ⟨rfl,rfl⟩
  · rw [List.getElem?_set_ne (Ne.symm hj)] at hv
    exact .inr ⟨hj,hv⟩

theorem locked_moves (h : Locked s) {k : ℕ} {w : Worker τ} (hk : s.workers[k]? = some w)
    {pc : WorkerPc} (hw : s'.workers = s.workers.set k { w with pc := pc })
    (howner : s'.owner = s.owner) (hsize : s'.taskQueueSize = s.taskQueueSize)
    (hself : holdsMutex pc = holdsMutex w.pc) (htaking : pc = .taking → s.taskQueueSize ≠ 0) :
    Locked s' := by
  refine ⟨?_,?_,?_⟩
  · intro j hj
    rw [hw,List.length_set]
    exact h.known j (howner.symm.trans hj)
  · intro j v hv
    rw [howner]
    rcases setPc_get hk hw hv with ⟨rfl,hpc⟩ | ⟨hj,hv⟩
    · rw [hpc,hself]
      exact h.holder j w hk
    · exact h.holder j v hv
  · intro j v hv htake
    rw [hsize]
    rcases setPc_get hk hw hv with ⟨rfl,hpc⟩ | ⟨hj,hv⟩
    · exact htaking (hpc.symm.trans htake)
    · exact h.taking j v hv htake

theorem locked_acquires (h : Locked s) (hfree : s.owner = none) {k : ℕ} {w : Worker τ}
    (hk : s.workers[k]? = some w) {pc : WorkerPc}
    (hw : s'.workers = s.workers.set k { w with pc := pc }) (howner : s'.owner = some (.worker k))
    (hself : holdsMutex pc = true) (htaking : pc ≠ .taking) : Locked s' := by
  have hnobody : ∀ {j : ℕ} {v : Worker τ}, s.workers[j]? = some v → holdsMutex v.pc = false := by
    intro j v hv
    rw [← Bool.not_eq_true,h.holder j v hv,hfree]
    simp
  refine ⟨?_,?_,?_⟩
  · intro j hj
    rw [howner] at hj
    cases hj
    rw [hw,List.length_set]
    exact (List.getElem?_eq_some_iff.mp hk).1
  · intro j v hv
    rw [howner]
    rcases setPc_get hk hw hv with ⟨rfl,hpc⟩ | ⟨hj,hv⟩
    · rw [hpc,hself]
      exact ⟨fun _ => rfl,fun _ => rfl⟩
    · rw [hnobody hv]
      refine ⟨Bool.noConfusion,fun ho => ?_⟩
      cases ho
      exact absurd rfl hj
  · intro j v hv htake
    rcases setPc_get hk hw hv with ⟨rfl,hpc⟩ | ⟨hj,hv⟩
    · exact absurd (hpc.symm.trans htake) htaking
    · have hno := hnobody hv
      rw [htake] at hno
      exact Bool.noConfusion hno

theorem locked_releases (h : Locked s) {k : ℕ} {w : Worker τ} (hk : s.workers[k]? = some w)
    (hheld : holdsMutex w.pc = true) {pc : WorkerPc}
    (hw : s'.workers = s.workers.set k { w with pc := pc }) (howner : s'.owner = none)
    (hself : holdsMutex pc = false) : Locked s' := by
  have hnobody : ∀ {j : ℕ} {v : Worker τ}, j ≠ k → s.workers[j]? = some v → holdsMutex v.pc = false := by
    intro j v hj hv
    rw [← Bool.not_eq_true]
    exact fun hv' => hj (locked_exclusive h hv hk hv' hheld)
  refine ⟨?_,?_,?_⟩
  · intro j hj
    rw [howner] at hj
    cases hj
  · intro j v hv
    rw [howner]
    rcases setPc_get hk hw hv with ⟨rfl,hpc⟩ | ⟨hj,hv⟩
    · rw [hpc,hself]
      simp
    · rw [hnobody hj hv]
      simp
  · intro j v hv htake
    rcases setPc_get hk hw hv with ⟨rfl,hpc⟩ | ⟨hj,hv⟩
    · rw [← hpc,htake] at hself
      exact Bool.noConfusion hself
    · have hno := hnobody hj hv
      rw [htake] at hno
      exact Bool.noConfusion hno

theorem locked_others (h : Locked s)
    (hget : ∀ {j : ℕ} {v : Worker τ}, s'.workers[j]? = some v →
      (s.workers.length ≤ j ∧ v.pc = .top) ∨
      ∃ u, s.workers[j]? = some u ∧ (v.pc = u.pc ∨ v.pc = u.pc.notified))
    (hlen : s.workers.length ≤ s'.workers.length)
    (howner : ∀ j, s'.owner = some (.worker j) ↔ s.owner = some (.worker j))
    (hsize : s'.taskQueueSize = s.taskQueueSize ∨ ∀ j, s.owner ≠ some (.worker j)) : Locked s' := by
  have hsame : ∀ {u : Worker τ} {v : Worker τ}, v.pc = u.pc ∨ v.pc = u.pc.notified →
      holdsMutex v.pc = holdsMutex u.pc ∧ (v.pc = .taking → u.pc = .taking) := by
    intro u v hv
    cases hv with
    | inl hv => rw [hv]; exact ⟨rfl,id⟩
    | inr hv =>
      rw [hv]
      cases u.pc <;> simp [WorkerPc.notified,holdsMutex]
  refine ⟨?_,?_,?_⟩
  · intro j hj
    exact Nat.lt_of_lt_of_le (h.known j ((howner j).mp hj)) hlen
  · intro j v hv
    rw [howner j]
    rcases hget hv with ⟨hj,hpc⟩ | ⟨u,hu,hpc⟩
    · rw [hpc]
      exact ⟨Bool.noConfusion,fun ho => absurd (h.known j ho) (Nat.not_lt.mpr hj)⟩
    · rw [(hsame hpc).1]
      exact h.holder j u hu
  · intro j v hv htake
    rcases hget hv with ⟨hj,hpc⟩ | ⟨u,hu,hpc⟩
    · exact WorkerPc.noConfusion (hpc.symm.trans htake)
    · have htaking := (hsame hpc).2 htake
      rcases hsize with hsize | hno
      · rw [hsize]
        exact h.taking j u hu htaking
      · exact absurd ((h.holder j u hu).mp (by rw [htaking]; rfl)) (hno j)

theorem locked_frame (h : Locked s) (hw : s'.workers = s.workers)
    (howner : ∀ j, s'.owner = some (.worker j) ↔ s.owner = some (.worker j))
    (hsize : s'.taskQueueSize = s.taskQueueSize) : Locked s' := by
  refine locked_others h ?_ (Nat.le_of_eq (by rw [hw])) howner (.inl hsize)
  intro j v hv
  rw [hw] at hv
  exact .inr ⟨v,hv,.inl rfl⟩

theorem notified_get {j : ℕ} {v : Worker τ} (hv : s.notifyNotEmpty.workers[j]? = some v) :
    ∃ u, s.workers[j]? = some u ∧ (v.pc = u.pc ∨ v.pc = u.pc.notified) := by
  simp only [ThreadPool.notifyNotEmpty,List.getElem?_map,Option.map_eq_some_iff] at hv
  obtain ⟨u,hu,rfl⟩ := hv
  exact ⟨u,hu,.inr rfl⟩

theorem walk_locked (h : Locked s) {k : ℕ} {w : Worker τ} (hk : s.workers[k]? = some w)
    {pc : WorkerPc} {owner : Option (Owner τ)} (hwalk : Walk s k w.pc pc owner) :
    Locked { s.setPc k w pc with owner := owner } := by
  generalize hpc : w.pc = before at hwalk
  cases hwalk with
  | locks hfree => exact locked_acquires h hfree hk rfl rfl rfl WorkerPc.noConfusion
  | relocks timed timedOut hfree => exact locked_acquires h hfree hk rfl rfl rfl WorkerPc.noConfusion
  | gives hstop => exact locked_releases h hk (by rw [hpc]; rfl) rfl rfl rfl
  | sleeps timed => exact locked_releases h hk (by rw [hpc]; rfl) rfl rfl rfl
  | givesUp hstop => exact locked_releases h hk (by rw [hpc]; rfl) rfl rfl rfl
  | leavesLocked => exact locked_releases h hk (by rw [hpc]; rfl) rfl rfl rfl
  | sees hsome hrun => exact locked_moves h hk rfl rfl rfl (by rw [hpc]; rfl) fun _ => hsome
  | _ => exact locked_moves h hk rfl rfl rfl (by rw [hpc]; rfl) WorkerPc.noConfusion

theorem destroy_locked (h : Locked s) (hd : Destroy s s') : Locked s' := by
  cases hd with
  | notifies hd =>
    refine locked_others h (fun hv => .inr (notified_get hv)) ?_ (fun _ => Iff.rfl) (.inl rfl)
    simp [ThreadPool.notifyNotEmpty]
  | _ => exact locked_frame h rfl (fun _ => Iff.rfl) rfl

variable [DecidableEq τ]

theorem threadExit_same (s : ThreadPool τ) (t : τ) :
    (s.threadExit t).workers = s.workers ∧ (s.threadExit t).owner = s.owner ∧
    (s.threadExit t).taskQueueSize = s.taskQueueSize := by
  rw [ThreadPool.threadExit]
  split_ifs <;> exact ⟨rfl,rfl,rfl⟩

theorem createThread_workers {config : ThreadPoolConfig} {pc : CreatePc τ} {spawn : Option τ}
    {r : ThreadPool τ} {res : CreateResult τ} (hr : s.createThread config spawn pc = (r,res)) :
    (∃ new : List (Worker τ), r.workers = s.workers++new ∧ ∀ w ∈ new, w.pc = .top) ∧
    r.taskQueueSize = s.taskQueueSize := by
  have hsame : ∃ new : List (Worker τ), s.workers = s.workers++new ∧ ∀ w ∈ new, w.pc = .top :=
    ⟨[],(List.append_nil _).symm,by simp⟩
  cases createThread_create hr with
  | spawns t hspawn hfree => exact ⟨⟨[{ threadId := t }],rfl,by simp⟩,rfl⟩
  | _ => exact ⟨hsame,rfl⟩

theorem createThread_locked (h : Locked s) {config : ThreadPoolConfig} {pc : CreatePc τ}
    {spawn : Option τ} {r : ThreadPool τ} {res : CreateResult τ}
    (hr : s.createThread config spawn pc = (r,res)) (hw : s'.workers = r.workers)
    (hsize : s'.taskQueueSize = r.taskQueueSize)
    (howner : ∀ j, s'.owner = some (.worker j) ↔ s.owner = some (.worker j)) : Locked s' := by
  obtain ⟨⟨new,hnew,htop⟩,hrsize⟩ := createThread_workers hr
  have hall := hw.trans hnew
  refine locked_others h ?_ (by rw [hall]; simp) howner (.inl (hsize.trans hrsize))
  intro j v hv
  rw [hall] at hv
  rcases Nat.lt_or_ge j s.workers.length with hj | hj
  · rw [List.getElem?_append_left hj] at hv
    exact .inr ⟨v,hv,.inl rfl⟩
  · rw [List.getElem?_append_right hj] at hv
    exact .inl ⟨hj,htop v (List.mem_of_getElem? hv)⟩

theorem act_locked {config : ThreadPoolConfig} (h : Locked s) {i : Input τ}
    {r : ThreadPool τ × List Output} (ha : Act config s i r) : Locked r.1 := by
  have hno : ∀ {f : Func} {pc : Option (CreatePc τ)}, s.owner = some (.submitter f pc) →
      ∀ {o : Option (Owner τ)}, (∀ j, o ≠ some (.worker j)) →
        ∀ j, o = some (.worker j) ↔ s.owner = some (.worker j) := by
    intro f pc howner o ho j
    rw [howner]
    exact ⟨fun h => absurd h (ho j),by simp⟩
  cases ha with
  | rests i => exact h
  | refuses i priority callback hfree hi => exact h
  | accepts priority callback hfree hroom hrun =>
    refine locked_others h (fun hv => .inr (notified_get hv)) ?_ ?_ ?_
    · simp [ThreadPool.notifyNotEmpty]
    · intro j
      rw [hfree]
      simp
    · right
      rw [hfree]
      simp
  | grows spawn f howner => exact locked_frame h rfl (hno howner (by simp)) rfl
  | submits spawn f howner => exact locked_frame h rfl (hno howner (by simp [ThreadPool.unlock])) rfl
  | creates spawn f pc r res howner hr =>
    cases res with
    | goesOn pc' => exact createThread_locked h hr rfl rfl (hno howner (by simp [submitterAfter]))
    | returned =>
      exact createThread_locked h hr rfl rfl (hno howner (by simp [submitterAfter,ThreadPool.unlock]))
    | threw =>
      exact createThread_locked h hr rfl rfl (hno howner (by simp [submitterAfter,ThreadPool.unlock]))
  | startsNext spawn hpc hleft => exact locked_frame h rfl (fun _ => Iff.rfl) rfl
  | starts spawn pc r res hpc hr =>
    have howner : ∀ j, r.owner = some (.worker j) ↔ s.owner = some (.worker j) := by
      intro j
      rw [(createThread_frame hr).2.1]
    cases res <;> exact createThread_locked h hr rfl rfl howner
  | walks i k w pc owner hk hwalk hi => exact walk_locked h hk hwalk
  | takes k choice w x hk hpc hx => exact locked_releases h hk (by rw [hpc]; rfl) rfl rfl rfl
  | exits k choice w locked hk hpc =>
    obtain ⟨hworkers,howner,hsize⟩ := threadExit_same s w.threadId
    refine locked_moves h hk (congrArg (List.set · k _) hworkers) howner hsize ?_ WorkerPc.noConfusion
    cases locked <;> rw [hpc] <;> rfl
  | queues k w f hk hpc hf =>
    exact locked_moves h hk rfl rfl rfl (by rw [hpc]; rfl) WorkerPc.noConfusion
  | finishes k w f queued hk hpc =>
    exact locked_moves h hk rfl rfl rfl (by rw [hpc]; rfl) WorkerPc.noConfusion
  | runsPending => exact locked_frame h rfl (fun _ => Iff.rfl) rfl
  | calls n threw f fs hn => exact locked_frame h rfl (fun _ => Iff.rfl) rfl
  | destroys => exact destroy_locked h (destructorStep_destroy s)

theorem step_locked (config : ThreadPoolConfig) (h : Locked s) (i : Input τ) :
    Locked ((threadPool config).step s i).1 := act_locked h (step_act config s i)

end

variable [DecidableEq τ]

theorem run_locked (config : ThreadPoolConfig) (is : List (Input τ)) :
    Locked ((threadPool config).run (Start config : ThreadPool τ) is).1 :=
  run_invariant (threadPool config) (fun s _ => Locked s) (fun _ _ i h => step_locked config h i)
    (Start config) is (locked_start config)

theorem topTasks_ne_nil {q : List PrioritizedTask} (h : q ≠ []) : topTasks q ≠ [] := by
  have hmin : ∃ x ∈ q, ∀ y ∈ q, x.priority ≤ y.priority := by
    induction q with
    | nil => exact absurd rfl h
    | cons z q ih =>
      cases q with
      | nil => exact ⟨z,by simp,by simp⟩
      | cons z' q =>
        obtain ⟨x,hx,hall⟩ := ih (List.cons_ne_nil _ _)
        by_cases hz : z.priority ≤ x.priority
        · exact ⟨z,by simp,fun y hy => by
            rcases List.mem_cons.mp hy with rfl | hy
            · exact Int.le_refl _
            · exact Int.le_trans hz (hall y hy)⟩
        · exact ⟨x,List.mem_cons_of_mem _ hx,fun y hy => by
            rcases List.mem_cons.mp hy with rfl | hy
            · omega
            · exact hall y hy⟩
  obtain ⟨x,hx,hall⟩ := hmin
  exact List.ne_nil_of_mem (mem_topTasks.mpr ⟨hx,hall⟩)

/-- No worker pops an empty queue. -/
theorem taking_finds_task (config : ThreadPoolConfig) (is : List (Input τ)) (k : ℕ) (w : Worker τ)
    (hk : ((threadPool config).run (Start config) is).1.workers[k]? = some w)
    (hpc : w.pc = .taking) :
    topTasks ((threadPool config).run (Start config : ThreadPool τ) is).1.taskQueue ≠ [] := by
  have hsome := (run_locked config is).taking k w hk hpc
  have hsize := (run_balanced config is).size
  apply topTasks_ne_nil
  intro hempty
  apply hsome
  rw [← UInt64.toNat_inj]
  exact hsize.trans (congrArg List.length hempty)

end MiniRpc.PoolMutex
