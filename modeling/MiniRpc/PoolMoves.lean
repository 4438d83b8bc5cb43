import MiniRpc.PoolMutex

/-!
# How a worker gets where it is

What the pool was like when a worker got to a place: it is on the exit path
of a stopped pool unless its wait has timed out, it executes a task it has
taken from the queue, and it has queued the callback of the task it executes.
-/

set_option autoImplicit false

namespace MiniRpc.PoolMoves
open MiniRpc.StepMachine MiniRpc.WorkerPool MiniRpc.PoolSteps MiniRpc.PoolAccounting
open MiniRpc.PoolMutex

variable {τ : Type}

/-- In a step from `s` a worker gets to `pc`. -/
inductive Arrival (s : ThreadPool τ) : WorkerPc → Prop where
  | idles (pc : WorkerPc) (hexit : pc ≠ .exiting) (hfunc : funcOf pc = none) : Arrival s pc
  | stops (hstop : s.isRunning = false) : Arrival s .exiting
  | takes (x : PrioritizedTask) (hx : x ∈ s.taskQueue) : Arrival s (.executing x.func false)
  | queues (f : Func) : Arrival s (.executing f true)

def Arrives (s s' : ThreadPool τ) : Prop :=
  ∀ w ∈ s'.workers, (∃ u ∈ s.workers, u.pc = w.pc) ∨ Arrival s w.pc

section
variable {s s' : ThreadPool τ}

theorem arrives_same (hw : s'.workers = s.workers) : Arrives s s' := by
  intro w hmem
  rw [hw] at hmem
  exact .inl ⟨w,hmem,rfl⟩

theorem arrives_setPc {k : ℕ} {w : Worker τ} {pc : WorkerPc}
    (hw : s'.workers = s.workers.set k { w with pc := pc }) (hpc : Arrival s pc) : Arrives s s' := by
  intro v hv
  rw [hw] at hv
  rcases List.mem_or_eq_of_mem_set hv with hmem | rfl
  · exact .inl ⟨v,hmem,rfl⟩
  · exact .inr hpc

theorem arrives_notified (hw : s'.workers = s.notifyNotEmpty.workers) : Arrives s s' := by
  intro v hv
  rw [hw,ThreadPool.notifyNotEmpty] at hv
  obtain ⟨u,hu,rfl⟩ := List.mem_map.mp hv
  dsimp only
  cases hpc : u.pc with
  | asleep timed => exact .inr (.idles _ WorkerPc.noConfusion rfl)
  | _ => exact .inl ⟨u,hu,hpc⟩

theorem walk_arrival {k : ℕ} {pc pc' : WorkerPc} {owner : Option (Owner τ)}
    (h : Walk s k pc pc' owner) : Arrival s pc' := by
  cases h with
  | stops hstop => exact .stops hstop
  | gives hstop => exact .stops hstop
  | givesUp hstop => exact .stops hstop
  | _ => exact .idles _ WorkerPc.noConfusion rfl

theorem destroy_arrives (h : Destroy s s') : Arrives s s' := by
  cases h with
  | notifies hd => exact arrives_notified rfl
  | _ => exact arrives_same rfl

variable [DecidableEq τ] {config : ThreadPoolConfig}

theorem createThread_arrives {pc : CreatePc τ} {spawn : Option τ} {r : ThreadPool τ}
    {res : CreateResult τ} (hr : s.createThread config spawn pc = (r,res))
    (hw : s'.workers = r.workers) : Arrives s s' := by
  obtain ⟨⟨new,hnew,htop⟩,-⟩ := createThread_workers hr
  intro w hmem
  rw [hw,hnew,List.mem_append] at hmem
  rcases hmem with hold | hlast
  · exact .inl ⟨w,hold,rfl⟩
  · rw [htop w hlast]
    exact .inr (.idles .top WorkerPc.noConfusion rfl)

theorem act_arrives {i : Input τ} {r : ThreadPool τ × List Output} (h : Act config s i r) :
    Arrives s r.1 := by
  cases h with
  | accepts priority callback hfree hroom hrun => exact arrives_notified rfl
  | creates spawn f pc r res howner hr => cases res <;> exact createThread_arrives hr rfl
  | starts spawn pc r res hpc hr => cases res <;> exact createThread_arrives hr rfl
  | walks i k w pc owner hk hwalk hi => exact arrives_setPc rfl (walk_arrival hwalk)
  | takes k choice w x hk hpc hx => exact arrives_setPc rfl (.takes x (mem_topTasks.mp hx).1)
  | exits k choice w locked hk hpc =>
    have hw : ((s.threadExit w.threadId).setPc k w (.exited locked)).workers
        = s.workers.set k { w with pc := .exited locked } := by
      rw [ThreadPool.setPc,(threadExit_same s w.threadId).1]
    exact arrives_setPc hw (.idles _ WorkerPc.noConfusion rfl)
  | queues k w f hk hpc hf => exact arrives_setPc rfl (.queues f)
  | finishes k w f queued hk hpc => exact arrives_setPc rfl (.idles _ WorkerPc.noConfusion rfl)
  | destroys => exact destroy_arrives (destructorStep_destroy s)
  | _ => exact arrives_same rfl

theorem step_arrives (config : ThreadPoolConfig) (s : ThreadPool τ) (i : Input τ) :
    Arrives s ((threadPool config).step s i).1 := act_arrives (step_act config s i)

end

end MiniRpc.PoolMoves
