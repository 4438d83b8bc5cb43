import MiniRpc.SubmitWait
import MiniRpc.PoolProgress

/-!
# Waiting submissions go through

With the calls that wait for room among the threads that take their steps,
the number of steps that do anything is still bounded: a task in the queue and
a call that has yet to push one pay for the notification they lead to, and a
notification pays for the calls it wakes. Once nothing is left to do no call
waits, and the tasks of all those that had not timed out were accepted.
-/

set_option autoImplicit false

namespace MiniRpc.SubmitProgress
open MiniRpc.StepMachine MiniRpc.Settling MiniRpc.WorkerPool MiniRpc.PoolSteps
open MiniRpc.PoolAccounting MiniRpc.PoolMutex MiniRpc.PoolShutdown MiniRpc.PoolAttention
open MiniRpc.PoolProgress MiniRpc.SubmitWait

variable {τ : Type}

/-- The steps of the calls that wait, of the workers and of the rest of the
pool's own threads. -/
def ownTurn : SubmitWait.Input τ → Bool
  | .lock _ => true
  | .inside => true
  | .notifyNotFull _ => true
  | .pool i => ownStep i
  | _ => false

def calls (s : SharedPool τ) : ℕ := s.waiting.length+s.inside.toList.length

def creating : Option (CreatePc τ) → ℕ
  | some .entering => 1
  | some .counted => 1
  | _ => 0

def growing : Option (Owner τ) → ℕ
  | some (.submitter _ none) => 1
  | some (.submitter _ (some pc)) => creating (some pc)
  | _ => 0

def crew (s : ThreadPool τ) : ℕ :=
  s.workers.length+s.starting+creating s.startPc+growing s.owner

def total (f : WaitPc → ℕ) : List Waiter → ℕ
  | [] => 0
  | x::xs => f x.pc+total f xs

def waitRank : WaitPc → ℕ
  | .asleep => 0
  | _ => 3

def insideRank : Option (Submission × InsidePc) → ℕ
  | some (_,.testing _) => 2
  | some (_,.blocking) => 1
  | none => 0

/-- What is set aside: for each call, what its task costs a crew of this size;
for each task and each notification, that all calls wake up. -/
def reserve (calls crew queued : ℕ) : ℕ := calls*(33+9*(crew+calls))+(queued+calls)*(3*calls+1)

def sharedRank (s : SharedPool τ) : ℕ :=
  rank s.pool+reserve (calls s) (crew s.pool) (s.pool.taskQueue.length+s.notifying.length)+
    total waitRank s.waiting+insideRank s.inside

theorem reserve_mono (c : ℕ) {w w' q q' : ℕ} (hw : w' ≤ w) (hq : q' ≤ q) :
    reserve c w' q' ≤ reserve c w q := by
  have hcost : c*(33+9*(w'+c)) ≤ c*(33+9*(w+c)) := Nat.mul_le_mul_left c (by omega)
  have hwake : (q'+c)*(3*c+1) ≤ (q+c)*(3*c+1) := Nat.mul_le_mul_right _ (by omega)
  rw [reserve,reserve]
  omega

theorem reserve_call (c : ℕ) {w w' q q' : ℕ} (hw : w' ≤ w+1) (hq : q' ≤ q+1) :
    reserve c w' q'+33+9*w ≤ reserve (c+1) w q := by
  have hcost : c*(33+9*(w'+c)) ≤ c*(33+9*(w+(c+1))) := Nat.mul_le_mul_left c (by omega)
  have hwake : (q'+c)*(3*c+1) ≤ (q+(c+1))*(3*(c+1)+1) := Nat.mul_le_mul (by omega) (by omega)
  have hone : (c+1)*(33+9*(w+(c+1))) = c*(33+9*(w+(c+1)))+(33+9*(w+(c+1))) := Nat.add_one_mul ..
  rw [reserve,reserve,hone]
  omega

theorem reserve_notification (c w q : ℕ) : reserve c w q+(3*c+1) = reserve c w (q+1) := by
  have hwake : (q+1+c)*(3*c+1) = (q+c)*(3*c+1)+(3*c+1) := by
    rw [Nat.add_right_comm,Nat.add_one_mul]
  rw [reserve,reserve,hwake]
  omega

theorem total_append (f : WaitPc → ℕ) (xs ys : List Waiter) :
    total f (xs++ys) = total f xs+total f ys := by
  induction xs with
  | nil => exact (Nat.zero_add _).symm
  | cons x xs ih => rw [List.cons_append,total,total,ih,Nat.add_assoc]

theorem total_eraseIdx (f : WaitPc → ℕ) {xs : List Waiter} {j : ℕ} {x : Waiter}
    (hx : xs[j]? = some x) : total f (xs.eraseIdx j)+f x.pc = total f xs := by
  induction xs generalizing j with
  | nil => cases hx
  | cons y xs ih =>
    cases j with
    | zero =>
      cases hx
      exact Nat.add_comm _ _
    | succ j =>
      have hrest := ih hx
      rw [List.eraseIdx_cons_succ,total,total]
      omega

theorem total_le {f : WaitPc → ℕ} {n : ℕ} (hf : ∀ pc, f pc ≤ n) (xs : List Waiter) :
    total f xs ≤ n*xs.length := by
  induction xs with
  | nil => exact Nat.le_refl _
  | cons x xs ih =>
    have hx := hf x.pc
    rw [total,List.length_cons,Nat.mul_succ]
    omega

theorem waitRank_le (pc : WaitPc) : waitRank pc ≤ 3 := by
  cases pc
  · exact Nat.le_refl 3
  · exact Nat.zero_le 3
  · exact Nat.le_refl 3

section
variable [DecidableEq τ] {config : ThreadPoolConfig} {s : ThreadPool τ}

theorem createThread_crew {pc : CreatePc τ} {spawn : Option τ} {r : ThreadPool τ}
    {res : CreateResult τ} (hr : s.createThread config spawn pc = (r,res)) :
    r.workers.length+creating (nextPc res) ≤ s.workers.length+creating (some pc) := by
  cases createThread_create hr with
  | full hfull => exact Nat.le_add_right _ _
  | throws hspawn => exact Nat.le_add_right _ _
  | spawns t hspawn hfree =>
    rw [List.length_append]
    exact Nat.le_refl _
  | _ => exact Nat.le_refl _

theorem act_crew {i : WorkerPool.Input τ} {r : ThreadPool τ × List Output}
    (ha : Act config s i r) (hown : ownStep i = true) : crew r.1 ≤ crew s := by
  have hworker : ∀ {t : ThreadPool τ} {k : ℕ} {w : Worker τ}, t.workers = s.workers.set k w →
      t.starting = s.starting → t.startPc = s.startPc → growing t.owner ≤ growing s.owner →
      crew t ≤ crew s := by
    intro t k w hset hstarting hstart howner
    rw [crew,crew,hset,List.length_set,hstarting,hstart]
    omega
  cases ha with
  | rests i => exact Nat.le_refl _
  | refuses i priority callback hfree hi => exact Nat.le_refl _
  | accepts priority callback hfree hroom hrun => exact Bool.noConfusion hown
  | grows spawn f howner =>
    rw [crew,crew,howner]
    exact Nat.le_refl _
  | submits spawn f howner =>
    rw [crew,crew,howner]
    exact Nat.le_add_right _ _
  | creates spawn f pc r res howner hr =>
    have hcrew := createThread_crew hr
    obtain ⟨workers,threads,current,idle,rfl⟩ := createThread_writes hr
    dsimp only at hcrew
    rw [crew,crew,howner]
    cases res <;> dsimp only [submitterAfter,ThreadPool.unlock,growing,nextPc,creating] at hcrew ⊢ <;>
      omega
  | startsNext spawn hpc hleft =>
    rw [crew,crew,hpc]
    dsimp only [creating]
    omega
  | starts spawn pc r res hpc hr =>
    have hcrew := createThread_crew hr
    obtain ⟨workers,threads,current,idle,rfl⟩ := createThread_writes hr
    dsimp only at hcrew
    rw [crew,crew,hpc]
    cases res <;> dsimp only [startAfter,nextPc,creating] at hcrew ⊢ <;> omega
  | walks i k w pc owner hk hwalk hi =>
    refine hworker rfl rfl rfl ?_
    rcases walk_owner hwalk with rfl | rfl | rfl
    · exact Nat.le_refl _
    · exact Nat.zero_le _
    · exact Nat.zero_le _
  | takes k choice w x hk hpc hx => exact hworker rfl rfl rfl (Nat.zero_le _)
  | exits k choice w locked hk hpc =>
    rw [ThreadPool.threadExit]
    split_ifs
    · exact hworker rfl rfl rfl (Nat.le_refl _)
    · exact hworker rfl rfl rfl (Nat.le_refl _)
  | queues k w f hk hpc hf => exact hworker rfl rfl rfl (Nat.le_refl _)
  | finishes k w f queued hk hpc => exact hworker rfl rfl rfl (Nat.le_refl _)
  | runsPending => exact Bool.noConfusion hown
  | calls n threw f fs hn => exact Bool.noConfusion hown
  | destroys => exact Bool.noConfusion hown

theorem enqueueTask_costs {priority : Int} {callback : Bool} {r : ThreadPool τ × List Output}
    (ha : Act config s (.enqueueTask priority callback) r) :
    rank r.1 ≤ rank s+32+9*s.workers.length ∧ crew r.1 ≤ crew s+1 ∧
    r.1.taskQueue.length ≤ s.taskQueue.length+1 ∧ r.1.workers.length = s.workers.length := by
  have hrest : rank s ≤ rank s+32+9*s.workers.length ∧ crew s ≤ crew s+1 ∧
      s.taskQueue.length ≤ s.taskQueue.length+1 ∧ s.workers.length = s.workers.length :=
    ⟨by omega,by omega,by omega,rfl⟩
  cases ha with
  | rests i => exact hrest
  | refuses i priority callback hfree hi => exact hrest
  | accepts priority callback hfree hroom hrun =>
    have hlen : s.notifyNotEmpty.workers.length = s.workers.length := List.length_map _
    refine ⟨?_,?_,?_,hlen⟩
    · have hle := workersRank_le (s.taskQueueSize+1 == 0) s.notifyNotEmpty.workers
      rw [hlen] at hle
      rw [rank,rank,hfree,List.length_append,queueEmpty]
      dsimp only [ownerRank,ThreadPool.notifyNotEmpty,List.length_singleton] at hle ⊢
      omega
    · rw [crew,crew,hfree]
      dsimp only [growing]
      rw [hlen]
      exact Nat.le_refl _
    · rw [List.length_append]
      exact Nat.le_refl _
  | walks i k w pc owner hk hwalk hi =>
    rcases hi with ⟨choice,hi⟩ | hi | hi
    · cases hi
    · cases hi
    · cases hi

end

section
variable {s : SharedPool τ}

theorem calls_inside {y : Submission × InsidePc} (hin : s.inside = some y) :
    calls s = s.waiting.length+1 := by
  rw [calls,hin]
  rfl

theorem calls_outside (hin : s.inside = none) : calls s = s.waiting.length := by
  rw [calls,hin]
  rfl

theorem leaves_rank {y : Submission × InsidePc} (hin : s.inside = some y) {p : ThreadPool τ}
    (hrank : rank p ≤ rank s.pool+32+9*s.pool.workers.length) (hcrew : crew p ≤ crew s.pool+1)
    (hqueue : p.taskQueue.length ≤ s.pool.taskQueue.length+1) :
    sharedRank { s with pool := p, inside := none } < sharedRank s := by
  have hworkers : s.pool.workers.length ≤ crew s.pool := by
    rw [crew]
    omega
  have hpaid := reserve_call s.waiting.length hcrew
    (show p.taskQueue.length+s.notifying.length ≤ s.pool.taskQueue.length+s.notifying.length+1 by omega)
  rw [sharedRank,sharedRank,calls_inside hin,calls_outside rfl]
  dsimp only [insideRank]
  omega

theorem moves_rank {s' : SharedPool τ} (hpool : s'.pool = s.pool)
    (hnotifying : s'.notifying = s.notifying) (hcalls : calls s' = calls s)
    (hlt : total waitRank s'.waiting+insideRank s'.inside <
      total waitRank s.waiting+insideRank s.inside) : sharedRank s' < sharedRank s := by
  rw [sharedRank,sharedRank,hpool,hnotifying,hcalls]
  omega

theorem notifies_rank {k : ℕ} (hk : k ∈ s.notifying) :
    sharedRank { s.notifyNotFull with notifying := s.notifying.erase k } < sharedRank s := by
  obtain ⟨n,hn⟩ := Nat.exists_eq_succ_of_ne_zero (Nat.ne_of_gt (List.length_pos_of_mem hk))
  have hleft : (s.notifying.erase k).length = n := by
    rw [List.length_erase_of_mem hk,hn]
    rfl
  have hlen : s.notifyNotFull.waiting.length = s.waiting.length := List.length_map _
  have hwoken := total_le waitRank_le s.notifyNotFull.waiting
  have hcalls : calls { s.notifyNotFull with notifying := s.notifying.erase k } = calls s :=
    congrArg (·+s.inside.toList.length) hlen
  have hle : s.waiting.length ≤ calls s := Nat.le_add_right _ _
  have hpaid := reserve_notification (calls s) (crew s.pool) (s.pool.taskQueue.length+n)
  rw [hlen] at hwoken
  rw [sharedRank,sharedRank,hcalls,hn]
  dsimp only [SharedPool.notifyNotFull] at hwoken ⊢
  rw [hleft,Nat.succ_eq_add_one,← Nat.add_assoc,← hpaid]
  omega

variable [DecidableEq τ] {config : ThreadPoolConfig}

theorem enqueueTimeout_rests (p : ThreadPool τ) :
    ((threadPool config).step p .enqueueTimeout).1 = p := by
  simp only [threadPool]
  split_ifs <;> rfl

theorem pools_rank (hl : Locked s.pool) (ha : Attentive s.pool) {i : WorkerPool.Input τ}
    (hown : ownStep i = true) :
    { s with
      pool := ((threadPool config).step s.pool i).1
      notifying := s.notifying++poppedBy ((threadPool config).step s.pool i).2 } = s ∨
    sharedRank { s with
      pool := ((threadPool config).step s.pool i).1
      notifying := s.notifying++poppedBy ((threadPool config).step s.pool i).2 } < sharedRank s := by
  have hcrew := act_crew (step_act config s.pool i) hown
  have hfalls := (pool_ranked config).falls s.pool i ⟨hl,ha⟩ hown
  have hqueue : ((threadPool config).step s.pool i).1.taskQueue.length+
      (poppedBy ((threadPool config).step s.pool i).2).length = s.pool.taskQueue.length := by
    cases act_queue (step_act config s.pool i) with
    | keeps hqueue hsize hpopped => rw [hqueue,hpopped]; rfl
    | pushes priority callback hi hroom hsize hpopped =>
      rw [hi] at hown
      exact Bool.noConfusion hown
    | pops k w hk hpc hlen hpopped => rw [hpopped]; exact hlen
  rcases hfalls with hsame | hlt
  · left
    rw [hsame] at hqueue ⊢
    have hnone : poppedBy ((threadPool config).step s.pool i).2 = [] :=
      List.eq_nil_of_length_eq_zero (by omega)
    rw [hnone,List.append_nil]
  · right
    have hpaid := reserve_mono (calls s) hcrew
      (show ((threadPool config).step s.pool i).1.taskQueue.length+(s.notifying++
        poppedBy ((threadPool config).step s.pool i).2).length ≤
        s.pool.taskQueue.length+s.notifying.length by rw [List.length_append]; omega)
    rw [sharedRank,sharedRank]
    dsimp only [calls] at hpaid ⊢
    omega

theorem turn_rank (h : Heard config s) (ha : Attentive s.pool) {i : SubmitWait.Input τ}
    (hown : ownTurn i = true) {r : SharedPool τ × List Output} (ht : Turn config s i r) :
    r.1 = s ∨ sharedRank r.1 < sharedRank s := by
  cases ht with
  | rests i => exact .inl rfl
  | arrives call => exact Bool.noConfusion hown
  | enters j x timedOut hx hpc howner hinside =>
    right
    have hleft := total_eraseIdx waitRank hx
    have hthree : waitRank x.pc = 3 := by
      rcases hpc with hpc | ⟨hpc,-⟩
      · rw [hpc]
        rfl
      · rw [hpc]
        rfl
    have hlen := List.length_eraseIdx_add_one (List.getElem?_eq_some_iff.mp hx).1
    refine moves_rank rfl rfl ?_ ?_
    · rw [calls_inside rfl,calls_outside hinside]
      exact hlen
    · rw [hinside]
      dsimp only [insideRank]
      omega
  | enqueues call timedOut hinside hroom =>
    obtain ⟨hrank,hcrew,hqueue,-⟩ := enqueueTask_costs
      (step_act config s.pool (.enqueueTask call.priority call.callback))
    exact .inr (leaves_rank hinside hrank hcrew hqueue)
  | givesUp call hinside hroom =>
    rw [enqueueTimeout_rests]
    exact .inr (leaves_rank hinside (by omega) (by omega) (by omega))
  | blocks call hinside hroom =>
    refine .inr (moves_rank rfl rfl ?_ ?_)
    · rw [calls_inside rfl,calls_inside hinside]
    · rw [hinside]
      exact Nat.lt_succ_self _
  | sleeps call hinside =>
    refine .inr (moves_rank rfl rfl ?_ ?_)
    · rw [calls_outside rfl,calls_inside hinside,List.length_append]
      rfl
    · rw [hinside,total_append]
      exact Nat.lt_succ_self _
  | wakes i j x timedOut hx hi =>
    rcases hi with rfl | rfl
    · exact Bool.noConfusion hown
    · exact Bool.noConfusion hown
  | notifies k hk => exact .inr (notifies_rank hk)
  | stops hstop => exact Bool.noConfusion hown
  | pools i hdefers hmutex => exact pools_rank h.locked ha hown

theorem turn_attentive (h : Heard config s) (ha : Attentive s.pool) {i : SubmitWait.Input τ}
    {r : SharedPool τ × List Output} (ht : Turn config s i r) : Attentive r.1.pool := by
  cases ht with
  | enqueues call timedOut hinside hroom => exact step_attentive h.locked ha _
  | givesUp call hinside hroom => exact step_attentive h.locked ha _
  | pools i hdefers hmutex => exact step_attentive h.locked ha i
  | _ => exact ha

theorem shared_ranked (config : ThreadPoolConfig) :
    Ranked (sharedPool config) (fun i : SubmitWait.Input τ => ownTurn i = true)
      (fun s => Heard config s ∧ Attentive s.pool) sharedRank where
  keeps s i h _ :=
    ⟨turn_heard h.1 (step_turn config s i),turn_attentive h.1 h.2 (step_turn config s i)⟩
  falls s i h hown := turn_rank h.1 h.2 hown (step_turn config s i)

end

def lateRank : WaitPc → ℕ
  | .waking true => 1
  | _ => 0

def lateInside : Option (Submission × InsidePc) → ℕ
  | some (_,.testing true) => 1
  | _ => 0

/-- The calls whose timeout has ended their sleep. -/
def late (s : SharedPool τ) : ℕ := total lateRank s.waiting+lateInside s.inside

theorem total_late_notified (xs : List Waiter) :
    total lateRank (xs.map fun x => { x with pc := x.pc.notified }) = total lateRank xs := by
  have hpc : ∀ pc : WaitPc, lateRank pc.notified = lateRank pc := by
    intro pc
    cases pc <;> rfl
  induction xs with
  | nil => rfl
  | cons x xs ih => rw [List.map_cons,total,total,ih,hpc]

section
variable [DecidableEq τ] {config : ThreadPoolConfig} {s : SharedPool τ}

/-- A call that ends its wait has had its task accepted, or was late. -/
theorem turn_accepts (h : Heard config s) (hrun : s.pool.isRunning = true)
    {i : SubmitWait.Input τ} (hown : ownTurn i = true) {r : SharedPool τ × List Output}
    (ht : Turn config s i r) :
    calls s+late r.1 ≤ calls r.1+(acceptedOf r.2).length+late s := by
  cases ht with
  | rests i => exact Nat.add_le_add_right (Nat.le_add_right _ _) _
  | arrives call => exact Bool.noConfusion hown
  | enters j x timedOut hx hpc howner hinside =>
    have hleft := total_eraseIdx lateRank hx
    have hlate : lateInside (some (x.call,.testing timedOut)) = lateRank x.pc := by
      rcases hpc with hpc | ⟨hpc,rfl⟩
      · rw [hpc]
        cases timedOut <;> rfl
      · rw [hpc]
        rfl
    have hlen := List.length_eraseIdx_add_one (List.getElem?_eq_some_iff.mp hx).1
    rw [calls_outside hinside,calls_inside rfl,late,late,hlate,hinside]
    dsimp only [lateInside]
    omega
  | enqueues call timedOut hinside hroom =>
    have hfree := h.mutex (by rw [hinside]; exact Option.some_ne_none _)
    have haccepted : (acceptedOf ((threadPool config).step s.pool
        (.enqueueTask call.priority call.callback)).2).length = 1 := by
      simp [threadPool,ThreadPool.enqueueTask,hfree,hroom,hrun,acceptedOf]
    rw [calls_inside hinside,calls_outside rfl,haccepted,late,late]
    dsimp only [lateInside]
    omega
  | givesUp call hinside hroom =>
    rw [calls_inside hinside,calls_outside rfl,late,late,hinside]
    dsimp only [lateInside]
    omega
  | blocks call hinside hroom =>
    rw [calls_inside hinside,calls_inside rfl,late,late,hinside]
    exact Nat.le_refl _
  | sleeps call hinside =>
    rw [calls_inside hinside,calls_outside rfl,late,late,hinside,List.length_append,total_append]
    exact Nat.le_refl _
  | wakes i j x timedOut hx hi =>
    rcases hi with rfl | rfl
    · exact Bool.noConfusion hown
    · exact Bool.noConfusion hown
  | notifies k hk =>
    have hlen : s.notifyNotFull.waiting.length = s.waiting.length := List.length_map _
    rw [calls,calls,late,late]
    dsimp only [SharedPool.notifyNotFull] at hlen ⊢
    rw [hlen,total_late_notified]
    exact Nat.le_refl _
  | stops hstop => exact Bool.noConfusion hown
  | pools i hdefers hmutex =>
    exact Nat.add_le_add_right (Nat.le_add_right (calls s) _) _

theorem turn_keeps {i : SubmitWait.Input τ} (hown : ownTurn i = true)
    {r : SharedPool τ × List Output} (ht : Turn config s i r) :
    r.1.pool.isRunning = s.pool.isRunning ∧
    s.pool.workers.length ≤ r.1.pool.workers.length := by
  have hflag : ∀ j, j ≠ .destructor →
      ((threadPool config).step s.pool j).1.isRunning = s.pool.isRunning := by
    intro j hj
    rcases step_flag config s.pool j with ⟨hsame,-⟩ | ⟨hd,-⟩
    · exact hsame
    · exact absurd hd hj
  cases ht with
  | enqueues call timedOut hinside hroom =>
    obtain ⟨-,-,-,hlen⟩ := enqueueTask_costs
      (step_act config s.pool (.enqueueTask call.priority call.callback))
    exact ⟨hflag _ (by simp),Nat.le_of_eq hlen.symm⟩
  | givesUp call hinside hroom =>
    rw [enqueueTimeout_rests]
    exact ⟨rfl,Nat.le_refl _⟩
  | pools i hdefers hmutex =>
    refine ⟨hflag i ?_,(act_own config (step_act config s.pool i) hown).2⟩
    rintro rfl
    exact Bool.noConfusion hown
  | _ => exact ⟨rfl,Nat.le_refl _⟩

theorem own_turns (h : Heard config s) (hrun : s.pool.isRunning = true)
    {js : List (SubmitWait.Input τ)} (hown : ∀ j ∈ js, ownTurn j = true) :
    calls s+late ((sharedPool config).run s js).1 ≤
      calls ((sharedPool config).run s js).1+
        (acceptedOf ((sharedPool config).run s js).2).length+late s ∧
    ((sharedPool config).run s js).1.pool.isRunning = true ∧
    s.pool.workers.length ≤ ((sharedPool config).run s js).1.pool.workers.length := by
  induction js generalizing s with
  | nil => exact ⟨Nat.le_refl _,hrun,Nat.le_refl _⟩
  | cons j js ih =>
    have hj := hown j List.mem_cons_self
    have hturn := step_turn config s j
    have hone := turn_accepts h hrun hj hturn
    obtain ⟨hflag,hlen⟩ := turn_keeps hj hturn
    obtain ⟨hrest,hrun',hlen'⟩ := ih (turn_heard h hturn) (hflag.trans hrun)
      fun l hl => hown l (List.mem_cons_of_mem j hl)
    refine ⟨?_,hrun',Nat.le_trans hlen hlen'⟩
    rw [Machine.run,acceptedOf_append,List.length_append]
    dsimp only at hrest ⊢
    omega

theorem settled_inside
    (h : Settled (sharedPool config) (fun i : SubmitWait.Input τ => ownTurn i = true) s) :
    s.inside = none := by
  have hsame := congrArg SharedPool.inside (h .inside rfl)
  cases hin : s.inside with
  | none => rfl
  | some y =>
    exfalso
    obtain ⟨call,pc⟩ := y
    simp only [sharedPool,SharedPool.goOn,hin] at hsame
    cases pc with
    | blocking => simp at hsame
    | testing timedOut =>
      by_cases hroom : s.pool.hasRoom config = true
      · simp [hroom] at hsame
      · cases timedOut <;> simp [hroom] at hsame

theorem settled_notified
    (h : Settled (sharedPool config) (fun i : SubmitWait.Input τ => ownTurn i = true) s) :
    s.notifying = [] := by
  by_contra hsome
  obtain ⟨k,ks,hk⟩ := List.exists_cons_of_ne_nil hsome
  have hmem : k ∈ s.notifying := hk ▸ List.mem_cons_self
  have hsame := congrArg (fun t : SharedPool τ => t.notifying.length) (h (.notifyNotFull k) rfl)
  simp only [sharedPool,if_pos hmem,List.length_erase_of_mem hmem] at hsame
  have hpos := List.length_pos_of_mem hmem
  omega

theorem settled_pool
    (h : Settled (sharedPool config) (fun i : SubmitWait.Input τ => ownTurn i = true) s) :
    Settled (threadPool config) (fun i : WorkerPool.Input τ => ownStep i = true) s.pool := by
  intro i hown
  have hdefers : s.defers i = false := by
    cases i <;> first | exact Bool.noConfusion hown | simp [SharedPool.defers,settled_notified h]
  have hsame := congrArg SharedPool.pool (h (.pool i) hown)
  simpa [sharedPool,SharedPool.poolStep,hdefers,settled_inside h] using hsame

theorem settled_waiting
    (h : Settled (sharedPool config) (fun i : SubmitWait.Input τ => ownTurn i = true) s)
    (hfree : s.pool.owner = none) (hawake : ∀ x ∈ s.waiting, x.pc ≠ .asleep) : s.waiting = [] := by
  cases hw : s.waiting with
  | nil => rfl
  | cons x xs =>
    exfalso
    have hall : s.free = true := by rw [SharedPool.free,hfree,settled_inside h]; rfl
    have hsame := congrArg (fun t : SharedPool τ => t.waiting.length) (h (.lock 0) rfl)
    have hx := hawake x (hw ▸ List.mem_cons_self)
    simp only [sharedPool,SharedPool.lock,hw,List.getElem?_cons_zero] at hsame
    cases hpc : x.pc with
    | locking => simp [hpc,SharedPool.enter,hall,hw] at hsame
    | asleep => exact hx hpc
    | waking timedOut => simp [hpc,SharedPool.enter,hall,hw] at hsame

end

section
variable [DecidableEq τ] {config : ThreadPoolConfig}

theorem run_shared_attentive (config : ThreadPoolConfig) (is : List (SubmitWait.Input τ)) :
    Attentive ((sharedPool config).run (start config : SharedPool τ) is).1.pool := by
  obtain ⟨js,hjs⟩ := run_pool config is
  have hpool := congrArg Prod.fst hjs
  dsimp only at hpool
  rw [← hpool]
  exact run_attentive config js

theorem settled_returned (hmax : 0 < config.maxQueueSize) (is : List (SubmitWait.Input τ))
    (h : Settled (sharedPool config) (fun i : SubmitWait.Input τ => ownTurn i = true)
      ((sharedPool config).run (start config) is).1) :
    (((sharedPool config).run (start config : SharedPool τ) is).1.pool.owner = none ∧
      calls ((sharedPool config).run (start config : SharedPool τ) is).1 = 0 ∧
      (finishedOf ((sharedPool config).run (start config : SharedPool τ) is).2).Perm
        (acceptedOf ((sharedPool config).run (start config : SharedPool τ) is).2)) ∨
    ∀ w ∈ ((sharedPool config).run (start config : SharedPool τ) is).1.pool.workers, w.pc = .gone := by
  have hheard := run_heard config is
  have hset := settled_pool h
  obtain ⟨js,hjs⟩ := run_pool config is
  have hpool := (congrArg Prod.fst hjs).symm
  have houts := (congrArg Prod.snd hjs).symm
  dsimp only at hpool houts
  rw [hpool] at hset ⊢
  rcases settled_finished js hset with hfin | hgone
  · by_cases hgone : ∀ w ∈ ((threadPool config).run (Start config : ThreadPool τ) js).1.workers,
        w.pc = .gone
    · exact .inr hgone
    left
    simp only [not_forall,exists_prop] at hgone
    obtain ⟨w,hw,hpc⟩ := hgone
    have hrest := settled_rests config (run_locked config js)
      (fun k w hk hpc => taking_finds_task config js k w hk hpc) hset
    have hsize := (run_balanced config js).size
    have hzero : ((threadPool config).run (Start config : ThreadPool τ) js).1.taskQueueSize = 0 := by
      rw [← UInt64.toNat_inj]
      exact hsize.trans (congrArg List.length (settled_empty config js hset hw hpc).1)
    have hroom : ((sharedPool config).run (start config : SharedPool τ) is).1.pool.taskQueueSize <
        config.maxQueueSize := by
      rw [hpool,hzero]
      exact hmax
    have hnone := settled_waiting h (hpool ▸ hrest.owner) (hheard.notified hroom (settled_notified h))
    refine ⟨hrest.owner,?_,?_⟩
    · rw [calls_outside (settled_inside h),hnone]
      rfl
    · rw [houts]
      exact hfin
  · exact .inr hgone

/-- From any point of any run of a running pool that has a worker and a queue:
whatever the order in which the calls that wait for room and the pool's own
threads then take their steps, only boundedly many of these do anything; from
wherever they are they can go on until nothing is left to do; and when nothing
is, no call is left in `enqueueTask`, every task that was accepted has
finished, and of the calls that were waiting all had their tasks accepted but
for those that had timed out. In a cached pool the workers may all have left
instead. -/
theorem submissions_go_through (is js : List (SubmitWait.Input τ)) (hmax : 0 < config.maxQueueSize)
    (hrun : ((sharedPool config).run (start config : SharedPool τ) is).1.pool.isRunning = true)
    (hworkers : ((sharedPool config).run (start config : SharedPool τ) is).1.pool.workers ≠ [])
    (hown : ∀ j ∈ js, ownTurn j = true) :
    (∃ ks, ks.Sublist js ∧
      Along (sharedPool config) (Effective (sharedPool config) fun i => ownTurn i = true)
        ((sharedPool config).run (start config) is).1 ks ∧
      ((sharedPool config).run ((sharedPool config).run (start config) is).1 ks).1 =
        ((sharedPool config).run (start config) (is++js)).1 ∧
      ks.length ≤ sharedRank ((sharedPool config).run (start config : SharedPool τ) is).1) ∧
    (∃ ls, (∀ l ∈ ls, ownTurn l = true) ∧
      Settled (sharedPool config) (fun i : SubmitWait.Input τ => ownTurn i = true)
        ((sharedPool config).run (start config) (is++(js++ls))).1) ∧
    (Settled (sharedPool config) (fun i : SubmitWait.Input τ => ownTurn i = true)
        ((sharedPool config).run (start config) (is++js)).1 →
      (((sharedPool config).run (start config : SharedPool τ) (is++js)).1.pool.owner = none ∧
        calls ((sharedPool config).run (start config : SharedPool τ) (is++js)).1 = 0 ∧
        (finishedOf ((sharedPool config).run (start config : SharedPool τ) (is++js)).2).Perm
          (acceptedOf ((sharedPool config).run (start config : SharedPool τ) (is++js)).2) ∧
        (acceptedOf ((sharedPool config).run (start config : SharedPool τ) is).2).length+
            calls ((sharedPool config).run (start config : SharedPool τ) is).1 ≤
          (acceptedOf ((sharedPool config).run (start config : SharedPool τ) (is++js)).2).length+
            late ((sharedPool config).run (start config : SharedPool τ) is).1) ∨
      (config.mode = .kCached ∧
        ∀ w ∈ ((sharedPool config).run (start config : SharedPool τ) (is++js)).1.pool.workers,
          w.pc = .gone)) := by
  have hheard := run_heard (τ := τ) config is
  have hinv := And.intro hheard (run_shared_attentive config is)
  obtain ⟨haccepts,hflag,hlen⟩ := own_turns hheard hrun hown
  refine ⟨?_,?_,?_⟩
  · obtain ⟨ks,hsub,heff,hsame,hle⟩ := own_run_bounded (shared_ranked config) hinv hown
    refine ⟨ks,hsub,heff,?_,hle⟩
    rw [run_append]
    exact hsame
  · obtain ⟨ls,hls,hset⟩ := exists_settled (shared_ranked config)
      (run_ranked (shared_ranked config) hinv hown)
    refine ⟨ls,hls,?_⟩
    rw [← List.append_assoc,run_append,run_append]
    exact hset
  · intro hset
    rcases settled_returned hmax (is++js) hset with ⟨howner,hcalls,hfin⟩ | hgone
    · refine .inl ⟨howner,hcalls,hfin,?_⟩
      rw [run_append] at hcalls ⊢
      dsimp only at hcalls ⊢
      rw [acceptedOf_append,List.length_append]
      omega
    · right
      refine ⟨?_,hgone⟩
      cases hmode : config.mode with
      | kCached => rfl
      | kFixed =>
        exfalso
        obtain ⟨ks,hks⟩ := run_pool config (is++js)
        have hstaffed := run_staffed (τ := τ) config hmode ks
        rw [congrArg Prod.fst hks] at hstaffed
        rw [run_append] at hgone hstaffed
        have hsome := Nat.lt_of_lt_of_le (List.length_pos_iff.mpr hworkers) hlen
        obtain ⟨w,hmem,hpc⟩ := staffed_worker hstaffed hflag hsome
        exact hpc (hgone w hmem)

end

def narrowConfig : ThreadPoolConfig where
  initThreadCount := 1
  maxQueueSize := 1

def secondWaits : List (SubmitWait.Input ℕ) :=
  startsWorker.map .pool++[.submit ⟨1,false⟩,.submit ⟨1,false⟩,.lock 0,.inside,.pool (.submitter none),
    .lock 0,.inside,.inside]

theorem sleeping_call_goes_through :
    ((sharedPool narrowConfig).run (start narrowConfig) secondWaits).1.waiting =
      [⟨⟨1,false⟩,.asleep⟩] ∧
    ∃ ls : List (SubmitWait.Input ℕ), (∀ l ∈ ls, ownTurn l = true) ∧
      2 ≤ (finishedOf ((sharedPool narrowConfig).run (start narrowConfig)
        (secondWaits++ls)).2).length := by
  have hrun : ((sharedPool narrowConfig).run (start narrowConfig)
      secondWaits).1.pool.isRunning = true := by
    decide +kernel
  have hworkers : ((sharedPool narrowConfig).run (start narrowConfig)
      secondWaits).1.pool.workers ≠ [] := by
    decide +kernel
  have hcount : (acceptedOf ((sharedPool narrowConfig).run (start narrowConfig) secondWaits).2).length+
      calls ((sharedPool narrowConfig).run (start narrowConfig) secondWaits).1 = 2 ∧
      late ((sharedPool narrowConfig).run (start narrowConfig) secondWaits).1 = 0 := by
    decide +kernel
  obtain ⟨-,⟨ls,hls,hset⟩,-⟩ := submissions_go_through secondWaits [] (by decide) hrun hworkers
    (by simp)
  obtain ⟨-,-,hend⟩ := submissions_go_through secondWaits ls (by decide) hrun hworkers hls
  obtain ⟨-,-,hfin,hle⟩ := (hend hset).resolve_right fun h => PoolMode.noConfusion h.1
  refine ⟨by decide +kernel,ls,hls,?_⟩
  rw [hfin.length_eq]
  omega

end MiniRpc.SubmitProgress
