import MiniRpc.PoolSteps
import Mathlib.Data.List.Nodup

/-!
# The books of the thread pool

Where the tasks are and what the counters say is kept by six kinds of
bookings; every step of every thread is one of them. The books balance: each
accepted task is queued, with one worker, or finished, and the counters agree
with what they count, so none of them wraps.
-/

set_option autoImplicit false

namespace MiniRpc.PoolAccounting
open MiniRpc.StepMachine MiniRpc.WorkerPool MiniRpc.PoolSteps

/-- `load`: the workers that have not run `threadExit`, and the calls of
`CreateThread` that have counted their worker but not created it. -/
structure Books where
  queue : List PrioritizedTask
  size : UInt64
  idle : UInt64
  current : UInt64
  pushed : ℕ
  executing : List Func
  load : ℕ

def acceptedOf (os : List Output) : List Func :=
  os.filterMap fun
    | .accepted f => some f
    | _ => none

def dequeuedOf (os : List Output) : List Func :=
  os.filterMap fun
    | .dequeued _ x => some x.func
    | _ => none

def finishedOf (os : List Output) : List Func :=
  os.filterMap fun
    | .finished f => some f
    | _ => none

def Unbooked (os : List Output) : Prop := acceptedOf os = [] ∧ dequeuedOf os = [] ∧ finishedOf os = []

inductive Booking (config : ThreadPoolConfig) (b : Books) : Books → List Output → Prop where
  | nothing (exec : List Func) (hexec : exec.Perm b.executing) (load : ℕ) (hload : load ≤ b.load)
      (os : List Output) (hos : Unbooked os) :
      Booking config b { b with executing := exec, load := load } os
  | accepts (priority : Int) (callback : Bool) (hroom : b.size < config.maxQueueSize)
      (exec : List Func) (hexec : exec.Perm b.executing) (load : ℕ) (hload : load ≤ b.load) :
      Booking config b
        { b with
          queue := b.queue++[{ priority := priority, func := ⟨b.pushed,callback⟩ }]
          size := b.size+1
          pushed := b.pushed+1
          executing := exec
          load := load }
        [.accepted ⟨b.pushed,callback⟩]
  | counts (hroom : b.current < config.maxThreadCount) (exec : List Func)
      (hexec : exec.Perm b.executing) (load : ℕ) (hload : load ≤ b.load+1) (os : List Output)
      (hos : Unbooked os) :
      Booking config b
        { b with current := b.current+1, idle := b.idle+1, executing := exec, load := load } os
  | dequeues (k : ℕ) (x : PrioritizedTask) (hx : x ∈ topTasks b.queue) (exec : List Func)
      (hexec : exec.Perm (x.func::b.executing)) (load : ℕ) (hload : load ≤ b.load)
      (hidle : b.executing.length < b.load) :
      Booking config b
        { b with
          queue := b.queue.erase x
          size := b.size-1
          idle := b.idle-1
          executing := exec
          load := load }
        [.dequeued k x]
  | finishes (f : Func) (exec : List Func) (hexec : b.executing.Perm (f::exec)) (load : ℕ)
      (hload : load ≤ b.load) :
      Booking config b { b with idle := b.idle+1, executing := exec, load := load } [.finished f]
  | exits (exec : List Func) (hexec : exec.Perm b.executing) (load : ℕ) (hload : load+1 ≤ b.load)
      (hidle : b.executing.length < b.load) :
      Booking config b
        { b with current := b.current-1, idle := b.idle-1, executing := exec, load := load } []

structure Balanced (config : ThreadPoolConfig) (b : Books) (os : List Output) : Prop where
  size : b.size.toNat = b.queue.length
  room : b.queue.length ≤ config.maxQueueSize.toNat
  idle : b.idle.toNat+b.executing.length = b.current.toNat
  current : b.current.toNat ≤ config.maxThreadCount.toNat
  load : b.load ≤ b.current.toNat
  places : (b.queue.map PrioritizedTask.func++(b.executing++finishedOf os)).Perm (acceptedOf os)
  serials : (acceptedOf os).map Func.serial = List.range b.pushed
  started : (dequeuedOf os).Perm (b.executing++finishedOf os)

@[simp] theorem acceptedOf_append (os os' : List Output) :
    acceptedOf (os++os') = acceptedOf os++acceptedOf os' := List.filterMap_append

@[simp] theorem dequeuedOf_append (os os' : List Output) :
    dequeuedOf (os++os') = dequeuedOf os++dequeuedOf os' := List.filterMap_append

@[simp] theorem finishedOf_append (os os' : List Output) :
    finishedOf (os++os') = finishedOf os++finishedOf os' := List.filterMap_append

theorem toNat_succ {x y : UInt64} (h : x < y) : (x+1).toNat = x.toNat+1 := by
  have hxy : x.toNat < y.toNat := h
  have hy : y.toNat < 2^64 := y.toNat_lt
  rw [UInt64.toNat_add]
  exact Nat.mod_eq_of_lt (by simp; omega)

theorem toNat_pred {x : UInt64} (h : 0 < x.toNat) : (x-1).toNat = x.toNat-1 := by
  have h1 : (1 : UInt64) ≤ x := h
  rw [UInt64.toNat_sub_of_le _ _ h1]
  rfl

theorem mem_topTasks {q : List PrioritizedTask} {x : PrioritizedTask} :
    x ∈ topTasks q ↔ x ∈ q ∧ ∀ y ∈ q, x.priority ≤ y.priority := by
  simp [topTasks,PrioritizedTask.less]

section
variable {config : ThreadPoolConfig} {b : Books} {os : List Output}

theorem balanced_nothing (h : Balanced config b os) {exec : List Func}
    (hexec : exec.Perm b.executing) {load : ℕ} (hload : load ≤ b.load) (new : List Output)
    (hnew : Unbooked new) :
    Balanced config { b with executing := exec, load := load } (os++new) := by
  obtain ⟨ha,hd,hf⟩ := hnew
  refine ⟨h.size,h.room,?_,h.current,Nat.le_trans hload h.load,?_,?_,?_⟩
  · rw [hexec.length_eq]
    exact h.idle
  · rw [acceptedOf_append,ha,List.append_nil,finishedOf_append,hf,List.append_nil]
    exact ((hexec.append_right _).append_left _).trans h.places
  · rw [acceptedOf_append,ha,List.append_nil]
    exact h.serials
  · rw [dequeuedOf_append,hd,List.append_nil,finishedOf_append,hf,List.append_nil]
    exact h.started.trans (hexec.symm.append_right _)

theorem balanced_accepts (h : Balanced config b os) (priority : Int) (callback : Bool)
    (hroom : b.size < config.maxQueueSize) :
    Balanced config
      { b with
        queue := b.queue++[{ priority := priority, func := ⟨b.pushed,callback⟩ }]
        size := b.size+1
        pushed := b.pushed+1 }
      (os++[.accepted ⟨b.pushed,callback⟩]) := by
  have hlt : b.size.toNat < config.maxQueueSize.toNat := hroom
  have hsize := h.size
  have hfin : finishedOf (os++[.accepted ⟨b.pushed,callback⟩]) = finishedOf os := by
    simp [finishedOf]
  have hacc : acceptedOf (os++[.accepted ⟨b.pushed,callback⟩]) =
      acceptedOf os++[⟨b.pushed,callback⟩] := by
    simp [acceptedOf]
  have hdeq : dequeuedOf (os++[.accepted ⟨b.pushed,callback⟩]) = dequeuedOf os := by
    simp [dequeuedOf]
  refine ⟨?_,?_,h.idle,h.current,h.load,?_,?_,?_⟩
  · simp [toNat_succ hroom,hsize]
  · simp only [List.length_append,List.length_singleton]
    omega
  · rw [hfin,hacc,List.map_append,List.append_assoc]
    refine (List.perm_append_comm.append_left _).trans ?_
    rw [← List.append_assoc]
    exact h.places.append_right _
  · rw [hacc,List.map_append,h.serials,List.range_succ]
    rfl
  · rw [hfin,hdeq]
    exact h.started

theorem balanced_counts (h : Balanced config b os) (hroom : b.current < config.maxThreadCount)
    {exec : List Func} (hexec : exec.Perm b.executing) {load : ℕ} (hload : load ≤ b.load+1)
    {new : List Output} (hnew : Unbooked new) :
    Balanced config
      { b with current := b.current+1, idle := b.idle+1, executing := exec, load := load }
      (os++new) := by
  have hlt : b.current.toNat < config.maxThreadCount.toNat := hroom
  have hi := h.idle
  have hl := h.load
  have hidle : (b.idle+1).toNat = b.idle.toNat+1 :=
    toNat_succ (y := config.maxThreadCount) (show b.idle.toNat < config.maxThreadCount.toNat by omega)
  have hsame := balanced_nothing h hexec (Nat.le_refl b.load) _ hnew
  refine ⟨h.size,h.room,?_,?_,?_,hsame.places,hsame.serials,hsame.started⟩
  · rw [hidle,toNat_succ hroom,hexec.length_eq]
    omega
  · rw [toNat_succ hroom]
    omega
  · rw [toNat_succ hroom]
    dsimp only
    omega

theorem balanced_dequeues (h : Balanced config b os) (k : ℕ) {x : PrioritizedTask}
    (hx : x ∈ topTasks b.queue) {exec : List Func} (hexec : exec.Perm (x.func::b.executing))
    {load : ℕ} (hload : load ≤ b.load) (hidle : b.executing.length < b.load) :
    Balanced config
      { b with
        queue := b.queue.erase x
        size := b.size-1
        idle := b.idle-1
        executing := exec
        load := load }
      (os++[.dequeued k x]) := by
  have hmem := (mem_topTasks.mp hx).1
  have hpos := List.length_pos_of_mem hmem
  have hsize := h.size
  have hroom := h.room
  have hi := h.idle
  have hl := h.load
  have hfin : finishedOf (os++[.dequeued k x]) = finishedOf os := by simp [finishedOf]
  have hacc : acceptedOf (os++[.dequeued k x]) = acceptedOf os := by simp [acceptedOf]
  have hdeq : dequeuedOf (os++[.dequeued k x]) = dequeuedOf os++[x.func] := by simp [dequeuedOf]
  refine ⟨?_,?_,?_,h.current,Nat.le_trans hload h.load,?_,?_,?_⟩
  · rw [toNat_pred (by omega),List.length_erase_of_mem hmem]
    omega
  · rw [List.length_erase_of_mem hmem]
    omega
  · rw [toNat_pred (by omega),hexec.length_eq,List.length_cons]
    dsimp only
    omega
  · rw [hfin,hacc]
    have hqueue : (b.queue.map PrioritizedTask.func).Perm
        (x.func::(b.queue.erase x).map PrioritizedTask.func) :=
      (List.perm_cons_erase hmem).map _
    refine ((hexec.append_right _).append_left _).trans ?_
    refine List.perm_middle.trans ?_
    exact (hqueue.symm.append_right _).trans h.places
  · rw [hacc]
    exact h.serials
  · rw [hfin,hdeq]
    refine (h.started.append_right _).trans ?_
    refine List.perm_append_comm.trans ?_
    exact (hexec.symm.append_right _)

theorem balanced_finishes (h : Balanced config b os) {f : Func} {exec : List Func}
    (hexec : b.executing.Perm (f::exec)) {load : ℕ} (hload : load ≤ b.load) :
    Balanced config { b with idle := b.idle+1, executing := exec, load := load }
      (os++[.finished f]) := by
  have hlen : b.executing.length = exec.length+1 := by rw [hexec.length_eq,List.length_cons]
  have hi := h.idle
  have hidle : (b.idle+1).toNat = b.idle.toNat+1 :=
    toNat_succ (y := b.current) (show b.idle.toNat < b.current.toNat by omega)
  have hfin : finishedOf (os++[.finished f]) = finishedOf os++[f] := by simp [finishedOf]
  have hacc : acceptedOf (os++[.finished f]) = acceptedOf os := by simp [acceptedOf]
  have hdeq : dequeuedOf (os++[.finished f]) = dequeuedOf os := by simp [dequeuedOf]
  have hmoved : (exec++(finishedOf os++[f])).Perm (b.executing++finishedOf os) := by
    rw [← List.append_assoc]
    refine List.perm_append_comm.trans ?_
    exact hexec.symm.append_right _
  refine ⟨h.size,h.room,?_,h.current,Nat.le_trans hload h.load,?_,?_,?_⟩
  · rw [hidle]
    dsimp only
    omega
  · rw [hfin,hacc]
    exact (hmoved.append_left _).trans h.places
  · rw [hacc]
    exact h.serials
  · rw [hfin,hdeq]
    exact h.started.trans hmoved.symm

theorem balanced_exits (h : Balanced config b os) {exec : List Func}
    (hexec : exec.Perm b.executing) {load : ℕ} (hload : load+1 ≤ b.load)
    (hidle : b.executing.length < b.load) :
    Balanced config
      { b with current := b.current-1, idle := b.idle-1, executing := exec, load := load }
      (os++[]) := by
  have hi := h.idle
  have hl := h.load
  have hc := h.current
  have hsame := balanced_nothing h hexec (by omega : load ≤ b.load) [] ⟨rfl,rfl,rfl⟩
  refine ⟨h.size,h.room,?_,?_,?_,hsame.places,hsame.serials,hsame.started⟩
  · rw [toNat_pred (by omega),toNat_pred (by omega),hexec.length_eq]
    omega
  · rw [toNat_pred (by omega)]
    omega
  · rw [toNat_pred (by omega)]
    dsimp only
    omega

theorem balanced_booking (h : Balanced config b os) {b' : Books} {new : List Output}
    (hb : Booking config b b' new) : Balanced config b' (os++new) := by
  cases hb with
  | nothing exec hexec load hload new hos => exact balanced_nothing h hexec hload new hos
  | accepts priority callback hroom exec hexec load hload =>
    have h' := balanced_nothing h hexec hload [] ⟨rfl,rfl,rfl⟩
    rw [List.append_nil] at h'
    exact balanced_accepts h' priority callback hroom
  | counts hroom exec hexec load hload new hos => exact balanced_counts h hroom hexec hload hos
  | dequeues k x hx exec hexec load hload hidle => exact balanced_dequeues h k hx hexec hload hidle
  | finishes f exec hexec load hload => exact balanced_finishes h hexec hload
  | exits exec hexec load hload hidle => exact balanced_exits h hexec hload hidle

end

def funcOf : WorkerPc → Option Func
  | .executing f _ => some f
  | _ => none

def isLive : WorkerPc → Bool
  | .exited _ => false
  | .gone => false
  | _ => true

variable {τ : Type}

def pendingSpawn : Option (CreatePc τ) → ℕ
  | some .counted => 1
  | _ => 0

def executing (ws : List (Worker τ)) : List Func := ws.filterMap fun w => funcOf w.pc

def liveCount (ws : List (Worker τ)) : ℕ := ws.countP fun w => isLive w.pc

def spawns (s : ThreadPool τ) : ℕ := pendingSpawn s.startPc+pendingSpawn (Owner.createPc s.owner)

def books (s : ThreadPool τ) : Books where
  queue := s.taskQueue
  size := s.taskQueueSize
  idle := s.idleThreadCount
  current := s.currentThreadCount
  pushed := s.pushed
  executing := executing s.workers
  load := liveCount s.workers+spawns s

def Books.counters (b : Books) : Books := { b with executing := [], load := 0 }

theorem executing_perm {ws ws' : List (Worker τ)} (h : ws.Perm ws') :
    (executing ws).Perm (executing ws') := h.filterMap _

theorem liveCount_perm {ws ws' : List (Worker τ)} (h : ws.Perm ws') :
    liveCount ws = liveCount ws' := h.countP_eq _

theorem executing_cons (w : Worker τ) (ws : List (Worker τ)) :
    executing (w::ws) = (funcOf w.pc).toList++executing ws := by
  cases h : funcOf w.pc <;> simp [executing,h]

theorem liveCount_cons (w : Worker τ) (ws : List (Worker τ)) :
    liveCount (w::ws) = liveCount ws+(if isLive w.pc then 1 else 0) := List.countP_cons

theorem executing_live (ws : List (Worker τ)) : (executing ws).length ≤ liveCount ws := by
  induction ws with
  | nil => exact Nat.le_refl _
  | cons w ws ih =>
    rw [executing_cons,liveCount_cons,List.length_append]
    cases hpc : w.pc <;> simp [funcOf,isLive] <;> omega

theorem worker_share {ws : List (Worker τ)} {k : ℕ} {w : Worker τ} (h : ws[k]? = some w) :
    ∃ others : List (Worker τ),
      (executing ws).Perm ((funcOf w.pc).toList++executing others) ∧
      liveCount ws = liveCount others+(if isLive w.pc then 1 else 0) ∧
      ∀ pc, (executing (ws.set k { w with pc := pc })).Perm ((funcOf pc).toList++executing others) ∧
        liveCount (ws.set k { w with pc := pc }) = liveCount others+(if isLive pc then 1 else 0) := by
  obtain ⟨hk,hw⟩ := List.getElem?_eq_some_iff.mp h
  have hall : ws.Perm (w::ws.eraseIdx k) := by
    rw [← hw]
    exact (List.getElem_cons_eraseIdx_perm hk).symm
  refine ⟨ws.eraseIdx k,?_,?_,fun pc => ?_⟩
  · rw [← executing_cons]
    exact executing_perm hall
  · rw [← liveCount_cons]
    exact liveCount_perm hall
  · have hset := List.set_perm_cons_eraseIdx hk { w with pc := pc }
    exact ⟨(executing_perm hset).trans (List.Perm.of_eq (executing_cons _ _)),
      (liveCount_perm hset).trans (liveCount_cons _ _)⟩

theorem executing_lt {ws : List (Worker τ)} {k : ℕ} {w : Worker τ} (h : ws[k]? = some w)
    (hlive : isLive w.pc = true) (hfunc : funcOf w.pc = none) :
    (executing ws).length < liveCount ws := by
  obtain ⟨others,hexec,hcount,-⟩ := worker_share h
  rw [hexec.length_eq,hcount,hfunc,if_pos hlive]
  exact Nat.lt_succ_of_le (executing_live others)

theorem Books.eq_of_counters {b b' : Books} (h : b'.counters = b.counters) :
    b' = { b with executing := b'.executing, load := b'.load } :=
  congrArg (fun c : Books => { c with executing := b'.executing, load := b'.load }) h

@[simp] theorem executing_notified (ws : List (Worker τ)) :
    executing (ws.map fun w => { w with pc := w.pc.notified }) = executing ws := by
  rw [executing,List.filterMap_map,executing]
  congr 1
  funext w
  show funcOf w.pc.notified = funcOf w.pc
  cases w.pc <;> rfl

@[simp] theorem liveCount_notified (ws : List (Worker τ)) :
    liveCount (ws.map fun w => { w with pc := w.pc.notified }) = liveCount ws := by
  rw [liveCount,List.countP_map,liveCount]
  congr 1
  funext w
  show isLive w.pc.notified = isLive w.pc
  cases w.pc <;> rfl

section
variable {config : ThreadPoolConfig} {s s' : ThreadPool τ} {os : List Output}

theorem booking_nothing (hsame : (books s').counters = (books s).counters)
    (hexec : (executing s'.workers).Perm (executing s.workers))
    (hload : liveCount s'.workers+spawns s' ≤ liveCount s.workers+spawns s) (hos : Unbooked os) :
    Booking config (books s) (books s') os := by
  rw [Books.eq_of_counters hsame]
  exact .nothing _ hexec _ hload os hos

theorem booking_same (hsame : (books s').counters = (books s).counters)
    (hw : s'.workers = s.workers) (hspawns : spawns s' ≤ spawns s) (hos : Unbooked os) :
    Booking config (books s) (books s') os := by
  apply booking_nothing hsame _ _ hos
  · rw [hw]
  · rw [hw]
    exact Nat.add_le_add_left hspawns _

theorem booking_rest (hos : Unbooked os) : Booking config (books s) (books s) os :=
  booking_same rfl rfl (Nat.le_refl _) hos

theorem booking_setPc {k : ℕ} {w : Worker τ} (hk : s.workers[k]? = some w) {pc : WorkerPc}
    (hw : s'.workers = s.workers.set k { w with pc := pc })
    (hsame : (books s').counters = (books s).counters) (hfunc : funcOf pc = funcOf w.pc)
    (hlive : isLive pc = true → isLive w.pc = true) (hspawns : spawns s' ≤ spawns s) :
    Booking config (books s) (books s') [] := by
  obtain ⟨others,hexec,hcount,hset⟩ := worker_share hk
  obtain ⟨hexec',hcount'⟩ := hset pc
  rw [hfunc] at hexec'
  apply booking_nothing hsame
  · rw [hw]
    exact hexec'.trans hexec.symm
  · have hle : (if isLive pc then 1 else 0) ≤ (if isLive w.pc then 1 else 0) := by
      cases hp : isLive pc with
      | false => exact Nat.zero_le _
      | true => simp [hlive hp]
    rw [hw,hcount',hcount]
    omega
  · exact ⟨rfl,rfl,rfl⟩

theorem walk_place {k : ℕ} {pc pc' : WorkerPc} {owner : Option (Owner τ)}
    (h : Walk s k pc pc' owner) : funcOf pc' = funcOf pc ∧ (isLive pc' = true → isLive pc = true) := by
  cases h with
  | leaves => exact ⟨rfl,Bool.noConfusion⟩
  | leavesLocked => exact ⟨rfl,Bool.noConfusion⟩
  | _ => exact ⟨rfl,fun _ => rfl⟩

theorem walk_booking {k : ℕ} {w : Worker τ} (hk : s.workers[k]? = some w) {pc : WorkerPc}
    {owner : Option (Owner τ)} (hwalk : Walk s k w.pc pc owner) :
    Booking config (books s) (books { s.setPc k w pc with owner := owner }) [] := by
  obtain ⟨hfunc,hlive⟩ := walk_place hwalk
  refine booking_setPc hk rfl rfl hfunc hlive ?_
  rcases walk_owner hwalk with rfl | rfl | rfl
  · exact Nat.le_refl _
  · exact Nat.add_le_add_left (Nat.zero_le _) _
  · exact Nat.add_le_add_left (Nat.zero_le _) _

theorem takes_booking {k : ℕ} {w : Worker τ} (hk : s.workers[k]? = some w) (hpc : w.pc = .taking)
    {x : PrioritizedTask} (hx : x ∈ topTasks s.taskQueue) :
    Booking config (books s)
      (books { s.setPc k w (.executing x.func false) with
        idleThreadCount := s.idleThreadCount-1
        taskQueue := s.taskQueue.erase x
        taskQueueSize := s.taskQueueSize-1
        owner := none }) [.dequeued k x] := by
  have hlive : isLive w.pc = true := by rw [hpc]; rfl
  have hfunc : funcOf w.pc = none := by rw [hpc]; rfl
  have hidle := executing_lt hk hlive hfunc
  obtain ⟨others,hexec,hcount,hset⟩ := worker_share hk
  obtain ⟨hexec',hcount'⟩ := hset (.executing x.func false)
  rw [hfunc] at hexec
  refine .dequeues k x hx _ ?_ _ ?_ (Nat.lt_of_lt_of_le hidle (Nat.le_add_right _ _))
  · exact hexec'.trans (hexec.symm.cons x.func)
  · have hsame : liveCount (s.workers.set k { w with pc := .executing x.func false }) =
        liveCount s.workers := by
      rw [hcount',hcount,hlive]
      rfl
    exact Nat.add_le_add (Nat.le_of_eq hsame) (Nat.add_le_add_left (Nat.zero_le _) _)

theorem finishes_booking {k : ℕ} {w : Worker τ} (hk : s.workers[k]? = some w) {f : Func}
    {queued : Bool} (hpc : w.pc = .executing f queued) :
    Booking config (books s)
      (books { s.setPc k w .top with idleThreadCount := s.idleThreadCount+1 }) [.finished f] := by
  obtain ⟨others,hexec,hcount,hset⟩ := worker_share hk
  obtain ⟨hexec',hcount'⟩ := hset .top
  rw [hpc] at hexec hcount
  refine .finishes f _ ?_ _ ?_
  · exact hexec.trans (hexec'.symm.cons f)
  · exact Nat.add_le_add (Nat.le_of_eq (hcount'.trans hcount.symm)) (Nat.le_refl _)

theorem destroy_booking (h : Destroy s s') : Booking config (books s) (books s') [] := by
  cases h with
  | notifies hd =>
    refine booking_nothing rfl (List.Perm.of_eq (executing_notified _)) ?_ ⟨rfl,rfl,rfl⟩
    exact Nat.le_of_eq (congrArg (·+spawns s) (liveCount_notified _))
  | _ => exact booking_same rfl rfl (Nat.le_refl _) ⟨rfl,rfl,rfl⟩

variable [DecidableEq τ]

/-- `threadExit` takes the worker off the books only if its id is
registered. -/
theorem threadExit_booking {k : ℕ} {w : Worker τ} (hk : s.workers[k]? = some w)
    (hlive : isLive w.pc = true) (hfunc : funcOf w.pc = none) (locked : Bool) :
    Booking config (books s) (books ((s.threadExit w.threadId).setPc k w (.exited locked))) [] := by
  rw [ThreadPool.threadExit]
  by_cases hid : w.threadId ∈ s.threads
  · rw [if_pos hid]
    obtain ⟨others,hexec,hcount,hset⟩ := worker_share hk
    obtain ⟨hexec',hcount'⟩ := hset (.exited locked)
    have hidle := executing_lt hk hlive hfunc
    rw [hfunc] at hexec
    have hless : liveCount (s.workers.set k { w with pc := .exited locked })+1 =
        liveCount s.workers := by
      rw [hcount',hcount,hlive]
      rfl
    have hbusy : (books s).executing.length < (books s).load :=
      Nat.lt_of_lt_of_le hidle (Nat.le_add_right _ _)
    refine Booking.exits (b := books s) _ (hexec'.trans hexec.symm) _ ?_ hbusy
    show liveCount (s.workers.set k { w with pc := .exited locked })+spawns s+1 ≤
      liveCount s.workers+spawns s
    omega
  · rw [if_neg hid]
    exact booking_setPc hk rfl rfl hfunc.symm (fun _ => hlive) (Nat.le_refl _)

def nextPc : CreateResult τ → Option (CreatePc τ)
  | .goesOn pc => some pc
  | _ => none

/-- A step inside `CreateThread`, called from `enqueueTask` or from `Start`;
`others` counts the workers that the other one of these is about to create. -/
theorem createThread_booking {pc : CreatePc τ} {spawn : Option τ} {r : ThreadPool τ}
    {res : CreateResult τ} (hr : s.createThread config spawn pc = (r,res)) (others : ℕ)
    (hs : spawns s = others+pendingSpawn (some pc)) (hs' : spawns s' = others+pendingSpawn (nextPc res))
    (hw : s'.workers = r.workers) (hsame : (books s').counters = (books r).counters)
    (hos : Unbooked os) : Booking config (books s) (books s') os := by
  have hquiet : r = s → pendingSpawn (nextPc res) ≤ pendingSpawn (some pc) →
      Booking config (books s) (books s') os := by
    intro h hle
    rw [h] at hw hsame
    apply booking_same hsame hw _ hos
    omega
  cases createThread_create hr with
  | full hfull => exact hquiet rfl (Nat.le_refl _)
  | counts hroom =>
    rw [Books.eq_of_counters hsame]
    refine Booking.counts (b := books s) hroom _ (List.Perm.of_eq (congrArg executing hw)) _ ?_ os hos
    show liveCount s'.workers+spawns s' ≤ liveCount s.workers+spawns s+1
    rw [hw,hs,hs']
    exact Nat.le_refl _
  | throws hspawn => exact hquiet rfl (Nat.zero_le _)
  | waits t hspawn => exact hquiet rfl (Nat.le_refl _)
  | spawns t hspawn hfree =>
    have hcounters : (books s').counters = (books s).counters := hsame
    apply booking_nothing hcounters _ _ hos
    · rw [hw,executing,List.filterMap_append]
      exact List.Perm.of_eq (List.append_nil _)
    · rw [hw,hs,hs',liveCount,List.countP_append]
      exact Nat.le_of_eq (Nat.add_right_comm _ _ _)
  | inserts t =>
    apply booking_same (s := s) hsame hw _ hos
    rw [hs,hs']
    exact Nat.le_refl _

theorem createThread_frame {pc : CreatePc τ} {spawn : Option τ} {r : ThreadPool τ}
    {res : CreateResult τ} (hr : s.createThread config spawn pc = (r,res)) :
    r.startPc = s.startPc ∧ r.owner = s.owner ∧ r.isRunning = s.isRunning ∧
    r.destructor = s.destructor ∧ r.starting = s.starting := by
  obtain ⟨workers,threads,current,idle,rfl⟩ := createThread_writes hr
  exact ⟨rfl,rfl,rfl,rfl,rfl⟩

theorem creates_booking {f : Func} {pc : CreatePc τ} {spawn : Option τ} {r : ThreadPool τ}
    {res : CreateResult τ} (howner : s.owner = some (.submitter f (some pc)))
    (hr : s.createThread config spawn pc = (r,res)) :
    Booking config (books s) (books (submitterAfter f r res).1) (submitterAfter f r res).2 := by
  have hstart := (createThread_frame hr).1
  have hs : spawns s = pendingSpawn s.startPc+pendingSpawn (some pc) := by
    rw [spawns,howner]
    rfl
  have hs' : spawns (submitterAfter f r res).1 = pendingSpawn s.startPc+pendingSpawn (nextPc res) := by
    rw [← hstart]
    cases res <;> rfl
  cases res <;> exact createThread_booking hr _ hs hs' rfl rfl ⟨rfl,rfl,rfl⟩

theorem starts_booking {pc : CreatePc τ} {spawn : Option τ} {r : ThreadPool τ}
    {res : CreateResult τ} (hpc : s.startPc = some pc)
    (hr : s.createThread config spawn pc = (r,res)) :
    Booking config (books s) (books (startAfter r res)) [] := by
  have howner := (createThread_frame hr).2.1
  have hs : spawns s = pendingSpawn (Owner.createPc s.owner)+pendingSpawn (some pc) := by
    rw [spawns,hpc,Nat.add_comm]
  have hs' : spawns (startAfter r res) =
      pendingSpawn (Owner.createPc s.owner)+pendingSpawn (nextPc res) := by
    rw [spawns,Nat.add_comm,← howner]
    cases res <;> rfl
  cases res <;> exact createThread_booking hr _ hs hs' rfl rfl ⟨rfl,rfl,rfl⟩

theorem act_booking {i : Input τ} {r : ThreadPool τ × List Output} (h : Act config s i r) :
    Booking config (books s) (books r.1) r.2 := by
  have hfree : ∀ n : ℕ, pendingSpawn s.startPc+0 ≤ pendingSpawn s.startPc+n :=
    fun n => Nat.add_le_add_left (Nat.zero_le n) _
  cases h with
  | rests i => exact booking_rest ⟨rfl,rfl,rfl⟩
  | refuses i priority callback hfree hi => exact booking_rest ⟨rfl,rfl,rfl⟩
  | accepts priority callback hnone hroom hrun =>
    refine .accepts priority callback hroom _ (List.Perm.of_eq (executing_notified _)) _ ?_
    exact Nat.add_le_add (Nat.le_of_eq (liveCount_notified _)) (hfree _)
  | grows spawn f howner => exact booking_same rfl rfl (hfree _) ⟨rfl,rfl,rfl⟩
  | submits spawn f howner => exact booking_same rfl rfl (hfree _) ⟨rfl,rfl,rfl⟩
  | creates spawn f pc r res howner hr => exact creates_booking howner hr
  | startsNext spawn hpc hleft =>
    refine booking_same rfl rfl ?_ ⟨rfl,rfl,rfl⟩
    rw [spawns,spawns,hpc]
    exact Nat.le_refl _
  | starts spawn pc r res hpc hr => exact starts_booking hpc hr
  | walks i k w pc owner hk hwalk hi => exact walk_booking hk hwalk
  | takes k choice w x hk hpc hx => exact takes_booking hk hpc hx
  | exits k choice w locked hk hpc =>
    cases locked with
    | false => exact threadExit_booking hk (by rw [hpc]; rfl) (by rw [hpc]; rfl) false
    | true => exact threadExit_booking hk (by rw [hpc]; rfl) (by rw [hpc]; rfl) true
  | queues k w f hk hpc hf =>
    exact booking_setPc hk rfl rfl (by rw [hpc]; rfl) (fun _ => by rw [hpc]; rfl) (Nat.le_refl _)
  | finishes k w f queued hk hpc => exact finishes_booking hk hpc
  | runsPending => exact booking_same rfl rfl (Nat.le_refl _) ⟨rfl,rfl,rfl⟩
  | calls n threw f fs hn => exact booking_same rfl rfl (Nat.le_refl _) ⟨rfl,rfl,rfl⟩
  | destroys => exact destroy_booking (destructorStep_destroy s)

theorem step_booking (s : ThreadPool τ) (i : Input τ) :
    Booking config (books s) (books ((threadPool config).step s i).1)
      ((threadPool config).step s i).2 := act_booking (step_act config s i)

end

variable [DecidableEq τ]

theorem run_balanced (config : ThreadPoolConfig) (is : List (Input τ)) :
    Balanced config (books ((threadPool config).run (Start config) is).1)
      ((threadPool config).run (Start config) is).2 :=
  run_invariant (threadPool config) (fun s os => Balanced config (books s) os)
    (fun s _ i h => balanced_booking h (step_booking s i)) (Start config) is
    ⟨rfl,Nat.zero_le _,rfl,Nat.zero_le _,Nat.le_refl _,List.Perm.refl _,rfl,List.Perm.refl _⟩

theorem booking_dequeued {config : ThreadPoolConfig} {b b' : Books} {os : List Output}
    (h : Booking config b b' os) {k : ℕ} {x : PrioritizedTask} (hx : .dequeued k x ∈ os) :
    x ∈ b.queue ∧ ∀ y ∈ b.queue, x.priority ≤ y.priority := by
  have hno : Unbooked os → False := by
    intro hos
    have hmem : x.func ∈ dequeuedOf os := List.mem_filterMap.mpr ⟨_,hx,rfl⟩
    rw [hos.2.1] at hmem
    exact List.not_mem_nil hmem
  cases h with
  | nothing exec hexec load hload os hos => exact (hno hos).elim
  | accepts priority callback hroom exec hexec load hload => simp at hx
  | counts hroom exec hexec load hload os hos => exact (hno hos).elim
  | dequeues k' x' hx' exec hexec load hload hidle =>
    obtain ⟨rfl,rfl⟩ : k = k' ∧ x = x' := by simpa using hx
    exact mem_topTasks.mp hx'
  | finishes f exec hexec load hload => simp at hx
  | exits exec hexec load hload hidle => simp at hx

/-- What the pool keeps: every accepted task is queued, executed by one
worker or finished; no task is dequeued twice, and the next one to be
dequeued has the smallest priority value; the counters are what they count,
within their bounds. -/
structure Conserved (config : ThreadPoolConfig) (s : ThreadPool τ) (os : List Output) : Prop where
  places : (s.taskQueue.map PrioritizedTask.func++(executing s.workers++finishedOf os)).Perm
    (acceptedOf os)
  distinct : (acceptedOf os).Nodup
  once : (dequeuedOf os).Nodup
  priority : ∀ (i : Input τ) (k : ℕ) (x : PrioritizedTask),
    .dequeued k x ∈ ((threadPool config).step s i).2 →
      x ∈ s.taskQueue ∧ ∀ y ∈ s.taskQueue, x.priority ≤ y.priority
  queueSize : s.taskQueueSize.toNat = s.taskQueue.length
  queueBound : s.taskQueueSize ≤ config.maxQueueSize
  threadBound : s.currentThreadCount ≤ config.maxThreadCount
  idle : s.idleThreadCount.toNat+(executing s.workers).length = s.currentThreadCount.toNat

/-- In every interleaving of submitters, workers, `Start` and the destructor. -/
theorem thread_pool_conserves (config : ThreadPoolConfig) (is : List (Input τ)) :
    Conserved config ((threadPool config).run (Start config) is).1
      ((threadPool config).run (Start config) is).2 := by
  have h := run_balanced config is
  have hdistinct : (acceptedOf ((threadPool config).run (Start config) is).2).Nodup := by
    apply List.Nodup.of_map Func.serial
    rw [h.serials]
    exact List.nodup_range
  refine ⟨h.places,hdistinct,?_,?_,h.size,?_,h.current,h.idle⟩
  · have hall := h.places.nodup_iff.mpr hdistinct
    exact h.started.nodup_iff.mpr (List.nodup_append.mp hall).2.1
  · intro i k x hx
    exact booking_dequeued (step_booking _ i) hx
  · exact Nat.le_trans (Nat.le_of_eq h.size) h.room

end MiniRpc.PoolAccounting
