import Mathlib.Data.List.Induction
import MiniRpc.CallServer
import MiniRpc.PoolAccounting

/-!
# The server on its thread pool

`RpcServer` gives the requests it decodes to its `ThreadPool`. The server is
that of `CallServer`, the pool that of `WorkerPool`, and a step of the whole
is a step of one of them or of both: a turn of `onMessage` that decodes a
request ends when `submit` has its task accepted or gives up, and a worker
calls the function of its task, which is `handleRequest`, before the task
ends. While `submit` waits, the turn has not begun here, since nobody else
sees what it has taken out of the buffer of its connection.

The `queue` of the server holds what was submitted and has not been called;
`serials` says which task of the pool each of these is.
-/

set_option autoImplicit false

namespace MiniRpc.ServerPool
open MiniRpc.WireCodec MiniRpc.ByteBuffer MiniRpc.StepMachine MiniRpc.WorkerPool
open MiniRpc.PoolSteps MiniRpc.PoolAccounting MiniRpc.CallController MiniRpc.CallServer

def serverConfig (poolThreads : UInt64) : ThreadPoolConfig where
  mode := .kFixed
  initThreadCount := poolThreads
  maxThreadCount := poolThreads
  maxQueueSize := 4096

def kNormal : Int := 1

def submitError : String := "ThreadPool: queue full, timed out"

structure PooledServer (κ M τ : Type) where
  rpc : RpcServer κ M
  pool : ThreadPool τ
  serials : List ℕ := []

inductive Input (κ M τ : Type) where
  | read (c : κ) (data : Bytes)
  | readFailed (c : κ) (again : Bool)
  | decode (c : κ) (timedOut : Bool)
  | handle (k : ℕ) (exit : MethodExit M)
  | pool (i : WorkerPool.Input τ)

inductive Event (κ : Type) where
  | rpc (o : CallServer.Output κ)
  | pool (o : WorkerPool.Output)

variable {κ M τ : Type}

def start (registry : ServiceRegistry M) (poolThreads : UInt64) : PooledServer κ M τ where
  rpc := { registry }
  pool := Start (serverConfig poolThreads)

def taskOf (p : ThreadPool τ) (k : ℕ) : Option Func := p.workers[k]?.bind fun w => funcOf w.pc

def submits (s : RpcServer κ M) (c : κ) : Bool :=
  (s.conns c).inCallback &&
    match tryDecode (s.conns c).inputBuffer with
    | (.ok (some msg),_) => isRequest msg
    | _ => false

/-- Tasks are submitted by the server alone, and a task ends after its
function has been called. -/
def PooledServer.holdsBack (s : PooledServer κ M τ) : WorkerPool.Input τ → Bool
  | .enqueueTask _ _ => true
  | .enqueueTimeout => true
  | .finish k => (taskOf s.pool k).any fun f => s.serials.contains f.serial
  | _ => false

variable [DecidableEq κ] [DecidableEq τ] (env : Envelopes) (config : ThreadPoolConfig)

def PooledServer.serve (s : PooledServer κ M τ) (i : CallServer.Input κ M) :
    PooledServer κ M τ × List (Event κ) :=
  ({ s with rpc := ((server env).step s.rpc i).1 },((server env).step s.rpc i).2.map .rpc)

/-- A turn of `onMessage` in a loop thread; `timedOut`: the wait of `submit`
for room in the queue is over. -/
def PooledServer.decode (s : PooledServer κ M τ) (c : κ) (timedOut : Bool) :
    PooledServer κ M τ × List (Event κ) :=
  if submits s.rpc c then
    let p := (threadPool config).step s.pool
      (if timedOut then .enqueueTimeout else .enqueueTask kNormal false)
    match p.2 with
    | [.accepted f] =>
      let r := (server env).step s.rpc (.decode c none)
      ({ rpc := r.1, pool := p.1, serials := s.serials++[f.serial] },
        .pool (.accepted f)::r.2.map .rpc)
    | [.refused] =>
      let r := (server env).step s.rpc (.decode c (some submitError))
      ({ s with rpc := r.1, pool := p.1 },.pool .refused::r.2.map .rpc)
    | _ => (s,[])
  else s.serve env (.decode c none)

def PooledServer.handle (s : PooledServer κ M τ) (k : ℕ) (exit : MethodExit M) :
    PooledServer κ M τ × List (Event κ) :=
  match taskOf s.pool k with
  | none => (s,[])
  | some f =>
    match s.serials.idxOf? f.serial with
    | none => (s,[])
    | some n =>
      let r := (server env).step s.rpc (.work n exit)
      ({ s with rpc := r.1, serials := s.serials.eraseIdx n },r.2.map .rpc)

def PooledServer.poolStep (s : PooledServer κ M τ) (i : WorkerPool.Input τ) :
    PooledServer κ M τ × List (Event κ) :=
  if s.holdsBack i then (s,[])
  else
    ({ s with pool := ((threadPool config).step s.pool i).1 },
      ((threadPool config).step s.pool i).2.map .pool)

def pooledServer : Machine (PooledServer κ M τ) (Input κ M τ) (Event κ) where
  step s i :=
    match i with
    | .read c data => s.serve env (.read c data)
    | .readFailed c again => s.serve env (.readFailed c again)
    | .decode c timedOut => s.decode env config c timedOut
    | .handle k exit => s.handle env k exit
    | .pool i => s.poolStep config i

inductive Part (s : PooledServer κ M τ) : Input κ M τ → PooledServer κ M τ × List (Event κ) → Prop
  | rests (i : Input κ M τ) : Part s i (s,[])
  | reads (c : κ) (data : Bytes) : Part s (.read c data) (s.serve env (.read c data))
  | readFails (c : κ) (again : Bool) : Part s (.readFailed c again) (s.serve env (.readFailed c again))
  | decodes (c : κ) (timedOut : Bool) (hsubmits : submits s.rpc c = false) :
      Part s (.decode c timedOut) (s.serve env (.decode c none))
  | accepts (c : κ) (hsubmits : submits s.rpc c = true) (hfree : s.pool.owner = none)
      (hpool : ((threadPool config).step s.pool (.enqueueTask kNormal false)).2 =
        [.accepted ⟨s.pool.pushed,false⟩]) :
      Part s (.decode c false)
        ({ rpc := ((server env).step s.rpc (.decode c none)).1
           pool := ((threadPool config).step s.pool (.enqueueTask kNormal false)).1
           serials := s.serials++[s.pool.pushed] },
          .pool (.accepted ⟨s.pool.pushed,false⟩)::
            ((server env).step s.rpc (.decode c none)).2.map .rpc)
  | refuses (c : κ) (timedOut : Bool) (hsubmits : submits s.rpc c = true) (j : WorkerPool.Input τ)
      (hpool : (threadPool config).step s.pool j = (s.pool,[.refused])) :
      Part s (.decode c timedOut)
        ({ s with rpc := ((server env).step s.rpc (.decode c (some submitError))).1 },
          .pool .refused::((server env).step s.rpc (.decode c (some submitError))).2.map .rpc)
  | handles (k n : ℕ) (exit : MethodExit M) (f : Func) (htask : taskOf s.pool k = some f)
      (hn : s.serials.idxOf? f.serial = some n) :
      Part s (.handle k exit)
        ({ s with
            rpc := ((server env).step s.rpc (.work n exit)).1
            serials := s.serials.eraseIdx n },
          ((server env).step s.rpc (.work n exit)).2.map .rpc)
  | pools (i : WorkerPool.Input τ) (hheld : s.holdsBack i = false) :
      Part s (.pool i)
        ({ s with pool := ((threadPool config).step s.pool i).1 },
          ((threadPool config).step s.pool i).2.map .pool)

variable {env config} {s : PooledServer κ M τ}

theorem decode_part (c : κ) (timedOut : Bool) :
    Part env config s (.decode c timedOut) (s.decode env config c timedOut) := by
  rw [PooledServer.decode]
  cases hs : submits s.rpc c with
  | false => exact .decodes c timedOut hs
  | true =>
    rw [if_pos rfl]
    cases timedOut with
    | true =>
      simp only [if_true]
      have hact := step_act config s.pool .enqueueTimeout
      generalize hr : (threadPool config).step s.pool .enqueueTimeout = r at hact
      cases hact with
      | refuses i priority callback hfree hi => exact .refuses c true hs _ hr
      | _ => exact .rests _
    | false =>
      simp only [Bool.false_eq_true,if_false]
      have hact := step_act config s.pool (.enqueueTask kNormal false)
      generalize hr : (threadPool config).step s.pool (.enqueueTask kNormal false) = r at hact
      cases hact with
      | rests i => exact .rests _
      | refuses i priority callback hfree hi => exact .refuses c false hs _ hr
      | accepts priority callback hfree hroom hrun =>
        have hpart : Part env config s (.decode c false) _ :=
          Part.accepts c hs hfree (congrArg Prod.snd hr)
        rw [hr] at hpart
        exact hpart
      | walks i k w pc owner hk hwalk hi => exact .rests _

variable (env config) in
theorem step_part (s : PooledServer κ M τ) (i : Input κ M τ) :
    Part env config s i ((pooledServer env config).step s i) := by
  cases i with
  | read c data => exact .reads c data
  | readFailed c again => exact .readFails c again
  | decode c timedOut => exact decode_part c timedOut
  | handle k exit =>
    simp only [pooledServer,PooledServer.handle]
    cases htask : taskOf s.pool k with
    | none => exact .rests _
    | some f =>
      cases hn : s.serials.idxOf? f.serial with
      | none => simp only [hn]; exact .rests _
      | some n => simp only [hn]; exact .handles k n exit f htask hn
  | pool i =>
    simp only [pooledServer,PooledServer.poolStep]
    cases hheld : s.holdsBack i with
    | true => exact .rests _
    | false => exact .pools i hheld

def rpcOf : Event κ → List (CallServer.Output κ)
  | .rpc o => [o]
  | .pool _ => []

def poolOf : Event κ → List WorkerPool.Output
  | .rpc _ => []
  | .pool o => [o]

section
omit [DecidableEq κ]

@[simp] theorem rpcOf_rpc (os : List (CallServer.Output κ)) :
    (os.map Event.rpc).flatMap rpcOf = os := by
  rw [List.flatMap_map]
  exact List.flatMap_singleton' os

@[simp] theorem rpcOf_pool (os : List WorkerPool.Output) :
    (os.map (Event.pool : _ → Event κ)).flatMap rpcOf = [] := by
  rw [List.flatMap_map]
  exact List.flatMap_eq_nil_iff.mpr fun _ _ => rfl

@[simp] theorem poolOf_rpc (os : List (CallServer.Output κ)) :
    (os.map Event.rpc).flatMap poolOf = [] := by
  rw [List.flatMap_map]
  exact List.flatMap_eq_nil_iff.mpr fun _ _ => rfl

@[simp] theorem poolOf_pool (os : List WorkerPool.Output) :
    (os.map (Event.pool : _ → Event κ)).flatMap poolOf = os := by
  rw [List.flatMap_map]
  exact List.flatMap_singleton' os

end

theorem rpc_step (s : PooledServer κ M τ) (i : Input κ M τ) :
    ∃ js, (server env).run s.rpc js =
      (((pooledServer env config).step s i).1.rpc,
        ((pooledServer env config).step s i).2.flatMap rpcOf) := by
  have hone : ∀ j, (server env).run s.rpc [j] = (server env).step s.rpc j := by
    intro j
    simp [Machine.run]
  have hpart := step_part env config s i
  generalize (pooledServer env config).step s i = r at hpart
  cases hpart with
  | rests i => exact ⟨[],rfl⟩
  | reads c data => exact ⟨[.read c data],by simp [hone,PooledServer.serve]⟩
  | readFails c again => exact ⟨[.readFailed c again],by simp [hone,PooledServer.serve]⟩
  | decodes c timedOut hsubmits => exact ⟨[.decode c none],by simp [hone,PooledServer.serve]⟩
  | accepts c hsubmits hfree hpool => exact ⟨[.decode c none],by simp [hone,rpcOf]⟩
  | refuses c timedOut hsubmits j hpool =>
    exact ⟨[.decode c (some submitError)],by simp [hone,rpcOf]⟩
  | handles k n exit f htask hn => exact ⟨[.work n exit],by simp [hone]⟩
  | pools i hheld => exact ⟨[],by simp [Machine.run]⟩

variable (env config) in
theorem pool_step (s : PooledServer κ M τ) (i : Input κ M τ) :
    ∃ js, (threadPool config).run s.pool js =
      (((pooledServer env config).step s i).1.pool,
        ((pooledServer env config).step s i).2.flatMap poolOf) := by
  have hone : ∀ j, (threadPool config).run s.pool [j] = (threadPool config).step s.pool j := by
    intro j
    simp [Machine.run]
  have hpart := step_part env config s i
  generalize (pooledServer env config).step s i = r at hpart
  cases hpart with
  | accepts c hsubmits hfree hpool =>
    refine ⟨[.enqueueTask kNormal false],?_⟩
    rw [hone,List.flatMap_cons,poolOf_rpc]
    exact Prod.ext rfl hpool
  | refuses c timedOut hsubmits j hpool =>
    refine ⟨[j],?_⟩
    rw [hone,hpool,List.flatMap_cons,poolOf_rpc]
    rfl
  | pools i hheld => exact ⟨[i],by simp [hone]⟩
  | _ => exact ⟨[],by simp [Machine.run,PooledServer.serve]⟩

variable (env config)

/-- What the whole does is, for the server, what the server of `CallServer`
does. -/
theorem rpc_run (s : PooledServer κ M τ) (is : List (Input κ M τ)) :
    ∃ js, (server env).run s.rpc js =
      (((pooledServer env config).run s is).1.rpc,
        ((pooledServer env config).run s is).2.flatMap rpcOf) :=
  run_simulates _ (server env) PooledServer.rpc rpcOf rpc_step s is

theorem pool_run (s : PooledServer κ M τ) (is : List (Input κ M τ)) :
    ∃ js, (threadPool config).run s.pool js =
      (((pooledServer env config).run s is).1.pool,
        ((pooledServer env config).run s is).2.flatMap poolOf) :=
  run_simulates _ (threadPool config) PooledServer.pool poolOf (pool_step env config) s is

variable {env config}

section
omit [DecidableEq κ] [DecidableEq τ]

theorem submits_iff {s : RpcServer κ M} {c : κ} :
    submits s c = true ↔ (s.conns c).inCallback = true ∧
      ∃ msg b, tryDecode (s.conns c).inputBuffer = (.ok (some msg),b) ∧ isRequest msg = true := by
  rw [submits,Bool.and_eq_true]
  refine and_congr_right fun _ => ?_
  constructor
  · intro h
    split at h
    · rename_i msg b hd
      exact ⟨msg,b,hd,h⟩
    · cases h
  · rintro ⟨msg,b,hd,hm⟩
    rw [hd]
    exact hm

end

variable (env) in
theorem accepted_queue {s : RpcServer κ M} {c : κ} (h : submits s c = true) :
    ∃ t, ((server env).step s (.decode c none)).1.queue = s.queue++[t] := by
  obtain ⟨hcb,msg,b,hd,hm⟩ := submits_iff.mp h
  refine ⟨⟨c,msg⟩,?_⟩
  simp only [server,hcb,if_true,onMessage,hd,hm]
  rfl

theorem refused_queue (s : RpcServer κ M) (c : κ) (what : String) :
    ((server env).step s (.decode c (some what))).1.queue = s.queue := by
  simp only [server]
  split_ifs
  · rw [onMessage.eq_def]
    split
    · rfl
    · rfl
    · dsimp only
      split_ifs <;> rfl
  · rfl

theorem decoded_queue {s : RpcServer κ M} {c : κ} (h : submits s c = false) :
    ((server env).step s (.decode c none)).1.queue = s.queue := by
  simp only [server]
  split_ifs with hcb
  · rw [onMessage.eq_def]
    split
    · rfl
    · rfl
    · rename_i msg b hd
      have hm : isRequest msg = false := by
        by_contra hm
        rw [Bool.not_eq_false] at hm
        rw [submits_iff.mpr ⟨hcb,msg,b,hd,hm⟩] at h
        exact Bool.noConfusion h
      rw [hm]
      rfl
  · rfl

theorem worked_queue (s : RpcServer κ M) (n : ℕ) (exit : MethodExit M) :
    ((server env).step s (.work n exit)).1.queue = s.queue.eraseIdx n := by
  simp only [server,workerRun]
  cases ht : s.queue[n]? with
  | none => exact (List.eraseIdx_of_length_le (List.getElem?_eq_none_iff.mp ht)).symm
  | some t => rfl

theorem read_queue (s : RpcServer κ M) (c : κ) (data : Bytes) :
    ((server env).step s (.read c data)).1.queue = s.queue := by
  simp only [server,handleRead]
  split_ifs <;> rfl

theorem readFailed_queue (s : RpcServer κ M) (c : κ) (again : Bool) :
    ((server env).step s (.readFailed c again)).1.queue = s.queue := by
  simp only [server]
  split_ifs <;> rfl

/-- Where the functions are that have been submitted and not been called: with
the queued tasks, all of which have theirs, and with tasks that workers
execute. -/
structure Coupled (s : PooledServer κ M τ) : Prop where
  parallel : s.serials.length = s.rpc.queue.length
  distinct : s.serials.Nodup
  known : ∀ n ∈ s.serials, n < s.pool.pushed
  queued : ∀ x ∈ s.pool.taskQueue, x.func.serial ∈ s.serials
  held : ∀ n ∈ s.serials, n ∈ s.pool.taskQueue.map (fun x => x.func.serial)++
    (executing s.pool.workers).map Func.serial

section
omit [DecidableEq κ] [DecidableEq τ]

theorem coupled_start (registry : ServiceRegistry M) (poolThreads : UInt64) :
    Coupled (start registry poolThreads : PooledServer κ M τ) :=
  ⟨rfl,List.nodup_nil,by simp [start],by simp [start,Start],by simp [start]⟩

theorem coupled_rpc (h : Coupled s) {rpc : RpcServer κ M} (hq : rpc.queue = s.rpc.queue) :
    Coupled { s with rpc := rpc } :=
  ⟨by rw [hq]; exact h.parallel,h.distinct,h.known,h.queued,h.held⟩

theorem places_distinct {p : ThreadPool τ} {os : List WorkerPool.Output}
    (hb : Balanced config (books p) os) :
    (p.taskQueue.map (fun x => x.func.serial)++(executing p.workers).map Func.serial).Nodup := by
  have hall : ((acceptedOf os).map Func.serial).Nodup := by
    rw [hb.serials]
    exact List.nodup_range
  have hplaces := (hb.places.map Func.serial).nodup_iff.mpr hall
  rw [List.map_append,List.map_append,List.map_map,← List.append_assoc] at hplaces
  exact (List.nodup_append.mp hplaces).1

theorem taskOf_executing {p : ThreadPool τ} {k : ℕ} {f : Func} (h : taskOf p k = some f) :
    f ∈ executing p.workers := by
  obtain ⟨w,hw,hf⟩ := Option.bind_eq_some_iff.mp h
  exact List.mem_filterMap.mpr ⟨w,List.mem_of_getElem? hw,hf⟩

/-- The pool moves the tasks it has, and lets none end whose function has not
been called. -/
theorem coupled_booking (h : Coupled s) {p : ThreadPool τ} {os : List WorkerPool.Output}
    (hbook : Booking config (books s.pool) (books p) os) (hacc : acceptedOf os = [])
    (hfin : ∀ f ∈ finishedOf os, f.serial ∉ s.serials) : Coupled { s with pool := p } := by
  have hmoves : p.pushed = s.pool.pushed → p.taskQueue = s.pool.taskQueue →
      (executing p.workers).Perm (executing s.pool.workers) → Coupled { s with pool := p } := by
    intro hpushed hqueue hexec
    refine ⟨h.parallel,h.distinct,?_,?_,?_⟩
    · rw [hpushed]
      exact h.known
    · rw [hqueue]
      exact h.queued
    · intro n hn
      rw [hqueue]
      have hheld := h.held n hn
      rw [List.mem_append,(hexec.map Func.serial).mem_iff]
      exact List.mem_append.mp hheld
  generalize hb : books p = b at hbook
  have hpushed : p.pushed = b.pushed := congrArg Books.pushed hb
  have hqueue : p.taskQueue = b.queue := congrArg Books.queue hb
  have hexec : executing p.workers = b.executing := congrArg Books.executing hb
  cases hbook with
  | nothing exec hperm load hload os hos => exact hmoves hpushed hqueue (hexec ▸ hperm)
  | accepts priority callback hroom exec hperm load hload => simp [acceptedOf] at hacc
  | counts hroom exec hperm load hload os hos => exact hmoves hpushed hqueue (hexec ▸ hperm)
  | dequeues k x hx exec hperm load hload hidle =>
    have hmem := (mem_topTasks.mp hx).1
    refine ⟨h.parallel,h.distinct,?_,?_,?_⟩
    · rw [hpushed]
      exact h.known
    · intro y hy
      rw [hqueue] at hy
      exact h.queued y (List.mem_of_mem_erase hy)
    · intro n hn
      have hperm' : ((executing p.workers).map Func.serial).Perm
          (x.func.serial::(executing s.pool.workers).map Func.serial) := by
        rw [hexec]
        exact hperm.map Func.serial
      rw [hqueue,List.mem_append,hperm'.mem_iff]
      rcases List.mem_append.mp (h.held n hn) with hq | he
      · obtain ⟨y,hy,rfl⟩ := List.mem_map.mp hq
        by_cases heq : y = x
        · rw [heq]
          exact .inr List.mem_cons_self
        · exact .inl (List.mem_map.mpr ⟨y,(List.mem_erase_of_ne heq).mpr hy,rfl⟩)
      · exact .inr (List.mem_cons_of_mem _ he)
  | finishes f exec hperm load hload =>
    refine ⟨h.parallel,h.distinct,?_,?_,?_⟩
    · rw [hpushed]
      exact h.known
    · rw [hqueue]
      exact h.queued
    · intro n hn
      have hne : n ≠ f.serial := by
        rintro rfl
        exact hfin f (by simp [finishedOf]) hn
      rw [hqueue,hexec,List.mem_append]
      rcases List.mem_append.mp (h.held n hn) with hq | he
      · exact .inl hq
      · rcases List.mem_cons.mp ((hperm.map Func.serial).mem_iff.mp he) with rfl | he
        · exact absurd rfl hne
        · exact .inr he
  | exits exec hperm load hload hidle => exact hmoves hpushed hqueue (hexec ▸ hperm)

end

section
omit [DecidableEq κ]

theorem act_accepted {p : ThreadPool τ} {i : WorkerPool.Input τ}
    {r : ThreadPool τ × List WorkerPool.Output} (ha : Act config p i r)
    (hi : ∀ priority callback, i ≠ .enqueueTask priority callback) : acceptedOf r.2 = [] := by
  cases ha with
  | accepts priority callback hfree hroom hrun => exact absurd rfl (hi priority callback)
  | creates spawn f pc r res howner hr => cases res <;> rfl
  | _ => rfl

theorem act_finished {p : ThreadPool τ} {i : WorkerPool.Input τ}
    {r : ThreadPool τ × List WorkerPool.Output} (ha : Act config p i r) {f : Func}
    (hf : f ∈ finishedOf r.2) : ∃ k, i = .finish k ∧ taskOf p k = some f := by
  cases ha with
  | finishes k w g queued hk hpc =>
    have hfg : f = g := by simpa [finishedOf] using hf
    refine ⟨k,rfl,?_⟩
    rw [taskOf,hk,Option.bind_some,hpc,hfg]
    rfl
  | creates spawn g pc r res howner hr => cases res <;> simp [submitterAfter,finishedOf] at hf
  | _ => simp [finishedOf] at hf

theorem coupled_pools (h : Coupled s) {i : WorkerPool.Input τ} (hheld : s.holdsBack i = false) :
    Coupled { s with pool := ((threadPool config).step s.pool i).1 } := by
  refine coupled_booking h (step_booking s.pool i) ?_ ?_
  · refine act_accepted (step_act config s.pool i) ?_
    rintro priority callback rfl
    exact Bool.noConfusion hheld
  · intro f hf hmem
    obtain ⟨k,rfl,htask⟩ := act_finished (step_act config s.pool i) hf
    rw [PooledServer.holdsBack,htask] at hheld
    simp [hmem] at hheld

end

theorem coupled_accepts (h : Coupled s) {c : κ} (hsubmits : submits s.rpc c = true)
    (hpool : ((threadPool config).step s.pool (.enqueueTask kNormal false)).2 =
      [.accepted ⟨s.pool.pushed,false⟩]) :
    Coupled { rpc := ((server env).step s.rpc (.decode c none)).1
              pool := ((threadPool config).step s.pool (.enqueueTask kNormal false)).1
              serials := s.serials++[s.pool.pushed] } := by
  obtain ⟨t,hqueue⟩ := accepted_queue env hsubmits
  have hact := step_act config s.pool (.enqueueTask kNormal false)
  generalize (threadPool config).step s.pool (.enqueueTask kNormal false) = r at hact hpool
  have hnew : s.pool.pushed ∉ s.serials := fun hmem => Nat.lt_irrefl _ (h.known _ hmem)
  cases hact with
  | accepts priority callback hfree hroom hrun =>
    refine ⟨?_,?_,?_,?_,?_⟩
    · rw [hqueue,List.length_append,List.length_append,h.parallel]
      rfl
    · exact List.nodup_append.mpr ⟨h.distinct,by simp,by
        intro a ha b hb hab
        rw [List.mem_singleton.mp hb] at hab
        exact hnew (hab ▸ ha)⟩
    · intro n hn
      rcases List.mem_append.mp hn with hold | hlast
      · exact Nat.lt_succ_of_lt (h.known n hold)
      · rw [List.mem_singleton.mp hlast]
        exact Nat.lt_succ_self _
    · intro x hx
      rcases List.mem_append.mp hx with hold | hlast
      · exact List.mem_append_left _ (h.queued x hold)
      · rw [List.mem_singleton.mp hlast]
        exact List.mem_append_right _ (List.mem_singleton.mpr rfl)
    · intro n hn
      dsimp only
      rw [ThreadPool.notifyNotEmpty,executing_notified,List.map_append,List.append_assoc]
      rcases List.mem_append.mp hn with hold | hlast
      · rcases List.mem_append.mp (h.held n hold) with hq | he
        · exact List.mem_append_left _ hq
        · exact List.mem_append_right _ (List.mem_append_right _ he)
      · rw [List.mem_singleton.mp hlast]
        exact List.mem_append_right _ (List.mem_append_left _ (List.mem_singleton.mpr rfl))
  | rests i => cases hpool
  | refuses i priority callback hfree hi => cases hpool
  | walks i k w pc owner hk hwalk hi => cases hpool

omit [DecidableEq τ] in
theorem coupled_handles (h : Coupled s) {os : List WorkerPool.Output}
    (hb : Balanced config (books s.pool) os) {k n : ℕ} {exit : MethodExit M} {f : Func}
    (htask : taskOf s.pool k = some f) (hn : s.serials.idxOf? f.serial = some n) :
    Coupled { s with
      rpc := ((server env).step s.rpc (.work n exit)).1
      serials := s.serials.eraseIdx n } := by
  have hidx : s.serials.idxOf f.serial = n := by
    rw [List.idxOf_eq_getD_idxOf?,hn]
    rfl
  have herase : s.serials.eraseIdx n = s.serials.erase f.serial :=
    (List.erase_eq_eraseIdx_of_idxOf hidx).symm
  refine ⟨?_,?_,?_,?_,?_⟩
  · dsimp only
    rw [worked_queue,List.length_eraseIdx,List.length_eraseIdx,h.parallel]
  · exact h.distinct.sublist (List.eraseIdx_sublist _ _)
  · exact fun m hm => h.known m (List.mem_of_mem_eraseIdx hm)
  · intro x hx
    rw [herase,h.distinct.mem_erase_iff]
    refine ⟨?_,h.queued x hx⟩
    have hapart := (List.nodup_append.mp (places_distinct hb)).2.2
    exact hapart _ (List.mem_map.mpr ⟨x,hx,rfl⟩) _
      (List.mem_map.mpr ⟨f,taskOf_executing htask,rfl⟩)
  · exact fun m hm => h.held m (List.mem_of_mem_eraseIdx hm)

theorem step_coupled (h : Coupled s) {os : List WorkerPool.Output}
    (hb : Balanced config (books s.pool) os) (i : Input κ M τ) :
    Coupled ((pooledServer env config).step s i).1 := by
  have hpart := step_part env config s i
  generalize (pooledServer env config).step s i = r at hpart
  cases hpart with
  | rests i => exact h
  | reads c data => exact coupled_rpc h (read_queue _ c data)
  | readFails c again => exact coupled_rpc h (readFailed_queue _ c again)
  | decodes c timedOut hsubmits => exact coupled_rpc h (decoded_queue hsubmits)
  | accepts c hsubmits hfree hpool => exact coupled_accepts h hsubmits hpool
  | refuses c timedOut hsubmits j hpool => exact coupled_rpc h (refused_queue _ c submitError)
  | handles k n exit f htask hn => exact coupled_handles h hb htask hn
  | pools i hheld => exact coupled_pools h hheld

def serverRun (env : Envelopes) (registry : ServiceRegistry M) (poolThreads : UInt64)
    (is : List (Input κ M τ)) : PooledServer κ M τ × List (Event κ) :=
  (pooledServer env (serverConfig poolThreads)).run (start registry poolThreads) is

section
variable (env) (registry : ServiceRegistry M) (poolThreads : UInt64) (is : List (Input κ M τ))

theorem serverRun_pool : ∃ js, (threadPool (serverConfig poolThreads)).run
    (Start (serverConfig poolThreads)) js = ((serverRun env registry poolThreads is).1.pool,
      (serverRun env registry poolThreads is).2.flatMap poolOf) :=
  pool_run env (serverConfig poolThreads) (start registry poolThreads) is

theorem serverRun_rpc : ∃ js, (server env).run { registry } js =
    ((serverRun env registry poolThreads is).1.rpc,
      (serverRun env registry poolThreads is).2.flatMap rpcOf) :=
  rpc_run env (serverConfig poolThreads) (start registry poolThreads) is

theorem serverRun_balanced : Balanced (serverConfig poolThreads)
    (books (serverRun env registry poolThreads is).1.pool)
    ((serverRun env registry poolThreads is).2.flatMap poolOf) := by
  obtain ⟨js,hjs⟩ := serverRun_pool env registry poolThreads is
  have hbal := run_balanced (serverConfig poolThreads) js
  rw [hjs] at hbal
  exact hbal

theorem serverRun_coupled : Coupled (serverRun env registry poolThreads is).1 := by
  induction is using List.reverseRecOn with
  | nil => exact coupled_start registry poolThreads
  | append_singleton is i ih =>
    rw [serverRun,run_append]
    exact step_coupled ih (serverRun_balanced env registry poolThreads is) i

/-- The requests that were decoded and have not been dealt with are at most as
many as the queue of the pool holds and the pool has threads. -/
theorem backlog_bounded :
    (serverRun env registry poolThreads is).1.rpc.queue.length ≤ 4096+poolThreads.toNat := by
  have hc := serverRun_coupled env registry poolThreads is
  have hb := serverRun_balanced env registry poolThreads is
  generalize serverRun env registry poolThreads is = r at hc hb ⊢
  have hlen := hc.distinct.length_le_of_subset hc.held
  have hroom : r.1.pool.taskQueue.length ≤ 4096 := hb.room
  have hidle : r.1.pool.idleThreadCount.toNat+(executing r.1.pool.workers).length =
    r.1.pool.currentThreadCount.toNat := hb.idle
  have hcurrent : r.1.pool.currentThreadCount.toNat ≤ poolThreads.toNat := hb.current
  rw [List.length_append,List.length_map,List.length_map] at hlen
  rw [← hc.parallel]
  omega

end

end MiniRpc.ServerPool
