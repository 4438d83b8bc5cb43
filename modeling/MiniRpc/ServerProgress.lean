import MiniRpc.PoolProgress
import MiniRpc.RequestAnswers
import MiniRpc.ServerPool

/-!
# The server answers what it has received

The steps of the server's own threads, the turns of `onMessage` on given
connections, the workers and the tasks they execute, are bounded by what
these connections have in their buffers and the pool has to do. Once none of
them changes anything, every request among the frames received on these
connections has been answered, unless its service method threw.
-/

set_option autoImplicit false

namespace MiniRpc.ServerProgress
open MiniRpc.WireCodec MiniRpc.ByteBuffer MiniRpc.Incremental MiniRpc.CodecStream
open MiniRpc.StepMachine MiniRpc.Settling MiniRpc.WorkerPool MiniRpc.PoolSteps
open MiniRpc.PoolAccounting MiniRpc.PoolMutex MiniRpc.PoolShutdown MiniRpc.PoolAttention
open MiniRpc.PoolProgress MiniRpc.CallController MiniRpc.CallServer MiniRpc.ServerPool
open MiniRpc.RequestAnswers (receivedOn answersOn thrownOn pendingOn run_accounted echoRequest)
open MiniRpc.ProtoWire (protoEnvelopes)

variable {κ M τ : Type}

def NoGrowth (p : ThreadPool τ) : Prop := ∀ f pc, p.owner ≠ some (.submitter f (some pc))

def spawning : Option (CreatePc τ) → ℕ
  | some .entering => 1
  | some .counted => 1
  | _ => 0

def staff (p : ThreadPool τ) : ℕ := p.workers.length+p.starting+spawning p.startPc

section
variable [DecidableEq τ] {config : ThreadPoolConfig} {p : ThreadPool τ}

theorem act_owner {i : WorkerPool.Input τ} {r : ThreadPool τ × List WorkerPool.Output}
    (ha : Act config p i r) (hi : ∀ spawn, i ≠ .submitter spawn) (h : NoGrowth p) :
    NoGrowth r.1 := by
  have hfree : ∀ {q : ThreadPool τ}, q.owner = none → NoGrowth q := by
    intro q hq f pc hc
    rw [hq] at hc
    cases hc
  have hsame : ∀ {q : ThreadPool τ}, q.owner = p.owner → NoGrowth q := by
    intro q hq f pc
    rw [hq]
    exact h f pc
  cases ha with
  | accepts priority callback hnone hroom hrun =>
    intro f pc hc
    cases hc
  | grows spawn f howner => exact absurd rfl (hi spawn)
  | submits spawn f howner => exact absurd rfl (hi spawn)
  | creates spawn f pc r res howner hr => exact absurd rfl (hi spawn)
  | starts spawn pc r res hpc hr =>
    have howner := (createThread_frame hr).2.1
    cases res <;> exact hsame howner
  | walks i k w pc owner hk hwalk hw =>
    rcases walk_owner hwalk with rfl | rfl | rfl
    · exact hsame rfl
    · exact hfree rfl
    · intro f pc hc
      cases hc
  | takes k choice w x hk hpc hx => exact hfree rfl
  | exits k choice w locked hk hpc => exact hsame (threadExit_same p w.threadId).2.1
  | destroys =>
    have hd := destructorStep_destroy p
    generalize p.destructorStep = q at hd
    cases hd <;> exact hsame rfl
  | _ => exact hsame rfl

theorem step_noGrowth (hmode : config.mode = .kFixed) (h : NoGrowth p) (i : WorkerPool.Input τ) :
    NoGrowth ((threadPool config).step p i).1 := by
  by_cases hi : ∃ spawn, i = .submitter spawn
  · obtain ⟨spawn,rfl⟩ := hi
    simp only [threadPool,ThreadPool.submitterStep.eq_def,hmode]
    split
    · simp only [reduceCtorEq,false_and,if_false]
      intro f pc hc
      cases hc
    · rename_i f pc howner
      exact absurd howner (h f pc)
    · exact h
  · exact act_owner (step_act config p i) (fun spawn heq => hi ⟨spawn,heq⟩) h

theorem act_staff (h : NoGrowth p) {i : WorkerPool.Input τ} (hown : ownStep i = true)
    {r : ThreadPool τ × List WorkerPool.Output} (ha : Act config p i r) : staff r.1 ≤ staff p := by
  have hset : ∀ {q : ThreadPool τ} {k : ℕ} {w : Worker τ}, q.workers = p.workers.set k w →
      q.starting = p.starting → q.startPc = p.startPc → staff q ≤ staff p := by
    intro q k w hw hleft hstart
    rw [staff,staff,hw,hleft,hstart,List.length_set]
  cases ha with
  | rests i => exact Nat.le_refl _
  | refuses i priority callback hfree hi => exact Nat.le_refl _
  | accepts priority callback hfree hroom hrun => exact Bool.noConfusion hown
  | grows spawn f howner => exact Nat.le_refl _
  | submits spawn f howner => exact Nat.le_refl _
  | creates spawn f pc r res howner hr => exact absurd howner (h f pc)
  | startsNext spawn hpc hleft =>
    simp only [staff,hpc,spawning]
    omega
  | starts spawn pc r res hpc hr =>
    cases createThread_create hr with
    | full hfull => simp only [startAfter,staff,hpc,spawning]; omega
    | counts hroom => simp only [startAfter,staff,hpc,spawning]; omega
    | throws hspawn => simp only [startAfter,staff,hpc,spawning]; omega
    | waits t hspawn => simp only [startAfter,staff,hpc,spawning]; omega
    | spawns t hspawn hfree =>
      simp only [startAfter,staff,hpc,spawning,List.length_append,List.length_singleton]
      omega
    | inserts t => simp only [startAfter,staff,hpc,spawning]; omega
  | walks i k w pc owner hk hwalk hi => exact hset rfl rfl rfl
  | takes k choice w x hk hpc hx => exact hset rfl rfl rfl
  | exits k choice w locked hk hpc =>
    rw [ThreadPool.threadExit]
    split_ifs <;> exact hset rfl rfl rfl
  | queues k w f hk hpc hf => exact hset rfl rfl rfl
  | finishes k w f queued hk hpc => exact hset rfl rfl rfl
  | runsPending => exact Bool.noConfusion hown
  | calls n threw f fs hn => exact Bool.noConfusion hown
  | destroys => exact Bool.noConfusion hown

/-- What a submission adds to the work of the pool: one task, and at most
eight steps for each worker it wakes. -/
theorem accepts_rank {f : Func}
    (hpool : ((threadPool config).step p (.enqueueTask kNormal false)).2 = [.accepted f]) :
    rank ((threadPool config).step p (.enqueueTask kNormal false)).1 ≤
      rank p+32+9*p.workers.length ∧
    staff ((threadPool config).step p (.enqueueTask kNormal false)).1 = staff p ∧
    ((threadPool config).step p (.enqueueTask kNormal false)).1.workers.length = p.workers.length ∧
    ((threadPool config).step p (.enqueueTask kNormal false)).1.isRunning = p.isRunning := by
  have hact := step_act config p (.enqueueTask kNormal false)
  generalize (threadPool config).step p (.enqueueTask kNormal false) = r at hact hpool
  cases hact with
  | accepts priority callback hfree hroom hrun =>
    have hlen : p.notifyNotEmpty.workers.length = p.workers.length := List.length_map _
    refine ⟨?_,?_,hlen,rfl⟩
    · have hle := workersRank_le (p.taskQueueSize+1 == 0) p.notifyNotEmpty.workers
      rw [hlen] at hle
      rw [rank,rank]
      simp only [queueEmpty,ownerRank,List.length_append,List.length_singleton]
      simp only [ThreadPool.notifyNotEmpty] at hle ⊢
      omega
    · simp only [staff]
      rw [hlen]
      rfl
  | rests i => cases hpool
  | refuses i priority callback hfree hi => cases hpool
  | walks i k w pc owner hk hwalk hi => cases hpool

end

def connRank (weight : ℕ) (x : Connection) : ℕ :=
  weight*x.inputBuffer.readable.length+x.inCallback.toNat

def inputRank (weight : ℕ) (conns : κ → Connection) : List κ → ℕ
  | [] => 0
  | c::cs => connRank weight (conns c)+inputRank weight conns cs

theorem connRank_mono {v w : ℕ} (h : v ≤ w) (x : Connection) : connRank v x ≤ connRank w x :=
  Nat.add_le_add_right (Nat.mul_le_mul_right _ h) _

theorem inputRank_mono {v w : ℕ} (h : v ≤ w) (conns : κ → Connection) (cs : List κ) :
    inputRank v conns cs ≤ inputRank w conns cs := by
  induction cs with
  | nil => exact Nat.le_refl _
  | cons c cs ih => exact Nat.add_le_add (connRank_mono h _) ih

theorem inputRank_falls {weight n : ℕ} {conns conns' : κ → Connection} {cs : List κ}
    (hall : ∀ d, connRank weight (conns' d) ≤ connRank weight (conns d)) {c : κ} (hc : c ∈ cs)
    (hfall : connRank weight (conns' c)+n ≤ connRank weight (conns c)) :
    inputRank weight conns' cs+n ≤ inputRank weight conns cs := by
  have hle : ∀ ds : List κ, inputRank weight conns' ds ≤ inputRank weight conns ds := by
    intro ds
    induction ds with
    | nil => exact Nat.le_refl _
    | cons d ds ih => exact Nat.add_le_add (hall d) ih
  induction cs with
  | nil => cases hc
  | cons d cs ih =>
    rw [inputRank,inputRank]
    rcases List.mem_cons.mp hc with rfl | hmem
    · have hrest := hle cs
      omega
    · have hrest := ih hmem
      have hd := hall d
      omega

section
variable [DecidableEq κ] {env : Envelopes} {s : RpcServer κ M} {c : κ}

variable (env) in
theorem decode_turn (hcb : (s.conns c).inCallback = true) (what : Option String) :
    ∃ x, ((server env).step s (.decode c what)).1.conns = Function.update s.conns c x ∧
      ((x.inCallback = false ∧
          x.inputBuffer.readable.length = (s.conns c).inputBuffer.readable.length) ∨
        (x.inCallback = true ∧
          x.inputBuffer.readable.length < (s.conns c).inputBuffer.readable.length)) := by
  simp only [server]
  rw [if_pos hcb,onMessage]
  rcases tryDecode_cases (s.conns c).inputBuffer with ⟨hp,hd⟩ | ⟨e,hp,hd⟩ | ⟨m,b,hp,hd⟩
  · rw [hd]
    exact ⟨_,rfl,.inl ⟨rfl,rfl⟩⟩
  · rw [hd]
    refine ⟨_,rfl,.inl ⟨?_,?_⟩⟩
    · rw [Connection.shutdown]
      split_ifs <;> rfl
    · rw [shutdown_inputBuffer]
  · rw [hd]
    have hless : b.readable.length < (s.conns c).inputBuffer.readable.length :=
      frameParser.shrinks hp
    refine ⟨{ s.conns c with inputBuffer := b },?_,.inr ⟨hcb,hless⟩⟩
    dsimp only
    split_ifs
    · cases what <;> rfl
    · rfl

theorem decode_rests (hcb : (s.conns c).inCallback = false) (what : Option String) :
    (server env).step s (.decode c what) = (s,[]) := by
  simp [server,hcb]

theorem decode_changes (hcb : (s.conns c).inCallback = true) (what : Option String) :
    ((server env).step s (.decode c what)).1 ≠ s := by
  obtain ⟨x,hconns,hx⟩ := decode_turn env hcb what
  intro hsame
  rw [hsame] at hconns
  have hself : s.conns c = x := by
    rw [hconns,Function.update_self]
  rw [hself] at hcb hx
  rcases hx with ⟨hx,-⟩ | ⟨-,hx⟩
  · exact Bool.noConfusion (hcb.symm.trans hx)
  · exact Nat.lt_irrefl _ hx

variable (env) in
theorem decode_rank (hcb : (s.conns c).inCallback = true) (what : Option String) {weight : ℕ}
    (hweight : 0 < weight) {cs : List κ} (hc : c ∈ cs) :
    inputRank weight ((server env).step s (.decode c what)).1.conns cs+1 ≤
      inputRank weight s.conns cs := by
  obtain ⟨x,hconns,hx⟩ := decode_turn env hcb what
  have hfall : connRank weight x+1 ≤ connRank weight (s.conns c) := by
    rw [connRank,connRank,hcb]
    rcases hx with ⟨hin,hlen⟩ | ⟨hin,hlen⟩
    · rw [hin,hlen]
      exact Nat.le_refl _
    · have hmul := Nat.mul_le_mul_left weight (Nat.succ_le_of_lt hlen)
      rw [Nat.mul_succ] at hmul
      rw [hin]
      omega
  rw [hconns]
  refine inputRank_falls (fun d => ?_) hc ?_
  · by_cases hd : d = c
    · rw [hd,Function.update_self]
      omega
    · rw [Function.update_of_ne hd]
  · rw [Function.update_self]
    exact hfall

variable (env) in
theorem submit_rank (weight : ℕ) (hs : submits s c = true) {cs : List κ} (hc : c ∈ cs) :
    inputRank weight ((server env).step s (.decode c none)).1.conns cs+weight ≤
      inputRank weight s.conns cs := by
  obtain ⟨hcb,msg,b,hd,hm⟩ := submits_iff.mp hs
  have hconns : ((server env).step s (.decode c none)).1.conns =
      Function.update s.conns c { s.conns c with inputBuffer := b } := by
    simp only [server]
    rw [if_pos hcb,onMessage,hd]
    dsimp only
    rw [if_pos hm]
    rfl
  have hless : b.readable.length < (s.conns c).inputBuffer.readable.length := by
    rcases tryDecode_cases (s.conns c).inputBuffer with ⟨hp,hd'⟩ | ⟨e,hp,hd'⟩ | ⟨m,b',hp,hd'⟩
    · rw [hd'] at hd
      cases hd
    · rw [hd'] at hd
      cases hd
    · rw [hd'] at hd
      cases hd
      exact frameParser.shrinks hp
  have hfall : connRank weight { s.conns c with inputBuffer := b }+weight ≤
      connRank weight (s.conns c) := by
    have hmul := Nat.mul_le_mul_left weight (Nat.succ_le_of_lt hless)
    rw [Nat.mul_succ] at hmul
    simp only [connRank]
    omega
  rw [hconns]
  refine inputRank_falls (fun d => ?_) hc ?_
  · by_cases hd : d = c
    · rw [hd,Function.update_self]
      omega
    · rw [Function.update_of_ne hd]
  · rw [Function.update_self]
    exact hfall

theorem worked_conns (s : RpcServer κ M) (n : ℕ) (exit : MethodExit M) :
    ((server env).step s (.work n exit)).1.conns = s.conns := by
  simp only [server,workerRun]
  cases s.queue[n]? <;> rfl

end

/-- The steps of the server's own threads: turns of `onMessage` on the
connections `cs` that do not give up, and the steps of the pool and of the
tasks. -/
def ownInput [DecidableEq κ] (cs : List κ) : ServerPool.Input κ M τ → Bool
  | .decode c timedOut => !timedOut && cs.contains c
  | .handle _ _ => true
  | .pool i => ownStep i
  | _ => false

/-- What a frame in a buffer may cost: its task, and the steps of all workers
when it wakes them. -/
def frameWeight (p : ThreadPool τ) : ℕ := 34+9*staff p

theorem frameWeight_pos (p : ThreadPool τ) : 0 < frameWeight p := by
  rw [frameWeight]
  omega

def serverRank (cs : List κ) (s : PooledServer κ M τ) : ℕ :=
  inputRank (frameWeight s.pool) s.rpc.conns cs+rank s.pool+s.serials.length

structure PoolKept (p : ThreadPool τ) : Prop where
  locked : Locked p
  attentive : Attentive p
  noGrowth : NoGrowth p

section
variable [DecidableEq τ] {config : ThreadPoolConfig} {p : ThreadPool τ}

theorem poolKept_step (hmode : config.mode = .kFixed) (h : PoolKept p) (i : WorkerPool.Input τ) :
    PoolKept ((threadPool config).step p i).1 :=
  ⟨step_locked config h.locked i,step_attentive h.locked h.attentive i,
    step_noGrowth hmode h.noGrowth i⟩

variable (config) in
theorem poolKept_run (hmode : config.mode = .kFixed) (h : PoolKept p)
    (is : List (WorkerPool.Input τ)) : PoolKept ((threadPool config).run p is).1 :=
  run_invariant (threadPool config) (fun p _ => PoolKept p) (fun _ _ i h => poolKept_step hmode h i)
    p is h

omit [DecidableEq τ] in
theorem poolKept_start (config : ThreadPoolConfig) : PoolKept (Start config : ThreadPool τ) :=
  ⟨locked_start config,attentive_start config,fun _ _ h => by cases h⟩

end

section
variable [DecidableEq κ] [DecidableEq τ] {env : Envelopes} {config : ThreadPoolConfig}
variable {cs : List κ} {s : PooledServer κ M τ}

omit [DecidableEq κ] in
theorem pools_rank (h : PoolKept s.pool) {i : WorkerPool.Input τ} (hown : ownStep i = true) :
    ({ s with pool := ((threadPool config).step s.pool i).1 } : PooledServer κ M τ) = s ∨
    serverRank cs { s with pool := ((threadPool config).step s.pool i).1 } < serverRank cs s := by
  rcases (pool_ranked config).falls s.pool i ⟨h.locked,h.attentive⟩ hown with hsame | hlt
  · left
    rw [hsame]
  · right
    have hstaff := act_staff h.noGrowth hown (step_act config s.pool i)
    have hinput := inputRank_mono (v := frameWeight ((threadPool config).step s.pool i).1)
      (w := frameWeight s.pool) (by rw [frameWeight,frameWeight]; omega) s.rpc.conns cs
    simp only [serverRank]
    omega

theorem part_rank (h : PoolKept s.pool) {i : ServerPool.Input κ M τ} (hown : ownInput cs i = true)
    {r : PooledServer κ M τ × List (Event κ)} (hp : Part env config s i r) :
    r.1 = s ∨ serverRank cs r.1 < serverRank cs s := by
  have hturn : ∀ {c : κ} {what : Option String}, c ∈ cs →
      ({ s with rpc := ((server env).step s.rpc (.decode c what)).1 } : PooledServer κ M τ) = s ∨
      serverRank cs { s with rpc := ((server env).step s.rpc (.decode c what)).1 } <
        serverRank cs s := by
    intro c what hc
    cases hcb : (s.rpc.conns c).inCallback with
    | false =>
      left
      rw [decode_rests hcb]
    | true =>
      right
      have hlt := decode_rank env hcb what (frameWeight_pos s.pool) hc
      simp only [serverRank]
      omega
  have hmem : ∀ {c : κ} {timedOut : Bool},
      ownInput cs (.decode c timedOut : ServerPool.Input κ M τ) = true → c ∈ cs := by
    intro c timedOut hown
    simp only [ownInput,Bool.and_eq_true,List.contains_iff_mem] at hown
    exact hown.2
  cases hp with
  | rests i => exact .inl rfl
  | reads c data => exact Bool.noConfusion hown
  | readFails c again => exact Bool.noConfusion hown
  | decodes c timedOut hsubmits => exact hturn (hmem hown)
  | accepts c hsubmits hfree hpool =>
    right
    obtain ⟨hrank,hstaff,-,-⟩ := accepts_rank hpool
    have hinput := submit_rank env (frameWeight s.pool) hsubmits (hmem hown)
    have hworkers : s.pool.workers.length ≤ staff s.pool := by
      rw [staff]
      omega
    simp only [serverRank,frameWeight,hstaff,List.length_append,List.length_singleton] at hinput ⊢
    omega
  | refuses c timedOut hsubmits j hpool => exact hturn (hmem hown)
  | handles k n exit f htask hn =>
    right
    obtain ⟨hlt,-⟩ := List.idxOf?_eq_some_iff.mp hn
    simp only [serverRank,worked_conns,List.length_eraseIdx_of_lt hlt]
    omega
  | pools i hheld => exact pools_rank h hown

theorem server_ranked (env : Envelopes) (config : ThreadPoolConfig) (hmode : config.mode = .kFixed)
    (cs : List κ) :
    Ranked (pooledServer env config) (fun i : ServerPool.Input κ M τ => ownInput cs i = true)
      (fun s => PoolKept s.pool) (serverRank cs) where
  keeps s i h hown := by
    obtain ⟨js,hjs⟩ := pool_step env config s i
    have hkept := poolKept_run config hmode h js
    rw [hjs] at hkept
    exact hkept
  falls s i h hown := part_rank h hown (step_part env config s i)

variable (env config) in
theorem own_step {i : ServerPool.Input κ M τ} (hown : ownInput cs i = true) :
    ((pooledServer env config).step s i).1.pool.isRunning = s.pool.isRunning ∧
    s.pool.workers.length ≤ ((pooledServer env config).step s i).1.pool.workers.length := by
  have hpart := step_part env config s i
  generalize (pooledServer env config).step s i = r at hpart
  cases hpart with
  | accepts c hsubmits hfree hpool =>
    obtain ⟨-,-,hlen,hrun⟩ := accepts_rank hpool
    exact ⟨hrun,Nat.le_of_eq hlen.symm⟩
  | pools i hheld =>
    refine ⟨?_,(act_own config (step_act config s.pool i) hown).2⟩
    rcases step_flag config s.pool i with ⟨hsame,-⟩ | ⟨rfl,-⟩
    · exact hsame
    · exact Bool.noConfusion hown
  | _ => exact ⟨rfl,Nat.le_refl _⟩

variable (env config) in
theorem own_keeps {js : List (ServerPool.Input κ M τ)} (hown : ∀ j ∈ js, ownInput cs j = true) :
    ((pooledServer env config).run s js).1.pool.isRunning = s.pool.isRunning ∧
    s.pool.workers.length ≤ ((pooledServer env config).run s js).1.pool.workers.length := by
  induction js generalizing s with
  | nil => exact ⟨rfl,Nat.le_refl _⟩
  | cons j js ih =>
    obtain ⟨hrun,hlen⟩ := own_step env config (s := s)
      (hown j List.mem_cons_self)
    obtain ⟨hrun',hlen'⟩ := ih (s := ((pooledServer env config).step s j).1)
      fun l hl => hown l (List.mem_cons_of_mem j hl)
    exact ⟨hrun'.trans hrun,Nat.le_trans hlen hlen'⟩

theorem settled_pool
    (h : Settled (pooledServer env config) (fun i => ownInput cs i = true) s) :
    Settled (threadPool config) (fun i => ownStep i = true) s.pool := by
  intro i hown
  cases hheld : s.holdsBack i with
  | false =>
    have hsame := congrArg PooledServer.pool (h (.pool i) hown)
    simpa [pooledServer,PooledServer.poolStep,hheld] using hsame
  | true =>
    exfalso
    cases i with
    | finish k =>
      rw [PooledServer.holdsBack,Option.any_eq_true] at hheld
      obtain ⟨f,htask,hmem⟩ := hheld
      obtain ⟨n,hn⟩ : ∃ n, s.serials.idxOf? f.serial = some n := by
        rw [← Option.isSome_iff_exists,List.isSome_idxOf?]
        simpa using hmem
      obtain ⟨hlt,-⟩ := List.idxOf?_eq_some_iff.mp hn
      have hsame := congrArg (fun t => t.serials.length) (h (.handle k .threw) rfl)
      simp only [pooledServer,PooledServer.handle,htask,hn,List.length_eraseIdx_of_lt hlt] at hsame
      omega
    | enqueueTask priority callback => exact Bool.noConfusion hown
    | enqueueTimeout => exact Bool.noConfusion hown
    | _ => exact Bool.noConfusion hheld

theorem settled_turns
    (h : Settled (pooledServer env config) (fun i => ownInput cs i = true) s) {c : κ} (hc : c ∈ cs)
    (hfree : s.pool.owner = none) (hroom : s.pool.taskQueueSize < config.maxQueueSize)
    (hrun : s.pool.isRunning = true) : (s.rpc.conns c).inCallback = false := by
  have hown : ownInput cs (.decode c false : ServerPool.Input κ M τ) = true := by
    simp [ownInput,hc]
  have hsame := h (.decode c false) hown
  by_contra hcb
  rw [Bool.not_eq_false] at hcb
  cases hs : submits s.rpc c with
  | false =>
    have hrpc := congrArg PooledServer.rpc hsame
    simp only [pooledServer,PooledServer.decode,hs,Bool.false_eq_true,if_false,
      PooledServer.serve] at hrpc
    exact decode_changes hcb none hrpc
  | true =>
    have hpool : (threadPool config).step s.pool (.enqueueTask kNormal false) =
        s.pool.enqueueTask config kNormal false := rfl
    have hserials := congrArg (fun t => t.serials.length) hsame
    simp [pooledServer,PooledServer.decode,hs,hpool,ThreadPool.enqueueTask,hfree,
      ThreadPool.hasRoom,hroom,hrun] at hserials

end

section
variable [DecidableEq κ] [DecidableEq τ] (env : Envelopes) (registry : ServiceRegistry M)
variable (poolThreads : UInt64) {cs : List κ} (is : List (ServerPool.Input κ M τ))

theorem serverRun_kept : PoolKept (serverRun env registry poolThreads is).1.pool := by
  obtain ⟨ps,hps⟩ := serverRun_pool env registry poolThreads is
  have hk := poolKept_run (serverConfig poolThreads) rfl
    (poolKept_start (serverConfig poolThreads)) ps
  rw [hps] at hk
  exact hk

variable {env registry poolThreads is}

theorem settled_idle
    (hset : Settled (pooledServer env (serverConfig poolThreads)) (fun i => ownInput cs i = true)
      (serverRun env registry poolThreads is).1)
    (hrun : (serverRun env registry poolThreads is).1.pool.isRunning = true)
    (hworkers : 0 < (serverRun env registry poolThreads is).1.pool.workers.length) :
    (serverRun env registry poolThreads is).1.rpc.queue = [] ∧
    ∀ c ∈ cs, ((serverRun env registry poolThreads is).1.rpc.conns c).inCallback = false := by
  obtain ⟨ps,hps⟩ := serverRun_pool env registry poolThreads is
  have hc := serverRun_coupled env registry poolThreads is
  have hkept := serverRun_kept env registry poolThreads is
  have hpool := settled_pool hset
  have hstaffed := run_staffed (serverConfig poolThreads) rfl ps
  have hsize := (run_balanced (serverConfig poolThreads) ps).size
  have hempty := settled_empty (serverConfig poolThreads) ps
  have hrest := settled_rests (serverConfig poolThreads) hkept.locked
    (fun k w hk hpc => by
      have hfinds := taking_finds_task (serverConfig poolThreads) ps k w
      rw [hps] at hfinds
      exact hfinds hk hpc) hpool
  rw [hps] at hstaffed hempty hsize
  generalize serverRun env registry poolThreads is = r at *
  obtain ⟨w,hw,hpc⟩ := staffed_worker hstaffed hrun hworkers
  obtain ⟨hqueue,hidle⟩ := hempty hpool hw hpc
  have hserials : r.1.serials = [] := by
    rw [List.eq_nil_iff_forall_not_mem]
    intro n hn
    have hheld := hc.held n hn
    rw [hqueue,hidle] at hheld
    exact List.not_mem_nil hheld
  refine ⟨?_,fun c hmem => settled_turns hset hmem hrest.owner ?_ hrun⟩
  · rw [← List.length_eq_zero_iff,← hc.parallel,hserials]
    rfl
  · have hzero : r.1.pool.taskQueueSize.toNat = 0 := by
      refine hsize.trans ?_
      rw [books,hqueue]
      rfl
    rw [UInt64.lt_iff_toNat_lt,hzero]
    exact (by decide : 0 < (4096 : UInt64).toNat)

theorem settled_answers
    (hset : Settled (pooledServer env (serverConfig poolThreads)) (fun i => ownInput cs i = true)
      (serverRun env registry poolThreads is).1)
    (hrun : (serverRun env registry poolThreads is).1.pool.isRunning = true)
    (hworkers : 0 < (serverRun env registry poolThreads is).1.pool.workers.length) {c : κ}
    (hc : c ∈ cs) :
    ((drain frameParser
        (receivedOn c ((serverRun env registry poolThreads is).2.flatMap rpcOf))).items.filter
          isRequest).Perm
      ((answersOn c ((serverRun env registry poolThreads is).2.flatMap rpcOf)).map Prod.fst++
        thrownOn c ((serverRun env registry poolThreads is).2.flatMap rpcOf)) := by
  obtain ⟨hqueue,hturns⟩ := settled_idle hset hrun hworkers
  obtain ⟨rs,hrs⟩ := serverRun_rpc env registry poolThreads is
  have ha := run_accounted env c registry rs
  rw [hrs] at ha
  have hframes := congrArg Drained.items ha.frames
  rw [ha.drained (hturns c hc),List.append_nil] at hframes
  have hrequests := ha.requests
  rw [pendingOn,hqueue] at hrequests
  rw [hframes]
  exact hrequests

end

/-- From any point of any run of a server whose pool is running and has a
worker: whatever the order in which the server's own threads then take their
steps, only so many of these do anything; from wherever they are they can go
on until nothing is left to do; and when nothing is, every request among the
frames that were received on the connections `cs` has been answered once, or
its service method has thrown. -/
theorem received_requests_answered [DecidableEq κ] [DecidableEq τ] (env : Envelopes)
    (registry : ServiceRegistry M) (poolThreads : UInt64) (cs : List κ)
    (is js : List (ServerPool.Input κ M τ))
    (hrun : (serverRun env registry poolThreads is).1.pool.isRunning = true)
    (hworkers : (serverRun env registry poolThreads is).1.pool.workers ≠ [])
    (hown : ∀ j ∈ js, ownInput cs j = true) :
    (∃ ks, ks.Sublist js ∧
      Along (pooledServer env (serverConfig poolThreads))
        (Effective (pooledServer env (serverConfig poolThreads)) fun i => ownInput cs i = true)
        (serverRun env registry poolThreads is).1 ks ∧
      ((pooledServer env (serverConfig poolThreads)).run
        (serverRun env registry poolThreads is).1 ks).1 =
          (serverRun env registry poolThreads (is++js)).1 ∧
      ks.length ≤ serverRank cs (serverRun env registry poolThreads is).1) ∧
    (∃ ls, (∀ l ∈ ls, ownInput cs l = true) ∧
      Settled (pooledServer env (serverConfig poolThreads)) (fun i => ownInput cs i = true)
        (serverRun env registry poolThreads (is++(js++ls))).1) ∧
    (Settled (pooledServer env (serverConfig poolThreads)) (fun i => ownInput cs i = true)
        (serverRun env registry poolThreads (is++js)).1 →
      ∀ c ∈ cs,
        ((drain frameParser (receivedOn c
          ((serverRun env registry poolThreads (is++js)).2.flatMap rpcOf))).items.filter isRequest).Perm
          ((answersOn c ((serverRun env registry poolThreads (is++js)).2.flatMap rpcOf)).map Prod.fst++
            thrownOn c ((serverRun env registry poolThreads (is++js)).2.flatMap rpcOf))) := by
  have hranked := server_ranked (M := M) (τ := τ) env (serverConfig poolThreads) rfl cs
  have hkept := serverRun_kept env registry poolThreads is
  have hend : serverRun env registry poolThreads (is++js) =
      (((pooledServer env (serverConfig poolThreads)).run
        (serverRun env registry poolThreads is).1 js).1,(serverRun env registry poolThreads is).2++
        ((pooledServer env (serverConfig poolThreads)).run
          (serverRun env registry poolThreads is).1 js).2) := run_append _ _ is js
  obtain ⟨hflag,hlen⟩ := own_keeps env (serverConfig poolThreads)
    (s := (serverRun env registry poolThreads is).1) hown
  refine ⟨?_,?_,fun hset c hc => settled_answers hset ?_ ?_ hc⟩
  · obtain ⟨ks,hsub,heff,hsame,hle⟩ := own_run_bounded hranked hkept hown
    refine ⟨ks,hsub,heff,?_,hle⟩
    rw [hend]
    exact hsame
  · obtain ⟨ls,hls,hset⟩ := exists_settled hranked (run_ranked hranked hkept hown)
    refine ⟨ls,hls,?_⟩
    rw [← List.append_assoc,serverRun,run_append]
    rw [serverRun] at hend
    rw [hend]
    exact hset
  · rw [hend]
    exact hflag.trans hrun
  · rw [hend]
    exact Nat.lt_of_lt_of_le (List.length_pos_iff.mpr hworkers) hlen

def requestArrives : List (ServerPool.Input Unit Bytes ℕ) :=
  startsWorker.map .pool++[.read () (encoded (echoRequest 1))]

theorem arrived_request_answered :
    ∃ ls, (∀ l ∈ ls, ownInput [()] l = true) ∧
      ((drain frameParser (receivedOn ()
        ((serverRun protoEnvelopes echoRegistry 1 (requestArrives++ls)).2.flatMap rpcOf))).items.filter
          isRequest).Perm
        ((answersOn () ((serverRun protoEnvelopes echoRegistry 1
          (requestArrives++ls)).2.flatMap rpcOf)).map Prod.fst++
        thrownOn () ((serverRun protoEnvelopes echoRegistry 1
          (requestArrives++ls)).2.flatMap rpcOf)) := by
  have hrun : (serverRun protoEnvelopes echoRegistry 1 requestArrives).1.pool.isRunning = true := by
    decide +kernel
  have hworkers : (serverRun protoEnvelopes echoRegistry 1 requestArrives).1.pool.workers ≠ [] := by
    decide +kernel
  obtain ⟨-,⟨ls,hls,hset⟩,-⟩ := received_requests_answered protoEnvelopes echoRegistry 1 [()]
    requestArrives [] hrun hworkers (by simp)
  obtain ⟨-,-,hanswered⟩ := received_requests_answered protoEnvelopes echoRegistry 1 [()]
    requestArrives ls hrun hworkers hls
  exact ⟨ls,hls,hanswered hset () (by simp)⟩

end MiniRpc.ServerProgress
