import MiniRpc.PoolMutex

/-!
# The threads of the pool and their ids

What one step does to the workers and to `threads_`: workers move inside
`WorkerThread`, or one of them runs `threadExit`, or `CreateThread` starts a
worker, or it inserts the id of the worker it has started. Between the last
two the id is not registered yet.
-/

set_option autoImplicit false

namespace MiniRpc.PoolThreads
open MiniRpc.StepMachine MiniRpc.WorkerPool MiniRpc.PoolSteps MiniRpc.PoolAccounting
open MiniRpc.PoolMutex

variable {τ : Type}

inductive PcMove (s : ThreadPool τ) : WorkerPc → WorkerPc → Prop where
  | stays (pc : WorkerPc) : PcMove s pc pc
  | begins : PcMove s .top .locking
  | stops : PcMove s .top .exiting
  | locks (hfree : s.owner = none) : PcMove s .locking .looking
  | looks (timed : Bool) : PcMove s .looking (.testing timed false)
  | sees : PcMove s .looking .taking
  | finds (timed timedOut : Bool) : PcMove s (.testing timed timedOut) .ready
  | expires (timed timedOut : Bool) : PcMove s (.testing timed timedOut) .leaving
  | blocks (timed timedOut : Bool) (hrun : s.isRunning = true) :
      PcMove s (.testing timed timedOut) (.blocking timed)
  | sleeps (timed : Bool) : PcMove s (.blocking timed) (.asleep timed)
  | wakes (timed timedOut : Bool) : PcMove s (.asleep timed) (.waking timed timedOut)
  | relocks (timed timedOut : Bool) (hfree : s.owner = none) :
      PcMove s (.waking timed timedOut) (.testing timed timedOut)
  | looksAgain : PcMove s .ready .looking
  | gives (pc : WorkerPc) (hpc : pc = .looking ∨ pc = .ready) : PcMove s pc .exiting
  | takes (f : Func) : PcMove s .taking (.executing f false)
  | queues (f : Func) : PcMove s (.executing f false) (.executing f true)
  | finishes (f : Func) (queued : Bool) : PcMove s (.executing f queued) .top
  | leaves (locked : Bool) : PcMove s (.exited locked) .gone

def createdId : Option (CreatePc τ) → Option τ
  | some (.created t) => some t
  | _ => none

def startId (s : ThreadPool τ) : Option τ := createdId s.startPc

def growId (s : ThreadPool τ) : Option τ := createdId (Owner.createPc s.owner)

def Unregistered (s : ThreadPool τ) (t : τ) : Prop := startId s = some t ∨ growId s = some t

/-- One of the two possible calls of `CreateThread` has started worker `t` in
`s'` but not yet in `s`. -/
def Pends (s s' : ThreadPool τ) (t : τ) : Prop :=
  (startId s = none ∧ startId s' = some t ∧ growId s' = growId s) ∨
  (growId s = none ∧ growId s' = some t ∧ startId s' = startId s)

def WorkerMove (s : ThreadPool τ) (u v : Worker τ) : Prop :=
  v.threadId = u.threadId ∧ PcMove s u.pc v.pc

def Moved (s s' : ThreadPool τ) : Prop :=
  ∀ k : ℕ, Option.Rel (WorkerMove s) s.workers[k]? s'.workers[k]?

/-- What a step does to the workers and their ids. -/
inductive Change [DecidableEq τ] (s : ThreadPool τ) (i : Input τ) (s' : ThreadPool τ) : Prop where
  | works (hw : Moved s s') (ht : s'.threads = s.threads) (hs : startId s' = startId s)
      (hg : growId s' = growId s)
  | exits (k choice : ℕ) (w : Worker τ) (locked : Bool) (hi : i = .worker k choice)
      (hk : s.workers[k]? = some w) (hpc : w.pc = if locked then .leaving else .exiting)
      (hw : s'.workers = s.workers.set k { w with pc := .exited locked })
      (ht : s'.threads = s.threads.erase w.threadId) (hs : startId s' = startId s)
      (hg : growId s' = growId s)
  | spawns (t : τ) (hfree : s.freeId t = true) (hw : s'.workers = s.workers++[{ threadId := t }])
      (ht : s'.threads = s.threads) (hid : Pends s s' t)
  | inserts (t : τ) (hw : s'.workers = s.workers) (ht : s'.threads = s.threads.insert t)
      (hid : Pends s' s t)

theorem rel_refl {α : Type} {r : α → α → Prop} (h : ∀ a, r a a) (x : Option α) : Option.Rel r x x := by
  cases x with
  | none => exact .none
  | some a => exact .some (h a)

theorem worker_stays (s : ThreadPool τ) (w : Worker τ) : WorkerMove s w w := ⟨rfl,.stays _⟩

section
variable {s s' : ThreadPool τ}

theorem moved_same (hw : s'.workers = s.workers) : Moved s s' := by
  intro k
  rw [hw]
  exact rel_refl (worker_stays s) _

theorem moved_setPc {k : ℕ} {w : Worker τ} (hk : s.workers[k]? = some w) {pc : WorkerPc}
    (hw : s'.workers = s.workers.set k { w with pc := pc }) (hpc : PcMove s w.pc pc) : Moved s s' := by
  intro j
  rw [hw]
  by_cases hj : j = k
  · subst hj
    rw [List.getElem?_set_self (List.getElem?_eq_some_iff.mp hk).1,hk]
    exact .some ⟨rfl,hpc⟩
  · rw [List.getElem?_set_ne (Ne.symm hj)]
    exact rel_refl (worker_stays s) _

theorem notified_move (s : ThreadPool τ) (pc : WorkerPc) : PcMove s pc pc.notified := by
  cases pc with
  | asleep timed => exact .wakes timed false
  | _ => exact .stays _

theorem moved_notified (hw : s'.workers = s.notifyNotEmpty.workers) : Moved s s' := by
  intro k
  rw [hw,ThreadPool.notifyNotEmpty,List.getElem?_map]
  cases s.workers[k]? with
  | none => exact .none
  | some w => exact .some ⟨rfl,notified_move s w.pc⟩

theorem growId_worker {k : ℕ} (h : s.owner = some (.worker k)) : growId s = none := by
  rw [growId,h]
  rfl

theorem growId_free (h : s.owner = none) : growId s = none := by
  rw [growId,h]
  rfl

theorem hasWork_false (h : s.hasWork = false) : s.isRunning = true := by
  simp only [ThreadPool.hasWork,Bool.or_eq_false_iff,Bool.not_eq_false'] at h
  exact h.2

theorem walk_move {k : ℕ} {pc pc' : WorkerPc} {owner : Option (Owner τ)}
    (h : Walk s k pc pc' owner) : PcMove s pc pc' := by
  cases h with
  | begins hrun => exact .begins
  | stops hstop => exact .stops
  | locks hfree => exact .locks hfree
  | looks timed => exact .looks timed
  | sees hsome hrun => exact .sees
  | gives hstop => exact .gives _ (.inl rfl)
  | finds timed timedOut => exact .finds timed timedOut
  | expires timed hwork => exact .expires timed true
  | blocks timed hwork => exact .blocks timed false (hasWork_false hwork)
  | sleeps timed => exact .sleeps timed
  | wakes timed timedOut => exact .wakes timed timedOut
  | relocks timed timedOut hfree => exact .relocks timed timedOut hfree
  | looksAgain hrun => exact .looksAgain
  | givesUp hstop => exact .gives _ (.inr rfl)
  | leaves => exact .leaves false
  | leavesLocked => exact .leaves true

variable [DecidableEq τ] {i : Input τ}

section
variable {k : ℕ} {w : Worker τ} (hk : s.workers[k]? = some w)
include hk

theorem change_moves {pc : WorkerPc} (hw : s'.workers = s.workers.set k { w with pc := pc })
    (hpc : PcMove s w.pc pc) (ht : s'.threads = s.threads) (hs : s'.startPc = s.startPc)
    (ho : s'.owner = s.owner) : Change s i s' :=
  .works (moved_setPc hk hw hpc) ht (congrArg createdId hs)
    (congrArg (fun o => createdId (Owner.createPc o)) ho)

theorem change_acquires (hfree : s.owner = none) {pc : WorkerPc}
    (hw : s'.workers = s.workers.set k { w with pc := pc }) (hpc : PcMove s w.pc pc)
    (ht : s'.threads = s.threads) (hs : s'.startPc = s.startPc)
    (ho : s'.owner = some (.worker k)) : Change s i s' :=
  .works (moved_setPc hk hw hpc) ht (congrArg createdId hs)
    ((growId_worker ho).trans (growId_free hfree).symm)

theorem change_releases (h : Locked s) (hheld : holdsMutex w.pc = true) {pc : WorkerPc}
    (hw : s'.workers = s.workers.set k { w with pc := pc }) (hpc : PcMove s w.pc pc)
    (ht : s'.threads = s.threads) (hs : s'.startPc = s.startPc) (ho : s'.owner = none) :
    Change s i s' :=
  .works (moved_setPc hk hw hpc) ht (congrArg createdId hs)
    ((growId_free ho).trans (growId_worker ((h.holder k w hk).mp hheld)).symm)

theorem threadExit_change (choice : ℕ) (locked : Bool)
    (hpc : w.pc = if locked then .leaving else .exiting) :
    Change s (.worker k choice) ((s.threadExit w.threadId).setPc k w (.exited locked)) := by
  obtain ⟨hworkers,howner,-⟩ := threadExit_same s w.threadId
  have hthreads : (s.threadExit w.threadId).threads = s.threads.erase w.threadId := by
    rw [ThreadPool.threadExit]
    by_cases hid : w.threadId ∈ s.threads
    · rw [if_pos hid]
    · rw [if_neg hid,List.erase_of_not_mem hid]
  have hstart : (s.threadExit w.threadId).startPc = s.startPc := by
    rw [ThreadPool.threadExit]
    split_ifs <;> rfl
  exact .exits k choice w locked rfl hk hpc (congrArg (List.set · k _) hworkers) hthreads
    (congrArg createdId hstart) (congrArg (fun o => createdId (Owner.createPc o)) howner)

theorem walk_change (h : Locked s) {pc : WorkerPc} {owner : Option (Owner τ)}
    (hwalk : Walk s k w.pc pc owner) : Change s i { s.setPc k w pc with owner := owner } := by
  have hmove := walk_move hwalk
  generalize hpc : w.pc = before at hwalk
  cases hwalk with
  | locks hfree => exact change_acquires hk hfree rfl hmove rfl rfl rfl
  | relocks timed timedOut hfree => exact change_acquires hk hfree rfl hmove rfl rfl rfl
  | gives hstop => exact change_releases hk h (by rw [hpc]; rfl) rfl hmove rfl rfl rfl
  | sleeps timed => exact change_releases hk h (by rw [hpc]; rfl) rfl hmove rfl rfl rfl
  | givesUp hstop => exact change_releases hk h (by rw [hpc]; rfl) rfl hmove rfl rfl rfl
  | leavesLocked => exact change_releases hk h (by rw [hpc]; rfl) rfl hmove rfl rfl rfl
  | _ => exact change_moves hk rfl hmove rfl rfl rfl

end

theorem createThread_ids {config : ThreadPoolConfig} {pc : CreatePc τ} {spawn : Option τ}
    {r : ThreadPool τ} {res : CreateResult τ} (hr : s.createThread config spawn pc = (r,res)) :
    (r.workers = s.workers ∧ r.threads = s.threads ∧ createdId (some pc) = none ∧
      createdId (nextPc res) = none) ∨
    (∃ t, s.freeId t = true ∧ r.workers = s.workers++[{ threadId := t }] ∧ r.threads = s.threads ∧
      createdId (some pc) = none ∧ createdId (nextPc res) = some t) ∨
    (∃ t, r.workers = s.workers ∧ r.threads = s.threads.insert t ∧ createdId (some pc) = some t ∧
      createdId (nextPc res) = none) := by
  cases createThread_create hr with
  | spawns t hspawn hfree => exact .inr (.inl ⟨t,hfree,rfl,rfl,rfl,rfl⟩)
  | inserts t => exact .inr (.inr ⟨t,rfl,rfl,rfl,rfl⟩)
  | _ => exact .inl ⟨rfl,rfl,rfl,rfl⟩

theorem creates_change {config : ThreadPoolConfig} {f : Func} {pc : CreatePc τ} {spawn : Option τ}
    {r : ThreadPool τ} {res : CreateResult τ} (howner : s.owner = some (.submitter f (some pc)))
    (hr : s.createThread config spawn pc = (r,res)) : Change s i (submitterAfter f r res).1 := by
  have hgrow : growId s = createdId (some pc) := by rw [growId,howner]; rfl
  have hw : (submitterAfter f r res).1.workers = r.workers := by cases res <;> rfl
  have ht : (submitterAfter f r res).1.threads = r.threads := by cases res <;> rfl
  have hg : growId (submitterAfter f r res).1 = createdId (nextPc res) := by cases res <;> rfl
  have hs : startId (submitterAfter f r res).1 = startId s := by
    rw [startId,startId,← (createThread_frame hr).1]
    cases res <;> rfl
  rcases createThread_ids hr with ⟨h1,h2,h3,h4⟩ | ⟨t,hfree,h1,h2,h3,h4⟩ | ⟨t,h1,h2,h3,h4⟩
  · exact .works (moved_same (hw.trans h1)) (ht.trans h2) hs
      (hg.trans (h4.trans (hgrow.trans h3).symm))
  · exact .spawns t hfree (hw.trans h1) (ht.trans h2) (.inr ⟨hgrow.trans h3,hg.trans h4,hs⟩)
  · exact .inserts t (hw.trans h1) (ht.trans h2) (.inr ⟨hg.trans h4,hgrow.trans h3,hs.symm⟩)

theorem starts_change {config : ThreadPoolConfig} {pc : CreatePc τ} {spawn : Option τ}
    {r : ThreadPool τ} {res : CreateResult τ} (hpc : s.startPc = some pc)
    (hr : s.createThread config spawn pc = (r,res)) : Change s i (startAfter r res) := by
  have hid : startId s = createdId (some pc) := by rw [startId,hpc]
  have hw : (startAfter r res).workers = r.workers := by cases res <;> rfl
  have ht : (startAfter r res).threads = r.threads := by cases res <;> rfl
  have hs : startId (startAfter r res) = createdId (nextPc res) := by cases res <;> rfl
  have hg : growId (startAfter r res) = growId s := by
    rw [growId,growId,← (createThread_frame hr).2.1]
    cases res <;> rfl
  rcases createThread_ids hr with ⟨h1,h2,h3,h4⟩ | ⟨t,hfree,h1,h2,h3,h4⟩ | ⟨t,h1,h2,h3,h4⟩
  · exact .works (moved_same (hw.trans h1)) (ht.trans h2) (hs.trans (h4.trans (hid.trans h3).symm)) hg
  · exact .spawns t hfree (hw.trans h1) (ht.trans h2) (.inl ⟨hid.trans h3,hs.trans h4,hg⟩)
  · exact .inserts t (hw.trans h1) (ht.trans h2) (.inl ⟨hs.trans h4,hid.trans h3,hg.symm⟩)

theorem destroy_change (h : Destroy s s') : Change s i s' := by
  cases h with
  | notifies hd => exact .works (moved_notified rfl) rfl rfl rfl
  | _ => exact .works (moved_same rfl) rfl rfl rfl

theorem act_change {config : ThreadPoolConfig} (h : Locked s) {r : ThreadPool τ × List Output}
    (ha : Act config s i r) : Change s i r.1 := by
  cases ha with
  | accepts priority callback hfree hroom hrun =>
    exact .works (moved_notified rfl) rfl rfl (growId_free hfree).symm
  | grows spawn f howner =>
    have hgrow : growId s = none := by rw [growId,howner]; rfl
    exact .works (moved_same rfl) rfl rfl hgrow.symm
  | submits spawn f howner =>
    have hgrow : growId s = none := by rw [growId,howner]; rfl
    exact .works (moved_same rfl) rfl rfl hgrow.symm
  | creates spawn f pc r res howner hr => exact creates_change howner hr
  | startsNext spawn hpc hleft =>
    have hid : startId s = none := by rw [startId,hpc]; rfl
    exact .works (moved_same rfl) rfl hid.symm rfl
  | starts spawn pc r res hpc hr => exact starts_change hpc hr
  | walks i k w pc owner hk hwalk hi => exact walk_change hk h hwalk
  | takes k choice w x hk hpc hx =>
    exact change_releases hk h (by rw [hpc]; rfl) rfl (hpc ▸ .takes x.func) rfl rfl rfl
  | exits k choice w locked hk hpc => exact threadExit_change hk choice locked hpc
  | queues k w f hk hpc hf => exact change_moves hk rfl (hpc ▸ .queues f) rfl rfl rfl
  | finishes k w f queued hk hpc => exact change_moves hk rfl (hpc ▸ .finishes f queued) rfl rfl rfl
  | destroys => exact destroy_change (destructorStep_destroy s)
  | _ => exact .works (moved_same rfl) rfl rfl rfl

theorem step_change (config : ThreadPoolConfig) (h : Locked s) (i : Input τ) :
    Change s i ((threadPool config).step s i).1 := act_change h (step_act config s i)

end

theorem move_live {s : ThreadPool τ} {pc pc' : WorkerPc} (h : PcMove s pc pc') :
    isLive pc' = isLive pc := by
  cases h with
  | gives pc hpc => rcases hpc with rfl | rfl <;> rfl
  | _ => rfl

theorem move_gone {s : ThreadPool τ} {pc pc' : WorkerPc} (h : PcMove s pc pc') (hgone : pc' ≠ .gone) :
    pc ≠ .gone := by
  rintro rfl
  cases h with
  | stays => exact hgone rfl
  | gives pc hpc => rcases hpc with hpc | hpc <;> cases hpc

theorem moved_back {s s' : ThreadPool τ} (h : Moved s s') {k : ℕ} {v : Worker τ}
    (hv : s'.workers[k]? = some v) : ∃ u, s.workers[k]? = some u ∧ WorkerMove s u v := by
  have hk := h k
  rw [hv] at hk
  cases hu : s.workers[k]? with
  | none => rw [hu] at hk; cases hk
  | some u =>
    rw [hu] at hk
    cases hk with
    | some huv => exact ⟨u,rfl,huv⟩

theorem moved_forth {s s' : ThreadPool τ} (h : Moved s s') {k : ℕ} {u : Worker τ}
    (hu : s.workers[k]? = some u) : ∃ v, s'.workers[k]? = some v ∧ WorkerMove s u v := by
  have hk := h k
  rw [hu] at hk
  cases hv : s'.workers[k]? with
  | none => rw [hv] at hk; cases hk
  | some v =>
    rw [hv] at hk
    cases hk with
    | some huv => exact ⟨v,rfl,huv⟩

theorem spawned_get {ws : List (Worker τ)} {x v : Worker τ} {k : ℕ} (h : (ws++[x])[k]? = some v) :
    ws[k]? = some v ∨ (k = ws.length ∧ v = x) := by
  rcases Nat.lt_or_ge k ws.length with hk | hk
  · rw [List.getElem?_append_left hk] at h
    exact .inl h
  · rw [List.getElem?_append_right hk] at h
    have hlen := (List.getElem?_eq_some_iff.mp h).1
    rw [List.length_singleton] at hlen
    exact .inr ⟨by omega,List.mem_singleton.mp (List.mem_of_getElem? h)⟩

end MiniRpc.PoolThreads
