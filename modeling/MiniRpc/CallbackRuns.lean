import MiniRpc.HandOver
import MiniRpc.PoolMoves
import MiniRpc.PoolShutdown

/-!
# How often a callback runs

A task submitted with a callback ends by pushing a closure onto
`callbackQueue_`, which holds the callback and the result of the task. Each
call of `runPendingCallbacks` swaps that queue out into a local one and calls
its closures one after the other; the destructor makes the last call. The
closures are handed over in batches, and what the pool does to them is read
off its steps. An exception thrown by a callback unwinds
`runPendingCallbacks`, and the closures behind it go with the local queue.
-/

set_option autoImplicit false

namespace MiniRpc.CallbackRuns
open MiniRpc.StepMachine MiniRpc.WorkerPool MiniRpc.PoolSteps MiniRpc.PoolAccounting
open MiniRpc.PoolMutex MiniRpc.PoolMoves MiniRpc.PoolRegistry MiniRpc.PoolShutdown
open MiniRpc.HandOver

variable {τ ρ : Type}

def returning (s : ThreadPool τ) (k : ℕ) : Option Func :=
  match s.workers[k]? with
  | some w =>
    match w.pc with
    | .executing f false => if f.callback then some f else none
    | _ => none
  | none => none

def closureOps (s : ThreadPool τ) : Input τ × ρ → List (Op (Func × ρ))
  | (.queueCallback k,r) =>
    match returning s k with
    | some f => [.put (f,r)]
    | none => []
  | (.runPendingCallbacks,_) => [.take]
  | (.runCallback n threw,_) => [.next n threw]
  | (.destructor,_) => if s.destructor = .returned then [.take] else []
  | _ => []

def calledOf (os : List Output) : List Func :=
  os.filterMap fun
    | .callbackRun f => some f
    | _ => none

@[simp] theorem calledOf_append (os os' : List Output) :
    calledOf (os++os') = calledOf os++calledOf os' := List.filterMap_append

structure Untouched (s : ThreadPool τ) (r : ThreadPool τ × List Output) : Prop where
  queue : r.1.callbackQueue = s.callbackQueue
  runs : r.1.callbackRuns = s.callbackRuns
  called : calledOf r.2 = []

inductive Handled (s : ThreadPool τ) :
    List (Op (Func × ρ)) → ThreadPool τ × List Output → Prop where
  | nothing {r : ThreadPool τ × List Output} (h : Untouched s r) : Handled s [] r
  | puts (k : ℕ) (f : Func) (a : ρ) (hf : returning s k = some f) {r : ThreadPool τ × List Output}
      (hqueue : r.1.callbackQueue = s.callbackQueue++[f]) (hruns : r.1.callbackRuns = s.callbackRuns)
      (hcalled : calledOf r.2 = []) : Handled s [.put (f,a)] r
  | takes {r : ThreadPool τ × List Output} (hqueue : r.1.callbackQueue = [])
      (hruns : r.1.callbackRuns = s.callbackRuns++[s.callbackQueue])
      (hcalled : calledOf r.2 = []) : Handled s [.take] r
  | calls (n : ℕ) (threw : Bool) : Handled s [.next n threw] (s.runCallback n threw)

section
variable {s : ThreadPool τ}

def handlesCallbacks : Input τ → Bool
  | .queueCallback _ => true
  | .runPendingCallbacks => true
  | .runCallback _ _ => true
  | .destructor => true
  | _ => false

variable [DecidableEq τ]

theorem act_untouched {config : ThreadPoolConfig} {i : Input τ} {r : ThreadPool τ × List Output}
    (h : Act config s i r) (hi : handlesCallbacks i = false) : Untouched s r := by
  cases h with
  | creates spawn f pc r res howner hr =>
    obtain ⟨workers,threads,current,idle,rfl⟩ := createThread_writes hr
    cases res <;> exact ⟨rfl,rfl,rfl⟩
  | starts spawn pc r res hpc hr =>
    obtain ⟨workers,threads,current,idle,rfl⟩ := createThread_writes hr
    cases res <;> exact ⟨rfl,rfl,rfl⟩
  | exits k choice w locked hk hpc =>
    rw [ThreadPool.threadExit]
    split_ifs <;> exact ⟨rfl,rfl,rfl⟩
  | queues k w f hk hpc hf => cases hi
  | runsPending => cases hi
  | calls n threw f fs hn => cases hi
  | destroys => cases hi
  | _ => exact ⟨rfl,rfl,rfl⟩

omit [DecidableEq τ] in
theorem returning_worker {k : ℕ} {f : Func} (h : returning s k = some f) :
    ∃ w, s.workers[k]? = some w ∧ w.pc = .executing f false ∧ f.callback = true := by
  rw [returning.eq_def] at h
  cases hk : s.workers[k]? with
  | none => rw [hk] at h; cases h
  | some w =>
    simp only [hk] at h
    split at h
    case h_1 g hpc =>
      split_ifs at h with hg
      cases h
      exact ⟨w,rfl,hpc,hg⟩
    case h_2 => cases h

omit [DecidableEq τ] in
theorem queueCallback_returns {k : ℕ} {f : Func} {w : Worker τ} (hpc : w.pc = .executing f false)
    (hf : f.callback = true) :
    s.queueCallback k w =
      { s.setPc k w (.executing f true) with callbackQueue := s.callbackQueue++[f] } := by
  rw [ThreadPool.queueCallback,hpc]
  exact if_pos hf

omit [DecidableEq τ] in
theorem queueCallback_untouched {k : ℕ} (h : returning s k = none) :
    Untouched s (s.withWorker k fun w => (s.queueCallback k w,[])) := by
  rw [returning.eq_def] at h
  rw [ThreadPool.withWorker.eq_def]
  cases hk : s.workers[k]? with
  | none => exact ⟨rfl,rfl,rfl⟩
  | some w =>
    simp only [hk] at h
    dsimp only
    rw [ThreadPool.queueCallback.eq_def]
    split
    case h_1 f hpc =>
      simp only [hpc] at h
      split_ifs at h ⊢ with hf
      exact ⟨rfl,rfl,rfl⟩
    case h_2 => exact ⟨rfl,rfl,rfl⟩

theorem step_handled (config : ThreadPoolConfig) (s : ThreadPool τ) (i : Input τ × ρ) :
    Handled s (closureOps s i) ((threadPool config).step s i.1) := by
  obtain ⟨i,r⟩ := i
  have huntouched := act_untouched (step_act config s i)
  cases i with
  | queueCallback k =>
    cases hf : returning s k with
    | none =>
      simp only [closureOps,hf]
      exact .nothing (queueCallback_untouched hf)
    | some f =>
      obtain ⟨w,hk,hpc,hcallback⟩ := returning_worker hf
      simp only [closureOps,hf,threadPool,ThreadPool.withWorker,hk,
        queueCallback_returns hpc hcallback]
      exact .puts k f r hf rfl rfl rfl
  | runPendingCallbacks => exact .takes rfl rfl rfl
  | runCallback n threw => exact .calls n threw
  | destructor =>
    simp only [closureOps,threadPool]
    rw [ThreadPool.destructorStep.eq_def]
    cases s.destructor with
    | returned => exact .takes rfl rfl rfl
    | waiting =>
      rw [if_neg DestructorPc.noConfusion]
      apply Handled.nothing
      dsimp only
      split_ifs <;> exact ⟨rfl,rfl,rfl⟩
    | _ => exact .nothing ⟨rfl,rfl,rfl⟩
  | _ => exact .nothing (huntouched rfl)

end

/-- The store holds the closures of the callbacks that the pool holds. -/
structure Agree (s : ThreadPool τ) (t : Store (Func × ρ)) : Prop where
  queue : t.waiting.map Prod.fst = s.callbackQueue
  runs : t.batches.map (List.map Prod.fst) = s.callbackRuns

section
variable {s : ThreadPool τ} {t : Store (Func × ρ)}

theorem agree_get (h : Agree s t) (n : ℕ) :
    s.callbackRuns[n]? = (t.batches[n]?).map (List.map Prod.fst) := by
  rw [← h.runs,List.getElem?_map]

theorem agree_next (h : Agree s t) (n : ℕ) (threw : Bool) :
    Agree (s.runCallback n threw).1 (t.next n threw).1 ∧
    (doneOf (t.next n threw).2).map Prod.fst = calledOf (s.runCallback n threw).2 := by
  rw [ThreadPool.runCallback.eq_def,Store.next.eq_def,agree_get h n]
  rcases t.batches[n]? with _ | _ | ⟨c,cs⟩
  · exact ⟨h,rfl⟩
  · exact ⟨h,rfl⟩
  · refine ⟨⟨h.queue,?_⟩,?_⟩
    · dsimp only [Option.map_some,List.map_cons]
      rw [List.map_set,h.runs]
      cases threw <;> rfl
    · cases threw <;> rfl

theorem handled_agree {ops : List (Op (Func × ρ))} {r : ThreadPool τ × List Output}
    (hr : Handled s ops r) (h : Agree s t) :
    Agree r.1 (handOver.run t ops).1 ∧
    (doneOf (handOver.run t ops).2).map Prod.fst = calledOf r.2 := by
  cases hr with
  | nothing hr => exact ⟨⟨h.queue.trans hr.queue.symm,h.runs.trans hr.runs.symm⟩,hr.called.symm⟩
  | puts k f a hf hqueue hruns hcalled =>
    refine ⟨⟨?_,h.runs.trans hruns.symm⟩,hcalled.symm⟩
    rw [hqueue,← h.queue]
    exact List.map_append
  | takes hqueue hruns hcalled =>
    refine ⟨⟨hqueue.symm,?_⟩,hcalled.symm⟩
    rw [hruns,← h.runs,← h.queue]
    exact List.map_append
  | calls n threw =>
    obtain ⟨hagree,hcalled⟩ := agree_next h n threw
    refine ⟨hagree,?_⟩
    rw [Machine.run,Machine.run,List.append_nil]
    exact hcalled

end

/-- A callback throws, and there are others behind it. -/
def losesCallbacks (s : ThreadPool τ) : Input τ → Bool
  | .runCallback n true =>
    match s.callbackRuns[n]? with
    | some (_::_::_) => true
    | _ => false
  | _ => false

theorem losesCallbacks_iff {s : ThreadPool τ} {t : Store (Func × ρ)} (h : Agree s t)
    (i : Input τ × ρ) :
    losesCallbacks s i.1 = false ↔
      Along handOver (fun t o => drops t o = false) t (closureOps s i) := by
  obtain ⟨i,r⟩ := i
  cases i with
  | runCallback n threw =>
    cases threw with
    | false => exact ⟨fun _ => ⟨rfl,trivial⟩,fun _ => rfl⟩
    | true =>
      simp only [losesCallbacks,closureOps,Along,drops,agree_get h n,and_true]
      rcases t.batches[n]? with _ | _ | ⟨a,_ | ⟨b,cs⟩⟩ <;> exact Iff.rfl
  | queueCallback k =>
    simp only [closureOps]
    cases returning s k with
    | none => exact ⟨fun _ => trivial,fun _ => rfl⟩
    | some f => exact ⟨fun _ => ⟨rfl,trivial⟩,fun _ => rfl⟩
  | runPendingCallbacks => exact ⟨fun _ => ⟨rfl,trivial⟩,fun _ => rfl⟩
  | destructor =>
    simp only [closureOps]
    split_ifs
    · exact ⟨fun _ => ⟨rfl,trivial⟩,fun _ => rfl⟩
    · exact ⟨fun _ => trivial,fun _ => rfl⟩
  | _ => exact ⟨fun _ => trivial,fun _ => rfl⟩

theorem closureOps_items (s : ThreadPool τ) (i : Input τ × ρ) :
    itemsOf (closureOps s i) = [] ∨
    ∃ k f, i.1 = .queueCallback k ∧ returning s k = some f ∧ itemsOf (closureOps s i) = [(f,i.2)] := by
  obtain ⟨i,r⟩ := i
  cases i with
  | queueCallback k =>
    simp only [closureOps]
    cases hf : returning s k with
    | none => exact .inl rfl
    | some f => exact .inr ⟨k,f,rfl,hf,rfl⟩
  | destructor =>
    simp only [closureOps]
    split_ifs <;> exact .inl rfl
  | _ => exact .inl rfl

structure Returned (s : ThreadPool τ) (os : List Output) (fs : List Func) : Prop where
  nodup : fs.Nodup
  started : ∀ f ∈ fs, f ∈ executing s.workers++finishedOf os
  fresh : ∀ w ∈ s.workers, ∀ f, w.pc = .executing f false → f ∉ fs

theorem booking_started {config : ThreadPoolConfig} {b b' : Books} {os new : List Output}
    (h : Booking config b b' new) {f : Func} (hf : f ∈ b.executing++finishedOf os) :
    f ∈ b'.executing++finishedOf (os++new) := by
  rw [finishedOf_append]
  simp only [List.mem_append] at hf ⊢
  cases h with
  | nothing exec hexec load hload new hnew =>
    exact hf.imp hexec.mem_iff.mpr .inl
  | accepts priority callback hroom exec hexec load hload =>
    exact hf.imp hexec.mem_iff.mpr .inl
  | counts hroom exec hexec load hload new hnew =>
    exact hf.imp hexec.mem_iff.mpr .inl
  | dequeues k x hx exec hexec load hload hidle =>
    exact hf.imp (fun hmem => hexec.mem_iff.mpr (List.mem_cons_of_mem _ hmem)) .inl
  | finishes g exec hexec load hload =>
    rcases hf with hmem | hfin
    · rcases List.mem_cons.mp (hexec.mem_iff.mp hmem) with rfl | hother
      · exact .inr (.inr List.mem_cons_self)
      · exact .inl hother
    · exact .inr (.inl hfin)
  | exits exec hexec load hload hidle =>
    exact hf.imp hexec.mem_iff.mpr .inl

theorem mem_executing {s : ThreadPool τ} {w : Worker τ} (hw : w ∈ s.workers) {f : Func} {queued : Bool}
    (hpc : w.pc = .executing f queued) : f ∈ executing s.workers :=
  List.mem_filterMap.mpr ⟨w,hw,by rw [hpc]; rfl⟩

theorem balanced_distinct {config : ThreadPoolConfig} {b : Books} {os : List Output}
    (h : Balanced config b os) : (b.queue.map PrioritizedTask.func++(b.executing++finishedOf os)).Nodup := by
  rw [h.places.nodup_iff]
  apply List.Nodup.of_map Func.serial
  rw [h.serials]
  exact List.nodup_range

theorem one_executes {ws : List (Worker τ)} (h : (executing ws).Nodup) {u v : Worker τ} (hu : u ∈ ws)
    (hv : v ∈ ws) {f : Func} (hfu : funcOf u.pc = some f) (hfv : funcOf v.pc = some f) : u = v := by
  induction ws with
  | nil => cases hu
  | cons w ws ih =>
    rw [executing_cons] at h
    obtain ⟨-,hrest,hdisjoint⟩ := List.nodup_append.mp h
    have hmem : ∀ {x : Worker τ}, x ∈ ws → funcOf x.pc = some f → f ∈ executing ws :=
      fun hx hfx => List.mem_filterMap.mpr ⟨_,hx,hfx⟩
    rcases List.mem_cons.mp hu with rfl | hu'
    · rcases List.mem_cons.mp hv with rfl | hv'
      · rfl
      · exact absurd rfl (hdisjoint f (Option.mem_toList.mpr hfu) f (hmem hv' hfv))
    · rcases List.mem_cons.mp hv with rfl | hv'
      · exact absurd rfl (hdisjoint f (Option.mem_toList.mpr hfv) f (hmem hu' hfu))
      · exact ih hrest hu' hv'

section
variable [DecidableEq τ] (config : ThreadPoolConfig) {s : ThreadPool τ} {os : List Output} {fs : List Func}

theorem step_fresh (hb : Balanced config (books s) os) (h : Returned s os fs) (i : Input τ)
    {w : Worker τ} (hw : w ∈ ((threadPool config).step s i).1.workers) {f : Func}
    (hpc : w.pc = .executing f false) : f ∉ fs := by
  have harrives := step_arrives config s i w hw
  rw [hpc] at harrives
  rcases harrives with ⟨u,hu,hpcu⟩ | harrival
  · exact h.fresh u hu f hpcu
  · cases harrival with
    | idles _ hexit hfunc => cases hfunc
    | takes x hx =>
      intro hmem
      have hqueued : x.func ∈ (books s).queue.map PrioritizedTask.func := List.mem_map_of_mem hx
      exact (List.nodup_append.mp (balanced_distinct hb)).2.2 _ hqueued _ (h.started _ hmem) rfl

theorem queued_worker {k : ℕ} {w : Worker τ} (hk : s.workers[k]? = some w) {f : Func}
    (hpc : w.pc = .executing f false) (hf : f.callback = true) :
    { w with pc := .executing f true } ∈ ((threadPool config).step s (.queueCallback k)).1.workers := by
  simp only [threadPool,ThreadPool.withWorker,hk,queueCallback_returns hpc hf,ThreadPool.setPc]
  exact List.mem_set (List.getElem?_eq_some_iff.mp hk).1 _

theorem step_returned (hb : Balanced config (books s) os) (h : Returned s os fs) (i : Input τ × ρ) :
    Returned ((threadPool config).step s i.1).1 (os++((threadPool config).step s i.1).2)
      (fs++(itemsOf (closureOps s i)).map Prod.fst) := by
  have hbooking : Booking config (books s) _ _ := step_booking s i.1
  have hstarted : ∀ f ∈ fs, _ := fun f hf => booking_started hbooking (h.started f hf)
  rcases closureOps_items s i with hnone | ⟨k,f,hi,hf,hitem⟩
  · rw [hnone,List.map_nil,List.append_nil]
    exact ⟨h.nodup,hstarted,fun w hw g hpc => step_fresh config hb h i.1 hw hpc⟩
  · rw [hitem,List.map_singleton]
    obtain ⟨w,hk,hpc,hcallback⟩ := returning_worker hf
    have hw := List.mem_of_getElem? hk
    refine ⟨?_,?_,?_⟩
    · refine List.nodup_append.mpr ⟨h.nodup,List.nodup_singleton f,?_⟩
      intro g hg f' hf' heq
      rw [heq,List.mem_singleton.mp hf'] at hg
      exact h.fresh w hw f hpc hg
    · intro g hg
      rcases List.mem_append.mp hg with hold | hnew
      · exact hstarted g hold
      · rw [List.mem_singleton.mp hnew]
        exact booking_started hbooking (List.mem_append_left _ (mem_executing hw hpc))
    · intro v hv g hpcv hg
      rcases List.mem_append.mp hg with hold | hnew
      · exact step_fresh config hb h i.1 hv hpcv hold
      · have hset := queued_worker config hk hpc hcallback
        rw [List.mem_singleton.mp hnew] at hpcv
        have hnodup := (List.nodup_append.mp (balanced_distinct
          (balanced_booking hb hbooking))).2.1
        have heq := one_executes (List.nodup_append.mp hnodup).1 hv (hi ▸ hset)
          (by rw [hpcv]; rfl) rfl
        rw [heq] at hpcv
        cases hpcv

/-- Once the wait of the destructor is over, no worker returns from a task,
so `callbackQueue_` is empty for good after the last `runPendingCallbacks`. -/
structure Over (s : ThreadPool τ) : Prop where
  exited : s.destructor = .returned ∨ s.destructor = .destroyed → Quiet s ∧ AllExited s
  empty : s.destructor = .destroyed → s.callbackQueue = []

omit [DecidableEq τ] in
theorem over_early (hreturned : s.destructor ≠ .returned) (hdestroyed : s.destructor ≠ .destroyed) :
    Over s :=
  ⟨fun hend => (hend.elim hreturned hdestroyed).elim,fun hend => (hdestroyed hend).elim⟩

omit [DecidableEq τ] in
theorem exited_idle (h : AllExited s) (k : ℕ) : returning s k = none := by
  cases hf : returning s k with
  | none => rfl
  | some f =>
    obtain ⟨w,hk,hpc,-⟩ := returning_worker hf
    have hdead := h w (List.mem_of_getElem? hk)
    rw [hpc] at hdead
    cases hdead

omit [DecidableEq τ] in
theorem exited_executing (h : AllExited s) : executing s.workers = [] := by
  apply List.filterMap_eq_nil_iff.mpr
  intro w hw
  have hdead := h w hw
  cases hpc : w.pc with
  | executing f queued => rw [hpc] at hdead; cases hdead
  | _ => rfl

omit [DecidableEq τ] in
theorem handled_empty (hdead : AllExited s) (hempty : s.callbackQueue = [])
    {ops : List (Op (Func × ρ))} {r : ThreadPool τ × List Output} (h : Handled s ops r) :
    r.1.callbackQueue = [] := by
  cases h with
  | nothing h => exact h.queue.trans hempty
  | puts k f a hf hqueue hruns hcalled =>
    rw [exited_idle hdead k] at hf
    cases hf
  | takes hqueue hruns hcalled => exact hqueue
  | calls n threw =>
    rw [ThreadPool.runCallback.eq_def]
    split <;> exact hempty

omit [DecidableEq τ] in
theorem destroy_over (hr : Registry s) (hs : Started s) (hf : FlagTrue s)
    (hp : Proper s .destructor) (h : Over s) {s' : ThreadPool τ} (hd : Destroy s s') : Over s' := by
  cases hd with
  | rests => exact h
  | stops hd => exact over_early DestructorPc.noConfusion DestructorPc.noConfusion
  | notifies hd => exact over_early DestructorPc.noConfusion DestructorPc.noConfusion
  | returns hd hempty =>
    have hq := empty_quiet hf hr hs hp hd hempty
    have hdead := quiet_exited hr hq hempty
    exact ⟨fun _ => ⟨⟨hq.stopped,hq.starting,hq.startPc,hq.submitting⟩,hdead⟩,
      fun hend => DestructorPc.noConfusion hend⟩
  | ends hd =>
    obtain ⟨hq,hdead⟩ := h.exited (.inl hd)
    exact ⟨fun _ => ⟨⟨hq.stopped,hq.starting,hq.startPc,hq.submitting⟩,hdead⟩,fun _ => rfl⟩

theorem step_over (hl : Locked s) (hr : Registry s) (hs : Started s) (hf : FlagTrue s) (h : Over s)
    {i : Input τ} (hi : Proper s i) : Over ((threadPool config).step s i).1 := by
  rcases step_flag config s i with ⟨-,hd⟩ | ⟨rfl,hstep⟩
  · refine ⟨?_,?_⟩
    · rw [hd]
      intro hend
      obtain ⟨hq,hdead⟩ := h.exited hend
      exact ⟨step_quiet config hq i,step_exited config hl hq hdead i⟩
    · rw [hd]
      intro hend
      exact handled_empty (h.exited (.inr hend)).2 (h.empty hend) (step_handled config s (i,()))
  · rw [hstep]
    exact destroy_over hr hs hf hi h (destructorStep_destroy s)

theorem run_over {is : List (Input τ)} (h : Along (threadPool config) Proper (Start config) is) :
    Over ((threadPool config).run (Start config) is).1 := by
  have hinv := run_invariant_along (threadPool config) Proper
    (fun s _ => (Locked s ∧ Registry s) ∧ (Started s ∧ FlagTrue s) ∧ Over s)
    (fun s _ i hs hi => ⟨⟨step_locked config hs.1.1 i,step_registry config hs.1.1 hs.1.2 i⟩,
      ⟨step_started config hs.2.1.1 hi,step_flagTrue config hs.2.1.2 i⟩,
      step_over config hs.1.1 hs.1.2 hs.2.1.1 hs.2.1.2 hs.2.2 hi⟩) (Start config) [] is
    ⟨⟨locked_start config,registry_start config⟩,⟨fun hne => absurd rfl hne,by simp [FlagTrue,Start]⟩,
      over_early DestructorPc.noConfusion DestructorPc.noConfusion⟩ h
  exact hinv.2.2

/-- What has become of the closures in a run of the pool; with each input
comes the result of the task that returns then. -/
def closureEvents (is : List (Input τ × ρ)) : List (Event (Func × ρ)) :=
  (handOver.run {} (((threadPool config).comap Prod.fst).feeds closureOps (Start config) is)).2

structure Handing (s : ThreadPool τ) (os : List Output) (t : Store (Func × ρ))
    (es : List (Event (Func × ρ))) : Prop where
  balanced : Balanced config (books s) os
  agree : Agree s t
  called : (doneOf es).map Prod.fst = calledOf os
  returned : Returned s os ((putOf es).map Prod.fst)

theorem step_handing {t : Store (Func × ρ)} {es : List (Event (Func × ρ))}
    (h : Handing config s os t es) (i : Input τ × ρ) :
    Handing config ((threadPool config).step s i.1).1 (os++((threadPool config).step s i.1).2)
      (handOver.run t (closureOps s i)).1 (es++(handOver.run t (closureOps s i)).2) := by
  obtain ⟨hagree,hcalled⟩ := handled_agree (step_handled config s i) h.agree
  refine ⟨balanced_booking h.balanced (step_booking s i.1),hagree,?_,?_⟩
  · rw [doneOf_append,calledOf_append,List.map_append,h.called,hcalled]
  · rw [putOf_append,run_putOf,List.map_append]
    exact step_returned config h.balanced h.returned i

theorem run_handing (is : List (Input τ × ρ)) :
    Handing config ((threadPool config).run (Start config) (is.map Prod.fst)).1
      ((threadPool config).run (Start config) (is.map Prod.fst)).2
      (handOver.run {} (((threadPool config).comap Prod.fst).feeds closureOps (Start config) is)).1
      (closureEvents config is) := by
  rw [← run_comap]
  refine feeds_invariant ((threadPool config).comap Prod.fst) handOver closureOps (Handing config)
    (fun s os t es i h => step_handing config h i) (Start config) [] {} [] is ?_
  exact ⟨run_balanced config [],⟨rfl,rfl⟩,rfl,List.nodup_nil,fun f hf => (List.not_mem_nil hf).elim,
    fun w hw => (List.not_mem_nil hw).elim⟩

/-- The pool has been destroyed properly, and every call of
`runPendingCallbacks` has ended, by return or by an exception. No task has
pushed two closures, and those that did have finished. The closures called
are those pushed, each of them once and with the result it was pushed with,
exactly if no callback threw while others were behind it. -/
theorem callbacks_called_iff (is : List (Input τ × ρ))
    (hproper : Along (threadPool config) Proper (Start config) (is.map Prod.fst))
    (hend : ((threadPool config).run (Start config) (is.map Prod.fst)).1.destructor = .destroyed)
    (hruns : ∀ pending ∈ ((threadPool config).run (Start config) (is.map Prod.fst)).1.callbackRuns,
      pending = []) :
    ((putOf (closureEvents config is)).map Prod.fst).Nodup ∧
    (∀ f ∈ (putOf (closureEvents config is)).map Prod.fst,
      f ∈ finishedOf ((threadPool config).run (Start config) (is.map Prod.fst)).2) ∧
    calledOf ((threadPool config).run (Start config) (is.map Prod.fst)).2 =
      (doneOf (closureEvents config is)).map Prod.fst ∧
    ((doneOf (closureEvents config is)).Perm (putOf (closureEvents config is)) ↔
      Along (threadPool config) (fun s i => losesCallbacks s i = false) (Start config)
        (is.map Prod.fst)) := by
  have hover := run_over config hproper
  obtain ⟨-,hdead⟩ := hover.exited (.inr hend)
  have h := run_handing config is
  refine ⟨h.returned.nodup,?_,h.called.symm,?_⟩
  · intro f hf
    have hmem := h.returned.started f hf
    rw [exited_executing hdead] at hmem
    exact hmem
  · have hwaiting := h.agree.queue
    rw [hover.empty hend] at hwaiting
    have hbatches : ∀ batch ∈ (handOver.run {} (((threadPool config).comap Prod.fst).feeds
        closureOps (Start config) is)).1.batches, batch = [] := by
      intro batch hmem
      have hempty := hruns (batch.map Prod.fst) (h.agree.runs ▸ List.mem_map_of_mem hmem)
      exact List.map_eq_nil_iff.mp hempty
    rw [closureEvents,all_done_iff _ (List.map_eq_nil_iff.mp hwaiting) hbatches,← along_comap]
    exact (along_feeds ((threadPool config).comap Prod.fst) handOver closureOps _ _ Agree
      (fun s t i ha => losesCallbacks_iff ha i)
      (fun s t i ha => (handled_agree (step_handled config s i) ha).1) (Start config) {} is
      ⟨rfl,rfl⟩).symm

end

def returns (r : ℕ) : List (Input ℕ × ℕ) :=
  [.enqueueTask 1 true,.submitter none,.worker 0 0,.worker 0 0,.worker 0 0,.worker 0 0,
   .queueCallback 0,.finish 0].map (·,r)

def destroys : List (Input ℕ × ℕ) :=
  [.destructor,.worker 0 0,.worker 0 0,.worker 0 0,.destructor,.destructor,.destructor].map (·,0)

def lastThrows : List (Input ℕ × ℕ) :=
  startsWorker.map (·,0)++(returns 7++[(.runPendingCallbacks,0),(.runCallback 0 true,0)])++
    (returns 8++destroys++[(.runCallback 1 false,0)])

theorem both_callbacks_called :
    putOf (closureEvents fixedConfig lastThrows) = [(⟨0,true⟩,7),(⟨1,true⟩,8)] ∧
    (doneOf (closureEvents fixedConfig lastThrows)).Perm
      (putOf (closureEvents fixedConfig lastThrows)) :=
  ⟨by decide +kernel,(callbacks_called_iff fixedConfig lastThrows (by decide +kernel)
    (by decide +kernel) (by decide +kernel)).2.2.2.mpr (by decide +kernel)⟩

def firstThrows : List (Input ℕ × ℕ) :=
  startsWorker.map (·,0)++(returns 7++returns 8++
    [(.runPendingCallbacks,0),(.runCallback 0 true,0)]++destroys)

/-- The second callback is never called. -/
theorem second_callback_lost :
    Along (threadPool fixedConfig) Proper (Start fixedConfig) (firstThrows.map Prod.fst) ∧
    ((threadPool fixedConfig).run (Start fixedConfig) (firstThrows.map Prod.fst)).1.destructor =
      .destroyed ∧
    ((threadPool fixedConfig).run (Start fixedConfig) (firstThrows.map Prod.fst)).1.callbackRuns =
      [[],[]] ∧
    putOf (closureEvents fixedConfig firstThrows) = [(⟨0,true⟩,7),(⟨1,true⟩,8)] ∧
    doneOf (closureEvents fixedConfig firstThrows) = [(⟨0,true⟩,7)] := by
  decide +kernel

end MiniRpc.CallbackRuns
