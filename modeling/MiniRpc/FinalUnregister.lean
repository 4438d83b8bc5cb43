import MiniRpc.ReRegistration

/-!
# A node that has unregistered

A request that timed out is sent again while its first copy may still wait
in the registry's pool. `Unregister` removes the entry and leaves no trace,
so a copy of `Register` that is handled after it enters the node once more.
A late `Heartbeat` does not: it is refused. Nothing else can bring the
node back.
-/

set_option autoImplicit false

namespace MiniRpc.FinalUnregister
open MiniRpc.CallController MiniRpc.StepMachine MiniRpc.ProtoWire MiniRpc.LeaseHistory
open MiniRpc.NodeRegistry MiniRpc.RegistryLease MiniRpc.ServiceNode MiniRpc.ReRegistration

def acknowledges : Output → Bool
  | .answered _ .unregister _ => true
  | _ => false

def enters : Output → Bool
  | .answered _ .register _ => true
  | _ => false

def noLateRegister : Monitor Bool Output where
  next acknowledged o := acknowledged || acknowledges o
  ok acknowledged o := !(acknowledged && enters o)

/-- No `Discover` from now on lists the address of the node. -/
def Unlisted (cfg : NodeConfig) (s : Deployment) : Prop :=
  ∀ (t : ℤ) (order : IterOrder), s.clock ≤ t →
    ∀ n ∈ (discover s.registry t cfg.serviceName order).2.nodes, n.address ≠ cfg.info.address

/-- Once an `Unregister` has been handled and answered, the node is not
listed. -/
def Final (cfg : NodeConfig) (s : Deployment) (os : List Output) : Prop :=
  os.any acknowledges = true → Unlisted cfg s

inductive RegistryMove (cfg : NodeConfig) (s : Deployment) : Deployment × List Output → Prop where
  | stays (r : Deployment × List Output) (hregistry : r.1.registry = s.registry)
      (hclock : r.1.clock = s.clock) (hsilent : ∀ now q response, .answered now q response ∉ r.2) :
      RegistryMove cfg s r
  | answers (now : ℤ) (q : NodeCall) (flight : List NodeCall) (htime : s.clock ≤ now) :
      RegistryMove cfg s
        ({ s with
            registry := (registry.step s.registry (now,.request (cfg.request q))).1
            flight := flight
            clock := now },
          [.answered now q (handle s.registry now (cfg.request q)).2])
  | elsewhere (now : ℤ) (e : Event) (htime : s.clock ≤ now)
      (hop : ∀ op, slotOp cfg.serviceName cfg.info e = some op → op = .sweep) :
      RegistryMove cfg s ({ s with registry := (registry.step s.registry (now,e)).1, clock := now },[])
  | restarts :
      RegistryMove cfg s
        ({ s with registry := { s.registry with services := ∅ }, flight := [] },[.restarted])

theorem report_silent (q : NodeCall) (os : List (CallChannel.Output StatusResponse)) (now : ℤ)
    (q' : NodeCall) (response : Response) :
    .answered now q' response ∉ os.filterMap (report q) := by
  intro h
  obtain ⟨o,-,ho⟩ := List.mem_filterMap.mp h
  cases o <;> simp [report] at ho

theorem begin_silent (q : NodeCall) (os : List (CallChannel.Output StatusResponse)) (now : ℤ)
    (q' : NodeCall) (response : Response) :
    .answered now q' response ∉ .called q::os.filterMap (report q) := by
  intro h
  rcases List.mem_cons.mp h with h | h
  · cases h
  · exact report_silent q os now q' response h

theorem registry_move (env : Envelopes) (messages : RegistryMessages) (cfg : NodeConfig)
    {s : Deployment} {i : Input} {r : Deployment × List Output}
    (hr : Move env messages cfg s i r) : RegistryMove cfg s r := by
  cases hr with
  | starts hmain => exact .stays _ rfl rfl (begin_silent _ _)
  | registers j hmain => exact .stays _ rfl rfl (report_silent _ _)
  | unregisters j hmain => exact .stays _ rfl rfl (report_silent _ _)
  | joins thenUnregister hmain =>
    cases thenUnregister with
    | true => exact .stays _ rfl rfl (begin_silent _ _)
    | false => exact .stays _ rfl rfl (by simp [joined])
  | checks hbeat =>
    rw [beatCheck]
    by_cases hs : s.node.stop
    · rw [if_pos hs]
      exact .stays _ rfl rfl (by simp)
    · rw [if_neg hs]
      exact .stays _ rfl rfl (begin_silent _ _)
  | beats j hbeat => exact .stays _ rfl rfl (report_silent _ _)
  | answers k now q htime hcopy => exact .answers now q _ htime
  | elsewhere _ now e htime hop => exact .elsewhere now e htime hop
  | restarts => exact .restarts
  | idle => exact .stays _ rfl rfl (by simp)
  | halts _ thenUnregister => exact .stays _ rfl rfl (by simp)
  | wakes hbeat => exact .stays _ rfl rfl (by simp)
  | loses k => exact .stays _ rfl rfl (by simp)

theorem silent_accepted (f : Bool) (os : List Output)
    (h : ∀ now q response, .answered now q response ∉ os) :
    noLateRegister.accepts f os = true ∧ noLateRegister.after f os = f := by
  induction os generalizing f with
  | nil => exact ⟨rfl,rfl⟩
  | cons o os ih =>
    have ho : acknowledges o = false ∧ enters o = false := by
      cases o with
      | answered now q response => exact absurd List.mem_cons_self (h now q response)
      | called q => exact ⟨rfl,rfl⟩
      | sent q msg => exact ⟨rfl,rfl⟩
      | returned q controller response => exact ⟨rfl,rfl⟩
      | restarted => exact ⟨rfl,rfl⟩
    obtain ⟨ha,hf⟩ := ih f (fun now q response hm => h now q response (List.mem_cons_of_mem o hm))
    have hnext : noLateRegister.next f o = f := by simp [noLateRegister,ho.1]
    constructor
    · rw [Monitor.accepts,hnext,ha]
      simp [noLateRegister,ho.2]
    · rw [Monitor.after,List.foldl_cons,hnext]
      exact hf

theorem after_acknowledged (f : Bool) (os : List Output) :
    noLateRegister.after f os = (f || os.any acknowledges) := by
  induction os generalizing f with
  | nil => simp [Monitor.after]
  | cons o os ih =>
    rw [Monitor.after,List.foldl_cons]
    exact (ih _).trans (by simp [noLateRegister,Bool.or_assoc])

theorem unlisted_iff (cfg : NodeConfig) (s : Deployment) (hw : WellKeyed s.registry) :
    Unlisted cfg s ↔ ∀ t, s.clock ≤ t →
      sweep s.registry.limit t (slot s.registry cfg.serviceName cfg.info) = none := by
  have hslot : ∀ t order,
      (∀ n ∈ (discover s.registry t cfg.serviceName order).2.nodes,
        n.address ≠ cfg.info.address) ↔
      sweep s.registry.limit t (slot s.registry cfg.serviceName cfg.info) = none := by
    intro t order
    have h := discover_slot s.registry hw cfg.serviceName t order cfg.info
    cases hsweep : sweep s.registry.limit t (slot s.registry cfg.serviceName cfg.info) with
    | none =>
      rw [hsweep,Option.map_none,Option.toList_none,List.filter_eq_nil_iff] at h
      simpa using h
    | some l =>
      rw [hsweep,Option.map_some,Option.toList_some] at h
      have hmem : l.value ∈ (discover s.registry t cfg.serviceName order).2.nodes.filter
          (fun m => m.address = cfg.info.address) := by
        rw [h]
        exact List.mem_singleton_self _
      rw [List.mem_filter,decide_eq_true_eq] at hmem
      simp only [reduceCtorEq,iff_false]
      intro hno
      exact hno _ hmem.1 hmem.2
  constructor
  · intro h t ht
    exact (hslot t anyOrder).mp (h t anyOrder ht)
  · intro h t order ht
    exact (hslot t order).mpr (h t ht)

def leaseOp (cfg : NodeConfig) : NodeCall → Op NodeInfo
  | .register => .grant cfg.info
  | .heartbeat => .renew
  | .unregister => .release

theorem slot_answers (cfg : NodeConfig) (r : RegistryServiceImpl) (now : ℤ) (q : NodeCall) :
    slot (registry.step r (now,.request (cfg.request q))).1 cfg.serviceName cfg.info =
      step r.limit (slot r cfg.serviceName cfg.info) now (leaseOp cfg q) := by
  have hop : slotOp cfg.serviceName cfg.info (.request (cfg.request q)) = some (leaseOp cfg q) := by
    cases q <;> simp [NodeConfig.request,slotOp,leaseOp]
  rw [slot_step,hop,slotStep]

theorem slot_elsewhere (cfg : NodeConfig) (r : RegistryServiceImpl) (now : ℤ) (e : Event)
    (hop : ∀ op, slotOp cfg.serviceName cfg.info e = some op → op = .sweep)
    {l : Lease NodeInfo}
    (hl : slot (registry.step r (now,e)).1 cfg.serviceName cfg.info = some l) :
    slot r cfg.serviceName cfg.info = some l := by
  rw [slot_step] at hl
  cases ho : slotOp cfg.serviceName cfg.info e with
  | none => rwa [ho] at hl
  | some op =>
    obtain rfl := hop op ho
    rw [ho] at hl
    exact (Option.filter_eq_some_iff.mp hl).1

structure Sound (timeout : ℤ) (r : RegistryServiceImpl) : Prop where
  wellKeyed : WellKeyed r
  limit : r.limit = timeout*1000000

theorem sound_step {timeout : ℤ} {r : RegistryServiceImpl} (h : Sound timeout r)
    (i : ℤ × Event) : Sound timeout (registry.step r i).1 :=
  ⟨step_wellKeyed r i h.wellKeyed,(step_limit r i).trans h.limit⟩

theorem sound_move {timeout : ℤ} {cfg : NodeConfig} {s : Deployment}
    {r : Deployment × List Output} (hr : RegistryMove cfg s r) (h : Sound timeout s.registry) :
    Sound timeout r.1.registry := by
  cases hr with
  | stays _ hregistry hclock hsilent => rwa [hregistry]
  | answers now q flight htime => exact sound_step h _
  | elsewhere now e htime hop => exact sound_step h _
  | restarts => exact ⟨start_wellKeyed _,h.limit⟩

def Past (cfg : NodeConfig) (s : Deployment) : Prop :=
  ∀ l, slot s.registry cfg.serviceName cfg.info = some l → l.last ≤ s.clock

theorem past_move {cfg : NodeConfig} {s : Deployment} {r : Deployment × List Output}
    (hr : RegistryMove cfg s r) (h : Past cfg s) : Past cfg r.1 := by
  intro l hl
  cases hr with
  | stays _ hregistry hclock hsilent =>
    rw [hregistry] at hl
    rw [hclock]
    exact h l hl
  | answers now q flight htime =>
    dsimp only at hl ⊢
    rw [slot_answers] at hl
    cases q with
    | register =>
      obtain rfl := Option.some.inj hl
      exact le_refl _
    | heartbeat =>
      obtain ⟨l',-,rfl⟩ := Option.map_eq_some_iff.mp hl
      exact le_refl _
    | unregister => cases hl
  | elsewhere now e htime hop => exact (h l (slot_elsewhere cfg s.registry now e hop hl)).trans htime
  | restarts => cases hl

def Released (cfg : NodeConfig) (s : Deployment) (acknowledged : Bool) : Prop :=
  acknowledged = true → slot s.registry cfg.serviceName cfg.info = none

theorem released_move {cfg : NodeConfig} {s : Deployment} {r : Deployment × List Output} {f : Bool}
    (hr : RegistryMove cfg s r) (h : Released cfg s f)
    (ha : noLateRegister.accepts f r.2 = true) :
    Released cfg r.1 (noLateRegister.after f r.2) := by
  intro hf
  cases hr with
  | stays _ hregistry hclock hsilent =>
    rw [(silent_accepted f r.2 hsilent).2] at hf
    rw [hregistry]
    exact h hf
  | answers now q flight htime =>
    rw [slot_answers]
    cases q with
    | register =>
      cases f with
      | true => cases ha
      | false => cases hf
    | heartbeat =>
      cases f with
      | true => rw [h rfl]; rfl
      | false => cases hf
    | unregister => rfl
  | elsewhere now e htime hop =>
    have hs := h hf
    cases hl : slot (registry.step s.registry (now,e)).1 cfg.serviceName cfg.info with
    | none => rfl
    | some l =>
      rw [slot_elsewhere cfg s.registry now e hop hl] at hs
      cases hs
  | restarts => rfl

/-- A copy of `Register` that is handled too late lists the node again. -/
theorem late_register_lists {timeout : ℤ} {cfg : NodeConfig} {s : Deployment}
    {r : Deployment × List Output} {f : Bool} (htimeout : 0 ≤ timeout)
    (hr : RegistryMove cfg s r) (hs : Sound timeout s.registry)
    (ha : noLateRegister.accepts f r.2 = false) :
    noLateRegister.after f r.2 = true ∧ ¬ Unlisted cfg r.1 := by
  have hs' := sound_move hr hs
  cases hr with
  | stays _ hregistry hclock hsilent =>
    rw [(silent_accepted f r.2 hsilent).1] at ha
    cases ha
  | elsewhere now e htime hop => cases ha
  | restarts => cases f <;> cases ha
  | answers now q flight htime =>
    cases q with
    | heartbeat => cases f <;> cases ha
    | unregister => cases f <;> cases ha
    | register =>
      cases f with
      | false => cases ha
      | true =>
        refine ⟨rfl,?_⟩
        rw [unlisted_iff cfg _ hs'.wellKeyed]
        intro hno
        have hnow := hno now (le_refl _)
        rw [slot_answers,hs'.limit] at hnow
        have hfresh := fresh_now (timeout*1000000) (by omega) cfg.info now
        rw [leaseOp,step,sweep_fresh _ hfresh] at hnow
        cases hnow

section Runs
variable (env : Envelopes) (messages : RegistryMessages) (cfg : NodeConfig)

/-- `Unregister` is final exactly in the runs in which no copy of `Register`
is handled after it, unless the timeout is negative and no node is ever
listed. -/
theorem unregister_final_iff (timeout : ℤ) (is : List Input) :
    Always (deployment env messages cfg) (Final cfg) (Deployment.new timeout) [] is ↔
      timeout < 0 ∨
      noLateRegister.accepts false
        ((deployment env messages cfg).run (Deployment.new timeout) is).2 = true := by
  have hsound : Sound timeout (Deployment.new timeout).registry := ⟨start_wellKeyed timeout,rfl⟩
  by_cases htimeout : timeout < 0
  · have hfinal : ∀ s os, Sound timeout s.registry → Past cfg s → Final cfg s os := by
      intro s os hs hp _
      rw [unlisted_iff cfg s hs.wellKeyed]
      intro t ht
      rw [sweep,Option.filter_eq_none_iff]
      intro l hl hfresh
      have hlast := hp l hl
      have hle : t-l.last ≤ s.registry.limit := of_decide_eq_true hfresh
      rw [hs.limit] at hle
      omega
    have halways := always_iff_along (deployment env messages cfg) (fun _ _ => True)
      (fun s _ => Sound timeout s.registry ∧ Past cfg s) (Final cfg)
      (fun s os i h =>
        ⟨sound_move (registry_move env messages cfg (step_move env messages cfg s i)) h.1,
          past_move (registry_move env messages cfg (step_move env messages cfg s i)) h.2⟩)
      (fun s os i h _ => iff_true_intro (hfinal _ _
        (sound_move (registry_move env messages cfg (step_move env messages cfg s i)) h.1)
        (past_move (registry_move env messages cfg (step_move env messages cfg s i)) h.2)))
      (Deployment.new timeout) [] is ⟨hsound,fun l hl => by cases hl⟩
      (hfinal _ _ hsound fun l hl => by cases hl)
    exact ⟨fun _ => Or.inl htimeout,fun _ => halways.mpr (along_true _ _ _)⟩
  · have hfinal : Final cfg = fun s os =>
        noLateRegister.after false os = true → Unlisted cfg s := by
      funext s os
      rw [Final,after_acknowledged,Bool.false_or]
    rw [hfinal,always_iff_accepts (deployment env messages cfg) noLateRegister
      (fun s f => Sound timeout s.registry ∧ Released cfg s f)
      (fun s f => f = true → Unlisted cfg s) false
      (fun s f h hf => by
        rw [unlisted_iff cfg s h.1.wellKeyed]
        intro t _
        rw [h.2 hf]
        rfl)
      (fun s f i h ha =>
        have hr := registry_move env messages cfg (step_move env messages cfg s i)
        ⟨sound_move hr h.1,released_move hr h.2 ha⟩)
      (fun s f i h ha hq => by
        have hr := registry_move env messages cfg (step_move env messages cfg s i)
        obtain ⟨hf,hno⟩ := late_register_lists (not_lt.mp htimeout) hr h.1 ha
        exact hno (hq hf))
      (Deployment.new timeout) [] is ⟨hsound,fun _ => rfl⟩]
    exact ⟨fun h => Or.inr h,fun h => h.resolve_left htimeout⟩

end Runs

/-- The first copy of `Register` is delayed, the second is answered, the
node is shut down, and then the first copy is handled. -/
def delayedRegister : List Input :=
  [.start,.mainCall (.connectReturned none),.mainCall sendsAll,.mainCall (.polled 0 .timeout),
    .mainCall sendsAll,.process 1 1000,.mainCall (answer 2 {}),
    .shutdown,.beatCheck,.join,.mainCall (.connectReturned none),.mainCall sendsAll,
    .process 1 2000,.mainCall (answer 1 {}),.process 0 3000]

def unregistered : Output → Bool
  | .returned .unregister controller (some response) =>
    !controller.failed && response.errorCode == okCode
  | _ => false

theorem delayed_register_lists :
    ((deployment protoEnvelopes protoMessages echoConfig).run (Deployment.new 6000)
      delayedRegister).2.any unregistered = true ∧
    ¬ Always (deployment protoEnvelopes protoMessages echoConfig) (Final echoConfig)
      (Deployment.new 6000) [] delayedRegister := by
  refine ⟨by decide +kernel,?_⟩
  intro h
  have hlast := always_last _ _ h (by decide +kernel) 3000 anyOrder (by decide +kernel)
    echoConfig.info (by decide +kernel)
  exact hlast rfl

end MiniRpc.FinalUnregister
