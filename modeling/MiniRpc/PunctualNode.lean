import MiniRpc.ReRegistration

/-!
# A punctual node stays listed

The node and the registry of `ServiceNode`, with the time of each step. A node
is punctual if the registry accepts a copy of each `Register` and `Heartbeat`
call before the call returns, no call takes longer than `call`, and no more
than `rest` passes between the return of one call and the next: the heartbeat
interval and what the scheduler adds to it. The calls run through the client
channel, which may send a request twice; copies may be handled late, and other
requests and evictions happen at any time. As long as the node is neither
stopped nor the registry restarted, `Discover` lists the node once and for all
if two calls and a rest fit into the timeout of the registry.

Times are in nanoseconds.
-/

set_option autoImplicit false

namespace MiniRpc.PunctualNode
open MiniRpc.CallController MiniRpc.StepMachine MiniRpc.NodeRegistry MiniRpc.LeaseHistory
open MiniRpc.RegistryLease MiniRpc.ServiceNode MiniRpc.ProtoWire
open MiniRpc.ReRegistration (answer sendsAll)

structure Pace where
  call : ℤ
  rest : ℤ
  call_nonneg : 0 ≤ call
  rest_nonneg : 0 ≤ rest

/-- Since when the node waits for an answer, and whether the registry has
accepted the request; or since when it rests. -/
inductive Phase where
  | fresh
  | calling (since : ℤ) (heard : Bool)
  | resting (since : ℤ)
  deriving DecidableEq, Repr

structure TimedNode where
  deployment : Deployment
  phase : Phase := .fresh
  now : ℤ := 0

def isReturn : Output → Bool
  | .returned _ _ _ => true
  | _ => false

def isCall : Output → Bool
  | .called _ => true
  | _ => false

def isAccepted : Output → Bool
  | .answered _ .register _ => true
  | .answered _ .heartbeat response => response.errorCode = okCode
  | _ => false

def Phase.hear : Phase → Phase
  | .calling since _ => .calling since true
  | phase => phase

def Phase.heard : Phase → Bool
  | .calling _ heard => heard
  | _ => false

def Phase.after (phase : Phase) (now : ℤ) (os : List Output) : Phase :=
  if os.any isReturn then .resting now
  else if os.any isCall then .calling now false
  else if os.any isAccepted then phase.hear
  else phase

/-- When the next step of the node is due. -/
def Phase.due (pace : Pace) : Phase → Option ℤ
  | .fresh => none
  | .calling since _ => some (since+pace.call)
  | .resting since => some (since+pace.rest)

def readsAt (now : ℤ) : Input → Bool
  | .process _ t => t = now
  | .other t _ => t = now
  | .evict t => t = now
  | _ => true

/-- Nobody stops the node or restarts the registry. -/
def undisturbed : Input → Bool
  | .stopHeartbeat => false
  | .shutdown => false
  | .restart => false
  | _ => true

def start (timeout : ℤ) : TimedNode := { deployment := .new timeout }

section
variable (env : Envelopes) (messages : RegistryMessages) (cfg : NodeConfig)

def timedNode : Machine TimedNode (ℤ × Input) Output where
  step s i :=
    let r := (deployment env messages cfg).step s.deployment i.2
    ({ deployment := r.1, phase := s.phase.after i.1 r.2, now := i.1 },r.2)

structure Punctual (pace : Pace) (s : TimedNode) (i : ℤ × Input) : Prop where
  time : s.now ≤ i.1
  reads : readsAt i.1 i.2 = true
  due : ∀ t ∈ s.phase.due pace, i.1 ≤ t
  heard : (((timedNode env messages cfg).step s i).2.any isReturn) = true → s.phase.heard = true
  undisturbed : undisturbed i.2 = true

instance (pace : Pace) (s : TimedNode) (i : ℤ × Input) :
    Decidable (Punctual env messages cfg pace s i) :=
  decidable_of_iff (s.now ≤ i.1 ∧ readsAt i.1 i.2 = true ∧ (∀ t ∈ s.phase.due pace, i.1 ≤ t) ∧
      ((((timedNode env messages cfg).step s i).2.any isReturn) = true → s.phase.heard = true) ∧
      PunctualNode.undisturbed i.2 = true)
    ⟨fun h => ⟨h.1,h.2.1,h.2.2.1,h.2.2.2.1,h.2.2.2.2⟩,
      fun h => ⟨h.time,h.reads,h.due,h.heard,h.undisturbed⟩⟩

end

inductive Stage : MainPc → BeatPc → Phase → Prop
  | fresh : Stage .fresh .absent .fresh
  | registering (since : ℤ) (heard : Bool) : Stage .registering .absent (.calling since heard)
  | checking (since : ℤ) : Stage .running .checking (.resting since)
  | beating (since : ℤ) (heard : Bool) : Stage .running .calling (.calling since heard)
  | sleeping (since : ℤ) : Stage .running .sleeping (.resting since)

def Leased (cfg : NodeConfig) (r : RegistryServiceImpl) (since : ℤ) : Prop :=
  ∃ last, since ≤ last ∧ slot r cfg.serviceName cfg.info = some ⟨cfg.info,last⟩

/-- The lease is as new as the phase says. Before the registry has handled a
`Register` there is none. -/
def Renewed (cfg : NodeConfig) (pace : Pace) (r : RegistryServiceImpl) (joined : Bool) : Phase → Prop
  | .fresh => joined = false
  | .calling since false => joined = false ∨ Leased cfg r (since-(pace.call+pace.rest))
  | .calling since true => Leased cfg r since
  | .resting since => Leased cfg r (since-pace.call)

def isJoined : Output → Bool
  | .answered _ .register _ => true
  | _ => false

def joined (os : List Output) : Bool := os.any isJoined

def Phase.since : Phase → Option ℤ
  | .fresh => none
  | .calling since _ => some since
  | .resting since => some since

structure Kept (cfg : NodeConfig) (pace : Pace) (timeout : ℤ) (s : TimedNode) (os : List Output) :
    Prop where
  keyed : WellKeyed s.deployment.registry
  limit : s.deployment.registry.limit = timeout*1000000
  stage : Stage s.deployment.node.main s.deployment.node.beat s.phase
  running : s.deployment.node.stop = false
  flight : ∀ q ∈ s.deployment.flight, q ≠ .unregister
  unsent : s.phase = .fresh → s.deployment.flight = []
  since : ∀ t ∈ s.phase.since, t ≤ s.now
  renewed : Renewed cfg pace s.deployment.registry (joined os) s.phase
  unlisted : joined os = false → slot s.deployment.registry cfg.serviceName cfg.info = none

section Leases
variable {cfg : NodeConfig} {pace : Pace} {r : RegistryServiceImpl}

theorem leased_mono {a b : ℤ} (hle : b ≤ a) (h : Leased cfg r a) : Leased cfg r b := by
  obtain ⟨last,hlast,hslot⟩ := h
  exact ⟨last,Int.le_trans hle hlast,hslot⟩

theorem leased_elsewhere {since now : ℤ} (h : Leased cfg r since) {e : Event}
    (hop : ∀ op, slotOp cfg.serviceName cfg.info e = some op → op = .sweep)
    (hfresh : now-since ≤ r.limit) : Leased cfg (registry.step r (now,e)).1 since := by
  obtain ⟨last,hlast,hslot⟩ := h
  refine ⟨last,hlast,?_⟩
  rw [slot_step,hslot]
  cases ho : slotOp cfg.serviceName cfg.info e with
  | none => rfl
  | some op =>
    rw [hop op ho]
    apply sweep_fresh
    rw [Fresh]
    dsimp only
    omega

theorem unlisted_elsewhere {now : ℤ} (h : slot r cfg.serviceName cfg.info = none) {e : Event}
    (hop : ∀ op, slotOp cfg.serviceName cfg.info e = some op → op = .sweep) :
    slot (registry.step r (now,e)).1 cfg.serviceName cfg.info = none := by
  rw [slot_step,h]
  cases ho : slotOp cfg.serviceName cfg.info e with
  | none => rfl
  | some op =>
    rw [hop op ho]
    rfl

theorem slot_registered (now : ℤ) :
    slot (handle r now (cfg.request .register)).1 cfg.serviceName cfg.info =
      some ⟨cfg.info,now⟩ := by
  rw [slot_handle,NodeConfig.request,slotOp,if_pos ⟨rfl,rfl⟩]
  rfl

theorem slot_beaten (now : ℤ) :
    slot (handle r now (cfg.request .heartbeat)).1 cfg.serviceName cfg.info =
      (slot r cfg.serviceName cfg.info).map fun l => { l with last := now } := by
  rw [slot_handle,NodeConfig.request,slotOp,if_pos ⟨rfl,rfl⟩]
  rfl

theorem heartbeat_refused (now : ℤ) (h : slot r cfg.serviceName cfg.info = none) :
    (handle r now (cfg.request .heartbeat)).2.errorCode ≠ okCode := by
  have hentry : entryAt r cfg.serviceName (nodeKey cfg.info) = none := by
    rw [slot,Option.map_eq_none_iff] at h
    exact h
  rw [entryAt] at hentry
  simp only [NodeConfig.request,handle,heartbeat]
  cases hnodes : r.services.lookup cfg.serviceName with
  | none => exact (by decide : errCode ≠ okCode)
  | some nodes =>
    rw [hnodes,Option.bind_some] at hentry
    simp only [hentry]
    exact (by decide : errCode ≠ okCode)

/-- The lease lasts until the next step of the node is due. -/
theorem renewed_elsewhere (hpace : 2*pace.call+pace.rest ≤ r.limit) {phase : Phase} {now : ℤ}
    (hdue : ∀ t ∈ phase.due pace, now ≤ t) {e : Event}
    (hop : ∀ op, slotOp cfg.serviceName cfg.info e = some op → op = .sweep) {j : Bool}
    (h : Renewed cfg pace r j phase) : Renewed cfg pace (registry.step r (now,e)).1 j phase := by
  have hcall := pace.call_nonneg
  have hrest := pace.rest_nonneg
  cases phase with
  | fresh => exact h
  | calling since heard =>
    have hend := hdue _ rfl
    cases heard with
    | false => exact h.imp_right fun hl => leased_elsewhere hl hop (by omega)
    | true => exact leased_elsewhere h hop (by omega)
  | resting since =>
    have hend := hdue _ rfl
    exact leased_elsewhere h hop (by omega)

theorem renewed_fresh (hpace : 2*pace.call+pace.rest ≤ r.limit) {phase : Phase} {now : ℤ}
    (hdue : ∀ t ∈ phase.due pace, now ≤ t) (h : Renewed cfg pace r true phase) :
    sweep r.limit now (slot r cfg.serviceName cfg.info) =
      slot r cfg.serviceName cfg.info ∧
    (slot r cfg.serviceName cfg.info).map Lease.value = some cfg.info := by
  have hcall := pace.call_nonneg
  have hrest := pace.rest_nonneg
  have hleased : ∃ since, now-since ≤ r.limit ∧ Leased cfg r since := by
    cases phase with
    | fresh => cases h
    | calling since heard =>
      have hend := hdue _ rfl
      cases heard with
      | false => exact ⟨_,by omega,h.resolve_left (by simp)⟩
      | true => exact ⟨_,by omega,h⟩
    | resting since =>
      have hend := hdue _ rfl
      exact ⟨_,by omega,h⟩
  obtain ⟨since,hage,last,hlast,hslot⟩ := hleased
  rw [hslot]
  refine ⟨sweep_fresh _ ?_,rfl⟩
  rw [Fresh]
  dsimp only
  omega

theorem renewed_now {phase : Phase} {now : ℤ} (hsince : ∀ t ∈ phase.since, t ≤ now)
    (hstarted : phase ≠ .fresh) (h : Leased cfg r now) (j : Bool) : Renewed cfg pace r j phase := by
  have hcall := pace.call_nonneg
  have hrest := pace.rest_nonneg
  cases phase with
  | fresh => exact absurd rfl hstarted
  | calling since heard =>
    have hle := hsince _ rfl
    cases heard with
    | false => exact .inr (leased_mono (by omega) h)
    | true => exact leased_mono hle h
  | resting since =>
    have hle := hsince _ rfl
    exact leased_mono (by omega) h

theorem renewed_unlisted {phase : Phase} (hslot : slot r cfg.serviceName cfg.info = none) {j : Bool}
    (h : Renewed cfg pace r j phase) (r' : RegistryServiceImpl) : Renewed cfg pace r' j phase := by
  have hno : ∀ since, ¬Leased cfg r since := by
    rintro since ⟨last,-,hsome⟩
    exact absurd (hsome.symm.trans hslot) (Option.some_ne_none _)
  cases phase with
  | fresh => exact h
  | calling since heard =>
    cases heard with
    | false => exact .inl (h.resolve_right (hno _))
    | true => exact absurd h (hno _)
  | resting since => exact absurd h (hno _)

theorem renewed_value {phase : Phase} {l : Lease NodeInfo}
    (hslot : slot r cfg.serviceName cfg.info = some l) (h : Renewed cfg pace r true phase) :
    l.value = cfg.info := by
  have hleased : ∃ since, Leased cfg r since := by
    cases phase with
    | fresh => cases h
    | calling since heard =>
      cases heard with
      | false => exact ⟨_,h.resolve_left (by simp)⟩
      | true => exact ⟨_,h⟩
    | resting since => exact ⟨_,h⟩
  obtain ⟨-,last,-,hsome⟩ := hleased
  rw [hslot] at hsome
  rw [Option.some.inj hsome]

end Leases

section Reports
variable (q : NodeCall) (xs : List (CallChannel.Output StatusResponse))

theorem report_returns : (xs.filterMap (report q)).any isReturn = xs.any returns := by
  rw [List.any_filterMap]
  congr 1
  funext x
  cases x <;> rfl

theorem report_kind {o : Output} (ho : o ∈ xs.filterMap (report q)) :
    isCall o = false ∧ isAccepted o = false ∧ isJoined o = false := by
  obtain ⟨x,-,hx⟩ := List.mem_filterMap.mp ho
  cases x <;> cases hx <;> exact ⟨rfl,rfl,rfl⟩

theorem report_calls : (xs.filterMap (report q)).any isCall = false :=
  List.any_eq_false.mpr fun _ ho => Bool.eq_false_iff.mp (report_kind q xs ho).1

theorem report_accepts : (xs.filterMap (report q)).any isAccepted = false :=
  List.any_eq_false.mpr fun _ ho => Bool.eq_false_iff.mp (report_kind q xs ho).2.1

theorem report_joins : (xs.filterMap (report q)).any isJoined = false :=
  List.any_eq_false.mpr fun _ ho => Bool.eq_false_iff.mp (report_kind q xs ho).2.2

theorem copies_flight {flight : List NodeCall} (h : ∀ p ∈ flight, p ≠ .unregister)
    (hq : q ≠ .unregister) : ∀ p ∈ flight++xs.filterMap (copy q), p ≠ .unregister := by
  intro p hp
  rcases List.mem_append.mp hp with hp | hp
  · exact h p hp
  · obtain ⟨x,-,hx⟩ := List.mem_filterMap.mp hp
    cases x <;> simp only [copy,Option.some.injEq,reduceCtorEq] at hx
    rw [← hx]
    exact hq

end Reports

section Steps
variable {env : Envelopes} {messages : RegistryMessages} {cfg : NodeConfig} {pace : Pace}
variable {timeout : ℤ} {s : TimedNode} {os : List Output}

theorem joined_append (os new : List Output) : joined (os++new) = (joined os || joined new) :=
  List.any_append

theorem kept_quiet (h : Kept cfg pace timeout s os) {d : Deployment} {now : ℤ} (htime : s.now ≤ now)
    (hregistry : d.registry = s.deployment.registry) (hstop : d.node.stop = false)
    (hflight : ∀ q ∈ d.flight, q ≠ .unregister) (hunsent : s.phase = .fresh → d.flight = [])
    (hstage : Stage d.node.main d.node.beat s.phase) :
    Kept cfg pace timeout { deployment := d, phase := s.phase.after now [], now := now } (os++[]) := by
  rw [List.append_nil]
  refine ⟨?_,?_,hstage,hstop,hflight,hunsent,fun t ht => Int.le_trans (h.since t ht) htime,?_,?_⟩
  · rw [hregistry]
    exact h.keyed
  · rw [hregistry]
    exact h.limit
  · rw [hregistry]
    exact h.renewed
  · rw [hregistry]
    exact h.unlisted

theorem kept_idle (h : Kept cfg pace timeout s os) {now : ℤ} (htime : s.now ≤ now) :
    Kept cfg pace timeout { deployment := s.deployment, phase := s.phase.after now [], now := now }
      (os++[]) :=
  kept_quiet h htime rfl h.running h.flight h.unsent h.stage

theorem kept_calls (h : Kept cfg pace timeout s os) {now : ℤ} (q : NodeCall) (hq : q ≠ .unregister)
    (xs : List (CallChannel.Output StatusResponse)) {node : RpcServiceNode}
    (hheard : ((.called q::xs.filterMap (report q)).any isReturn) = true → s.phase.heard = true)
    (hresting : s.phase.heard = false) (hstop : node.stop = false)
    (hstage : Stage node.main node.beat (.calling now false))
    (hrenewed : Renewed cfg pace s.deployment.registry (joined os) (.calling now false)) :
    Kept cfg pace timeout
      { deployment := { s.deployment with
          node := node
          flight := s.deployment.flight++xs.filterMap (copy q) }
        phase := s.phase.after now (.called q::xs.filterMap (report q))
        now := now } (os++.called q::xs.filterMap (report q)) := by
  have hphase : s.phase.after now (.called q::xs.filterMap (report q)) = .calling now false := by
    have hno : ((.called q::xs.filterMap (report q)).any isReturn) ≠ true :=
      fun hyes => Bool.noConfusion (hresting.symm.trans (hheard hyes))
    rw [Phase.after,if_neg hno,if_pos]
    rfl
  have hjoined : joined (os++.called q::xs.filterMap (report q)) = joined os := by
    rw [joined_append,joined,joined,List.any_cons,report_joins]
    exact Bool.or_false _
  rw [hphase]
  refine ⟨h.keyed,h.limit,hstage,hstop,copies_flight q xs h.flight hq,?_,?_,?_,?_⟩
  · exact fun hno => Phase.noConfusion hno
  · exact fun t ht => Int.le_of_eq (Option.some.inj ht).symm
  · rw [hjoined]
    exact hrenewed
  · rw [hjoined]
    exact h.unlisted

theorem kept_goes_on (h : Kept cfg pace timeout s os) {now : ℤ} (htime : s.now ≤ now)
    (hdue : ∀ t ∈ s.phase.due pace, now ≤ t) (q : NodeCall) (hq : q ≠ .unregister)
    (xs : List (CallChannel.Output StatusResponse)) {node : RpcServiceNode}
    (hheard : ((xs.filterMap (report q)).any isReturn) = true → s.phase.heard = true)
    (hstarted : s.phase ≠ .fresh) (hstop : node.stop = false)
    (hgoes : xs.any returns = false → Stage node.main node.beat s.phase)
    (hends : xs.any returns = true → Stage node.main node.beat (.resting now)) :
    Kept cfg pace timeout
      { deployment := { s.deployment with
          node := node
          flight := s.deployment.flight++xs.filterMap (copy q) }
        phase := s.phase.after now (xs.filterMap (report q))
        now := now } (os++xs.filterMap (report q)) := by
  have hjoined : joined (os++xs.filterMap (report q)) = joined os := by
    rw [joined_append,joined,joined,report_joins,Bool.or_false]
  have hflight := copies_flight q xs h.flight hq
  rw [report_returns] at hheard
  cases hreturns : xs.any returns with
  | false =>
    have hphase : s.phase.after now (xs.filterMap (report q)) = s.phase := by
      rw [Phase.after,report_returns,report_calls,report_accepts,hreturns]
      rfl
    rw [hphase]
    refine ⟨h.keyed,h.limit,hgoes hreturns,hstop,hflight,fun hno => absurd hno hstarted,
      fun t ht => Int.le_trans (h.since t ht) htime,?_,?_⟩
    · rw [hjoined]
      exact h.renewed
    · rw [hjoined]
      exact h.unlisted
  | true =>
    have hphase : s.phase.after now (xs.filterMap (report q)) = .resting now := by
      rw [Phase.after,report_returns,hreturns]
      rfl
    have hleased : Leased cfg s.deployment.registry (now-pace.call) := by
      have hyes := hheard hreturns
      have hrenewed := h.renewed
      cases hp : s.phase with
      | fresh => exact absurd hp hstarted
      | resting since => rw [hp] at hyes; exact Bool.noConfusion hyes
      | calling since heard =>
        rw [hp] at hyes hrenewed hdue
        cases hyes
        have hend := hdue _ rfl
        exact leased_mono (by omega) hrenewed
    rw [hphase]
    refine ⟨h.keyed,h.limit,hends hreturns,hstop,hflight,fun hno => Phase.noConfusion hno,?_,hleased,?_⟩
    · exact fun t ht => Int.le_of_eq (Option.some.inj ht).symm
    · rw [hjoined]
      exact h.unlisted

theorem kept_elsewhere (hpace : 2*pace.call+pace.rest ≤ timeout*1000000)
    (h : Kept cfg pace timeout s os) {now : ℤ} (htime : s.now ≤ now)
    (hdue : ∀ t ∈ s.phase.due pace, now ≤ t) {e : Event}
    (hop : ∀ op, slotOp cfg.serviceName cfg.info e = some op → op = .sweep) (clock : ℤ) :
    Kept cfg pace timeout
      { deployment := { s.deployment with
          registry := (registry.step s.deployment.registry (now,e)).1
          clock := clock }
        phase := s.phase.after now []
        now := now } (os++[]) := by
  rw [List.append_nil]
  exact ⟨step_wellKeyed _ _ h.keyed,(step_limit _ _).trans h.limit,h.stage,h.running,h.flight,h.unsent,
    fun t ht => Int.le_trans (h.since t ht) htime,
    renewed_elsewhere (h.limit ▸ hpace) hdue hop h.renewed,
    fun hno => unlisted_elsewhere (h.unlisted hno) hop⟩

theorem hear_since (phase : Phase) : phase.hear.since = phase.since := by
  cases phase <;> rfl

theorem hear_started {phase : Phase} (h : phase ≠ .fresh) : phase.hear ≠ .fresh := by
  cases phase with
  | fresh => exact absurd rfl h
  | _ => exact Phase.noConfusion

theorem hear_stage {main : MainPc} {beat : BeatPc} {phase : Phase} (h : Stage main beat phase) :
    Stage main beat phase.hear := by
  cases h <;> constructor

theorem kept_answers (h : Kept cfg pace timeout s os) {now : ℤ} (htime : s.now ≤ now) {k : ℕ}
    {q : NodeCall} (hq : s.deployment.flight[k]? = some q) :
    Kept cfg pace timeout
      { deployment := { s.deployment with
          registry := (handle s.deployment.registry now (cfg.request q)).1
          flight := s.deployment.flight.eraseIdx k
          clock := now }
        phase := s.phase.after now
          [.answered now q (handle s.deployment.registry now (cfg.request q)).2]
        now := now }
      (os++[.answered now q (handle s.deployment.registry now (cfg.request q)).2]) := by
  have hmem := List.mem_of_getElem? hq
  have hstarted : s.phase ≠ .fresh := by
    intro hfresh
    rw [h.unsent hfresh] at hmem
    cases hmem
  have hsince : ∀ t ∈ s.phase.since, t ≤ now := fun t ht => Int.le_trans (h.since t ht) htime
  have hkeyed := handle_wellKeyed _ now (cfg.request q) h.keyed
  have hlimit := (step_limit s.deployment.registry (now,.request (cfg.request q))).trans h.limit
  have hflight : ∀ p ∈ s.deployment.flight.eraseIdx k, p ≠ .unregister :=
    fun p hp => h.flight p (List.mem_of_mem_eraseIdx hp)
  have hrenews : ∀ phase, phase = s.phase.hear ∨ phase = s.phase → ∀ new,
      Leased cfg (handle s.deployment.registry now (cfg.request q)).1 now →
      (joined (os++new) = false →
        slot (handle s.deployment.registry now (cfg.request q)).1 cfg.serviceName cfg.info = none) →
      Kept cfg pace timeout
        { deployment := { s.deployment with
            registry := (handle s.deployment.registry now (cfg.request q)).1
            flight := s.deployment.flight.eraseIdx k
            clock := now }
          phase := phase
          now := now } (os++new) := by
    intro phase hphase new hleased hunlisted
    rcases hphase with rfl | rfl
    · have hlater := (hear_since s.phase).symm ▸ hsince
      exact ⟨hkeyed,hlimit,hear_stage h.stage,h.running,hflight,fun hno => absurd hno
        (hear_started hstarted),hlater,renewed_now hlater (hear_started hstarted) hleased _,hunlisted⟩
    · exact ⟨hkeyed,hlimit,h.stage,h.running,hflight,fun hno => absurd hno hstarted,hsince,
        renewed_now hsince hstarted hleased _,hunlisted⟩
  cases q with
  | unregister => exact absurd rfl (h.flight _ hmem)
  | register =>
    refine hrenews _ (.inl rfl) _ ⟨now,Int.le_refl _,slot_registered now⟩ fun hno => ?_
    rw [joined_append] at hno
    exact absurd hno (by rw [show joined [Output.answered now .register _] = true from rfl]; simp)
  | heartbeat =>
    have hjoined : ∀ response, joined (os++[.answered now .heartbeat response]) = joined os := by
      intro response
      rw [joined_append]
      exact Bool.or_false _
    cases hslot : slot s.deployment.registry cfg.serviceName cfg.info with
    | none =>
      have hrefused := heartbeat_refused now hslot
      have hphase : s.phase.after now [.answered now .heartbeat
          (handle s.deployment.registry now (cfg.request .heartbeat)).2] = s.phase := by
        simp [Phase.after,isReturn,isCall,isAccepted,hrefused]
      rw [hphase]
      refine ⟨hkeyed,hlimit,h.stage,h.running,hflight,fun hno => absurd hno hstarted,hsince,?_,?_⟩
      · rw [hjoined]
        exact renewed_unlisted hslot h.renewed _
      · intro _
        rw [slot_beaten,hslot]
        rfl
    | some l =>
      have hyes : joined os = true := by
        by_contra hno
        exact absurd ((h.unlisted (Bool.not_eq_true _ ▸ hno)).symm.trans hslot).symm
          (Option.some_ne_none _)
      have hvalue := renewed_value hslot (hyes ▸ h.renewed)
      refine hrenews _ ?_ _ ⟨now,Int.le_refl _,?_⟩ fun hno => ?_
      · by_cases hok : isAccepted (.answered now .heartbeat
            (handle s.deployment.registry now (cfg.request .heartbeat)).2) = true
        · left
          simp [Phase.after,isReturn,isCall,hok]
        · right
          simp [Phase.after,isReturn,isCall,hok]
      · rw [slot_beaten,hslot,Option.map_some,← hvalue]
      · rw [hjoined,hyes] at hno
        cases hno

section
variable {main : MainPc} {beat : BeatPc} {phase : Phase}

theorem stage_fresh (h : Stage .fresh beat phase) : beat = .absent ∧ phase = .fresh := by
  cases h
  exact ⟨rfl,rfl⟩

theorem stage_registering (h : Stage .registering beat phase) :
    beat = .absent ∧ ∃ since heard, phase = .calling since heard := by
  cases h with
  | registering since heard => exact ⟨rfl,since,heard,rfl⟩

theorem stage_checking (h : Stage main .checking phase) :
    main = .running ∧ ∃ since, phase = .resting since := by
  cases h with
  | checking since => exact ⟨rfl,since,rfl⟩

theorem stage_beating (h : Stage main .calling phase) :
    main = .running ∧ ∃ since heard, phase = .calling since heard := by
  cases h with
  | beating since heard => exact ⟨rfl,since,heard,rfl⟩

theorem stage_sleeping (h : Stage main .sleeping phase) :
    main = .running ∧ ∃ since, phase = .resting since := by
  cases h with
  | sleeping since => exact ⟨rfl,since,rfl⟩

end

section
variable (env : Envelopes) (messages : RegistryMessages)

theorem start_kept (h : Kept cfg pace timeout s os) {now : ℤ}
    (hmain : s.deployment.node.main = .fresh)
    (hheard : ((startNode env messages cfg s.deployment).2.any isReturn) = true →
      s.phase.heard = true) :
    Kept cfg pace timeout
      { deployment := (startNode env messages cfg s.deployment).1
        phase := s.phase.after now (startNode env messages cfg s.deployment).2
        now := now } (os++(startNode env messages cfg s.deployment).2) := by
  obtain ⟨hbeat,hphase⟩ := stage_fresh (hmain ▸ h.stage)
  have hrenewed := h.renewed
  rw [hphase] at hrenewed
  refine kept_calls h .register NodeCall.noConfusion _ hheard (by rw [hphase]; rfl) h.running ?_
    (.inl hrenewed)
  dsimp only
  rw [hbeat]
  exact .registering now false

theorem registerSelf_kept (h : Kept cfg pace timeout s os) {now : ℤ} (htime : s.now ≤ now)
    (hdue : ∀ t ∈ s.phase.due pace, now ≤ t) (hmain : s.deployment.node.main = .registering)
    (j : CallChannel.Input StatusResponse)
    (hheard : ((registerSelf env cfg s.deployment j).2.any isReturn) = true → s.phase.heard = true) :
    Kept cfg pace timeout
      { deployment := (registerSelf env cfg s.deployment j).1
        phase := s.phase.after now (registerSelf env cfg s.deployment j).2
        now := now } (os++(registerSelf env cfg s.deployment j).2) := by
  obtain ⟨hbeat,since,heard,hphase⟩ := stage_registering (hmain ▸ h.stage)
  have hstarted : s.phase ≠ .fresh := by
    rw [hphase]
    exact Phase.noConfusion
  refine kept_goes_on h htime hdue .register NodeCall.noConfusion _ hheard hstarted ?_ ?_ ?_
  · split_ifs
    · exact h.running
    · exact h.running
  · intro hgoes
    rw [if_neg (by rw [hgoes]; exact Bool.false_ne_true)]
    exact h.stage
  · intro hends
    rw [if_pos hends]
    exact .checking now

theorem beatCheck_kept (h : Kept cfg pace timeout s os) {now : ℤ}
    (hdue : ∀ t ∈ s.phase.due pace, now ≤ t) (hbeat : s.deployment.node.beat = .checking)
    (hheard : ((beatCheck env messages cfg s.deployment).2.any isReturn) = true →
      s.phase.heard = true) :
    Kept cfg pace timeout
      { deployment := (beatCheck env messages cfg s.deployment).1
        phase := s.phase.after now (beatCheck env messages cfg s.deployment).2
        now := now } (os++(beatCheck env messages cfg s.deployment).2) := by
  obtain ⟨hmain,since,hphase⟩ := stage_checking (hbeat ▸ h.stage)
  have hrenewed := h.renewed
  rw [hphase] at hrenewed hdue
  have hend := hdue _ rfl
  rw [beatCheck,if_neg (by rw [h.running]; exact Bool.false_ne_true)] at hheard ⊢
  refine kept_calls h .heartbeat NodeCall.noConfusion _ hheard (by rw [hphase]; rfl) h.running ?_
    (.inr (leased_mono (by omega) hrenewed))
  dsimp only
  rw [hmain]
  exact .beating now false

theorem beatCall_kept (h : Kept cfg pace timeout s os) {now : ℤ} (htime : s.now ≤ now)
    (hdue : ∀ t ∈ s.phase.due pace, now ≤ t) (hbeat : s.deployment.node.beat = .calling)
    (j : CallChannel.Input StatusResponse)
    (hheard : ((beatCall env s.deployment j).2.any isReturn) = true → s.phase.heard = true) :
    Kept cfg pace timeout
      { deployment := (beatCall env s.deployment j).1
        phase := s.phase.after now (beatCall env s.deployment j).2
        now := now } (os++(beatCall env s.deployment j).2) := by
  obtain ⟨hmain,since,heard,hphase⟩ := stage_beating (hbeat ▸ h.stage)
  have hstarted : s.phase ≠ .fresh := by
    rw [hphase]
    exact Phase.noConfusion
  refine kept_goes_on h htime hdue .heartbeat NodeCall.noConfusion _ hheard hstarted h.running ?_ ?_
  · intro hgoes
    dsimp only
    rw [if_neg (by rw [hgoes]; exact Bool.false_ne_true),← hbeat]
    exact h.stage
  · intro hends
    dsimp only
    rw [if_pos hends,hmain]
    exact .sleeping now

theorem kept_step (hpace : 2*pace.call+pace.rest ≤ timeout*1000000)
    (h : Kept cfg pace timeout s os) {i : ℤ × Input} (hp : Punctual env messages cfg pace s i) :
    Kept cfg pace timeout ((timedNode env messages cfg).step s i).1
      (os++((timedNode env messages cfg).step s i).2) := by
  obtain ⟨now,i⟩ := i
  have htime := hp.time
  have hdue := hp.due
  have hheard := hp.heard
  have hreads := hp.reads
  have hidle := kept_idle h htime
  simp only [timedNode] at hheard ⊢
  cases i with
  | start =>
    by_cases hmain : s.deployment.node.main = .fresh
    · simp only [deployment,if_pos hmain] at hheard ⊢
      exact start_kept env messages h hmain hheard
    · simpa only [deployment,if_neg hmain] using hidle
  | stopHeartbeat => exact Bool.noConfusion hp.undisturbed
  | shutdown => exact Bool.noConfusion hp.undisturbed
  | restart => exact Bool.noConfusion hp.undisturbed
  | join =>
    cases hmain : s.deployment.node.main with
    | joining thenUnregister =>
      have hstage := h.stage
      rw [hmain] at hstage
      cases hstage
    | _ => simpa only [deployment,hmain] using hidle
  | mainCall j =>
    cases hmain : s.deployment.node.main with
    | registering =>
      simp only [deployment,hmain] at hheard ⊢
      exact registerSelf_kept env h htime hdue hmain j hheard
    | unregistering =>
      have hstage := h.stage
      rw [hmain] at hstage
      cases hstage
    | _ => simpa only [deployment,hmain] using hidle
  | beatCheck =>
    by_cases hbeat : s.deployment.node.beat = .checking
    · simp only [deployment,if_pos hbeat] at hheard ⊢
      exact beatCheck_kept env messages h hdue hbeat hheard
    · simpa only [deployment,if_neg hbeat] using hidle
  | beatCall j =>
    by_cases hbeat : s.deployment.node.beat = .calling
    · simp only [deployment,if_pos hbeat] at hheard ⊢
      exact beatCall_kept env h htime hdue hbeat j hheard
    · simpa only [deployment,if_neg hbeat] using hidle
  | wake =>
    by_cases hbeat : s.deployment.node.beat = .sleeping
    · simp only [deployment,if_pos hbeat]
      obtain ⟨hmain,since,hphase⟩ := stage_sleeping (hbeat ▸ h.stage)
      refine kept_quiet h htime rfl h.running h.flight h.unsent ?_
      rw [hphase]
      dsimp only
      rw [hmain]
      exact .checking since
    · simpa only [deployment,if_neg hbeat] using hidle
  | process k t =>
    obtain rfl : t = now := of_decide_eq_true hreads
    by_cases hclock : s.deployment.clock ≤ t
    · simp only [deployment,if_pos hclock,process]
      cases hq : s.deployment.flight[k]? with
      | none => exact hidle
      | some q => exact kept_answers h htime hq
    · simpa only [deployment,if_neg hclock] using hidle
  | lose k =>
    refine kept_quiet h htime rfl h.running (fun q hq => h.flight q (List.mem_of_mem_eraseIdx hq)) ?_
      h.stage
    exact fun hfresh => (congrArg (List.eraseIdx · k) (h.unsent hfresh)).trans List.eraseIdx_nil
  | other t q =>
    obtain rfl : t = now := of_decide_eq_true hreads
    by_cases hgood : s.deployment.clock ≤ t ∧ foreign cfg q = true
    · simp only [deployment,if_pos hgood]
      exact kept_elsewhere hpace h htime hdue (e := .request q) (foreign_op cfg q hgood.2) t
    · simpa only [deployment,if_neg hgood] using hidle
  | evict t =>
    obtain rfl : t = now := of_decide_eq_true hreads
    by_cases hclock : s.deployment.clock ≤ t
    · simp only [deployment,if_pos hclock]
      exact kept_elsewhere hpace h htime hdue (e := .evict) (fun op hop => (Option.some.inj hop).symm) t
    · simpa only [deployment,if_neg hclock] using hidle

end

end Steps

theorem start_kept_first (cfg : NodeConfig) (pace : Pace) (timeout : ℤ) :
    Kept cfg pace timeout (start timeout) [] where
  keyed := start_wellKeyed timeout
  limit := rfl
  stage := .fresh
  running := rfl
  flight _ hq := absurd hq List.not_mem_nil
  unsent _ := rfl
  since _ ht := absurd ht.symm (Option.some_ne_none _)
  renewed := rfl
  unlisted _ := rfl

/-- In every run of a punctual node and a registry into whose timeout two
calls and a rest fit, in which nobody stops or shuts down the node or restarts
the registry, with whatever else the registry does for others: once the
registry has handled the node's `Register`, and until the node's next step is
due, `Discover` lists the address of the node exactly once, with the node as
it registered. -/
theorem punctual_node_listed (env : Envelopes) (messages : RegistryMessages) (cfg : NodeConfig)
    (pace : Pace) (timeout : ℤ) (hpace : 2*pace.call+pace.rest ≤ timeout*1000000)
    (is : List (ℤ × Input))
    (hpunctual : Along (timedNode env messages cfg) (Punctual env messages cfg pace)
      (start timeout) is)
    (hjoined : joined ((timedNode env messages cfg).run (start timeout) is).2 = true) (t : ℤ)
    (hdue : ∀ due ∈ ((timedNode env messages cfg).run (start timeout) is).1.phase.due pace, t ≤ due)
    (order : IterOrder) :
    (discover ((timedNode env messages cfg).run (start timeout) is).1.deployment.registry t
        cfg.serviceName order).2.nodes.filter (fun m => m.address = cfg.info.address) =
      [cfg.info] := by
  have hkept := run_invariant_along (timedNode env messages cfg) (Punctual env messages cfg pace)
    (Kept cfg pace timeout) (fun s os i h hp => kept_step env messages hpace h hp) (start timeout) [] is
    (start_kept_first cfg pace timeout) hpunctual
  rw [List.nil_append] at hkept
  have hrenewed := hkept.renewed
  rw [hjoined] at hrenewed
  obtain ⟨hfresh,hvalue⟩ := renewed_fresh (hkept.limit ▸ hpace) hdue hrenewed
  rw [discover_slot _ hkept.keyed,hfresh,hvalue]
  rfl

def secondPace : Pace := ⟨1000000000,2500000000,by decide,by decide⟩

def beatsOnce : List (ℤ × Input) :=
  [(0,.start),(0,.mainCall (.connectReturned none)),(0,.mainCall sendsAll),
   (500000000,.process 0 500000000),(900000000,.mainCall (answer 1 {})),(900000000,.beatCheck),
   (900000000,.beatCall (.connectReturned none)),(900000000,.beatCall sendsAll),
   (1000000000,.process 0 1000000000),(1800000000,.beatCall (answer 1 {})),(4000000000,.wake),
   (4200000000,.beatCheck)]

theorem second_beat_under_way :
    ((timedNode protoEnvelopes protoMessages echoConfig).run (start 6000) beatsOnce).1.phase =
      .calling 4200000000 false ∧
    (discover ((timedNode protoEnvelopes protoMessages echoConfig).run (start 6000)
        beatsOnce).1.deployment.registry 5200000000 echoConfig.serviceName anyOrder).2.nodes.filter
          (fun m => m.address = echoConfig.info.address) = [echoConfig.info] := by
  have hphase : ((timedNode protoEnvelopes protoMessages echoConfig).run (start 6000)
      beatsOnce).1.phase = .calling 4200000000 false := by
    decide +kernel
  have hpunctual : Along (timedNode protoEnvelopes protoMessages echoConfig)
      (Punctual protoEnvelopes protoMessages echoConfig secondPace) (start 6000) beatsOnce := by
    decide +kernel
  have hjoined : joined ((timedNode protoEnvelopes protoMessages echoConfig).run (start 6000)
      beatsOnce).2 = true := by
    decide +kernel
  have hdue : ∀ due ∈ ((timedNode protoEnvelopes protoMessages echoConfig).run (start 6000)
      beatsOnce).1.phase.due secondPace, 5200000000 ≤ due := by
    rw [hphase]
    exact fun due hdue => Int.le_of_eq (Option.some.inj hdue)
  exact ⟨hphase,punctual_node_listed protoEnvelopes protoMessages echoConfig secondPace 6000 (by decide)
    beatsOnce hpunctual hjoined 5200000000 hdue anyOrder⟩

end MiniRpc.PunctualNode
