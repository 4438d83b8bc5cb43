import MiniRpc.NodeRegistry

/-!
# The lease of a node in the registry

The entry of one node of one service is a lease: `Register` grants it,
`Unregister` releases it, `Heartbeat` renews it, and `Discover` and the
eviction loop sweep it. Events that concern other nodes do nothing to it or
sweep it, `Discover` of another service included. So what `Discover` says
about a node follows from the history of that node alone, except that a
sweep asked for by somebody else decides whether a heartbeat that comes too
late revives the node.
-/

set_option autoImplicit false

namespace MiniRpc.RegistryLease
open MiniRpc.LeaseHistory MiniRpc.CallController MiniRpc.StepMachine MiniRpc.NodeRegistry

def NodeEntry.lease (e : NodeEntry) : Lease NodeInfo := ⟨e.node,e.lastHeartbeat⟩

def slot (r : RegistryServiceImpl) (service : String) (n : NodeInfo) : Option (Lease NodeInfo) :=
  (entryAt r service (nodeKey n)).map NodeEntry.lease

def slotOp (service : String) (n : NodeInfo) : Event → Option (Op NodeInfo)
  | .request (.register s m) => if s = service ∧ m.address = n.address then some (.grant m) else none
  | .request (.unregister s m) => if s = service ∧ m.address = n.address then some .release else none
  | .request (.heartbeat s m) => if s = service ∧ m.address = n.address then some .renew else none
  | .request (.discover _ _) => some .sweep
  | .evict => some .sweep

def slotOps (service : String) (n : NodeInfo) (h : List (ℤ × Event)) : List (ℤ × Op NodeInfo) :=
  h.filterMap fun e => (slotOp service n e.2).map (Prod.mk e.1)

def slotStep (limit : ℤ) (x : Option (Lease NodeInfo)) (now : ℤ) :
    Option (Op NodeInfo) → Option (Lease NodeInfo)
  | none => x
  | some op => step limit x now op

theorem same_key_iff (service s : String) (m n : NodeInfo) :
    (service = s ∧ nodeKey n = nodeKey m) ↔ (s = service ∧ m.address = n.address) := by
  rw [nodeKey_eq_iff,eq_comm,eq_comm (a := n.address)]

theorem slot_purgeExpired (r : RegistryServiceImpl) (now : ℤ) (service : String) (n : NodeInfo) :
    slot (purgeExpired r now) service n = sweep r.limit now (slot r service n) := by
  rw [slot,entryAt_purgeExpired,slot,sweep]
  cases entryAt r service (nodeKey n) with
  | none => rfl
  | some e =>
    have hf : Fresh r.limit now (NodeEntry.lease e) ↔ now-e.lastHeartbeat ≤ r.limit := Iff.rfl
    rw [Option.map_some,Option.filter_some,Option.filter_some]
    simp only [decide_eq_true_eq,hf]
    by_cases h : now-e.lastHeartbeat ≤ r.limit
    · rw [if_pos h,if_pos h,Option.map_some]
    · rw [if_neg h,if_neg h,Option.map_none]

theorem slot_handle (r : RegistryServiceImpl) (now : ℤ) (q : Request) (service : String)
    (n : NodeInfo) :
    slot (handle r now q).1 service n =
      slotStep r.limit (slot r service n) now (slotOp service n (.request q)) := by
  cases q with
  | register s m =>
    rw [handle,slot,entryAt_register,slotOp]
    simp only [same_key_iff]
    by_cases h : s = service ∧ m.address = n.address
    · rw [if_pos h,if_pos h]
      rfl
    · rw [if_neg h,if_neg h]
      rfl
  | unregister s m =>
    rw [handle,slot,entryAt_unregister,slotOp]
    simp only [same_key_iff]
    by_cases h : s = service ∧ m.address = n.address
    · rw [if_pos h,if_pos h]
      rfl
    · rw [if_neg h,if_neg h]
      rfl
  | heartbeat s m =>
    rw [handle,slot,entryAt_heartbeat,slotOp]
    simp only [same_key_iff]
    by_cases h : s = service ∧ m.address = n.address
    · rw [if_pos h,if_pos h,slotStep,step,slot,Option.map_map,Option.map_map]
      rfl
    · rw [if_neg h,if_neg h]
      rfl
  | discover s order => exact slot_purgeExpired r now service n

theorem step_limit (r : RegistryServiceImpl) (i : ℤ × Event) :
    (registry.step r i).1.limit = r.limit := by
  obtain ⟨now,e⟩ := i
  cases e with
  | evict => rfl
  | request q =>
    cases q with
    | register s m => rfl
    | discover s order => rfl
    | unregister s m =>
      simp only [registry,handle,unregister]
      cases r.services.lookup s with
      | none => rfl
      | some nodes =>
        dsimp only
        split <;> rfl
    | heartbeat s m =>
      simp only [registry,handle,heartbeat]
      cases r.services.lookup s with
      | none => rfl
      | some nodes =>
        dsimp only
        cases nodes.lookup (nodeKey m) <;> rfl

theorem slot_step (r : RegistryServiceImpl) (i : ℤ × Event) (service : String) (n : NodeInfo) :
    slot (registry.step r i).1 service n =
      slotStep r.limit (slot r service n) i.1 (slotOp service n i.2) := by
  obtain ⟨now,e⟩ := i
  cases e with
  | request q => exact slot_handle r now q service n
  | evict => exact slot_purgeExpired r now service n

theorem run_limit (r : RegistryServiceImpl) (h : List (ℤ × Event)) :
    (registry.run r h).1.limit = r.limit := by
  induction h generalizing r with
  | nil => rfl
  | cons e h ih =>
    rw [Machine.run]
    exact (ih _).trans (step_limit r e)

/-- The registry refines the lease history of each of its nodes. -/
theorem slot_run (r : RegistryServiceImpl) (h : List (ℤ × Event)) (service : String)
    (n : NodeInfo) :
    slot (registry.run r h).1 service n = run r.limit (slot r service n) (slotOps service n h) := by
  induction h generalizing r with
  | nil => rfl
  | cons e h ih =>
    have hs := slot_step r e service n
    have hr := ih (registry.step r e).1
    rw [step_limit] at hr
    rw [Machine.run]
    cases ho : slotOp service n e.2 with
    | none =>
      rw [ho] at hs
      rw [slotOps,List.filterMap_cons,ho,Option.map_none]
      exact hr.trans (by rw [hs]; rfl)
    | some op =>
      rw [ho] at hs
      rw [slotOps,List.filterMap_cons,ho,Option.map_some]
      exact hr.trans (by rw [hs]; rfl)

def start (timeout : ℤ) : RegistryServiceImpl := { heartbeatTimeout := timeout }

def answerAt (timeout : ℤ) (h : List (ℤ × Event)) (service : String) (t : ℤ)
    (order : IterOrder) : List NodeInfo :=
  (discover (registry.run (start timeout) h).1 t service order).2.nodes

theorem start_slot (timeout : ℤ) (service : String) (n : NodeInfo) :
    slot (start timeout) service n = none := rfl

theorem start_wellKeyed (timeout : ℤ) : WellKeyed (start timeout) := by
  intro s k e he
  simp [entryAt,start] at he

theorem run_wellKeyed (timeout : ℤ) (h : List (ℤ × Event)) :
    WellKeyed (registry.run (start timeout) h).1 :=
  run_invariant registry (fun r _ => WellKeyed r) (fun r _ i hr => step_wellKeyed r i hr)
    (start timeout) h (start_wellKeyed timeout)

theorem filter_address {l : List NodeInfo} (hl : l.Pairwise fun a b => a.address < b.address)
    {n : NodeInfo} (hn : n ∈ l) : l.filter (fun m => m.address = n.address) = [n] := by
  induction l with
  | nil => simp at hn
  | cons a l ih =>
    obtain ⟨ha,hl'⟩ := List.pairwise_cons.mp hl
    rw [List.filter_cons]
    rcases List.mem_cons.mp hn with rfl | hmem
    · rw [if_pos (by simp)]
      congr 1
      rw [List.filter_eq_nil_iff]
      intro b hb heq
      exact absurd (ha b hb) (by rw [of_decide_eq_true heq]; exact lt_irrefl _)
    · have hlt := ha n hmem
      rw [if_neg (by simpa using hlt.ne),ih hl' hmem]

theorem discover_slot (r : RegistryServiceImpl) (hw : WellKeyed r) (service : String) (t : ℤ)
    (order : IterOrder) (n : NodeInfo) :
    (discover r t service order).2.nodes.filter (fun m => m.address = n.address) =
      ((sweep r.limit t (slot r service n)).map Lease.value).toList := by
  have hinc := discover_increasing r t service order hw
  rw [← slot_purgeExpired]
  cases he : entryAt (purgeExpired r t) service (nodeKey n) with
  | none =>
    rw [slot,he]
    simp only [Option.map_none,Option.toList_none,List.filter_eq_nil_iff,decide_eq_true_eq]
    intro m hm haddr
    obtain ⟨e,hent,-⟩ := (mem_discover r t service order hw m).mp hm
    rw [(nodeKey_eq_iff m n).mpr haddr,he] at hent
    simp at hent
  | some e =>
    have hkey := purgeExpired_wellKeyed r t hw service _ e he
    have hmem := (mem_discover r t service order hw e.node).mpr ⟨e,by rw [hkey]; exact he,rfl⟩
    rw [slot,he,← (nodeKey_eq_iff e.node n).mp hkey]
    exact filter_address hinc hmem

theorem answer_slot (timeout : ℤ) (h : List (ℤ × Event)) (service : String) (t : ℤ)
    (order : IterOrder) (n : NodeInfo) :
    (answerAt timeout h service t order).filter (fun m => m.address = n.address) =
      ((sweep (timeout*1000000) t (run (timeout*1000000) none (slotOps service n h))).map
        Lease.value).toList := by
  rw [answerAt,discover_slot _ (run_wellKeyed timeout h),slot_run,run_limit]
  rfl

/-- The latest `Register` of the address for the service that is not
followed by an `Unregister`, with the times of it and of the heartbeats
after it. It is read off the requests alone. -/
def registration (service : String) (n : NodeInfo) (h : List (ℤ × Event)) :
    Option (Claim NodeInfo) := claim none (slotOps service n h)

def Contact (service : String) (n : NodeInfo) (a : Answered) : Prop :=
  match a.request with
  | .register s m => s = service ∧ m.address = n.address
  | .heartbeat s m => s = service ∧ m.address = n.address ∧ a.response.errorCode = okCode
  | _ => False

def InOrder (h : List (ℤ × Event)) : Prop := h.Pairwise fun a b => a.1 ≤ b.1

def concerns (service : String) (n : NodeInfo) : Event → Bool
  | .request (.register s m) => s = service ∧ m.address = n.address
  | .request (.unregister s m) => s = service ∧ m.address = n.address
  | .request (.heartbeat s m) => s = service ∧ m.address = n.address
  | .request (.discover s _) => s = service
  | .evict => true

def own (service : String) (n : NodeInfo) (h : List (ℤ × Event)) : List (ℤ × Event) :=
  h.filter fun e => concerns service n e.2

/-- At no point of the history do operations on other services or nodes
change what `Discover(service)` says about the address of `n`. -/
def Independent (timeout : ℤ) (service : String) (n : NodeInfo) (h : List (ℤ × Event)) : Prop :=
  ∀ p h', p <+: h → InOrder h' → own service n h' = own service n p →
    ∀ t, (∀ e ∈ p, e.1 ≤ t) → (∀ e ∈ h', e.1 ≤ t) → ∀ order order',
      (answerAt timeout p service t order).filter (fun m => m.address = n.address) =
        (answerAt timeout h' service t order').filter (fun m => m.address = n.address)

/-- A heartbeat does not meet an entry that has outlived the timeout. -/
def Prompt (r : RegistryServiceImpl) (i : ℤ × Event) : Prop :=
  match i.2 with
  | .request (.heartbeat s m) =>
    ∀ e, entryAt r s (nodeKey m) = some e → i.1-e.lastHeartbeat ≤ r.limit
  | _ => True

theorem slotOps_ordered (service : String) (n : NodeInfo) (h : List (ℤ × Event))
    (ho : InOrder h) : Ordered (slotOps service n h) := by
  apply List.Pairwise.filterMap _ _ ho
  intro a b hab x hx y hy
  rw [Option.map_eq_some_iff] at hx hy
  obtain ⟨-,-,rfl⟩ := hx
  obtain ⟨-,-,rfl⟩ := hy
  exact hab

theorem slotOps_bounded (service : String) (n : NodeInfo) (h : List (ℤ × Event)) (t : ℤ)
    (ht : ∀ e ∈ h, e.1 ≤ t) : ∀ e ∈ slotOps service n h, e.1 ≤ t := by
  intro e he
  obtain ⟨a,ha,hx⟩ := List.mem_filterMap.mp he
  rw [Option.map_eq_some_iff] at hx
  obtain ⟨-,-,rfl⟩ := hx
  exact ht a ha

theorem slotOp_grant {service : String} {n v : NodeInfo} {ev : Event}
    (h : slotOp service n ev = some (.grant v)) :
    ev = .request (.register service v) ∧ v.address = n.address := by
  cases ev with
  | evict => simp [slotOp] at h
  | request q =>
    cases q with
    | register s m =>
      by_cases hc : s = service ∧ m.address = n.address
      · rw [slotOp,if_pos hc] at h
        obtain rfl := Op.grant.inj (Option.some.inj h)
        exact ⟨by rw [hc.1],hc.2⟩
      · simp [slotOp,hc] at h
    | unregister s m => by_cases hc : s = service ∧ m.address = n.address <;> simp [slotOp,hc] at h
    | heartbeat s m => by_cases hc : s = service ∧ m.address = n.address <;> simp [slotOp,hc] at h
    | discover s order => simp [slotOp] at h

theorem slotOp_renew {service : String} {n : NodeInfo} {ev : Event}
    (h : slotOp service n ev = some .renew) :
    ∃ m, ev = .request (.heartbeat service m) ∧ m.address = n.address := by
  cases ev with
  | evict => simp [slotOp] at h
  | request q =>
    cases q with
    | register s m => by_cases hc : s = service ∧ m.address = n.address <;> simp [slotOp,hc] at h
    | unregister s m => by_cases hc : s = service ∧ m.address = n.address <;> simp [slotOp,hc] at h
    | heartbeat s m =>
      by_cases hc : s = service ∧ m.address = n.address
      · exact ⟨m,by rw [hc.1],hc.2⟩
      · simp [slotOp,hc] at h
    | discover s order => simp [slotOp] at h

theorem slotOp_concerns (service : String) (n : NodeInfo) (ev : Event) :
    (concerns service n ev = true ∧ ∃ op, slotOp service n ev = some op) ∨
    (concerns service n ev = false ∧
      (slotOp service n ev = none ∨ slotOp service n ev = some .sweep)) := by
  cases ev with
  | evict => exact Or.inl ⟨rfl,.sweep,rfl⟩
  | request q =>
    cases q with
    | register s m => by_cases hc : s = service ∧ m.address = n.address <;> simp [concerns,slotOp,hc]
    | unregister s m =>
      by_cases hc : s = service ∧ m.address = n.address <;> simp [concerns,slotOp,hc]
    | heartbeat s m =>
      by_cases hc : s = service ∧ m.address = n.address <;> simp [concerns,slotOp,hc]
    | discover s order => by_cases hc : s = service <;> simp [concerns,slotOp,hc]

theorem slotOps_cons (service : String) (n : NodeInfo) (e : ℤ × Event) (h : List (ℤ × Event)) :
    slotOps service n (e::h) =
      ((slotOp service n e.2).map (Prod.mk e.1)).toList++slotOps service n h := by
  rw [slotOps,List.filterMap_cons]
  cases slotOp service n e.2 <;> rfl

theorem slot_contact (timeout : ℤ) (h : List (ℤ × Event)) (service : String) (n : NodeInfo)
    (l : Lease NodeInfo) (hl : slot (registry.run (start timeout) h).1 service n = some l) :
    ∃ a ∈ (registry.run (start timeout) h).2, Contact service n a ∧ a.now = l.last := by
  revert l
  apply run_invariant registry (fun r os => ∀ l, slot r service n = some l →
    ∃ a ∈ os, Contact service n a ∧ a.now = l.last)
  · intro r os i hinv l hl
    have hold : slot r service n = some l → ∃ a ∈ os++(registry.step r i).2,
        Contact service n a ∧ a.now = l.last := by
      intro h
      obtain ⟨a,ha,hc⟩ := hinv l h
      exact ⟨a,List.mem_append_left _ ha,hc⟩
    rw [slot_step] at hl
    obtain ⟨now,ev⟩ := i
    cases ho : slotOp service n ev with
    | none =>
      rw [ho] at hl
      exact hold hl
    | some op =>
      rw [ho] at hl
      cases op with
      | grant v =>
        obtain ⟨rfl,hv⟩ := slotOp_grant ho
        obtain rfl := Option.some.inj hl
        exact ⟨_,List.mem_append_right _ (List.mem_singleton.mpr rfl),⟨rfl,hv⟩,rfl⟩
      | release => simp [slotStep,step] at hl
      | renew =>
        obtain ⟨m,rfl,hm⟩ := slotOp_renew ho
        simp only [slotStep,step,Option.map_eq_some_iff] at hl
        obtain ⟨l',hl',rfl⟩ := hl
        have hsome : (entryAt r service (nodeKey m)).isSome = true := by
          rw [(nodeKey_eq_iff m n).mpr hm]
          rw [slot,Option.map_eq_some_iff] at hl'
          obtain ⟨e,he,-⟩ := hl'
          rw [he]
          rfl
        have hok : (handle r now (.heartbeat service m)).2.errorCode = okCode := by
          rw [handle,heartbeat_response,if_pos hsome]
        exact ⟨_,List.mem_append_right _ (List.mem_singleton.mpr rfl),⟨rfl,hm,hok⟩,rfl⟩
      | sweep =>
        simp only [slotStep,step,sweep,Option.filter_eq_some_iff] at hl
        exact hold hl.1
  · intro l hl
    simp [start_slot] at hl

/-- Other nodes' events add nothing but sweeps. -/
theorem own_sweeps (service : String) (n : NodeInfo) (h : List (ℤ × Event)) :
    Sweeps (slotOps service n (own service n h)) (slotOps service n h) := by
  induction h with
  | nil => exact .nil
  | cons e h ih =>
    rw [own,List.filter_cons,slotOps_cons]
    rcases slotOp_concerns service n e.2 with ⟨hc,op,ho⟩ | ⟨hc,ho⟩
    · rw [if_pos hc,slotOps_cons,ho]
      exact .same _ ih
    · rw [if_neg (by simp [hc])]
      rcases ho with ho | ho
      · rw [ho]
        exact ih
      · rw [ho]
        exact .extra _ ih

theorem prompt_timely {t : ℤ} {r : RegistryServiceImpl} {ev : Event} (hp : Prompt r (t,ev))
    (service : String) (n : NodeInfo) (op : Op NodeInfo) (ho : slotOp service n ev = some op) :
    Timely r.limit (slot r service n) t op := by
  cases op with
  | grant v => trivial
  | release => trivial
  | sweep => trivial
  | renew =>
    obtain ⟨m,rfl,hm⟩ := slotOp_renew ho
    intro l hl
    rw [slot,Option.mem_def,Option.map_eq_some_iff] at hl
    obtain ⟨entry,hentry,rfl⟩ := hl
    exact hp entry (by rw [(nodeKey_eq_iff m n).mpr hm]; exact hentry)

theorem own_timely (service : String) (n : NodeInfo) (h : List (ℤ × Event))
    (r : RegistryServiceImpl) (hp : Along registry Prompt r (own service n h)) :
    AllTimely r.limit (slot r service n) (slotOps service n (own service n h)) := by
  induction h generalizing r with
  | nil => trivial
  | cons e h ih =>
    rw [own,List.filter_cons] at hp ⊢
    rcases slotOp_concerns service n e.2 with ⟨hc,op,ho⟩ | ⟨hc,-⟩
    · rw [if_pos hc] at hp ⊢
      rw [slotOps_cons,ho]
      have hstep := slot_step r e service n
      rw [ho] at hstep
      have hrest := ih _ hp.2
      rw [step_limit,hstep] at hrest
      exact ⟨prompt_timely hp.1 service n op ho,hrest⟩
    · rw [if_neg (by simp [hc])] at hp ⊢
      exact ih r hp

theorem mem_answer_slot (timeout : ℤ) (h : List (ℤ × Event)) (service : String) (t : ℤ)
    (order : IterOrder) (n : NodeInfo) (hn : n ∈ answerAt timeout h service t order) :
    ∃ last, slot (registry.run (start timeout) h).1 service n = some ⟨n,last⟩ ∧
      t-last ≤ timeout*1000000 := by
  obtain ⟨e,he,rfl⟩ := (mem_discover _ t service order (run_wellKeyed timeout h) n).mp hn
  rw [entryAt_purgeExpired,Option.filter_eq_some_iff,run_limit] at he
  refine ⟨e.lastHeartbeat,?_,of_decide_eq_true he.2⟩
  rw [slot,he.1]
  rfl

theorem discover_sound (timeout : ℤ) (h : List (ℤ × Event)) (service : String) (t : ℤ)
    (ht : ∀ e ∈ h, e.1 ≤ t) (order : IterOrder) (n : NodeInfo)
    (hn : n ∈ answerAt timeout h service t order) :
    (∃ c, registration service n h = some c ∧ c.value = n) ∧
    ∃ a ∈ (registry.run (start timeout) h).2,
      Contact service n a ∧ a.now ≤ t ∧ t-a.now ≤ timeout*1000000 := by
  obtain ⟨last,hs,hlast⟩ := mem_answer_slot timeout h service t order n hn
  obtain ⟨a,ha,hc,rfl⟩ := slot_contact timeout h service n _ hs
  rw [slot_run,start_slot] at hs
  obtain ⟨c,hclaim,hv,-⟩ := run_sound _ _ _ hs
  obtain ⟨e,he,hnow⟩ := run_last_mem _ _ _ hs
  refine ⟨⟨c,hclaim,hv⟩,a,ha,hc,?_,hlast⟩
  have hle := slotOps_bounded service n h t ht e he
  rw [hnow] at hle
  exact hle

theorem discover_complete (timeout : ℤ) (h : List (ℤ × Event)) (ho : InOrder h)
    (service : String) (t : ℤ) (ht : ∀ e ∈ h, e.1 ≤ t) (order : IterOrder) (n : NodeInfo)
    (c : Claim NodeInfo) (hc : registration service n h = some c)
    (hu : Unbroken (timeout*1000000) (t::c.latest::c.earlier)) :
    (answerAt timeout h service t order).filter (fun m => m.address = n.address) = [c.value] := by
  have hr := run_complete (timeout*1000000) _ (slotOps_ordered service n h ho) t
    (slotOps_bounded service n h t ht) c hc hu
  have hf : Fresh (timeout*1000000) t (⟨c.value,c.latest⟩ : Lease NodeInfo) := hu.1
  rw [answer_slot,hr,sweep_fresh _ hf]
  rfl

theorem answer_own (timeout : ℤ) (h : List (ℤ × Event)) (ho : InOrder h) (service : String)
    (n : NodeInfo) (hp : Along registry Prompt (start timeout) (own service n h)) (t : ℤ)
    (ht : ∀ e ∈ h, e.1 ≤ t) (order order' : IterOrder) :
    (answerAt timeout h service t order).filter (fun m => m.address = n.address) =
      (answerAt timeout (own service n h) service t order').filter
        (fun m => m.address = n.address) := by
  have hbound := slotOps_bounded service n h t ht
  have hfirst : ∃ u, u ≤ t ∧ ∀ e ∈ slotOps service n h, u ≤ e.1 := by
    cases hs : slotOps service n h with
    | nil => exact ⟨t,le_refl t,by simp⟩
    | cons e es =>
      have hord := slotOps_ordered service n h ho
      rw [hs] at hord hbound
      refine ⟨e.1,hbound e (by simp),fun e' he' => ?_⟩
      rcases List.mem_cons.mp he' with rfl | hmem
      · exact le_refl _
      · exact (List.pairwise_cons.mp hord).1 e' hmem
  obtain ⟨u,hut,hu⟩ := hfirst
  have hb := sweeps_behind (timeout*1000000) (own_sweeps service n h) none none u t (Or.inl rfl)
    (slotOps_ordered service n h ho) hu (own_timely service n h (start timeout) hp) hut hbound
  rw [answer_slot,answer_slot,behind_read _ hb]

theorem own_idem (service : String) (n : NodeInfo) (h : List (ℤ × Event)) :
    own service n (own service n h) = own service n h := by
  rw [own,own,List.filter_filter]
  simp

theorem independent_of_prompt (timeout : ℤ) (service : String) (n : NodeInfo)
    (h : List (ℤ × Event)) (ho : InOrder h)
    (hp : Along registry Prompt (start timeout) (own service n h)) :
    Independent timeout service n h := by
  intro p h' hpre ho' hown t htp hth' order order'
  obtain ⟨rest,rfl⟩ := hpre
  have hprefix : Along registry Prompt (start timeout) (own service n p) := by
    rw [own,List.filter_append] at hp
    exact ((along_append registry Prompt _ _ _).mp hp).1
  have hprefix' : Along registry Prompt (start timeout) (own service n h') := by
    rw [hown]
    exact hprefix
  have hop : InOrder p := (List.pairwise_append.mp ho).1
  rw [answer_own timeout p hop service n hprefix t htp order order,
    answer_own timeout h' ho' service n hprefix' t hth' order' order,hown]

theorem independent_of_negative (timeout : ℤ) (hneg : timeout < 0) (service : String)
    (n : NodeInfo) (h : List (ℤ × Event)) : Independent timeout service n h := by
  have hnone : ∀ h t, (∀ e ∈ h, e.1 ≤ t) → ∀ order,
      (answerAt timeout h service t order).filter (fun m => m.address = n.address) = [] := by
    intro h t ht order
    rw [List.filter_eq_nil_iff]
    intro m hm
    obtain ⟨-,a,-,-,hle,hage⟩ := discover_sound timeout h service t ht order m hm
    omega
  intro p h' _ _ _ t htp hth' order order'
  rw [hnone p t htp order,hnone h' t hth' order']

def anyOrder : IterOrder := ⟨id,fun _ => List.Perm.refl _⟩

theorem slotOps_append (service : String) (n : NodeInfo) (h k : List (ℤ × Event)) :
    slotOps service n (h++k) = slotOps service n h++slotOps service n k := List.filterMap_append

theorem late_heartbeat {r : RegistryServiceImpl} {now : ℤ} {ev : Event} {service : String}
    {n : NodeInfo} (hc : concerns service n ev = true) (hlate : ¬ Prompt r (now,ev)) :
    slotOp service n ev = some .renew ∧ ∃ l, slot r service n = some l ∧ ¬ Fresh r.limit now l := by
  cases ev with
  | evict => exact absurd trivial hlate
  | request q =>
    cases q with
    | register s m => exact absurd trivial hlate
    | unregister s m => exact absurd trivial hlate
    | discover s order => exact absurd trivial hlate
    | heartbeat s m =>
      obtain ⟨rfl,hm⟩ : s = service ∧ m.address = n.address := by simpa [concerns] using hc
      have hex : ∃ e, entryAt r s (nodeKey m) = some e ∧ ¬ now-e.lastHeartbeat ≤ r.limit := by
        by_contra hno
        apply hlate
        intro e he
        by_contra hage
        exact hno ⟨e,he,hage⟩
      obtain ⟨e,he,hage⟩ := hex
      rw [(nodeKey_eq_iff m n).mpr hm] at he
      exact ⟨by simp [slotOp,hm],NodeEntry.lease e,by rw [slot,he]; rfl,hage⟩

theorem own_split {service : String} {n : NodeInfo} {h q after : List (ℤ × Event)}
    {i : ℤ × Event} (hs : own service n h = q++i::after) :
    ∃ p rest, h = p++i::rest ∧ own service n (p++[i]) = q++[i] := by
  obtain ⟨p,tail,rfl,hq,htail⟩ := List.filter_eq_append_iff.mp hs
  obtain ⟨others,rest,rfl,hothers,hi,-⟩ := List.filter_eq_cons_iff.mp htail
  refine ⟨p++others,rest,by simp,?_⟩
  rw [own,List.filter_append,List.filter_append,hq,List.filter_eq_nil_iff.mpr hothers]
  simp [hi]

/-- A late heartbeat tells whether somebody asked for another service just
before it. -/
theorem prompt_of_independent (timeout : ℤ) (hpos : 0 ≤ timeout) (service : String)
    (n : NodeInfo) (h : List (ℤ × Event)) (ho : InOrder h)
    (hi : Independent timeout service n h) :
    Along registry Prompt (start timeout) (own service n h) := by
  by_contra hnot
  obtain ⟨q,⟨now,ev⟩,after,hsplit,-,hlate⟩ := not_along_split registry Prompt _ _ hnot
  obtain ⟨p,rest,rfl,hp⟩ := own_split hsplit
  have hmem : (now,ev) ∈ own service n (p++[(now,ev)]) := by
    rw [hp]
    simp
  obtain ⟨hop,l,hl,hage⟩ := late_heartbeat (List.mem_filter.mp hmem).2 hlate
  rw [slot_run,start_slot] at hl
  rw [run_limit] at hage
  have hpo : InOrder (p++[(now,ev)]) := by
    rw [← List.singleton_append,← List.append_assoc] at ho
    exact (List.pairwise_append.mp ho).1
  have hpnow : ∀ e ∈ p++[(now,ev)], e.1 ≤ now := by
    intro e he
    rcases List.mem_append.mp he with he' | he'
    · exact (List.pairwise_append.mp hpo).2.2 e he' (now,ev) (by simp)
    · rw [List.mem_singleton.mp he']
  have hqo : InOrder (q++[(now,ev)]) := by
    rw [← hp]
    exact hpo.filter _
  have hqnow : ∀ e ∈ q++[(now,ev)], e.1 ≤ now := by
    intro e he
    rw [← hp] at he
    exact hpnow e (List.mem_filter.mp he).1
  have hown : own service n (q++[(now,ev)]) = own service n (p++[(now,ev)]) := by
    rw [← hp,own_idem]
  let ask : ℤ × Event := (now,.request (.discover (service++"'") anyOrder))
  have hown' : own service n (q++[ask,(now,ev)]) = own service n (p++[(now,ev)]) := by
    rw [← hown]
    simp [own,ask,concerns]
  have hnow' : ∀ e ∈ q++[ask,(now,ev)], e.1 ≤ now := by
    intro e he
    rcases List.mem_append.mp he with he' | he'
    · exact hqnow e (List.mem_append_left _ he')
    · rcases List.mem_cons.mp he' with rfl | he''
      · exact le_refl now
      · rw [List.mem_singleton.mp he'']
  have hqo' : InOrder (q++[ask,(now,ev)]) := by
    refine List.pairwise_append.mpr ⟨(List.pairwise_append.mp hqo).1,by simp [ask],?_⟩
    intro e he f hf
    have hfnow : f.1 = now := by
      rcases List.mem_cons.mp hf with rfl | hf'
      · rfl
      · rw [List.mem_singleton.mp hf']
    rw [hfnow]
    exact hqnow e (List.mem_append_left _ he)
  have hpre : p++[(now,ev)] <+: p++(now,ev)::rest := ⟨rest,by simp⟩
  have heq := (hi _ _ hpre hqo hown now hpnow hqnow anyOrder anyOrder).symm.trans
    (hi _ _ hpre hqo' hown' now hpnow hnow' anyOrder anyOrder)
  have hev : slotOp service n ev = some .renew := hop
  have hops : slotOps service n [(now,ev)] = [(now,.renew)] := by
    simp [slotOps,hev]
  have hops' : slotOps service n [ask,(now,ev)] = [(now,.sweep),(now,.renew)] := by
    rw [slotOps_cons,hops]
    rfl
  obtain ⟨hrevived,hgone⟩ := late_renew (timeout*1000000) (slotOps service n q) now l hl hage
  have hfresh := fresh_now (timeout*1000000) (by omega) l.value now
  rw [answer_slot,answer_slot,slotOps_append,slotOps_append,hops,hops',hrevived,hgone,
    sweep_fresh _ hfresh] at heq
  cases heq

/-- For every history with times in order, `Discover` is sound and complete
for the leases of the nodes. Operations on other services and nodes leave
what it says about a node unchanged if and only if, in the history of that
node alone, no heartbeat meets an entry that has outlived the timeout (or
the timeout is negative and nothing is ever live). -/
theorem registry_lease (timeout : ℤ) (h : List (ℤ × Event)) (ho : InOrder h) (service : String) :
    (∀ t, (∀ e ∈ h, e.1 ≤ t) → ∀ order,
      (∀ n ∈ answerAt timeout h service t order,
        (∃ c, registration service n h = some c ∧ c.value = n) ∧
        ∃ a ∈ (registry.run (start timeout) h).2,
          Contact service n a ∧ a.now ≤ t ∧ t-a.now ≤ timeout*1000000) ∧
      ∀ n c, registration service n h = some c →
        Unbroken (timeout*1000000) (t::c.latest::c.earlier) →
        (answerAt timeout h service t order).filter (fun m => m.address = n.address) = [c.value]) ∧
    ∀ n, Independent timeout service n h ↔
      timeout < 0 ∨ Along registry Prompt (start timeout) (own service n h) := by
  constructor
  · intro t ht order
    constructor
    · intro n hn
      exact discover_sound timeout h service t ht order n hn
    · intro n c hc hu
      exact discover_complete timeout h ho service t ht order n c hc hu
  · intro n
    constructor
    · intro hi
      by_cases hneg : timeout < 0
      · exact Or.inl hneg
      · exact Or.inr (prompt_of_independent timeout (by omega) service n h ho hi)
    · rintro (hneg | hp)
      · exact independent_of_negative timeout hneg service n h
      · exact independent_of_prompt timeout service n h ho hp

def echoNode : NodeInfo := { name := "node-1", host := "127.0.0.1", port := 9001 }

def beating (now : ℤ) : List (ℤ × Event) :=
  [(0,.request (.register "EchoService" echoNode)),(now,.request (.heartbeat "EchoService" echoNode))]

theorem registry_lease_beating :
    (answerAt 6000 (beating 4000000000) "EchoService" 10000000000 anyOrder).filter
      (fun m => m.address = echoNode.address) = [echoNode] :=
  ((registry_lease 6000 (beating 4000000000) (by simp [InOrder,beating]) "EchoService").1
    10000000000 (by simp [beating]) anyOrder).2 echoNode ⟨echoNode,4000000000,[0]⟩ (by decide +kernel)
    (by simp [Unbroken])

def beatingAfterAsk (now : ℤ) : List (ℤ × Event) :=
  [(0,.request (.register "EchoService" echoNode)),
   (now,.request (.discover "CalculatorService" anyOrder)),
   (now,.request (.heartbeat "EchoService" echoNode))]

/-- The heartbeat comes just after the timeout. It keeps the node listed,
unless another service was looked up in between. -/
theorem late_heartbeat_not_independent :
    own "EchoService" echoNode (beatingAfterAsk 6000000001) =
      own "EchoService" echoNode (beating 6000000001) ∧
    answerAt 6000 (beating 6000000001) "EchoService" 6000000001 anyOrder = [echoNode] ∧
    answerAt 6000 (beatingAfterAsk 6000000001) "EchoService" 6000000001 anyOrder = [] :=
  ⟨rfl,by decide +kernel,by decide +kernel⟩

end MiniRpc.RegistryLease
