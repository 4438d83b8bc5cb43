import MiniRpc.RegistryLease

/-!
# What clients can tell about the eviction thread

Two runs with the same requests at the same times differ in when the
eviction loop purges. A purge removes entries that have outlived the
timeout, and all a client can do with such an entry is to send a heartbeat
for it. The thread is invisible exactly when the run without it has no such
heartbeat.
-/

set_option autoImplicit false

namespace MiniRpc.EvictionThread
open MiniRpc.LeaseHistory MiniRpc.CallController MiniRpc.StepMachine MiniRpc.NodeRegistry
open MiniRpc.RegistryLease

def events (requests : List (ℤ × Request)) : List (ℤ × Event) :=
  requests.map fun q => (q.1,.request q.2)

def clientPart (h : List (ℤ × Event)) : List (ℤ × Request) :=
  h.filterMap fun
    | (now,.request q) => some (now,q)
    | (_,.evict) => none

def responses (timeout : ℤ) (h : List (ℤ × Event)) : List Response :=
  (registry.run (start timeout) h).2.map Answered.response

/-- The second registry may lack entries of the first that have outlived
the timeout at time `t`. -/
structure Lags (t : ℤ) (r r' : RegistryServiceImpl) : Prop where
  limit : r'.limit = r.limit
  keyed : WellKeyed r
  keyed' : WellKeyed r'
  slots : ∀ service n, Behind r.limit t (slot r service n) (slot r' service n)

theorem lags_later {t u : ℤ} (htu : t ≤ u) {r r' : RegistryServiceImpl} (h : Lags t r r') :
    Lags u r r' :=
  ⟨h.limit,h.keyed,h.keyed',fun service n => behind_later r.limit htu (h.slots service n)⟩

theorem lags_evict {t : ℤ} {r r' : RegistryServiceImpl} (h : Lags t r r') :
    Lags t r (purgeExpired r' t) := by
  refine ⟨h.limit,h.keyed,purgeExpired_wellKeyed r' t h.keyed',fun service n => ?_⟩
  rw [slot_purgeExpired,h.limit]
  exact behind_sweep r.limit (h.slots service n)

theorem lags_request {t : ℤ} {r r' : RegistryServiceImpl} (h : Lags t r r') (q : Request)
    (hp : Prompt r (t,.request q)) : Lags t (handle r t q).1 (handle r' t q).1 := by
  have hlim : (handle r t q).1.limit = r.limit := step_limit r (t,.request q)
  have hlim' : (handle r' t q).1.limit = r'.limit := step_limit r' (t,.request q)
  refine ⟨by rw [hlim,hlim',h.limit],handle_wellKeyed r t q h.keyed,
    handle_wellKeyed r' t q h.keyed',fun service n => ?_⟩
  rw [slot_handle,slot_handle,h.limit,hlim]
  cases ho : slotOp service n (.request q) with
  | none => exact h.slots service n
  | some op => exact behind_step r.limit op (h.slots service n) (prompt_timely hp service n op ho)

theorem slot_isSome (r : RegistryServiceImpl) (service : String) (n : NodeInfo) :
    (slot r service n).isSome = (entryAt r service (nodeKey n)).isSome := by
  rw [slot,Option.isSome_map]

theorem slot_value (r : RegistryServiceImpl) (service : String) (n : NodeInfo) :
    (slot r service n).map Lease.value = (entryAt r service (nodeKey n)).map NodeEntry.node := by
  rw [slot,Option.map_map]
  rfl

theorem lags_response {t : ℤ} {r r' : RegistryServiceImpl} (h : Lags t r r') (q : Request)
    (hp : Prompt r (t,.request q)) : (handle r t q).2 = (handle r' t q).2 := by
  cases q with
  | register s m => rfl
  | unregister s m => rfl
  | heartbeat s m =>
    have hop : slotOp s m (.request (.heartbeat s m)) = some .renew := by simp [slotOp]
    have heq := behind_renew r.limit (h.slots s m) (prompt_timely hp s m .renew hop)
    rw [handle,handle,heartbeat_response,heartbeat_response,← slot_isSome,← slot_isSome,heq]
  | discover s order =>
    apply discover_congr r r' t s order order h.keyed h.keyed'
    intro n
    rw [← slot_value,← slot_value,slot_purgeExpired,slot_purgeExpired,h.limit,
      behind_read r.limit (h.slots s n)]

theorem lags_run (h : List (ℤ × Event)) (ho : InOrder h) (t : ℤ) (ht : ∀ e ∈ h, t ≤ e.1)
    (r r' : RegistryServiceImpl) (hl : Lags t r r')
    (hp : Along registry Prompt r (events (clientPart h))) :
    (registry.run r' h).2.map Answered.response =
      (registry.run r (events (clientPart h))).2.map Answered.response := by
  induction h generalizing r r' t with
  | nil => rfl
  | cons e h ih =>
    obtain ⟨now,ev⟩ := e
    have hnow := lags_later (ht (now,ev) (by simp)) hl
    obtain ⟨hfirst,hrest⟩ := List.pairwise_cons.mp ho
    cases ev with
    | evict => exact ih hrest now hfirst r _ (lags_evict hnow) hp
    | request q =>
      have hresp := lags_response hnow q hp.1
      have htail := ih hrest now hfirst _ _ (lags_request hnow q hp.1) hp.2
      exact congrArg₂ List.cons hresp.symm htail

theorem lags_start (timeout t : ℤ) : Lags t (start timeout) (start timeout) :=
  ⟨rfl,start_wellKeyed timeout,start_wellKeyed timeout,fun _ _ => Or.inl rfl⟩

theorem clientPart_events (requests : List (ℤ × Request)) :
    clientPart (events requests) = requests := by
  induction requests with
  | nil => rfl
  | cons q requests ih => exact congrArg (q :: ·) ih

theorem clientPart_append (h k : List (ℤ × Event)) :
    clientPart (h++k) = clientPart h++clientPart k := List.filterMap_append

theorem responses_clientPart (timeout : ℤ) (h : List (ℤ × Event)) (ho : InOrder h)
    (hp : Along registry Prompt (start timeout) (events (clientPart h))) :
    responses timeout h = responses timeout (events (clientPart h)) := by
  cases h with
  | nil => rfl
  | cons e h =>
    have hfirst : ∀ f ∈ e::h, e.1 ≤ f.1 := by
      intro f hf
      rcases List.mem_cons.mp hf with rfl | hmem
      · exact le_refl _
      · exact (List.pairwise_cons.mp ho).1 f hmem
    exact lags_run (e::h) ho e.1 hfirst _ _ (lags_start timeout e.1) hp

/-- A heartbeat that meets an outlived entry is accepted, but refused if the
thread purges first. -/
theorem late_heartbeat_response {r : RegistryServiceImpl} {now : ℤ} {q : Request}
    (hlate : ¬ Prompt r (now,.request q)) :
    (handle r now q).2.errorCode = okCode ∧
    (handle (purgeExpired r now) now q).2.errorCode = errCode := by
  cases q with
  | register s m => exact absurd trivial hlate
  | unregister s m => exact absurd trivial hlate
  | discover s order => exact absurd trivial hlate
  | heartbeat s m =>
    have hc : concerns s m (.request (.heartbeat s m)) = true := by simp [concerns]
    obtain ⟨-,l,hl,hage⟩ := late_heartbeat hc hlate
    have hsome : (entryAt r s (nodeKey m)).isSome = true := by
      rw [← slot_isSome,hl]
      rfl
    have hnone : (entryAt (purgeExpired r now) s (nodeKey m)).isSome = false := by
      rw [← slot_isSome,slot_purgeExpired,hl,sweep_stale _ hage]
      rfl
    rw [handle,handle,heartbeat_response,heartbeat_response,if_pos hsome,
      if_neg (by simp [hnone])]
    exact ⟨rfl,rfl⟩

theorem events_split {requests : List (ℤ × Request)} {before after : List (ℤ × Event)}
    {i : ℤ × Event} (h : events requests = before++i::after) : ∃ q, i.2 = .request q := by
  have hi : i ∈ events requests := by
    rw [h]
    simp
  obtain ⟨q,-,rfl⟩ := List.mem_map.mp hi
  exact ⟨q.2,rfl⟩

/-- Whatever the requests and their times, the eviction thread is invisible,
that is all runs with these requests give the same responses, if and only
if the run without evictions has no heartbeat for an entry that has
outlived the timeout. -/
theorem eviction_invisible_iff (timeout : ℤ) (requests : List (ℤ × Request))
    (ho : InOrder (events requests)) :
    (∀ h h', InOrder h → InOrder h' → clientPart h = requests → clientPart h' = requests →
      responses timeout h = responses timeout h') ↔
    Along registry Prompt (start timeout) (events requests) := by
  constructor
  · intro hsame
    by_contra hnot
    obtain ⟨before,⟨now,ev⟩,after,hsplit,-,hlate⟩ := not_along_split registry Prompt _ _ hnot
    obtain ⟨q,hq⟩ := events_split hsplit
    obtain rfl : ev = .request q := hq
    have hevict : InOrder (before++(now,.evict)::(now,.request q)::after) := by
      rw [hsplit] at ho
      obtain ⟨hb,ha,hba⟩ := List.pairwise_append.mp ho
      refine List.pairwise_append.mpr ⟨hb,List.pairwise_cons.mpr ⟨?_,ha⟩,?_⟩
      · intro e he
        rcases List.mem_cons.mp he with rfl | hmem
        · exact le_refl now
        · exact (List.pairwise_cons.mp ha).1 e hmem
      · intro e he f hf
        rcases List.mem_cons.mp hf with rfl | hmem
        · exact hba e he (now,.request q) (by simp)
        · exact hba e he f hmem
    have hpart : clientPart (before++(now,.evict)::(now,.request q)::after) = requests := by
      rw [← clientPart_events requests,hsplit,clientPart_append,clientPart_append]
      rfl
    have heq := hsame _ _ ho hevict (clientPart_events requests) hpart
    rw [hsplit,responses,responses,StepMachine.run_append,StepMachine.run_append,List.map_append,
      List.map_append] at heq
    have htail := List.append_cancel_left heq
    have hhead := congrArg Response.errorCode (List.cons.inj htail).1
    obtain ⟨hok,herr⟩ := late_heartbeat_response hlate
    exact absurd (hok.symm.trans (hhead.trans herr)) (by decide)
  · intro hp h h' hoh hoh' hc hc'
    rw [responses_clientPart timeout h hoh (by rw [hc]; exact hp),
      responses_clientPart timeout h' hoh' (by rw [hc']; exact hp),hc,hc']

def beatingRequests (now : ℤ) : List (ℤ × Request) :=
  [(0,.register "EchoService" echoNode),(now,.heartbeat "EchoService" echoNode),
   (now,.discover "EchoService" anyOrder)]

theorem eviction_invisible_beating :
    responses 6000 [(0,.request (.register "EchoService" echoNode)),(500000000,.evict),
      (6000000000,.evict),(6000000000,.request (.heartbeat "EchoService" echoNode)),
      (6000000000,.request (.discover "EchoService" anyOrder))] =
    responses 6000 (events (beatingRequests 6000000000)) := by
  refine (eviction_invisible_iff 6000 (beatingRequests 6000000000)
    (by simp [InOrder,events,beatingRequests])).mpr ?_ _ _ ?_ ?_ rfl rfl
  · have hentry : entryAt (registry.step (start 6000)
        (0,.request (.register "EchoService" echoNode))).1 "EchoService" (nodeKey echoNode) =
          some ⟨echoNode,0⟩ := by decide +kernel
    refine ⟨trivial,?_,trivial,trivial⟩
    intro e he
    obtain rfl := Option.some.inj (hentry.symm.trans he)
    decide
  · simp [InOrder]
  · simp [InOrder,events,beatingRequests]

/-- The heartbeat arrives one nanosecond after the timeout. A turn of the
eviction loop before it decides whether it is accepted and whether the node
is listed. -/
theorem late_heartbeat_shows_eviction :
    responses 6000 (events (beatingRequests 6000000001)) =
      [{ errorCode := 0 },{ errorCode := 0 },{ errorCode := 0, nodes := [echoNode] }] ∧
    responses 6000 [(0,.request (.register "EchoService" echoNode)),(6000000001,.evict),
      (6000000001,.request (.heartbeat "EchoService" echoNode)),
      (6000000001,.request (.discover "EchoService" anyOrder))] =
      [{ errorCode := 0 },{ errorCode := 99, errorMessage := "node not registered" },
       { errorCode := 0 }] :=
  ⟨by decide +kernel,by decide +kernel⟩

end MiniRpc.EvictionThread
