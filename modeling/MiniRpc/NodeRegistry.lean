import Mathlib.Data.String.Basic
import Mathlib.Data.Prod.Lex
import Mathlib.Data.List.Sort
import MiniRpc.KeyedTable
import MiniRpc.LeaseHistory
import MiniRpc.CallController
import MiniRpc.StepMachine

/-!
# The registry of service nodes

`RegistryServiceImpl` keeps, for each service, a map from `host:port` to
the node and the time of its last heartbeat. Each request and each turn of
the eviction loop runs under one mutex and reads the clock inside it, so a
history is a list of events with non-decreasing times. The order in which
a hash map is walked is not specified: `Discover` is given one.

Times are in nanoseconds, the timeout in milliseconds.
-/

set_option autoImplicit false

namespace MiniRpc.NodeRegistry
open MiniRpc.KeyedTable MiniRpc.LeaseHistory MiniRpc.CallController MiniRpc.StepMachine

structure NodeInfo where
  name : String := ""
  host : String := ""
  port : UInt32 := 0
  deriving DecidableEq, Repr

structure NodeEntry where
  node : NodeInfo
  lastHeartbeat : ℤ
  deriving DecidableEq, Repr

structure RegistryServiceImpl where
  heartbeatTimeout : ℤ
  services : Table String (Table String NodeEntry) := ∅

/-- The fields of the four response messages; each request sets its own. -/
structure Response where
  errorCode : Int32
  errorMessage : String := ""
  nodes : List NodeInfo := []
  deriving DecidableEq, Repr

def okCode : Int32 := kOk.value
def errCode : Int32 := kUnknown.value

def nodeKey (node : NodeInfo) : String := node.host++":"++Nat.repr node.port.toNat

def RegistryServiceImpl.limit (r : RegistryServiceImpl) : ℤ := r.heartbeatTimeout*1000000

def purgeNodes (limit now : ℤ) (nodes : Table String NodeEntry) : Table String NodeEntry :=
  keep (fun e => if now-e.lastHeartbeat > limit then none else some e) nodes

/-- Stale nodes are erased, and then services without a node. -/
def purgeExpired (r : RegistryServiceImpl) (now : ℤ) : RegistryServiceImpl :=
  { r with
    services := keep (fun nodes =>
      if (purgeNodes r.limit now nodes).entries.isEmpty then none
      else some (purgeNodes r.limit now nodes)) r.services }

def register (r : RegistryServiceImpl) (now : ℤ) (service : String) (node : NodeInfo) :
    RegistryServiceImpl × Response :=
  let nodes := (r.services.lookup service).getD ∅
  ({ r with services := r.services.insert service (nodes.insert (nodeKey node) ⟨node,now⟩) },
    { errorCode := okCode })

def unregister (r : RegistryServiceImpl) (service : String) (node : NodeInfo) :
    RegistryServiceImpl × Response :=
  (match r.services.lookup service with
    | none => r
    | some nodes =>
      if (nodes.erase (nodeKey node)).entries.isEmpty then
        { r with services := r.services.erase service }
      else { r with services := r.services.insert service (nodes.erase (nodeKey node)) },
    { errorCode := okCode })

/-- A node that is not in the table is refused; for any other only the time
stamp changes. -/
def heartbeat (r : RegistryServiceImpl) (now : ℤ) (service : String) (node : NodeInfo) :
    RegistryServiceImpl × Response :=
  match r.services.lookup service with
  | none => (r,{ errorCode := errCode, errorMessage := "node not registered" })
  | some nodes =>
    match nodes.lookup (nodeKey node) with
    | none => (r,{ errorCode := errCode, errorMessage := "node not registered" })
    | some e =>
      ({ r with
          services := r.services.insert service
            (nodes.insert (nodeKey node) { e with lastHeartbeat := now }) },
        { errorCode := okCode })

def nodeLess (a b : NodeInfo) : Bool :=
  a.host < b.host || (!(decide (b.host < a.host)) && a.port < b.port)

/-- An order in which the nodes of a hash map may be visited. -/
structure IterOrder where
  visit : List NodeInfo → List NodeInfo
  perm : ∀ nodes, (visit nodes).Perm nodes

def discover (r : RegistryServiceImpl) (now : ℤ) (service : String) (order : IterOrder) :
    RegistryServiceImpl × Response :=
  let r' := purgeExpired r now
  let nodes :=
    match r'.services.lookup service with
    | none => []
    | some nodes => order.visit ((values nodes).map NodeEntry.node)
  (r',{ errorCode := okCode, nodes := nodes.insertionSort fun a b => nodeLess b a = false })

inductive Request where
  | register (service : String) (node : NodeInfo)
  | unregister (service : String) (node : NodeInfo)
  | heartbeat (service : String) (node : NodeInfo)
  | discover (service : String) (order : IterOrder)

def handle (r : RegistryServiceImpl) (now : ℤ) : Request → RegistryServiceImpl × Response
  | .register service node => register r now service node
  | .unregister service node => unregister r service node
  | .heartbeat service node => heartbeat r now service node
  | .discover service order => discover r now service order

inductive Event where
  | request (request : Request)
  | evict

structure Answered where
  now : ℤ
  request : Request
  response : Response

def registry : Machine RegistryServiceImpl (ℤ × Event) Answered where
  step r i :=
    match i with
    | (now,.request q) => ((handle r now q).1,[⟨now,q,(handle r now q).2⟩])
    | (now,.evict) => (purgeExpired r now,[])

def entryAt (r : RegistryServiceImpl) (service key : String) : Option NodeEntry :=
  (r.services.lookup service).bind fun nodes => nodes.lookup key

theorem entryAt_insert (r : RegistryServiceImpl) (service : String)
    (nodes : Table String NodeEntry) (s k : String) :
    entryAt { r with services := r.services.insert service nodes } s k =
      if s = service then nodes.lookup k else entryAt r s k := by
  rw [entryAt,lookup_insert_cases]
  by_cases hs : s = service
  · rw [if_pos hs,if_pos hs,Option.bind_some]
  · rw [if_neg hs,if_neg hs,entryAt]

theorem entryAt_erase (r : RegistryServiceImpl) (service s k : String) :
    entryAt { r with services := r.services.erase service } s k =
      if s = service then none else entryAt r s k := by
  rw [entryAt,lookup_erase_cases]
  by_cases hs : s = service
  · rw [if_pos hs,if_pos hs,Option.bind_none]
  · rw [if_neg hs,if_neg hs,entryAt]

theorem entryAt_register (r : RegistryServiceImpl) (now : ℤ) (service : String) (node : NodeInfo)
    (s k : String) :
    entryAt (register r now service node).1 s k =
      if s = service ∧ k = nodeKey node then some ⟨node,now⟩ else entryAt r s k := by
  rw [register,entryAt_insert,lookup_insert_cases]
  by_cases hs : s = service
  · subst hs
    by_cases hk : k = nodeKey node
    · simp [hk]
    · cases hl : r.services.lookup s <;> simp [hk,entryAt,hl]
  · simp [hs]

theorem entryAt_unregister (r : RegistryServiceImpl) (service : String) (node : NodeInfo)
    (s k : String) :
    entryAt (unregister r service node).1 s k =
      if s = service ∧ k = nodeKey node then none else entryAt r s k := by
  rw [unregister]
  cases hl : r.services.lookup service with
  | none =>
    by_cases hs : s = service
    · subst hs
      simp [entryAt,hl]
    · simp [hs]
  | some nodes =>
    have hrest : ∀ k, (nodes.erase (nodeKey node)).lookup k =
        if k = nodeKey node then none else entryAt r service k := by
      intro k
      rw [lookup_erase_cases,entryAt,hl,Option.bind_some]
    by_cases he : (nodes.erase (nodeKey node)).entries.isEmpty
    · have hk := (lookup_of_isEmpty he k).symm.trans (hrest k)
      simp only [he,if_true]
      rw [entryAt_erase]
      by_cases hs : s = service
      · subst hs
        simpa using hk
      · simp [hs]
    · simp only [he]
      rw [if_neg (by simp),entryAt_insert,hrest]
      by_cases hs : s = service
      · subst hs
        simp
      · simp [hs]

theorem entryAt_heartbeat (r : RegistryServiceImpl) (now : ℤ) (service : String) (node : NodeInfo)
    (s k : String) :
    entryAt (heartbeat r now service node).1 s k =
      if s = service ∧ k = nodeKey node then
        (entryAt r s k).map fun e => { e with lastHeartbeat := now }
      else entryAt r s k := by
  rw [heartbeat]
  cases hl : r.services.lookup service with
  | none =>
    by_cases hs : s = service
    · subst hs
      simp [entryAt,hl]
    · simp [hs]
  | some nodes =>
    have hent : ∀ k, entryAt r service k = nodes.lookup k := by
      intro k
      rw [entryAt,hl,Option.bind_some]
    dsimp only
    cases he : nodes.lookup (nodeKey node) with
    | none =>
      by_cases hs : s = service ∧ k = nodeKey node
      · obtain ⟨rfl,rfl⟩ := hs
        simp [hent,he]
      · rw [if_neg hs]
    | some e =>
      dsimp only
      rw [entryAt_insert,lookup_insert_cases]
      by_cases hs : s = service
      · subst hs
        by_cases hk : k = nodeKey node
        · simp [hk,hent,he]
        · simp [hk,hent]
      · simp [hs]

theorem entryAt_purgeExpired (r : RegistryServiceImpl) (now : ℤ) (s k : String) :
    entryAt (purgeExpired r now) s k =
      (entryAt r s k).filter fun e => now-e.lastHeartbeat ≤ r.limit := by
  have hnodes : ∀ nodes : Table String NodeEntry, (purgeNodes r.limit now nodes).lookup k =
      (nodes.lookup k).filter fun e => now-e.lastHeartbeat ≤ r.limit := by
    intro nodes
    rw [purgeNodes,lookup_keep]
    cases nodes.lookup k with
    | none => rfl
    | some e =>
      rw [Option.bind_some,Option.filter_some]
      by_cases h : now-e.lastHeartbeat ≤ r.limit
      · rw [if_neg (by omega),if_pos (by simpa using h)]
      · rw [if_pos (by omega),if_neg (by simpa using h)]
  rw [entryAt,purgeExpired,lookup_keep,entryAt]
  cases r.services.lookup s with
  | none => rfl
  | some nodes =>
    rw [Option.bind_some,Option.bind_some,← hnodes nodes]
    by_cases he : (purgeNodes r.limit now nodes).entries.isEmpty
    · rw [if_pos he,lookup_of_isEmpty he]
      rfl
    · rw [if_neg he,Option.bind_some]

theorem heartbeat_response (r : RegistryServiceImpl) (now : ℤ) (service : String)
    (node : NodeInfo) :
    (heartbeat r now service node).2 =
      if (entryAt r service (nodeKey node)).isSome then { errorCode := okCode }
      else { errorCode := errCode, errorMessage := "node not registered" } := by
  rw [heartbeat,entryAt]
  cases hl : r.services.lookup service with
  | none => rfl
  | some nodes =>
    dsimp only
    rw [Option.bind_some]
    cases he : nodes.lookup (nodeKey node) <;> rfl

def NodeInfo.address (n : NodeInfo) : String ×ₗ ℕ := toLex (n.host,n.port.toNat)

theorem nodeLess_iff (a b : NodeInfo) : nodeLess a b = true ↔ a.address < b.address := by
  rw [nodeLess,NodeInfo.address,NodeInfo.address,Prod.Lex.toLex_lt_toLex]
  simp only [Bool.or_eq_true,Bool.and_eq_true,decide_eq_true_eq,Bool.not_eq_true',
    decide_eq_false_iff_not,UInt32.lt_iff_toNat_lt]
  constructor
  · rintro (h | ⟨h,hp⟩)
    · exact Or.inl h
    · rcases lt_trichotomy a.host b.host with hlt | heq | hgt
      · exact Or.inl hlt
      · exact Or.inr ⟨heq,hp⟩
      · exact absurd hgt h
  · rintro (h | ⟨h,hp⟩)
    · exact Or.inl h
    · exact Or.inr ⟨by rw [h]; exact lt_irrefl _,hp⟩

theorem append_colon_inj {xs ys ds es : List Char} (hd : ':' ∉ ds) (he : ':' ∉ es)
    (h : xs++ ':'::ds = ys++ ':'::es) : xs = ys ∧ ds = es := by
  induction xs generalizing ys with
  | nil =>
    cases ys with
    | nil => exact ⟨rfl,(List.cons.inj h).2⟩
    | cons y ys =>
      obtain ⟨-,rfl⟩ := List.cons.inj h
      simp at hd
  | cons x xs ih =>
    cases ys with
    | nil =>
      obtain ⟨-,rfl⟩ := List.cons.inj h
      simp at he
    | cons y ys =>
      obtain ⟨rfl,htail⟩ := List.cons.inj h
      obtain ⟨rfl,hds⟩ := ih htail
      exact ⟨rfl,hds⟩

theorem colon_not_mem_repr (n : ℕ) : ':' ∉ (Nat.repr n).toList := by
  rw [Nat.toList_repr]
  intro h
  exact absurd (Nat.isDigit_of_mem_toDigits (by decide) (by decide) h) (by decide)

theorem nodeKey_eq_iff (a b : NodeInfo) : nodeKey a = nodeKey b ↔ a.address = b.address := by
  constructor
  · intro h
    have hl : a.host.toList++ ':'::(Nat.repr a.port.toNat).toList =
        b.host.toList++ ':'::(Nat.repr b.port.toNat).toList := by
      simpa [nodeKey] using congrArg String.toList h
    obtain ⟨hh,hp⟩ := append_colon_inj (colon_not_mem_repr _) (colon_not_mem_repr _) hl
    have hhost := String.toList_inj.mp hh
    have hport : a.port.toNat = b.port.toNat := by
      rw [Nat.toList_repr,Nat.toList_repr] at hp
      have hn := congrArg (fun ds => Nat.ofDigitChars 10 ds 0) hp
      simpa using hn
    rw [NodeInfo.address,NodeInfo.address,hhost,hport]
  · intro h
    obtain ⟨hh,hp⟩ := Prod.mk.inj (toLex_inj.mp h)
    rw [nodeKey,nodeKey,hh,hp]

def WellKeyed (r : RegistryServiceImpl) : Prop :=
  ∀ s k e, entryAt r s k = some e → nodeKey e.node = k

theorem purgeExpired_wellKeyed (r : RegistryServiceImpl) (now : ℤ) (h : WellKeyed r) :
    WellKeyed (purgeExpired r now) := by
  intro s k e he
  rw [entryAt_purgeExpired,Option.filter_eq_some_iff] at he
  exact h s k e he.1

theorem handle_wellKeyed (r : RegistryServiceImpl) (now : ℤ) (q : Request) (h : WellKeyed r) :
    WellKeyed (handle r now q).1 := by
  cases q with
  | register service node =>
    intro s k e he
    rw [handle,entryAt_register] at he
    by_cases hs : s = service ∧ k = nodeKey node
    · rw [if_pos hs] at he
      obtain rfl := Option.some.inj he
      exact hs.2.symm
    · rw [if_neg hs] at he
      exact h s k e he
  | unregister service node =>
    intro s k e he
    rw [handle,entryAt_unregister] at he
    by_cases hs : s = service ∧ k = nodeKey node
    · rw [if_pos hs] at he
      simp at he
    · rw [if_neg hs] at he
      exact h s k e he
  | heartbeat service node =>
    intro s k e he
    rw [handle,entryAt_heartbeat] at he
    by_cases hs : s = service ∧ k = nodeKey node
    · rw [if_pos hs,Option.map_eq_some_iff] at he
      obtain ⟨e',he',rfl⟩ := he
      exact h s k e' he'
    · rw [if_neg hs] at he
      exact h s k e he
  | discover service order => exact purgeExpired_wellKeyed r now h

theorem step_wellKeyed (r : RegistryServiceImpl) (i : ℤ × Event) (h : WellKeyed r) :
    WellKeyed (registry.step r i).1 := by
  obtain ⟨now,e⟩ := i
  cases e with
  | request q => exact handle_wellKeyed r now q h
  | evict => exact purgeExpired_wellKeyed r now h

instance : Std.Total fun a b : NodeInfo => nodeLess b a = false where
  total a b := by
    simp only [← Bool.not_eq_true,nodeLess_iff,not_lt]
    exact le_total _ _

instance : IsTrans NodeInfo fun a b => nodeLess b a = false where
  trans a b c := by
    simp only [← Bool.not_eq_true,nodeLess_iff,not_lt]
    exact le_trans

theorem discover_collected (r : RegistryServiceImpl) (now : ℤ) (service : String)
    (order : IterOrder) (hw : WellKeyed r) :
    ∃ nodes : List NodeInfo,
      (discover r now service order).2.nodes.Perm nodes ∧
      (∀ n, n ∈ nodes ↔ ∃ e, entryAt (purgeExpired r now) service (nodeKey n) = some e ∧ e.node = n) ∧
      nodes.Pairwise fun a b => a.address ≠ b.address := by
  have hw' := purgeExpired_wellKeyed r now hw
  cases hl : (purgeExpired r now).services.lookup service with
  | none =>
    refine ⟨[],?_,?_,List.Pairwise.nil⟩
    · simp [discover,hl]
    · simp [entryAt,hl]
  | some m =>
    have hent : ∀ k, entryAt (purgeExpired r now) service k = m.lookup k := by
      intro k
      rw [entryAt,hl,Option.bind_some]
    refine ⟨(values m).map NodeEntry.node,?_,?_,?_⟩
    · simp only [discover,hl]
      exact (List.perm_insertionSort _ _).trans (order.perm _)
    · intro n
      rw [List.mem_map]
      constructor
      · rintro ⟨e,he,rfl⟩
        obtain ⟨k,hk⟩ := (mem_values m e).mp he
        have hkey := hw' service k e ((hent k).trans hk)
        exact ⟨e,by rw [hkey,hent,hk],rfl⟩
      · rintro ⟨e,he,rfl⟩
        exact ⟨e,(mem_values m e).mpr ⟨_,(hent _).symm.trans he⟩,rfl⟩
    · rw [List.pairwise_map]
      have hp := values_pairwise m (fun e => nodeKey e.node)
        (fun k e he => hw' service k e ((hent k).trans he))
      exact hp.imp fun hne heq => hne ((nodeKey_eq_iff _ _).mpr heq)

theorem mem_discover (r : RegistryServiceImpl) (now : ℤ) (service : String) (order : IterOrder)
    (hw : WellKeyed r) (n : NodeInfo) :
    n ∈ (discover r now service order).2.nodes ↔
      ∃ e, entryAt (purgeExpired r now) service (nodeKey n) = some e ∧ e.node = n := by
  obtain ⟨nodes,hp,hm,-⟩ := discover_collected r now service order hw
  rw [hp.mem_iff,hm]

theorem increasing_ext {ns ms : List NodeInfo} (hn : ns.Pairwise fun a b => a.address < b.address)
    (hm : ms.Pairwise fun a b => a.address < b.address) (h : ∀ n, n ∈ ns ↔ n ∈ ms) : ns = ms := by
  have hnodup : ∀ {l : List NodeInfo}, l.Pairwise (fun a b => a.address < b.address) → l.Nodup :=
    fun hl => hl.imp fun hlt heq => absurd hlt (by rw [heq]; exact lt_irrefl _)
  exact List.Perm.eq_of_pairwise (fun a b _ _ hab hba => absurd hab (lt_asymm hba)) hn hm
    ((List.perm_ext_iff_of_nodup (hnodup hn) (hnodup hm)).mpr h)

theorem discover_increasing (r : RegistryServiceImpl) (now : ℤ) (service : String)
    (order : IterOrder) (hw : WellKeyed r) :
    (discover r now service order).2.nodes.Pairwise fun a b => a.address < b.address := by
  obtain ⟨nodes,hp,-,hd⟩ := discover_collected r now service order hw
  have hne : (discover r now service order).2.nodes.Pairwise
      fun a b => a.address ≠ b.address := (hp.pairwise_iff fun h => h.symm).mpr hd
  have hle : (discover r now service order).2.nodes.Pairwise fun a b => nodeLess b a = false :=
    List.pairwise_insertionSort _ _
  refine (hle.and hne).imp fun h => ?_
  have hle' := h.1
  rw [← Bool.not_eq_true,nodeLess_iff,not_lt] at hle'
  exact lt_of_le_of_ne hle' h.2

/-- Two registries with the same live entries of a service give the same
answer, whatever their history and the order of their hash maps. -/
theorem discover_congr (r r' : RegistryServiceImpl) (now : ℤ) (service : String)
    (order order' : IterOrder) (hw : WellKeyed r) (hw' : WellKeyed r')
    (he : ∀ n, (entryAt (purgeExpired r now) service (nodeKey n)).map NodeEntry.node =
      (entryAt (purgeExpired r' now) service (nodeKey n)).map NodeEntry.node) :
    (discover r now service order).2 = (discover r' now service order').2 := by
  have hi := discover_increasing r now service order hw
  have hi' := discover_increasing r' now service order' hw'
  have hmem : ∀ n, n ∈ (discover r now service order).2.nodes ↔
      n ∈ (discover r' now service order').2.nodes := by
    intro n
    have h := he n
    rw [mem_discover r now service order hw,mem_discover r' now service order' hw']
    simp only [← Option.map_eq_some_iff,h]
  have hnodes := increasing_ext hi hi' hmem
  exact congrArg (fun l => { errorCode := okCode, nodes := l : Response }) hnodes

end MiniRpc.NodeRegistry
