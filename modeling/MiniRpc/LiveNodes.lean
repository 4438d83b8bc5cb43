import MiniRpc.RegistryLease

/-!
# The answer of `Discover` and the count of live nodes

`Discover` purges, collects and sorts; `liveNodeCount` filters and counts.
Both speak of the same nodes, those whose last heartbeat is not too old, and
the answer of `Discover` is the increasing list of them: no trace of the
order of registration, of the walk over a hash map or of the other services
is left in it.
-/

set_option autoImplicit false

namespace MiniRpc.LiveNodes
open MiniRpc.KeyedTable MiniRpc.StepMachine MiniRpc.NodeRegistry MiniRpc.RegistryLease

def liveNodeCount (r : RegistryServiceImpl) (now : ℤ) (service : String) : ℕ :=
  match r.services.lookup service with
  | none => 0
  | some nodes => (values nodes).countP fun e => now-e.lastHeartbeat ≤ r.limit

/-- The service has a live entry of the node. -/
def Live (r : RegistryServiceImpl) (now : ℤ) (service : String) (n : NodeInfo) : Prop :=
  ∃ e, entryAt r service (nodeKey n) = some e ∧ e.node = n ∧ now-e.lastHeartbeat ≤ r.limit

def reached (timeout : ℤ) (h : List (ℤ × Event)) : RegistryServiceImpl :=
  (registry.run (start timeout) h).1

theorem mem_discover_live {r : RegistryServiceImpl} (hw : WellKeyed r) (now : ℤ) (service : String)
    (order : IterOrder) (n : NodeInfo) :
    n ∈ (discover r now service order).2.nodes ↔ Live r now service n := by
  rw [mem_discover r now service order hw,entryAt_purgeExpired]
  simp only [Option.filter_eq_some_iff,decide_eq_true_eq,Live]
  constructor
  · rintro ⟨e,⟨he,hlive⟩,hn⟩
    exact ⟨e,he,hn,hlive⟩
  · rintro ⟨e,he,hn,hlive⟩
    exact ⟨e,⟨he,hlive⟩,hn⟩

theorem purgeNodes_length (limit now : ℤ) (nodes : Table String NodeEntry) :
    (values (purgeNodes limit now nodes)).length =
      (values nodes).countP fun e => now-e.lastHeartbeat ≤ limit := by
  rw [purgeNodes,values_keep]
  induction values nodes with
  | nil => rfl
  | cons e es ih =>
    by_cases hlive : now-e.lastHeartbeat ≤ limit
    · rw [List.filterMap_cons,if_neg (not_lt.mpr hlive),List.countP_cons_of_pos (by simpa using hlive)]
      exact congrArg (·+1) ih
    · rw [List.filterMap_cons,if_pos (not_le.mp hlive),List.countP_cons_of_neg (by simpa using hlive)]
      exact ih

theorem discover_length (r : RegistryServiceImpl) (now : ℤ) (service : String) (order : IterOrder) :
    (discover r now service order).2.nodes.length = liveNodeCount r now service := by
  rw [discover,liveNodeCount.eq_def]
  dsimp only
  rw [List.length_insertionSort,purgeExpired,lookup_keep]
  cases r.services.lookup service with
  | none => rfl
  | some nodes =>
    rw [Option.bind_some]
    dsimp only
    rw [← purgeNodes_length]
    by_cases hempty : (purgeNodes r.limit now nodes).entries.isEmpty
    · rw [if_pos hempty,values,List.isEmpty_iff.mp hempty]
      rfl
    · rw [if_neg hempty]
      exact (order.perm _).length_eq.trans (List.length_map _)

/-- The answer is strictly increasing by address, has as many nodes as are
counted live, and is determined by the set of the live ones. -/
theorem discover_canonical (timeout : ℤ) (h : List (ℤ × Event)) (now : ℤ) (service : String)
    (order : IterOrder) :
    (discover (reached timeout h) now service order).2.nodes.Pairwise
      (fun a b => a.address < b.address) ∧
    (discover (reached timeout h) now service order).2.nodes.length =
      liveNodeCount (reached timeout h) now service ∧
    ∀ (timeout' : ℤ) (h' : List (ℤ × Event)) (now' : ℤ) (service' : String) (order' : IterOrder),
      (∀ n, Live (reached timeout h) now service n ↔ Live (reached timeout' h') now' service' n) →
      (discover (reached timeout h) now service order).2 =
        (discover (reached timeout' h') now' service' order').2 := by
  have hw : WellKeyed (reached timeout h) := run_wellKeyed timeout h
  have hincreasing := discover_increasing (reached timeout h) now service order hw
  refine ⟨hincreasing,discover_length _ now service order,?_⟩
  intro timeout' h' now' service' order' hsame
  have hw' : WellKeyed (reached timeout' h') := run_wellKeyed timeout' h'
  have hnodes : (discover (reached timeout h) now service order).2.nodes =
      (discover (reached timeout' h') now' service' order').2.nodes := by
    apply increasing_ext hincreasing (discover_increasing (reached timeout' h') now' service' order' hw')
    intro n
    rw [mem_discover_live hw,mem_discover_live hw']
    exact hsame n
  exact congrArg (fun l => { errorCode := okCode, nodes := l : Response }) hnodes

def visitBackwards : IterOrder := ⟨List.reverse,fun _ => List.reverse_perm _⟩

def nodeAt (host : String) (port : UInt32) : NodeInfo := { host, port }

def twoLive : List (ℤ × Event) :=
  [(0,.request (.register "echo" (nodeAt "c" 1))),(1000000,.request (.register "echo" (nodeAt "a:1" 2))),
   (1000000,.request (.register "echo" (nodeAt "a" 12)))]

def twoLiveLater : List (ℤ × Event) :=
  [(5000000,.request (.register "echo" (nodeAt "a" 12))),(6000000,.request (.register "sum" (nodeAt "d" 3))),
   (7000000,.request (.register "echo" (nodeAt "a:1" 2)))]

theorem registration_order_invisible :
    (discover (reached 1 twoLive) 2000000 "echo" anyOrder).2.nodes = [nodeAt "a" 12,nodeAt "a:1" 2] ∧
    (discover (reached 1 twoLive) 2000000 "echo" anyOrder).2 =
      (discover (reached 4 twoLiveLater) 8000000 "echo" visitBackwards).2 := by
  have hfirst : (discover (reached 1 twoLive) 2000000 "echo" anyOrder).2.nodes =
      [nodeAt "a" 12,nodeAt "a:1" 2] := by decide +kernel
  have hlater : (discover (reached 4 twoLiveLater) 8000000 "echo" anyOrder).2.nodes =
      [nodeAt "a" 12,nodeAt "a:1" 2] := by decide +kernel
  refine ⟨hfirst,(discover_canonical 1 twoLive 2000000 "echo" anyOrder).2.2 4 twoLiveLater 8000000
    "echo" visitBackwards fun n => ?_⟩
  have hlive := mem_discover_live (run_wellKeyed 1 twoLive) 2000000 "echo" anyOrder n
  have hlive' := mem_discover_live (run_wellKeyed 4 twoLiveLater) 8000000 "echo" anyOrder n
  exact hlive.symm.trans ((iff_of_eq (congrArg (n ∈ ·) (hfirst.trans hlater.symm))).trans hlive')

end MiniRpc.LiveNodes
