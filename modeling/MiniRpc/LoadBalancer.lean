import MiniRpc.HashRing
import MiniRpc.TurnCounter
import MiniRpc.ProtoWire
import MiniRpc.NodeRegistry

/-!
# Choosing a node

`RoundRobin` counts calls in a `size_t` that wraps; `ConsistentHash` puts
every node on a ring at 100 places. `hash64` is the library's `std::hash`
and is a parameter. The scan for another node after a failure takes as many
turns of the round robin as there are nodes.
-/

set_option autoImplicit false

namespace MiniRpc.LoadBalancer
open MiniRpc.ByteBuffer MiniRpc.ProtoWire MiniRpc.NodeRegistry MiniRpc.TurnCounter

structure RoundRobin where
  index : UInt64 := 0
  nodeCount : ℕ := 0

def RoundRobin.setNodeCount (r : RoundRobin) (n : ℕ) : RoundRobin := { r with nodeCount := n }

def RoundRobin.next (r : RoundRobin) : ℕ × RoundRobin :=
  if r.nodeCount = 0 then (0,r) else (r.index.toNat%r.nodeCount,{ r with index := r.index+1 })

structure ConsistentHash where
  ring : List (ℕ × String) := []
  virtualNodesPerNode : ℕ := 100

/-- The `i`-th place of a node on the ring. -/
def virtualNode (hash64 : Bytes → UInt64) (key : String) (i : ℕ) : ℕ :=
  (hash64 (utf8 (key++"#"++Nat.repr i))).toNat

def ConsistentHash.setNodes (hash64 : Bytes → UInt64) (c : ConsistentHash) (nodeKeys : List String) :
    ConsistentHash :=
  { c with ring := HashRing.build (virtualNode hash64) c.virtualNodesPerNode nodeKeys }

def ConsistentHash.selectNode (hash64 : Bytes → UInt64) (c : ConsistentHash) (key : Bytes) : String :=
  (HashRing.owner c.ring (hash64 key).toNat).getD ""

def keyAt (nodes : List NodeInfo) (i : ℕ) : String := ((nodes[i%nodes.length]?).map nodeKey).getD ""

def scanForRetry (nodes : List NodeInfo) (failedKey : String) : ℕ → RoundRobin → String × RoundRobin
  | 0, r => (failedKey,r)
  | turns+1, r =>
    if keyAt nodes r.next.1 ≠ failedKey then (keyAt nodes r.next.1,r.next.2)
    else scanForRetry nodes failedKey turns r.next.2

@[simp] theorem next_nodeCount (r : RoundRobin) : r.next.2.nodeCount = r.nodeCount := by
  rw [RoundRobin.next]
  split_ifs <;> rfl

@[simp] theorem scanForRetry_nodeCount (nodes : List NodeInfo) (failedKey : String) (turns : ℕ)
    (r : RoundRobin) : (scanForRetry nodes failedKey turns r).2.nodeCount = r.nodeCount := by
  induction turns generalizing r with
  | zero => rfl
  | succ turns ih =>
    rw [scanForRetry]
    split_ifs
    · exact next_nodeCount r
    · rw [ih,next_nodeCount]

def DistinctKeys (nodes : List NodeInfo) : Prop := (nodes.map nodeKey).Nodup

theorem discover_distinctKeys (r : RegistryServiceImpl) (now : ℤ) (service : String)
    (order : IterOrder) (hw : WellKeyed r) : DistinctKeys (discover r now service order).2.nodes := by
  apply List.pairwise_map.mpr
  refine (discover_increasing r now service order hw).imp fun hlt heq => ?_
  rw [(nodeKey_eq_iff _ _).mp heq] at hlt
  exact lt_irrefl _ hlt

theorem nodeKey_ne_empty (n : NodeInfo) : nodeKey n ≠ "" := by
  intro h
  have := congrArg String.toList h
  simp [nodeKey] at this

theorem keyAt_mem {nodes : List NodeInfo} (h : nodes ≠ []) (i : ℕ) :
    keyAt nodes i ∈ nodes.map nodeKey := by
  have hlt : i%nodes.length < nodes.length := Nat.mod_lt _ (List.length_pos_iff.mpr h)
  rw [keyAt,List.getElem?_eq_getElem hlt]
  exact List.mem_map_of_mem (List.getElem_mem hlt)

/-- The scan returns the key of a node: if it runs out of turns, its last
turn met the key that failed. -/
theorem scanForRetry_mem {nodes : List NodeInfo} (h : nodes ≠ []) (failedKey : String) (turns : ℕ)
    (r : RoundRobin) (hturns : 0 < turns ∨ failedKey ∈ nodes.map nodeKey) :
    (scanForRetry nodes failedKey turns r).1 ∈ nodes.map nodeKey := by
  induction turns generalizing r with
  | zero => exact hturns.resolve_left (Nat.lt_irrefl 0)
  | succ turns ih =>
    rw [scanForRetry]
    by_cases hkey : keyAt nodes r.next.1 = failedKey
    · rw [if_neg (not_not_intro hkey)]
      refine ih r.next.2 (.inr ?_)
      rw [← hkey]
      exact keyAt_mem h _
    · rw [if_pos hkey]
      exact keyAt_mem h _

theorem keyAt_inj {nodes : List NodeInfo} (hd : DistinctKeys nodes) (h : nodes ≠ []) {i j : ℕ}
    (he : keyAt nodes i = keyAt nodes j) : i%nodes.length = j%nodes.length := by
  have hpos := List.length_pos_iff.mpr h
  have hi : i%nodes.length < nodes.length := Nat.mod_lt _ hpos
  have hj : j%nodes.length < nodes.length := Nat.mod_lt _ hpos
  rw [keyAt,keyAt,List.getElem?_eq_getElem hi,List.getElem?_eq_getElem hj] at he
  have hi' : i%nodes.length < (nodes.map nodeKey).length := by simpa using hi
  have hj' : j%nodes.length < (nodes.map nodeKey).length := by simpa using hj
  have hsame : (nodes.map nodeKey)[i%nodes.length] = (nodes.map nodeKey)[j%nodes.length] := by
    simpa using he
  exact (List.Nodup.getElem_inj_iff hd).mp hsame

def turnKey (nodes : List NodeInfo) (r : RoundRobin) (i : ℕ) : String :=
  keyAt nodes (place UInt64.size nodes.length r.index.toNat i)

section
variable {nodes : List NodeInfo} {r : RoundRobin} (hr : r.nodeCount = nodes.length) (h : nodes ≠ [])
include hr h

theorem next_turn : r.next = (r.index.toNat%nodes.length,{ r with index := r.index+1 }) := by
  have hpos := List.length_pos_iff.mpr h
  rw [RoundRobin.next,if_neg (by omega),hr]

theorem turnKey_zero : keyAt nodes r.next.1 = turnKey nodes r 0 := by
  have hlt : r.index.toNat < UInt64.size := r.index.toNat_lt
  rw [next_turn hr h,turnKey,place,Nat.add_zero,Nat.mod_eq_of_lt hlt]

theorem turnKey_succ (i : ℕ) : turnKey nodes r (i+1) = turnKey nodes r.next.2 i := by
  have hnext : (r.index+1).toNat = (r.index.toNat+1)%UInt64.size := UInt64.toNat_add _ _
  rw [next_turn hr h,turnKey,turnKey,place_succ,hnext]

theorem scanForRetry_first {failedKey : String} {i turns : ℕ} (hi : i < turns)
    (hmiss : ∀ j < i, turnKey nodes r j = failedKey) (hfound : turnKey nodes r i ≠ failedKey) :
    scanForRetry nodes failedKey turns r =
      (turnKey nodes r i,{ r with index := r.index+UInt64.ofNat (i+1) }) := by
  induction i generalizing r turns with
  | zero =>
    obtain ⟨turns,rfl⟩ := Nat.exists_eq_add_one.mpr hi
    rw [scanForRetry,turnKey_zero hr h,if_pos hfound,next_turn hr h]
    rfl
  | succ i ih =>
    obtain ⟨turns,rfl⟩ := Nat.exists_eq_add_one.mpr (Nat.zero_lt_of_lt hi)
    have hcount : r.next.2.nodeCount = nodes.length := (next_nodeCount r).trans hr
    have hrest := ih hcount (Nat.lt_of_succ_lt_succ hi)
      (fun j hj => (turnKey_succ hr h j).symm.trans (hmiss (j+1) (Nat.succ_lt_succ hj)))
      (fun hj => hfound ((turnKey_succ hr h i).trans hj))
    rw [scanForRetry,turnKey_zero hr h,if_neg (not_not_intro (hmiss 0 (Nat.succ_pos i))),hrest,
      turnKey_succ hr h,next_turn hr h]
    have hindex : r.index+1+UInt64.ofNat (i+1) = r.index+UInt64.ofNat (i+1+1) := by
      rw [UInt64.ofNat_add (i+1) 1,UInt64.add_assoc,UInt64.add_comm 1]
      rfl
    rw [hindex]

end

theorem turnKey_leaves {nodes : List NodeInfo} (hd : DistinctKeys nodes) (hn : 2 ≤ nodes.length)
    (r : RoundRobin) (failedKey : String) :
    ∃ i < nodes.length, i ≤ 2 ∧ turnKey nodes r i ≠ failedKey := by
  have h : nodes ≠ [] := List.ne_nil_of_length_pos (by omega)
  by_contra hall
  have hsame : ∀ i < nodes.length, i ≤ 2 → turnKey nodes r i = failedKey := by
    intro i hi hi2
    by_contra hne
    exact hall ⟨i,hi,hi2,hne⟩
  obtain ⟨i,hi,hi2,hne⟩ := place_leaves (w := UInt64.size) (by decide) hn (fun _ => by decide)
    r.index.toNat (place UInt64.size nodes.length r.index.toNat 0)
  have hkeys := (hsame i hi hi2).trans (hsame 0 (by omega) (by omega)).symm
  have hplace := keyAt_inj hd h hkeys
  simp only [place,Nat.mod_mod] at hplace
  exact hne hplace

/-- Among at least two nodes the scan finds one that has not failed,
wherever the counter stands. It takes three turns at most. -/
theorem scanForRetry_stops {nodes : List NodeInfo} {r : RoundRobin} (hd : DistinctKeys nodes)
    (hn : 2 ≤ nodes.length) (hr : r.nodeCount = nodes.length) (failedKey : String) :
    ∃ i ≤ 2, turnKey nodes r i ≠ failedKey ∧ scanForRetry nodes failedKey nodes.length r =
      (turnKey nodes r i,{ r with index := r.index+UInt64.ofNat (i+1) }) := by
  have h : nodes ≠ [] := List.ne_nil_of_length_pos (by omega)
  obtain ⟨k,hk,hk2,hne⟩ := turnKey_leaves hd hn r failedKey
  have hex : ∃ i, turnKey nodes r i ≠ failedKey := ⟨k,hne⟩
  have hfirst : Nat.find hex ≤ k := Nat.find_min' hex hne
  have hmiss : ∀ j < Nat.find hex, turnKey nodes r j = failedKey :=
    fun j hj => not_not.mp (Nat.find_min hex hj)
  exact ⟨Nat.find hex,by omega,Nat.find_spec hex,
    scanForRetry_first hr h (by omega) hmiss (Nat.find_spec hex)⟩

theorem selectNode_mem (hash64 : Bytes → UInt64) (c : ConsistentHash) {nodeKeys : List String}
    (h : (c.setNodes hash64 nodeKeys).ring ≠ []) (key : Bytes) :
    (c.setNodes hash64 nodeKeys).selectNode hash64 key ∈ nodeKeys := by
  obtain ⟨x,hx,howner⟩ := HashRing.owner_mem h (hash64 key).toNat
  rw [ConsistentHash.selectNode,howner]
  exact HashRing.mem_build hx

/-- Removing a node from the list moves only the keys that were its own, and
what the ring selects is always in the list. Places may collide and keys may
be listed twice. -/
theorem removal_moves_own_keys (hash64 : Bytes → UInt64) (c : ConsistentHash)
    (nodeKeys : List String) (node : String) (key : Bytes) :
    ((c.setNodes hash64 nodeKeys).selectNode hash64 key ≠ node →
      (c.setNodes hash64 (nodeKeys.filter (· ≠ node))).selectNode hash64 key =
        (c.setNodes hash64 nodeKeys).selectNode hash64 key) ∧
    ((c.setNodes hash64 nodeKeys).ring ≠ [] →
      (c.setNodes hash64 nodeKeys).selectNode hash64 key ∈ nodeKeys) := by
  refine ⟨fun hother => ?_,fun hring => selectNode_mem hash64 c hring key⟩
  cases howner : HashRing.owner (c.setNodes hash64 nodeKeys).ring (hash64 key).toNat with
  | some k =>
    have hselect : (c.setNodes hash64 nodeKeys).selectNode hash64 key = k := by
      rw [ConsistentHash.selectNode,howner]
      rfl
    rw [hselect] at hother ⊢
    rw [ConsistentHash.selectNode,ConsistentHash.setNodes,
      HashRing.owner_without (virtualNode hash64) c.virtualNodesPerNode howner hother]
    rfl
  | none =>
    have hempty : (c.setNodes hash64 nodeKeys).ring = [] := by
      by_contra hne
      obtain ⟨x,-,hx⟩ := HashRing.owner_mem hne (hash64 key).toNat
      exact Option.some_ne_none _ (hx.symm.trans howner)
    have hless : (c.setNodes hash64 (nodeKeys.filter (· ≠ node))).ring = [] := by
      apply List.eq_nil_iff_forall_not_mem.mpr
      intro y hy
      obtain ⟨k,hk⟩ :=
        (HashRing.build_without (virtualNode hash64) c.virtualNodesPerNode node nodeKeys).places y hy
      exact absurd (hempty ▸ hk : (y.1,k) ∈ []) List.not_mem_nil
    rw [ConsistentHash.selectNode,ConsistentHash.selectNode,hempty,hless]

def digitSum (b : Bytes) : UInt64 := UInt64.ofNat (b.foldl (fun n x => n+x.toNat) 0%8)

theorem collided_node_keeps_key :
    (({ virtualNodesPerNode := 2 } : ConsistentHash).setNodes digitSum ["a","b","c"]).ring =
      [(4,"a"),(5,"b"),(6,"c"),(7,"c")] ∧
    (({ virtualNodesPerNode := 2 } : ConsistentHash).setNodes digitSum ["a","b"]).selectNode
      digitSum [5] = "b" ∧
    "b" ∈ ["a","b","c"] := by
  have hring : (({ virtualNodesPerNode := 2 } : ConsistentHash).setNodes digitSum
      ["a","b","c"]).ring = [(4,"a"),(5,"b"),(6,"c"),(7,"c")] := by decide +kernel
  have hselect : (({ virtualNodesPerNode := 2 } : ConsistentHash).setNodes digitSum
      ["a","b","c"]).selectNode digitSum [5] = "b" := by decide +kernel
  have h := removal_moves_own_keys digitSum { virtualNodesPerNode := 2 } ["a","b","c"] "c" [5]
  have hkept := h.1 (by rw [hselect]; decide)
  have hmem := h.2 (by rw [hring]; exact List.cons_ne_nil _ _)
  rw [hselect] at hkept hmem
  exact ⟨hring,hkept,hmem⟩

end MiniRpc.LoadBalancer
