import MiniRpc.BalanceChannel
import MiniRpc.LiveNodes

/-!
# The scan for another node

`selectNodeKeyForRetry` takes turns of the round robin until one of them
reaches a node that has not failed, and as many as there are nodes at most.
The turns visit every node, unless `index_` wraps among them: then the same
node may come twice in a row and others not at all. Two nodes are visited
even so, within three turns.
-/

set_option autoImplicit false

namespace MiniRpc.RetryScan
open MiniRpc.ByteBuffer MiniRpc.NodeRegistry MiniRpc.RegistryLease MiniRpc.LiveNodes
open MiniRpc.LoadBalancer MiniRpc.BalanceChannel

variable {M : Type}

section
variable {s : LoadBalanceChannel M} (hdistinct : DistinctKeys s.nodes) (hn : 2 ≤ s.nodes.length)
  (hcount : s.roundRobin.nodeCount = s.nodes.length) (failedKey : String)
include hdistinct hn hcount

theorem selectNodeKeyForRetry_stops :
    ∃ i ≤ 2, turnKey s.nodes s.roundRobin i ≠ failedKey ∧
      selectNodeKeyForRetry s failedKey = (turnKey s.nodes s.roundRobin i,
        { s with roundRobin :=
          { s.roundRobin with index := s.roundRobin.index+UInt64.ofNat (i+1) } }) := by
  have hne : s.nodes ≠ [] := List.ne_nil_of_length_pos (by omega)
  obtain ⟨i,hi,hkey,hscan⟩ := scanForRetry_stops hdistinct hn hcount failedKey
  refine ⟨i,hi,hkey,?_⟩
  rw [selectNodeKeyForRetry,if_neg hne,hscan]

theorem selectNodeKeyForRetry_finds :
    (selectNodeKeyForRetry s failedKey).1 ∈ s.nodes.map nodeKey ∧
    (selectNodeKeyForRetry s failedKey).1 ≠ failedKey := by
  have hne : s.nodes ≠ [] := List.ne_nil_of_length_pos (by omega)
  obtain ⟨i,-,hkey,hselect⟩ := selectNodeKeyForRetry_stops hdistinct hn hcount failedKey
  rw [hselect]
  exact ⟨keyAt_mem hne _,hkey⟩

end

/-- Of two nodes or more the scan returns one that has not failed, whatever
`index_` is. -/
theorem retry_scan_finds_another (s : LoadBalanceChannel M) (hn : 2 ≤ s.nodes.length)
    (hdistinct : DistinctKeys s.nodes) (hcount : s.roundRobin.nodeCount = s.nodes.length)
    (failedKey : String) :
    ∃ n ∈ s.nodes, (selectNodeKeyForRetry s failedKey).1 = nodeKey n ∧ nodeKey n ≠ failedKey := by
  obtain ⟨hmem,hne⟩ := selectNodeKeyForRetry_finds hdistinct hn hcount failedKey
  obtain ⟨n,hnode,hkey⟩ := List.mem_map.mp hmem
  refine ⟨n,hnode,hkey.symm,?_⟩
  rw [hkey]
  exact hne

def nodeC : NodeInfo := { name := "c", host := "10.0.0.3", port := 9003 }

def aboutToWrap : LoadBalanceChannel Bytes where
  serviceName := "EchoService"
  nodes := [nodeA,nodeB,nodeC]
  roundRobin := { index := 18446744073709551615, nodeCount := 3 }

theorem wrapped_scan_takes_third_turn :
    turnKey aboutToWrap.nodes aboutToWrap.roundRobin 0 = "10.0.0.1:9001" ∧
    turnKey aboutToWrap.nodes aboutToWrap.roundRobin 1 = "10.0.0.1:9001" ∧
    (selectNodeKeyForRetry aboutToWrap "10.0.0.1:9001").1 = "10.0.0.2:9002" ∧
    ∃ n ∈ [nodeA,nodeB,nodeC],
      (selectNodeKeyForRetry aboutToWrap "10.0.0.1:9001").1 = nodeKey n ∧
      nodeKey n ≠ "10.0.0.1:9001" := by
  have hdistinct : DistinctKeys aboutToWrap.nodes := by
    rw [DistinctKeys]
    decide +kernel
  exact ⟨by decide +kernel,by decide +kernel,by decide +kernel,
    retry_scan_finds_another aboutToWrap (by decide) hdistinct rfl "10.0.0.1:9001"⟩

/-- After a refresh from a registry that counts two live nodes, the retry
takes one of the live nodes that has not failed, whatever has happened at
the registry and however often the channel has called. -/
theorem refreshed_retry_takes_live_node (hash64 : Bytes → UInt64) (s : LoadBalanceChannel M)
    (timeout : ℤ) (h : List (ℤ × Event)) (now : ℤ) (service : String) (order : IterOrder)
    (hlive : 2 ≤ liveNodeCount (reached timeout h) now service) (refreshed : ℤ) (failedKey : String) :
    ∃ n, Live (reached timeout h) now service n ∧ nodeKey n ≠ failedKey ∧
      (selectNodeKeyForRetry (setNodes hash64 s
        (discover (reached timeout h) now service order).2.nodes refreshed) failedKey).1 =
          nodeKey n := by
  have hw : WellKeyed (reached timeout h) := run_wellKeyed timeout h
  rw [← discover_length (reached timeout h) now service order] at hlive
  have hdistinct := discover_distinctKeys (reached timeout h) now service order hw
  obtain ⟨hmem,hne⟩ := selectNodeKeyForRetry_finds
    (s := setNodes hash64 s (discover (reached timeout h) now service order).2.nodes refreshed)
    hdistinct hlive rfl failedKey
  obtain ⟨n,hnode,hkey⟩ := List.mem_map.mp hmem
  refine ⟨n,(mem_discover_live hw now service order n).mp hnode,?_,hkey.symm⟩
  rw [hkey]
  exact hne

end MiniRpc.RetryScan
