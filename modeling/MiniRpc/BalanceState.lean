import MiniRpc.NodeAffinity

/-!
# The three copies of the node list

`refreshNodes` writes the list of nodes, the range of the round robin and
the ring together, before the first attempt of a call or between its two
attempts. So they agree whenever a node is chosen, and the choice is a node
of the list. A `Discover` that fails writes none of them.
-/

set_option autoImplicit false

namespace MiniRpc.BalanceState
open MiniRpc.ByteBuffer MiniRpc.CallController MiniRpc.StepMachine MiniRpc.NodeRegistry
open MiniRpc.LoadBalancer MiniRpc.CallOutcome MiniRpc.BalanceChannel MiniRpc.NodeCalls
open MiniRpc.NodeAffinity MiniRpc.ProtoWire
open MiniRpc.CallChannel (RpcChannel CallArgs)

variable {M : Type}

theorem selectNodeKeyForRetry_mem {s : LoadBalanceChannel M} (hnodes : s.nodes ≠ [])
    (failedKey : String) :
    (selectNodeKeyForRetry s failedKey).1 ∈ s.nodes.map nodeKey := by
  rw [selectNodeKeyForRetry,if_neg hnodes]
  exact scanForRetry_mem hnodes failedKey _ _ (.inl (List.length_pos_iff.mpr hnodes))

section
variable (env : Envelopes) (messages : DiscoverMessages) (hash64 : Bytes → UInt64)

def ChoosesFrom (nodes : List NodeInfo) (os : List (Output M)) : Prop :=
  ∀ choice ∈ selections os, choice.2.1 ∈ nodes.map nodeKey

theorem startCall_chooses {s : LoadBalanceChannel M} (h : Coherent hash64 (listing s))
    (args : CallArgs M) : ChoosesFrom s.nodes (startCall env messages hash64 s args).2 := by
  intro choice hchoice
  rw [selections_startCall] at hchoice
  by_cases hempty : s.nodes = []
  · rw [if_pos hempty] at hchoice
    cases hchoice
  · rw [if_neg hempty,List.mem_singleton] at hchoice
    rw [hchoice]
    exact selectNodeKey_mem hash64 h hempty _

theorem retryCall_chooses (s : LoadBalanceChannel M) (args : CallArgs M) (response : Option M)
    (attempt : ℕ) : ChoosesFrom s.nodes (retryCall env messages s args response attempt).2 := by
  intro choice hchoice
  rw [selections_retryCall] at hchoice
  split_ifs at hchoice with hlen hattempt
  · cases hchoice
  · rw [List.mem_singleton] at hchoice
    rw [hchoice]
    exact selectNodeKeyForRetry_mem (List.ne_nil_of_length_pos (by omega)) _
  · cases hchoice

theorem endRefresh_chooses {s : LoadBalanceChannel M} (h : Coherent hash64 (listing s))
    (args : CallArgs M) (response : Option M) (failed : Option ℕ) :
    ChoosesFrom s.nodes (endRefresh env messages hash64 s args response failed).2 := by
  cases failed with
  | none => exact startCall_chooses env messages hash64 h args
  | some attempt => exact retryCall_chooses env messages s args response attempt

theorem step_chooses {s : LoadBalanceChannel M} (h : Coherent hash64 (listing s)) (i : Input M) :
    ChoosesFrom ((balanceChannel env messages hash64).step s i).1.nodes
      ((balanceChannel env messages hash64).step s i).2 := by
  simp only [balanceChannel]
  split
  case h_1 args now hpc =>
    rw [show (callMethod env messages hash64 s args now).1.nodes = s.nodes from
      congrArg Listing.nodes (listing_callMethod env messages hash64 s args now)]
    intro choice hchoice
    rw [callMethod,selections_cons_called] at hchoice
    split_ifs at hchoice
    · rw [selections_beginRefresh] at hchoice
      cases hchoice
    · exact startCall_chooses env messages hash64 h _ choice hchoice
  case h_2 args response failed j now hpc =>
    rw [registryStep]
    dsimp only
    cases hreturn : returnOf ((CallChannel.channel env).step s.registryChannel j).2 with
    | none =>
      intro choice hchoice
      dsimp only at hchoice
      rw [selections_registry] at hchoice
      cases hchoice
    | some ret =>
      intro choice hchoice
      dsimp only at hchoice ⊢
      rw [selections_append,selections_registry,List.nil_append] at hchoice
      rw [show (endRefresh env messages hash64 _ args response failed).1.nodes = _ from
        congrArg Listing.nodes (listing_endRefresh env messages hash64 _ args response failed)]
      refine endRefresh_chooses env messages hash64 ?_ args response failed choice hchoice
      apply takeNodes_coherent
      exact h
  case h_3 args attempt key j hpc =>
    intro choice hchoice
    rw [selections_nodeStep] at hchoice
    cases hchoice
  case h_4 =>
    intro choice hchoice
    cases hchoice

def afterFailedDiscover (s : LoadBalanceChannel M) (j : CallChannel.Input Response) :
    LoadBalanceChannel M :=
  { s with registryChannel := ((CallChannel.channel env).step s.registryChannel j).1 }

theorem registryStep_failed {s : LoadBalanceChannel M} {j : CallChannel.Input Response}
    {controller : ControllerPtr} {answer : Option Response}
    (hreturn : returnOf ((CallChannel.channel env).step s.registryChannel j).2 =
      some (controller,answer))
    (hfailed : controller.failed = true) (args : CallArgs M) (response : Option M)
    (failed : Option ℕ) (now : ℤ) :
    registryStep env messages hash64 s args response failed j now =
      ((endRefresh env messages hash64 (afterFailedDiscover env s j) args response failed).1,
        ((CallChannel.channel env).step s.registryChannel j).2.map .registry++
          (endRefresh env messages hash64 (afterFailedDiscover env s j) args response failed).2) := by
  rw [registryStep,hreturn]
  dsimp only
  rw [takeNodes,if_pos hfailed]
  rfl

end

theorem lastRefresh_keep (s t : LoadBalanceChannel M) (h : Keep s t) : t.lastRefresh = s.lastRefresh := by
  cases h <;> rfl

/-- In every reachable state the round robin counts the nodes of the list, the
ring is that of their keys, at 100 places each, every choice is one of them,
and a failed `Discover` leaves all of it as it was. -/
theorem balance_coherent (env : Envelopes) (messages : DiscoverMessages) (hash64 : Bytes → UInt64)
    (s : LoadBalanceChannel M) (h : Reachable env messages hash64 s) :
    s.roundRobin.nodeCount = s.nodes.length ∧
    s.consistentHash.virtualNodesPerNode = 100 ∧
    HashRing.IsRing (virtualNode hash64) 100 (s.nodes.map nodeKey) s.consistentHash.ring ∧
    (s.nodes ≠ [] →
      (∀ hashKey, (selectNodeKey hash64 s hashKey).1 ∈ s.nodes.map nodeKey) ∧
      ∀ failedKey, (selectNodeKeyForRetry s failedKey).1 ∈ s.nodes.map nodeKey) ∧
    (∀ i, ChoosesFrom ((balanceChannel env messages hash64).step s i).1.nodes
      ((balanceChannel env messages hash64).step s i).2) ∧
    (∀ args response failed j now controller answer, s.pc = .refreshing args response failed →
      returnOf ((CallChannel.channel env).step s.registryChannel j).2 = some (controller,answer) →
      controller.failed = true →
      (balanceChannel env messages hash64).step s (.registry j now) =
        ((endRefresh env messages hash64 (afterFailedDiscover env s j) args response failed).1,
          ((CallChannel.channel env).step s.registryChannel j).2.map .registry++
            (endRefresh env messages hash64 (afterFailedDiscover env s j) args response failed).2) ∧
      listing ((balanceChannel env messages hash64).step s (.registry j now)).1 = listing s ∧
      ((balanceChannel env messages hash64).step s (.registry j now)).1.lastRefresh =
        s.lastRefresh) := by
  have hcoherent := reachable_coherent env messages hash64 h
  have hring : s.consistentHash = ({} : ConsistentHash).setNodes hash64 (s.nodes.map nodeKey) :=
    hcoherent.ring
  refine ⟨hcoherent.count,?_,?_,fun hnodes => ⟨?_,?_⟩,step_chooses env messages hash64 hcoherent,?_⟩
  · rw [hring]
    rfl
  · rw [hring]
    exact HashRing.build_isRing (virtualNode hash64) 100 (s.nodes.map nodeKey)
  · exact selectNodeKey_mem hash64 hcoherent hnodes
  · exact selectNodeKeyForRetry_mem hnodes
  · intro args response failed j now controller answer hpc hreturn hfailed
    have hstep := step_refreshing env messages hash64 hpc j now
    rw [registryStep_failed env messages hash64 hreturn hfailed] at hstep
    have hkeeps : Keeps s ((balanceChannel env messages hash64).step s (.registry j now)).1 := by
      rw [hstep]
      exact (Keep.registryChannel s _).keeps.trans
        (endRefresh_keeps env messages hash64 (afterFailedDiscover env s j) args response failed)
    exact ⟨hstep,Keeps.eq listing_keep hkeeps,Keeps.eq lastRefresh_keep hkeeps⟩

def refusedAttempt : LoadBalanceChannel Bytes :=
  ((balanceChannel protoEnvelopes discoverMessages sampleHash).run
    (.new "EchoService" .kRoundRobin 3000 2000 1)
    (firstCall CallChannel.echoArgs [nodeA,nodeB]++
      [.node (.connectReturned (some ⟨111,"Connection refused"⟩))])).1

theorem refusedAttempt_reachable :
    Reachable protoEnvelopes discoverMessages sampleHash refusedAttempt :=
  ⟨_,_,_,_,_,_,rfl⟩

set_option maxRecDepth 20000 in
theorem refusedAttempt_refreshing :
    refusedAttempt.pc = .refreshing { CallChannel.echoArgs with
      controller := .minirpc (({} : RpcController).setFailedCode kSystem "Connection refused") }
      none (some 0) := rfl

def brokenPipe : CallChannel.Input Response := .sendReturned 0 (-1) ⟨32,"Broken pipe"⟩

/-- The registry is gone, and the second attempt takes the other node of the
list there was. -/
theorem failed_discover_keeps_nodes :
    refusedAttempt.nodes = [nodeA,nodeB] ∧
    listing ((balanceChannel protoEnvelopes discoverMessages sampleHash).step refusedAttempt
      (.registry brokenPipe 5)).1 = listing refusedAttempt ∧
    selections ((balanceChannel protoEnvelopes discoverMessages sampleHash).step refusedAttempt
      (.registry brokenPipe 5)).2 = [(1,"10.0.0.2:9002",CallChannel.echoArgs.request)] ∧
    (selectNodeKeyForRetry refusedAttempt "10.0.0.1:9001").1 ∈ refusedAttempt.nodes.map nodeKey := by
  have hnodes : refusedAttempt.nodes = [nodeA,nodeB] := by decide +kernel
  have hreturn : returnOf ((CallChannel.channel protoEnvelopes).step refusedAttempt.registryChannel
      brokenPipe).2 =
      some (.minirpc (({} : RpcController).setFailedCode kSystem "Broken pipe"),none) := by
    decide +kernel
  have hselects : selections ((balanceChannel protoEnvelopes discoverMessages sampleHash).step
      refusedAttempt (.registry brokenPipe 5)).2 =
      [(1,"10.0.0.2:9002",CallChannel.echoArgs.request)] := by
    decide +kernel
  obtain ⟨-,-,-,hkeys,-,hfailed⟩ := balance_coherent protoEnvelopes discoverMessages sampleHash
    refusedAttempt refusedAttempt_reachable
  obtain ⟨-,hlisting,-⟩ := hfailed _ _ _ brokenPipe 5 _ _ refusedAttempt_refreshing hreturn rfl
  exact ⟨hnodes,hlisting,hselects,(hkeys (by rw [hnodes]; decide)).2 _⟩

end MiniRpc.BalanceState
