import MiniRpc.NodeCalls

/-!
# The node of a request

On a consistent-hash channel the first attempt of a request goes to the node
that owns the hash of its bytes on the ring. The ring is built from the list
alone, so the calls made before have no influence. An empty request has no
bytes to hash and takes its turn in the round robin instead.
-/

set_option autoImplicit false

namespace MiniRpc.NodeAffinity
open MiniRpc.ByteBuffer MiniRpc.CallController MiniRpc.StepMachine MiniRpc.KeyedTable
open MiniRpc.NodeRegistry MiniRpc.LoadBalancer MiniRpc.CallOutcome MiniRpc.BalanceChannel
open MiniRpc.NodeCalls MiniRpc.ProtoWire
open MiniRpc.CallChannel (RpcChannel CallArgs)

variable {M : Type}

def ownerOf (hash64 : Bytes → UInt64) (nodes : List NodeInfo) (request : Bytes) : String :=
  (({} : ConsistentHash).setNodes hash64 (nodes.map nodeKey)).selectNode hash64 request

theorem ownerOf_mem (hash64 : Bytes → UInt64) {nodes : List NodeInfo} (h : nodes ≠ [])
    (request : Bytes) : ownerOf hash64 nodes request ∈ nodes.map nodeKey := by
  have hkeys : nodes.map nodeKey ≠ [] := by simpa using h
  exact selectNode_mem hash64 {} (HashRing.build_ne_nil (by decide) hkeys) request

theorem ownerOf_ne_empty (hash64 : Bytes → UInt64) {nodes : List NodeInfo} (h : nodes ≠ [])
    (request : Bytes) : ownerOf hash64 nodes request ≠ "" := by
  obtain ⟨n,-,hn⟩ := List.mem_map.mp (ownerOf_mem hash64 h request)
  rw [← hn]
  exact nodeKey_ne_empty n

section
variable (env : Envelopes) (messages : DiscoverMessages) (hash64 : Bytes → UInt64)

theorem selectNodeKey_hashed {s : LoadBalanceChannel M} (h : Coherent hash64 (listing s))
    (htype : s.type = .kConsistentHash) (hnodes : s.nodes ≠ []) {request : Bytes}
    (hrequest : request ≠ []) :
    selectNodeKey hash64 s request = (ownerOf hash64 s.nodes request,s) := by
  have howner : s.consistentHash.selectNode hash64 request = ownerOf hash64 s.nodes request :=
    congrArg (ConsistentHash.selectNode hash64 · request) h.ring
  rw [selectNodeKey,if_neg hnodes,if_pos ⟨htype,hrequest⟩]
  dsimp only
  rw [howner,if_pos (ownerOf_ne_empty hash64 hnodes request)]

/-- `key` owns the hash of the request: it holds the next place at or after
it on the ring of the nodes, or the first place where there is none. -/
def OwnsHash (nodes : List NodeInfo) (request : Bytes) (key : String) : Prop :=
  ∃ ring place, HashRing.IsRing (virtualNode hash64) 100 (nodes.map nodeKey) ring ∧
    (place,key) ∈ ring ∧ HashRing.Next ring (hash64 request).toNat place

theorem ownerOf_owns {nodes : List NodeInfo} (h : nodes ≠ []) (request : Bytes) :
    OwnsHash hash64 nodes request (ownerOf hash64 nodes request) := by
  have hring := HashRing.build_isRing (virtualNode hash64) 100 (nodes.map nodeKey)
  have hkeys : nodes.map nodeKey ≠ [] := by simpa using h
  obtain ⟨x,hx,howner,hnext⟩ := HashRing.owner_next hring.sorted
    (HashRing.build_ne_nil (by decide) hkeys) (hash64 request).toNat
  refine ⟨_,x.1,hring,?_,hnext⟩
  rw [show ownerOf hash64 nodes request = x.2 from congrArg (Option.getD · "") howner]
  exact hx

theorem selectNodeKey_turn {s : LoadBalanceChannel M} (h : Coherent hash64 (listing s))
    (hnodes : s.nodes ≠ []) :
    (selectNodeKey hash64 s []).1 = keyAt s.nodes s.roundRobin.index.toNat ∧
    (selectNodeKey hash64 s []).2.roundRobin.index = s.roundRobin.index+1 := by
  have hturn : selectNodeKey hash64 s [] = nextByTurn s := by
    rw [selectNodeKey,if_neg hnodes,if_neg fun hhash => hhash.2 rfl]
  have hcount : s.roundRobin.nodeCount = s.nodes.length := h.count
  rw [hturn,nextByTurn,next_turn hcount hnodes]
  refine ⟨?_,rfl⟩
  dsimp only
  rw [keyAt,keyAt,Nat.mod_mod]

theorem selectNodeKey_mem {s : LoadBalanceChannel M} (h : Coherent hash64 (listing s))
    (hnodes : s.nodes ≠ []) (hashKey : Bytes) :
    (selectNodeKey hash64 s hashKey).1 ∈ s.nodes.map nodeKey := by
  by_cases hhash : s.type = .kConsistentHash ∧ hashKey ≠ []
  · rw [selectNodeKey_hashed hash64 h hhash.1 hnodes hhash.2]
    exact ownerOf_mem hash64 hnodes hashKey
  · rw [selectNodeKey,if_neg hnodes,if_neg hhash]
    exact keyAt_mem hnodes _

theorem beginAttempt_roundRobin (s : LoadBalanceChannel M) (args : CallArgs M) (attempt : ℕ)
    (nodeKey : String) : (beginAttempt env messages s args attempt nodeKey).1.roundRobin =
      s.roundRobin := by
  rw [beginAttempt]
  dsimp only
  split
  · rfl
  · dsimp only
    rw [endAttempt]
    split_ifs <;> rfl

structure Selects (s s' : LoadBalanceChannel M) (request : Bytes) (nodeKey : String) : Prop where
  nodes : s.nodes ≠ []
  key : nodeKey = (selectNodeKey hash64 s (if s.type = .kConsistentHash then request else [])).1
  turn : s'.roundRobin =
    (selectNodeKey hash64 s (if s.type = .kConsistentHash then request else [])).2.roundRobin

theorem startCall_selects {s : LoadBalanceChannel M} {args : CallArgs M} {nodeKey : String}
    {request : Bytes}
    (h : (0,nodeKey,request) ∈ selections (startCall env messages hash64 s args).2) :
    Selects hash64 s (startCall env messages hash64 s args).1 request nodeKey := by
  rw [selections_startCall] at h
  by_cases hempty : s.nodes = []
  · rw [if_pos hempty] at h
    cases h
  · rw [if_neg hempty,List.mem_singleton] at h
    obtain ⟨hkey,rfl⟩ := Prod.mk.inj (Prod.mk.inj h).2
    refine ⟨hempty,hkey,?_⟩
    rw [startCall,if_neg hempty]
    exact beginAttempt_roundRobin env messages _ args 0 _

theorem retryCall_not_first {s : LoadBalanceChannel M} {args : CallArgs M} {response : Option M}
    {attempt : ℕ} {nodeKey : String} {request : Bytes} :
    (0,nodeKey,request) ∉ selections (retryCall env messages s args response attempt).2 := by
  rw [selections_retryCall]
  split_ifs <;> simp

theorem takeNodes_index (s : LoadBalanceChannel M) (controller : ControllerPtr)
    (answer : Option Response) (now : ℤ) :
    (takeNodes hash64 s controller answer now).roundRobin.index = s.roundRobin.index := by
  rw [takeNodes]
  split_ifs <;> rfl

theorem first_attempt {s : LoadBalanceChannel M} (h : Coherent hash64 (listing s)) {i : Input M}
    {nodeKey : String} {request : Bytes}
    (hsel : (0,nodeKey,request) ∈ selections ((balanceChannel env messages hash64).step s i).2) :
    ∃ t : LoadBalanceChannel M, Coherent hash64 (listing t) ∧
      listing ((balanceChannel env messages hash64).step s i).1 = listing t ∧
      t.roundRobin.index = s.roundRobin.index ∧
      Selects hash64 t ((balanceChannel env messages hash64).step s i).1 request nodeKey := by
  revert hsel
  simp only [balanceChannel]
  split
  case h_1 args now hpc =>
    intro hsel
    rw [listing_callMethod]
    rw [callMethod,selections_cons_called] at hsel
    rw [callMethod]
    split_ifs at hsel ⊢
    · rw [selections_beginRefresh] at hsel
      cases hsel
    · exact ⟨s,h,rfl,rfl,startCall_selects env messages hash64 hsel⟩
  case h_2 args response failed j now hpc =>
    intro hsel
    rw [registryStep] at hsel ⊢
    dsimp only at hsel ⊢
    cases hreturn : returnOf ((CallChannel.channel env).step s.registryChannel j).2 with
    | none =>
      rw [hreturn] at hsel
      rw [selections_registry] at hsel
      cases hsel
    | some ret =>
      rw [hreturn] at hsel
      rw [selections_append,selections_registry,List.nil_append] at hsel
      cases failed with
      | none =>
        refine ⟨_,?_,?_,?_,startCall_selects env messages hash64 hsel⟩
        · apply takeNodes_coherent
          exact h
        · exact listing_endRefresh env messages hash64 _ args response none
        · exact takeNodes_index hash64 _ _ _ _
      | some attempt => exact absurd hsel (retryCall_not_first env messages)
  case h_3 args attempt key j hpc =>
    intro hsel
    rw [selections_nodeStep] at hsel
    cases hsel
  case h_4 =>
    intro hsel
    cases hsel

/-- After some history a consistent-hash channel makes the first attempt of
`request` on `nodeKey`, with the list `nodes`. The counter of its round robin
goes from `turn` to `turn'`. -/
def SendsFirst (nodes : List NodeInfo) (request : Bytes) (nodeKey : String) (turn turn' : UInt64) :
    Prop :=
  ∃ serviceName refreshIntervalMs callTimeoutMs callRetries, ∃ is : List (Input M), ∃ i s,
    s = ((balanceChannel env messages hash64).run
      (.new serviceName .kConsistentHash refreshIntervalMs callTimeoutMs callRetries) is).1 ∧
    ((balanceChannel env messages hash64).step s i).1.nodes = nodes ∧
    (0,nodeKey,request) ∈ selections ((balanceChannel env messages hash64).step s i).2 ∧
    s.roundRobin.index = turn ∧
    ((balanceChannel env messages hash64).step s i).1.roundRobin.index = turn'

theorem sendsFirst_selects {nodes : List NodeInfo} {request : Bytes} {nodeKey : String}
    {turn turn' : UInt64}
    (h : SendsFirst (M := M) env messages hash64 nodes request nodeKey turn turn') :
    ∃ s : LoadBalanceChannel M, Coherent hash64 (listing s) ∧ s.type = .kConsistentHash ∧
      s.nodes = nodes ∧ s.nodes ≠ [] ∧ s.roundRobin.index = turn ∧
      nodeKey = (selectNodeKey hash64 s request).1 ∧
      turn' = (selectNodeKey hash64 s request).2.roundRobin.index := by
  obtain ⟨_,_,_,_,is,i,s,hs,hnodes,hsel,hturn,hturn'⟩ := h
  have hcoherent := reachable_coherent env messages hash64 ⟨_,_,_,_,_,is,hs⟩
  have htype := (step_type env messages hash64 s i).trans
    ((congrArg LoadBalanceChannel.type hs).trans (run_type env messages hash64 _ is))
  obtain ⟨t,ht,hlist,hindex,hselects⟩ := first_attempt env messages hash64 hcoherent hsel
  have htype' : t.type = .kConsistentHash := (congrArg Listing.type hlist).symm.trans htype
  obtain ⟨hne,hkey,hnext⟩ := hselects
  rw [if_pos htype'] at hkey hnext
  exact ⟨t,ht,htype',(congrArg Listing.nodes hlist).symm.trans hnodes,hne,hindex.trans hturn,hkey,
    by rw [← hturn',hnext]⟩

end

/-- The list did not change, or both are lists that `Discover` can answer
(`discover_increasing`) with the same nodes. -/
def SameNodes (ns ms : List NodeInfo) : Prop :=
  ns = ms ∨ ns.Pairwise (fun a b => a.address < b.address) ∧
    ms.Pairwise (fun a b => a.address < b.address) ∧ ∀ n, n ∈ ns ↔ n ∈ ms

theorem sameNodes_eq {ns ms : List NodeInfo} (h : SameNodes ns ms) : ns = ms := by
  rcases h with heq | ⟨hn,hm,hmem⟩
  · exact heq
  · exact increasing_ext hn hm hmem

/-- Two first attempts of a request that is not empty, on whichever channels
and after whatever history, go to the same node if the lists are the same:
to the owner of its hash on the ring. An empty request takes the next turn of
the round robin, and so goes to the same node only if there is no other. -/
theorem request_keeps_node (env : Envelopes) (messages : DiscoverMessages) (hash64 : Bytes → UInt64)
    {nodes₁ nodes₂ : List NodeInfo} (hnodes : SameNodes nodes₁ nodes₂) {request : Bytes}
    {key₁ key₂ : String} {turn₁ turn₁' turn₂ turn₂' : UInt64}
    (h₁ : SendsFirst (M := M) env messages hash64 nodes₁ request key₁ turn₁ turn₁')
    (h₂ : SendsFirst (M := M) env messages hash64 nodes₂ request key₂ turn₂ turn₂') :
    (request ≠ [] ∨ nodes₁.length ≤ 1 → key₁ = key₂) ∧
    (request ≠ [] → OwnsHash hash64 nodes₁ request key₁ ∧ turn₁' = turn₁) ∧
    (request = [] → key₁ = keyAt nodes₁ turn₁.toNat ∧ turn₁' = turn₁+1) := by
  obtain ⟨s,hs,hstype,rfl,hsne,rfl,rfl,rfl⟩ := sendsFirst_selects env messages hash64 h₁
  obtain ⟨t,ht,httype,htnodes,htne,-,rfl,-⟩ := sendsFirst_selects env messages hash64 h₂
  have heq : t.nodes = s.nodes := by rw [htnodes,sameNodes_eq hnodes]
  refine ⟨?_,fun hne => ?_,?_⟩
  · rintro (hne | hsole)
    · rw [selectNodeKey_hashed hash64 hs hstype hsne hne,selectNodeKey_hashed hash64 ht httype htne hne,
        heq]
    · have hs' := selectNodeKey_mem hash64 hs hsne request
      have ht' := selectNodeKey_mem hash64 ht htne request
      rw [heq] at ht'
      obtain ⟨n,hn⟩ := List.length_eq_one_iff.mp (show s.nodes.length = 1 by
        have := List.length_pos_iff.mpr hsne
        omega)
      rw [hn,List.map_singleton,List.mem_singleton] at hs' ht'
      rw [hs',ht']
  · rw [selectNodeKey_hashed hash64 hs hstype hsne hne]
    exact ⟨ownerOf_owns hash64 hsne request,rfl⟩
  · rintro rfl
    exact selectNodeKey_turn hash64 hs hsne

def answeredOnce (args : CallArgs Bytes) : List (Input Bytes) :=
  firstCall args [nodeA,nodeB]++
    [.node (.connectReturned none),.node sentAll,.node (answeredWith 1 {})]

theorem request_keeps_node_echo :
    SendsFirst (M := Bytes) protoEnvelopes discoverMessages sampleHash [nodeA,nodeB] [104,105]
      "10.0.0.1:9001" 0 0 ∧
    OwnsHash sampleHash [nodeA,nodeB] [104,105] "10.0.0.1:9001" ∧
    (∀ key turn turn', SendsFirst (M := Bytes) protoEnvelopes discoverMessages sampleHash
      [nodeA,nodeB] [104,105] key turn turn' → "10.0.0.1:9001" = key) :=
  have h : SendsFirst (M := Bytes) protoEnvelopes discoverMessages sampleHash [nodeA,nodeB] [104,105]
      "10.0.0.1:9001" 0 0 :=
    ⟨"EchoService",3000,2000,1,answeredOnce CallChannel.echoArgs,.callMethod CallChannel.echoArgs 0,_,
      rfl,by decide +kernel,by decide +kernel,by decide +kernel,by decide +kernel⟩
  ⟨h,((request_keeps_node protoEnvelopes discoverMessages sampleHash (.inl rfl) h h).2.1
      (by decide)).1,
    fun _ _ _ h' => (request_keeps_node protoEnvelopes discoverMessages sampleHash (.inl rfl) h h').1
      (.inl (by decide))⟩

def emptyArgs : CallArgs Bytes := { CallChannel.echoArgs with request := [] }

/-- Two calls with an empty request on one channel, whose list does not
change, go to different nodes. -/
theorem empty_request_moves :
    SendsFirst (M := Bytes) protoEnvelopes discoverMessages sampleHash [nodeA,nodeB] []
      "10.0.0.1:9001" 0 1 ∧
    SendsFirst (M := Bytes) protoEnvelopes discoverMessages sampleHash [nodeA,nodeB] []
      "10.0.0.2:9002" 1 2 ∧
    selections ((balanceChannel protoEnvelopes discoverMessages sampleHash).run
      (.new "EchoService" .kConsistentHash 3000 2000 1)
      (answeredOnce emptyArgs++[.callMethod emptyArgs 0])).2 =
        [(0,"10.0.0.1:9001",[]),(0,"10.0.0.2:9002",[])] :=
  ⟨⟨"EchoService",3000,2000,1,(firstCall emptyArgs [nodeA,nodeB]).dropLast,
      .registry (listedNodes 1 [nodeA,nodeB]) 0,_,rfl,by decide +kernel,by decide +kernel,
      by decide +kernel,by decide +kernel⟩,
    ⟨"EchoService",3000,2000,1,answeredOnce emptyArgs,.callMethod emptyArgs 0,_,rfl,
      by decide +kernel,by decide +kernel,by decide +kernel,by decide +kernel⟩,by decide +kernel⟩

end MiniRpc.NodeAffinity
