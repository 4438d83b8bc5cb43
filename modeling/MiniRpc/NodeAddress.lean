import Mathlib
import MiniRpc.NodeCalls

/-!
# The address a node's requests go to

The channel of a node is found under a text made of its host and port, and
is created from that text: the last colon cuts it, `atoi` reads the port
and the cast keeps 16 bits of it, and `inet_pton` reads the host up to its
first NUL. A host that `inet_pton` does not take becomes the wildcard
address, to which Linux connects as to the local host. Nothing on the way
refuses the node.

`inetPton` stands for `inet_pton` with `AF_INET`. Mathlib is imported whole
for `Nat.toNat?_repr`, which no smaller part of it brings along.
-/

set_option autoImplicit false

namespace MiniRpc.NodeAddress
open MiniRpc.ByteBuffer MiniRpc.CallController MiniRpc.StepMachine MiniRpc.KeyedTable
open MiniRpc.NodeRegistry MiniRpc.LoadBalancer MiniRpc.CallOutcome MiniRpc.BalanceChannel
open MiniRpc.NodeCalls MiniRpc.ProtoWire
open MiniRpc.CallChannel (RpcChannel CallArgs)

variable {M : Type}

structure SockAddr where
  port : UInt16
  addr : UInt32
  deriving DecidableEq, Repr

def inaddrAny : UInt32 := 0

def cString (text : String) : List Char := text.toList.takeWhile (· ≠ '\x00')

section
variable (inetPton : List Char → Option UInt32)

def inetAddress (ip : String) (port : UInt16) : SockAddr where
  port := port
  addr :=
    match inetPton (cString ip) with
    | some addr => addr
    | none => inaddrAny

def target (s : LoadBalanceChannel M) (nodeKey : String) : SockAddr :=
  inetAddress inetPton (channelFor s nodeKey).host (channelFor s nodeKey).port

/-- The host is the text of an address, as a whole. -/
def Denotes (host : String) (addr : UInt32) : Prop :=
  '\x00' ∉ host.toList ∧ inetPton host.toList = some addr

/-- The node is at that address. -/
def IsAt (n : NodeInfo) (a : SockAddr) : Prop :=
  Denotes inetPton n.host a.addr ∧ a.port.toNat = n.port.toNat

end

theorem cString_eq {text : String} (h : '\x00' ∉ text.toList) : cString text = text.toList := by
  rw [cString,List.takeWhile_eq_self_iff]
  intro c hc
  exact decide_eq_true fun heq => h (heq ▸ hc)

theorem splitKey_nodeKey (n : NodeInfo) : splitKey (nodeKey n) = (n.host,Nat.repr n.port.toNat) := by
  have hkey : (nodeKey n).toList = n.host.toList++ ':'::(Nat.repr n.port.toNat).toList := by
    simp [nodeKey]
  have hport : ((nodeKey n).toList.reverse.takeWhile (· ≠ ':')).reverse =
      (Nat.repr n.port.toNat).toList := by
    rw [hkey,List.reverse_append,List.reverse_cons,List.append_assoc,List.takeWhile_append_of_pos]
    · simp
    · intro c hc
      rw [List.mem_reverse] at hc
      exact decide_eq_true fun heq => colon_not_mem_repr n.port.toNat (heq ▸ hc)
  have hlen : (nodeKey n).toList.length-(Nat.repr n.port.toNat).toList.length-1 =
      n.host.toList.length := by
    rw [hkey,List.length_append,List.length_cons]
    omega
  rw [splitKey,hport,hlen,hkey,List.take_left,String.ofList_toList,String.ofList_toList]

theorem atoiPort_repr (port : ℕ) : atoiPort (Nat.repr port) = UInt16.ofNat port := by
  rw [atoiPort,Nat.toNat?_repr]
  rfl

def Addressed (s : LoadBalanceChannel M) : Prop :=
  ∀ k, ((channelFor s k).host,(channelFor s k).port) = ((splitKey k).1,atoiPort (splitKey k).2)

theorem addressed_of_channels {s t : LoadBalanceChannel M} (h : t.channels = s.channels)
    (hs : Addressed s) : Addressed t := by
  intro k
  have hk := hs k
  rw [channelFor.eq_def] at hk ⊢
  rw [h]
  cases hfound : s.channels.lookup k with
  | none => rfl
  | some x => rwa [hfound] at hk

theorem keep_addressed {s t : LoadBalanceChannel M} (h : Keep s t) (hs : Addressed s) :
    Addressed t := by
  cases h with
  | pc pc => exact addressed_of_channels rfl hs
  | registryChannel x => exact addressed_of_channels rfl hs
  | turn r h => exact addressed_of_channels rfl hs
  | failedNodeKey nodeKey => exact addressed_of_channels rfl hs
  | nodeChannel nodeKey x =>
    intro k
    rw [channelFor_setChannel]
    by_cases hk : k = nodeKey
    · rw [if_pos hk,hk]
      exact hs nodeKey
    · rw [if_neg hk]
      exact hs k

theorem keeps_addressed {s t : LoadBalanceChannel M} (h : Keeps s t) (hs : Addressed s) :
    Addressed t := by
  induction h with
  | refl => exact hs
  | tail _ hlast ih => exact keep_addressed hlast ih

section
variable (env : Envelopes) (messages : DiscoverMessages) (hash64 : Bytes → UInt64)

theorem reachable_addressed {s : LoadBalanceChannel M} (h : Reachable env messages hash64 s) :
    Addressed s := by
  obtain ⟨_,_,_,_,_,is,rfl⟩ := h
  refine run_invariant _ (fun s _ => Addressed s) (fun t _ i ht => ?_) _ is fun _ => rfl
  rcases step_writes env messages hash64 t i with hkeeps | ⟨u,nodes,now,hbefore,hafter⟩
  · exact keeps_addressed hkeeps ht
  · apply keeps_addressed hafter
    exact addressed_of_channels (s := u) rfl (keeps_addressed hbefore ht)

theorem connected_sends {s : LoadBalanceChannel M} {args : CallArgs M} {attempt : ℕ}
    {nodeKey : String} {c : CallChannel.Call M} (hpc : s.pc = .calling args attempt nodeKey)
    (hconnecting : (channelFor s nodeKey).channel.pc = .connecting c)
    (hleft : (c.attempt:ℤ) ≤ (channelFor s nodeKey).channel.maxRetries) :
    ∃ msg, .node nodeKey (.attempted msg) ∈
      ((balanceChannel env messages hash64).step s (.node (.connectReturned none))).2 := by
  have hstep : (CallChannel.channel env).step (channelFor s nodeKey).channel (.connectReturned none) =
      CallChannel.connectReturned (channelFor s nodeKey).channel c none := by
    simp only [CallChannel.channel,hconnecting]
  rw [step_calling env messages hash64 hpc,nodeStep,hstep,CallChannel.connectReturned,
    CallChannel.startAttempt,if_pos hleft]
  exact ⟨_,List.mem_map_of_mem (List.mem_cons_of_mem _ (List.mem_singleton.mpr rfl))⟩

end

theorem target_nodeKey (inetPton : List Char → Option UInt32) {s : LoadBalanceChannel M}
    (h : Addressed s) (n : NodeInfo) :
    target inetPton s (nodeKey n) = inetAddress inetPton n.host (UInt16.ofNat n.port.toNat) := by
  obtain ⟨hhost,hport⟩ := Prod.mk.inj (h (nodeKey n))
  rw [target,hhost,hport,splitKey_nodeKey,atoiPort_repr]

/-- The requests for a node go to it exactly if its port has 16 bits and its
host is an address. -/
theorem isAt_inetAddress_iff (inetPton : List Char → Option UInt32) (n : NodeInfo) :
    IsAt inetPton n (inetAddress inetPton n.host (UInt16.ofNat n.port.toNat)) ↔
      n.port.toNat < 65536 ∧ ∃ addr, Denotes inetPton n.host addr := by
  have hport : (UInt16.ofNat n.port.toNat).toNat = n.port.toNat ↔ n.port.toNat < 65536 := by
    rw [UInt16.toNat_ofNat']
    constructor
    · intro h
      have := Nat.mod_lt n.port.toNat (show 0 < 2^16 by decide)
      omega
    · exact fun h => Nat.mod_eq_of_lt h
  constructor
  · rintro ⟨hdenotes,heq⟩
    exact ⟨hport.mp heq,_,hdenotes⟩
  · rintro ⟨hlt,addr,hdenotes⟩
    refine ⟨?_,hport.mpr hlt⟩
    rw [inetAddress,cString_eq hdenotes.1,hdenotes.2]
    exact hdenotes

/-- In every reachable state a node's channel connects to the host and the
low 16 bits of the port it was registered with, or to the wildcard address;
that is the node exactly if its port has 16 bits and its host is an address.
A channel that has connected sends, and no two nodes share one. -/
theorem node_address (inetPton : List Char → Option UInt32) (env : Envelopes)
    (messages : DiscoverMessages) (hash64 : Bytes → UInt64) (s : LoadBalanceChannel M)
    (h : Reachable env messages hash64 s) (n : NodeInfo) :
    target inetPton s (nodeKey n) = inetAddress inetPton n.host (UInt16.ofNat n.port.toNat) ∧
    (IsAt inetPton n (target inetPton s (nodeKey n)) ↔
      n.port.toNat < 65536 ∧ ∃ addr, Denotes inetPton n.host addr) ∧
    (∀ args attempt c, s.pc = .calling args attempt (nodeKey n) →
      (channelFor s (nodeKey n)).channel.pc = .connecting c →
      (c.attempt:ℤ) ≤ (channelFor s (nodeKey n)).channel.maxRetries →
      ∃ msg, .node (nodeKey n) (.attempted msg) ∈
        ((balanceChannel env messages hash64).step s (.node (.connectReturned none))).2) ∧
    (∀ m : NodeInfo, m.address ≠ n.address →
      nodeKey m ≠ nodeKey n ∧
      ∀ x, channelFor (setChannel s (nodeKey m) x) (nodeKey n) = channelFor s (nodeKey n)) := by
  have htarget := target_nodeKey inetPton (reachable_addressed env messages hash64 h) n
  refine ⟨htarget,?_,?_,?_⟩
  · rw [htarget]
    exact isAt_inetAddress_iff inetPton n
  · intro args attempt c hpc hconnecting hleft
    exact connected_sends env messages hash64 hpc hconnecting hleft
  · intro m hm
    have hkey : nodeKey m ≠ nodeKey n := fun heq => hm ((nodeKey_eq_iff m n).mp heq)
    refine ⟨hkey,fun x => ?_⟩
    rw [channelFor_setChannel,if_neg (Ne.symm hkey)]

def octet (digits : List Char) : Option ℕ :=
  let value := digits.foldl (fun n d => n*10+(d.toNat-48)) 0
  if digits ≠ [] ∧ digits.all Char.isDigit ∧ (digits.length = 1 ∨ digits.head? ≠ some '0') ∧
    value ≤ 255 then some value else none

def dottedQuad (text : List Char) : Option UInt32 :=
  match (text.splitOn '.').mapM octet with
  | some [a,b,c,d] => some (UInt32.ofNat (((a*256+b)*256+c)*256+d))
  | _ => none

def calledSole (n : NodeInfo) : LoadBalanceChannel Bytes × List (Output Bytes) :=
  (balanceChannel protoEnvelopes discoverMessages sampleHash).run
    (.new "EchoService" .kRoundRobin 3000 2000 1)
    (firstCall CallChannel.echoArgs [n]++[.node (.connectReturned none),.node sentAll,
      .node (answeredWith 1 { response := [104,105] })])

def returnedBy (os : List (Output M)) : List (ControllerPtr × Option M) :=
  os.filterMap fun
    | .returned controller response => some (controller,response)
    | _ => none

theorem calledSole_reachable (n : NodeInfo) :
    Reachable protoEnvelopes discoverMessages sampleHash (calledSole n).1 := ⟨_,_,_,_,_,_,rfl⟩

theorem requests_reach_nodeA :
    IsAt dottedQuad nodeA (target dottedQuad (calledSole nodeA).1 (nodeKey nodeA)) ∧
    returnedBy (calledSole nodeA).2 = [(.minirpc {},some [104,105])] ∧
    nodeKey nodeB ≠ nodeKey nodeA := by
  obtain ⟨-,hat,-,hapart⟩ := node_address dottedQuad protoEnvelopes discoverMessages sampleHash
    (calledSole nodeA).1 (calledSole_reachable nodeA) nodeA
  refine ⟨hat.mpr ⟨by decide,0x0A000001,?_⟩,by decide +kernel,(hapart nodeB (by decide)).1⟩
  exact ⟨by decide,by decide +kernel⟩

def wideNode : NodeInfo := { name := "c", host := "10.0.0.1", port := 65616 }

def namedNode : NodeInfo := { name := "d", host := "example.com", port := 9001 }

/-- A node is registered with a port of more than 16 bits, another with the
name of a host. Calls for them succeed at port 80 of the one and at the
wildcard address. -/
theorem requests_go_elsewhere :
    target dottedQuad (calledSole wideNode).1 (nodeKey wideNode) = ⟨80,0x0A000001⟩ ∧
    returnedBy (calledSole wideNode).2 = [(.minirpc {},some [104,105])] ∧
    target dottedQuad (calledSole namedNode).1 (nodeKey namedNode) = ⟨9001,inaddrAny⟩ ∧
    returnedBy (calledSole namedNode).2 = [(.minirpc {},some [104,105])] := by
  have htarget : ∀ n, target dottedQuad (calledSole n).1 (nodeKey n) =
      inetAddress dottedQuad n.host (UInt16.ofNat n.port.toNat) := fun n =>
    target_nodeKey dottedQuad (reachable_addressed _ _ _ (calledSole_reachable n)) n
  rw [htarget,htarget]
  decide +kernel

end MiniRpc.NodeAddress
