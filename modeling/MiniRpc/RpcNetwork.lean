import MiniRpc.CallTraffic
import MiniRpc.RequestAnswers

/-!
# Clients and a server over TCP

Any number of channels call one server, each over a connection of its own
that is not broken. A connection is two byte streams: what one end has
sent is delivered in order and in any pieces. The loop threads read and
decode, the pool workers answer in any order, and an answer waits until the
loop writes its frame, in any order as well. Time-outs and retries leave
late answers in the streams and in the input buffers. Every answer in
flight still belongs to one attempt, and a call that succeeds has the
answer to its own last attempt.
-/

set_option autoImplicit false

namespace MiniRpc.RpcNetwork
open MiniRpc.ByteBuffer MiniRpc.WireCodec MiniRpc.CodecStream MiniRpc.CallController
open MiniRpc.Incremental MiniRpc.StepMachine MiniRpc.ProtoWire
open MiniRpc.CallChannel (RpcChannel CallArgs channel isAnswer echoArgs)
open MiniRpc.CallServer (RpcServer ServiceRegistry server sendEnvelope sendEnvelope_frame
  responseMessage isRequest onMessage workerRun handleRead echoRegistry)
open MiniRpc.RequestAnswers MiniRpc.CallProgress MiniRpc.CallTraffic
open MiniRpc.StatusFidelity (returnsOf)

variable {κ M N : Type} [DecidableEq κ]

/-- `up` and `down` are the bytes on their way; `outbox` holds the answers,
each with its request, whose frames are not written yet. -/
structure Network (κ M N : Type) where
  clients : κ → RpcChannel M
  server : RpcServer κ N
  up : κ → Bytes := fun _ => []
  down : κ → Bytes := fun _ => []
  outbox : κ → List (ProtocolMessage × RpcResponse) := fun _ => []

inductive Input (κ M N : Type) where
  | client (c : κ) (i : CallChannel.Input M)
  | server (i : CallServer.Input κ N)
  | write (c : κ) (k : ℕ)

inductive Output (κ M : Type) where
  | client (c : κ) (o : CallChannel.Output M)
  | server (o : CallServer.Output κ)
  | written (c : κ) (request : ProtocolMessage) (envelope : RpcResponse)

/-- A client reads what comes next on its connection, and does not lose the
connection. -/
def clientReady (s : Network κ M N) (c : κ) (i : CallChannel.Input M) : Bool :=
  keepsConnection i && (offered i).isPrefixOf (s.down c)

def serverReady (s : Network κ M N) : CallServer.Input κ N → Bool
  | .read c data => data.isPrefixOf (s.up c)
  | _ => true

def clientStep (env : Envelopes) (s : Network κ M N) (c : κ) (i : CallChannel.Input M) :
    Network κ M N × List (Output κ M) :=
  let r := (channel env).step (s.clients c) i
  ({ s with
      clients := Function.update s.clients c r.1
      up := Function.update s.up c (s.up c++sentOf r.2)
      down := Function.update s.down c ((s.down c).drop (receivedOf r.2).length) },
    r.2.map (.client c))

def serverStep (env : Envelopes) (s : Network κ M N) (i : CallServer.Input κ N) :
    Network κ M N × List (Output κ M) :=
  let r := (server env).step s.server i
  ({ s with
      server := r.1
      up := fun c => (s.up c).drop (receivedOn c r.2).length
      outbox := fun c => s.outbox c++answersOn c r.2 },
    r.2.map .server)

def writeStep (env : Envelopes) (s : Network κ M N) (c : κ) (k : ℕ) :
    Network κ M N × List (Output κ M) :=
  match (s.outbox c)[k]? with
  | none => (s,[])
  | some a =>
    ({ s with
        down := Function.update s.down c (s.down c++sendEnvelope env a.1.header.seq a.2)
        outbox := Function.update s.outbox c ((s.outbox c).eraseIdx k) },
      [.written c a.1 a.2])

def network (env : Envelopes) : Machine (Network κ M N) (Input κ M N) (Output κ M) where
  step s i :=
    match i with
    | .client c j => if clientReady s c j = true then clientStep env s c j else (s,[])
    | .server j => if serverReady s j = true then serverStep env s j else (s,[])
    | .write c k => writeStep env s c k

def Network.new (registry : ServiceRegistry N) (timeoutMs maxRetries : κ → ℤ) : Network κ M N where
  clients := fun c => RpcChannel.new (timeoutMs c) (maxRetries c)
  server := { registry }

def clientOf (c : κ) (os : List (Output κ M)) : List (CallChannel.Output M) :=
  os.filterMap fun
    | .client d o => if d = c then some o else none
    | _ => none

def serverOf (os : List (Output κ M)) : List (CallServer.Output κ) :=
  os.filterMap fun
    | .server o => some o
    | _ => none

def writtenOn (c : κ) (os : List (Output κ M)) : List (ProtocolMessage × RpcResponse) :=
  os.filterMap fun
    | .written d m envelope => if d = c then some (m,envelope) else none
    | _ => none

@[simp] theorem clientOf_append (c : κ) (os new : List (Output κ M)) :
    clientOf c (os++new) = clientOf c os++clientOf c new := List.filterMap_append

omit [DecidableEq κ] in
@[simp] theorem serverOf_append (os new : List (Output κ M)) :
    serverOf (os++new) = serverOf os++serverOf new := List.filterMap_append

@[simp] theorem writtenOn_append (c : κ) (os new : List (Output κ M)) :
    writtenOn c (os++new) = writtenOn c os++writtenOn c new := List.filterMap_append

@[simp] theorem clientOf_client (c : κ) (os : List (CallChannel.Output M)) :
    clientOf c (os.map (.client c)) = os := by
  simp [clientOf,List.filterMap_map]

theorem clientOf_other {c d : κ} (h : d ≠ c) (os : List (CallChannel.Output M)) :
    clientOf c (os.map (.client d)) = [] := by
  simp [clientOf,h]

@[simp] theorem clientOf_server (c : κ) (os : List (CallServer.Output κ)) :
    clientOf c (os.map (Output.server (M := M))) = [] := by
  simp [clientOf]

omit [DecidableEq κ] in
@[simp] theorem serverOf_client (c : κ) (os : List (CallChannel.Output M)) :
    serverOf (os.map (.client c)) = [] := by
  simp [serverOf]

omit [DecidableEq κ] in
@[simp] theorem serverOf_server (os : List (CallServer.Output κ)) :
    serverOf (os.map (Output.server (M := M))) = os := by
  simp [serverOf,List.filterMap_map]

@[simp] theorem writtenOn_client (c d : κ) (os : List (CallChannel.Output M)) :
    writtenOn c (os.map (.client d)) = [] := by
  simp [writtenOn]

@[simp] theorem writtenOn_server (c : κ) (os : List (CallServer.Output κ)) :
    writtenOn c (os.map (Output.server (M := M))) = [] := by
  simp [writtenOn]

/-- How the two ends of a connection, its streams and its history fit. -/
structure Linked (env : Envelopes) (maxRetries : ℤ) (c : κ) (s : Network κ M N)
    (os : List (Output κ M)) : Prop where
  retries : (s.clients c).maxRetries = maxRetries
  agrees : Agrees env (s.clients c).pc (openCall (clientOf c os))
  numbered : Numbered (s.clients c).nextSeq (attemptsOf (clientOf c os))
  uplink : receivedOn c (serverOf os)++(s.up c++unsent (s.clients c).pc) =
    (attemptsOf (clientOf c os)).flatMap encoded
  accounted : Accounted c s.server (serverOf os)
  answered : ∀ a ∈ s.outbox c++writtenOn c os, a ∈ answersOn c (serverOf os)
  downlink : receivedOf (clientOf c os)++s.down c =
    (writtenOn c os).flatMap fun a => sendEnvelope env a.1.header.seq a.2
  decoded : Resumes frameParser (receivedOf (clientOf c os)) (decodedOf (clientOf c os))
    (s.clients c).inputBuffer.readable

theorem taken_drop {taken offer stream : Bytes} (h : taken = [] ∨ taken = offer)
    (hp : offer.isPrefixOf stream = true) : taken++stream.drop taken.length = stream := by
  rcases h with rfl | rfl
  · rfl
  · exact List.prefix_iff_eq_append.mp (List.isPrefixOf_iff_prefix.mp hp)

theorem clientStep_linked {env : Envelopes} {maxRetries : ℤ} {c : κ} {s : Network κ M N}
    {os : List (Output κ M)} (h : Linked env maxRetries c s os) (d : κ)
    (i : CallChannel.Input M) (hi : clientReady s d i = true) :
    Linked env maxRetries c (clientStep env s d i).1 (os++(clientStep env s d i).2) := by
  rw [clientReady,Bool.and_eq_true] at hi
  by_cases hd : d = c
  · subst hd
    have ht := step_traffic env (s.clients d) i hi.1
    have ha := agrees_step env (s.clients d) i _ h.agrees
    rw [clientStep]
    generalize (channel env).step (s.clients d) i = r at ht ha
    refine ⟨?_,?_,?_,?_,?_,?_,?_,?_⟩ <;>
      simp only [Function.update_self,clientOf_append,clientOf_client,serverOf_append,
        serverOf_client,writtenOn_append,writtenOn_client,List.append_nil,openCall_append,
        attemptsOf_append,receivedOf_append,decodedOf_append]
    · exact ht.maxRetries.trans h.retries
    · exact ha
    · exact ht.numbered h.numbered
    · rw [List.flatMap_append,← h.uplink]
      simp only [List.append_assoc]
      rw [ht.sent]
    · exact h.accounted
    · exact h.answered
    · rw [List.append_assoc,taken_drop ht.received hi.2]
      exact h.downlink
    · exact ht.decoded _ _ h.decoded
  · have hc : c ≠ d := fun he => hd he.symm
    rw [clientStep]
    refine ⟨?_,?_,?_,?_,?_,?_,?_,?_⟩ <;>
      simp only [Function.update_of_ne hc,clientOf_append,clientOf_other hd,serverOf_append,
        serverOf_client,writtenOn_append,writtenOn_client,List.append_nil]
    · exact h.retries
    · exact h.agrees
    · exact h.numbered
    · exact h.uplink
    · exact h.accounted
    · exact h.answered
    · exact h.downlink
    · exact h.decoded

def readOn (c : κ) : CallServer.Input κ N → Bytes
  | .read d data => if d = c then data else []
  | _ => []

theorem server_received (env : Envelopes) (s : RpcServer κ N) (i : CallServer.Input κ N) (c : κ) :
    receivedOn c ((server env).step s i).2 = [] ∨
    receivedOn c ((server env).step s i).2 = readOn c i := by
  cases i with
  | read d data =>
    simp only [server]
    split
    · exact Or.inl rfl
    · rw [handleRead]
      split
      · exact Or.inl rfl
      · exact Or.inr (by simp [receivedOn,readOn])
  | readFailed d again =>
    simp only [server]
    split <;> exact Or.inl rfl
  | decode d f =>
    simp only [server]
    split
    · rw [onMessage]
      left
      split
      · rfl
      · rfl
      · dsimp only
        split
        · split <;> rfl
        · rfl
    · exact Or.inl rfl
  | work k exit =>
    simp only [server,workerRun]
    left
    split
    · rfl
    · dsimp only
      split <;> rfl

theorem serverStep_linked {env : Envelopes} {maxRetries : ℤ} {c : κ} {s : Network κ M N}
    {os : List (Output κ M)} (h : Linked env maxRetries c s os) (i : CallServer.Input κ N)
    (hi : serverReady s i = true) :
    Linked env maxRetries c (serverStep env s i).1 (os++(serverStep env s i).2) := by
  have hp : (readOn c i).isPrefixOf (s.up c) = true := by
    cases i with
    | read d data =>
      rw [readOn]
      by_cases hd : d = c
      · subst hd
        rw [if_pos rfl]
        exact hi
      · rw [if_neg hd]
        rfl
    | readFailed d again => rfl
    | decode d f => rfl
    | work k exit => rfl
  have hr := server_received env s.server i c
  have hacc := accounted_step env c s.server (serverOf os) i h.accounted
  rw [serverStep]
  generalize (server env).step s.server i = r at hr hacc
  refine ⟨?_,?_,?_,?_,?_,?_,?_,?_⟩ <;>
    simp only [clientOf_append,clientOf_server,serverOf_append,serverOf_server,writtenOn_append,
      writtenOn_server,List.append_nil,receivedOn_append,answersOn_append]
  · exact h.retries
  · exact h.agrees
  · exact h.numbered
  · rw [List.append_assoc,← List.append_assoc (receivedOn c r.2),taken_drop hr hp]
    exact h.uplink
  · exact hacc
  · intro a ha
    rw [List.append_assoc,List.mem_append,List.mem_append] at ha
    rw [List.mem_append]
    rcases ha with ha | ha | ha
    · exact Or.inl (h.answered a (List.mem_append_left _ ha))
    · exact Or.inr ha
    · exact Or.inl (h.answered a (List.mem_append_right _ ha))
  · exact h.downlink
  · exact h.decoded

theorem writeStep_linked {env : Envelopes} {maxRetries : ℤ} {c : κ} {s : Network κ M N}
    {os : List (Output κ M)} (h : Linked env maxRetries c s os) (d : κ) (k : ℕ) :
    Linked env maxRetries c (writeStep env s d k).1 (os++(writeStep env s d k).2) := by
  rw [writeStep]
  cases ha : (s.outbox d)[k]? with
  | none => simpa using h
  | some a =>
    have hclient : clientOf c [Output.written (M := M) d a.1 a.2] = [] := rfl
    have hserver : serverOf [Output.written (M := M) d a.1 a.2] = [] := rfl
    by_cases hd : d = c
    · subst hd
      have hwritten : writtenOn d [Output.written (M := M) d a.1 a.2] = [a] := by
        simp [writtenOn]
      refine ⟨?_,?_,?_,?_,?_,?_,?_,?_⟩ <;>
        simp only [Function.update_self,clientOf_append,hclient,serverOf_append,hserver,
          writtenOn_append,hwritten,List.append_nil]
      · exact h.retries
      · exact h.agrees
      · exact h.numbered
      · exact h.uplink
      · exact h.accounted
      · intro b hb
        rw [List.mem_append,List.mem_append,List.mem_singleton] at hb
        rcases hb with hb | hb | rfl
        · exact h.answered b (List.mem_append_left _ (List.mem_of_mem_eraseIdx hb))
        · exact h.answered b (List.mem_append_right _ hb)
        · exact h.answered b (List.mem_append_left _ (List.mem_of_getElem? ha))
      · rw [← List.append_assoc,h.downlink,List.flatMap_append]
        simp
      · exact h.decoded
    · have hc : c ≠ d := fun he => hd he.symm
      have hwritten : writtenOn c [Output.written (M := M) d a.1 a.2] = [] := by
        simp [writtenOn,hd]
      refine ⟨?_,?_,?_,?_,?_,?_,?_,?_⟩ <;>
        simp only [Function.update_of_ne hc,clientOf_append,hclient,serverOf_append,hserver,
          writtenOn_append,hwritten,List.append_nil]
      · exact h.retries
      · exact h.agrees
      · exact h.numbered
      · exact h.uplink
      · exact h.accounted
      · exact h.answered
      · exact h.downlink
      · exact h.decoded

theorem linked_step {env : Envelopes} {maxRetries : ℤ} {c : κ} {s : Network κ M N}
    {os : List (Output κ M)} (h : Linked env maxRetries c s os) (i : Input κ M N) :
    Linked env maxRetries c ((network env).step s i).1 (os++((network env).step s i).2) := by
  cases i with
  | client d j =>
    by_cases hi : clientReady s d j = true
    · simpa only [network,hi,if_true] using clientStep_linked h d j hi
    · simpa only [network,if_neg hi,List.append_nil] using h
  | server j =>
    by_cases hi : serverReady s j = true
    · simpa only [network,hi,if_true] using serverStep_linked h j hi
    · simpa only [network,if_neg hi,List.append_nil] using h
  | write d k => exact writeStep_linked h d k

theorem linked_new (env : Envelopes) (registry : ServiceRegistry N) (timeoutMs maxRetries : κ → ℤ)
    (c : κ) :
    Linked env (maxRetries c) c (Network.new registry timeoutMs maxRetries : Network κ M N) [] where
  retries := rfl
  agrees := rfl
  numbered := ⟨by simp [clientOf,attemptsOf],rfl,rfl⟩
  uplink := rfl
  accounted := accounted_start c registry
  answered := by simp [Network.new,writtenOn]
  downlink := rfl
  decoded := by
    change Resumes frameParser [] [] (Buffer.new kInitialSize).readable
    rw [readable_new]
    exact resumes_nil frameParser

theorem linked_run (env : Envelopes) (registry : ServiceRegistry N) (timeoutMs maxRetries : κ → ℤ)
    (is : List (Input κ M N)) (c : κ) :
    Linked env (maxRetries c) c
      ((network env).run (Network.new registry timeoutMs maxRetries) is).1
      ((network env).run (Network.new registry timeoutMs maxRetries) is).2 :=
  run_invariant (network env) (Linked env (maxRetries c) c) (fun _ _ i h => linked_step h i) _ is
    (linked_new env registry timeoutMs maxRetries c)

/-- The bodies on the connection fit in a frame, and `nextSeq_` has not
wrapped. -/
structure Moderate (env : Envelopes) (c : κ) (os : List (Output κ M)) : Prop where
  requests : ∀ m ∈ attemptsOf (clientOf c os), m.body.length ≤ kMaxBodySize
  responses : ∀ a ∈ writtenOn c os, (env.response.serialize a.2).length ≤ kMaxBodySize
  attempts : (attemptsOf (clientOf c os)).length < 2^64

section Provenance
variable {env : Envelopes} {maxRetries : ℤ} {c : κ} {s : Network κ M N} {os : List (Output κ M)}

theorem decoded_attempts (h : Linked env maxRetries c s os) (hm : Moderate env c os) :
    ∃ left, (attemptsOf (clientOf c os)).map received = decodedOn c (serverOf os)++left := by
  apply resumes_stream wireFraming _ _ h.accounted.frames
  · rw [← encoded_stream]
    exact h.uplink
  · intro m hin
    obtain ⟨seq,body,rfl⟩ := h.numbered.requests m hin
    exact ⟨rfl,rfl,hm.requests _ hin⟩

/-- A frame the client has decoded is that of an answer the server gave on
this connection. -/
theorem decoded_answer (h : Linked env maxRetries c s os)
    (hbody : ∀ a ∈ writtenOn c os, (env.response.serialize a.2).length ≤ kMaxBodySize)
    {m : ProtocolMessage} (hdec : m ∈ decodedOf (clientOf c os)) :
    ∃ a ∈ answersOn c (serverOf os), m = received (responseMessage env a.1.header.seq a.2) := by
  have hstream : receivedOf (clientOf c os)++s.down c = wireFraming.stream
      ((writtenOn c os).map fun a => responseMessage env a.1.header.seq a.2) := by
    rw [h.downlink,← encoded_stream,List.flatMap_map]
    simp only [sendEnvelope_frame,encoded_frame]
  obtain ⟨left,hleft⟩ := resumes_stream wireFraming _
    (fun k hk => by
      obtain ⟨a,ha,rfl⟩ := List.mem_map.mp hk
      exact ⟨rfl,rfl,hbody a ha⟩) h.decoded hstream
  have hin := List.mem_append_left left hdec
  rw [← hleft,List.map_map] at hin
  obtain ⟨a,ha,rfl⟩ := List.mem_map.mp hin
  exact ⟨a,h.answered a (List.mem_append_right _ ha),rfl⟩

theorem attempt_of_seq (h : Linked env maxRetries c s os) (hm : Moderate env c os)
    {k l : ProtocolMessage} (hk : k ∈ attemptsOf (clientOf c os))
    (hl : l ∈ attemptsOf (clientOf c os)) (hs : k.header.seq = l.header.seq) : k = l :=
  List.inj_on_of_nodup_map (h.numbered.nodup hm.attempts) hk hl hs

theorem answered_attempt (h : Linked env maxRetries c s os) (hm : Moderate env c os)
    {a : ProtocolMessage × RpcResponse} (ha : a ∈ answersOn c (serverOf os)) :
    ∃ k ∈ attemptsOf (clientOf c os), a.1 = received k := by
  obtain ⟨left,hleft⟩ := decoded_attempts h hm
  have hfst := List.mem_append_left (pendingOn c s.server++thrownOn c (serverOf os))
    (List.mem_map_of_mem (f := Prod.fst) ha)
  have hdec := (List.mem_filter.mp (h.accounted.requests.mem_iff.mpr hfst)).1
  have hin := List.mem_append_left left hdec
  rw [← hleft] at hin
  obtain ⟨k,hk,he⟩ := List.mem_map.mp hin
  exact ⟨k,hk,he.symm⟩

theorem answered_once (h : Linked env maxRetries c s os) (hm : Moderate env c os) :
    ((answersOn c (serverOf os)).map Prod.fst).Nodup := by
  obtain ⟨left,hleft⟩ := decoded_attempts h hm
  have hseq : (((attemptsOf (clientOf c os)).map received).map fun m => m.header.seq).Nodup := by
    rw [List.map_map]
    exact h.numbered.nodup hm.attempts
  have hdec := hseq.of_map
  rw [hleft] at hdec
  have hfilter := (List.nodup_append.mp hdec).1.filter isRequest
  exact (List.nodup_append.mp (h.accounted.requests.nodup_iff.mp hfilter)).1

end Provenance

theorem mem_answersOn {c : κ} {os : List (Output κ M)} {m : ProtocolMessage} {envelope : RpcResponse} :
    (m,envelope) ∈ answersOn c (serverOf os) ↔ .server (.sendEnvelope c m envelope) ∈ os := by
  rw [answersOn,List.mem_filterMap]
  constructor
  · rintro ⟨o,ho,hm⟩
    obtain ⟨x,hx,hxo⟩ := List.mem_filterMap.mp ho
    cases x with
    | server o' =>
      obtain rfl := Option.some.inj hxo
      cases o' with
      | sendEnvelope d m' e =>
        by_cases hd : d = c
        · subst hd
          simp only [if_true,Option.some.injEq,Prod.mk.injEq] at hm
          obtain ⟨rfl,rfl⟩ := hm
          exact hx
        · simp [hd] at hm
      | _ => cases hm
    | _ => cases hxo
  · intro hm
    exact ⟨_,List.mem_filterMap.mpr ⟨_,hm,rfl⟩,by simp⟩

theorem returning_step {env : Envelopes} {s : Network κ M N} {i : Input κ M N} {c : κ}
    {x : ControllerPtr × Option M}
    (hx : x ∈ returnsOf (clientOf c ((network env).step s i).2)) :
    ∃ j, (network env).step s i = clientStep env s c j := by
  cases i with
  | client d j =>
    by_cases hi : clientReady s d j = true
    · simp only [network,hi,if_true] at hx ⊢
      by_cases hd : d = c
      · subst hd
        exact ⟨j,rfl⟩
      · rw [clientStep,clientOf_other hd] at hx
        cases hx
    · simp only [network,if_neg hi] at hx
      cases hx
  | server j =>
    by_cases hi : serverReady s j = true
    · simp only [network,hi,if_true,serverStep,clientOf_server] at hx
      cases hx
    · simp only [network,if_neg hi] at hx
      cases hx
  | write d k =>
    simp only [network,writeStep] at hx
    split at hx <;> cases hx

/-- The response was parsed from the answer the server gave, on this
client's connection, to the request frame of the last attempt of the open
call. No other attempt of the client has the number of that attempt, and it
was answered once. -/
def OwnAnswer (c : κ) (os : List (Output κ M)) (response : Option M) : Prop :=
  ∃ args attempts last envelope got,
    openCall (clientOf c os) = some ⟨args,attempts++[last]⟩ ∧
    .server (.sendEnvelope c (received last) envelope) ∈ os ∧
    args.parseResponse envelope.response = some got ∧ response = some got ∧
    (∀ m ∈ attemptsOf (clientOf c os), m.header.seq = last.header.seq → m = last) ∧
    ∀ other, .server (.sendEnvelope c (received last) other) ∈ os → other = envelope

theorem own_answer {env : Envelopes} {maxRetries : ℤ} {c : κ} {s : Network κ M N}
    {os : List (Output κ M)} (h : Linked env maxRetries c s os) (hm : Moderate env c os)
    {args : CallArgs M} {attempts : List ProtocolMessage} {last : ProtocolMessage}
    (hopen : openCall (clientOf c os) = some ⟨args,attempts++[last]⟩)
    {a : ProtocolMessage × RpcResponse} (ha : a ∈ answersOn c (serverOf os))
    (hseq : a.1.header.seq = last.header.seq) {got : M}
    (hgot : args.parseResponse a.2.response = some got) : OwnAnswer c os (some got) := by
  obtain ⟨request,envelope⟩ := a
  have hlast := openCall_attempts hopen (List.mem_append_right attempts (List.mem_singleton_self last))
  obtain ⟨k,hk,rfl⟩ := answered_attempt h hm ha
  obtain rfl := attempt_of_seq h hm hk hlast hseq
  refine ⟨args,attempts,k,envelope,got,hopen,mem_answersOn.mp ha,hgot,rfl,?_,?_⟩
  · intro m hin hs
    exact attempt_of_seq h hm hin hlast hs
  · intro other hother
    have heq := List.inj_on_of_nodup_map (answered_once h hm) (mem_answersOn.mpr hother) ha rfl
    exact congrArg Prod.snd heq

/-- Whenever a call returns with its controller not failed, it returns the
answer to its own last attempt. -/
theorem no_cross_talk (env : Envelopes) (registry : ServiceRegistry N)
    (timeoutMs maxRetries : κ → ℤ) (is : List (Input κ M N)) (i : Input κ M N) (c : κ)
    (controller : ControllerPtr) (response : Option M)
    (hreturn : (controller,response) ∈ returnsOf (clientOf c ((network env).step
      ((network env).run (Network.new registry timeoutMs maxRetries) is).1 i).2))
    (hok : Succeeds controller) (hretries : 0 ≤ maxRetries c)
    (hm : Moderate env c ((network env).run (Network.new registry timeoutMs maxRetries) is).2) :
    OwnAnswer c ((network env).run (Network.new registry timeoutMs maxRetries) is).2 response := by
  have h := linked_run env registry timeoutMs maxRetries is c
  have h' := linked_step h i
  generalize (network env).run (Network.new registry timeoutMs maxRetries) is = r at h h' hm hreturn ⊢
  obtain ⟨j,hj⟩ := returning_step hreturn
  rw [hj] at hreturn h'
  rw [clientStep,clientOf_client] at hreturn
  obtain ⟨args,attempts,last,answer,resp,got,hopen,hdec,hanswer,hparse,-,hgot,rfl⟩ :=
    success_takes env (r.1.clients c) j _ h.agrees (by rw [h.retries]; exact hretries) hreturn hok
  have hwritten : ∀ a ∈ writtenOn c (r.2++(clientStep env r.1 c j).2),
      (env.response.serialize a.2).length ≤ kMaxBodySize := by
    rw [writtenOn_append,clientStep,writtenOn_client,List.append_nil]
    exact hm.responses
  obtain ⟨a,ha,rfl⟩ := decoded_answer h' hwritten (by
    rw [clientOf_append,clientStep,clientOf_client,decodedOf_append]
    exact List.mem_append_right _ hdec)
  rw [serverOf_append,clientStep,serverOf_client,List.append_nil] at ha
  have hresp : env.response.parse (received (responseMessage env a.1.header.seq a.2)).body =
      some a.2 := env.response.parse_serialize a.2
  rw [hparse] at hresp
  obtain rfl := Option.some.inj hresp
  have hseq : a.1.header.seq = last.header.seq := by
    rw [isAnswer,Bool.and_eq_true,beq_iff_eq,beq_iff_eq] at hanswer
    exact hanswer.2
  exact own_answer h hm hopen ha hseq hgot

def sendsAll : CallChannel.Input Bytes := .sendReturned 0 1000 ⟨0,""⟩

/-- Two clients call the echo service. The first attempt of one of them
times out; the workers run its two requests and that of the other client in
reverse order, and the late answer is written first. -/
def lateAnswer : List (Input Bool Bytes Bytes) :=
  [.client true (.callMethod echoArgs),.client true (.connectReturned none),.client true sendsAll,
   .server (.read true (encoded (echoRequest 1))),.server (.decode true none),
   .server (.decode true none),
   .client false (.callMethod echoArgs),.client false (.connectReturned none),
   .client false sendsAll,
   .server (.read false (encoded (echoRequest 1))),.server (.decode false none),
   .client true (.polled 0 .timeout),.client true sendsAll,
   .server (.read true (encoded (echoRequest 2))),.server (.decode true none),
   .server (.work 2 (.returned [] [2])),.server (.work 1 (.returned [] [3])),
   .server (.work 0 (.returned [] [1])),
   .write true 1,.write false 0,.write true 0]

def bothAnswers : Input Bool Bytes Bytes :=
  .client true (.polled 0 (.ready { pollin := true }
    (.ok (sendEnvelope protoEnvelopes 1 { response := [1] }++
      sendEnvelope protoEnvelopes 2 { response := [2] }))))

theorem no_cross_talk_late_answer :
    (.minirpc {},some [2]) ∈ returnsOf (clientOf true ((network protoEnvelopes).step
      ((network protoEnvelopes).run
        (Network.new echoRegistry (fun _ => 1000) fun _ => 1) lateAnswer).1 bothAnswers).2) ∧
    OwnAnswer true ((network protoEnvelopes).run
      (Network.new echoRegistry (fun _ => 1000) fun _ => 1) lateAnswer).2 (some [2]) := by
  have hreturn : (.minirpc {},some [2]) ∈ returnsOf (clientOf true ((network protoEnvelopes).step
      ((network protoEnvelopes).run
        (Network.new echoRegistry (fun _ => 1000) fun _ => 1) lateAnswer).1 bothAnswers).2) := by
    decide +kernel
  exact ⟨hreturn,no_cross_talk protoEnvelopes echoRegistry (fun _ => 1000) (fun _ => 1) lateAnswer
    bothAnswers true _ _ hreturn ⟨by decide,rfl⟩ (by decide)
    ⟨by decide +kernel,by decide +kernel,by decide +kernel⟩⟩

end MiniRpc.RpcNetwork
