import Mathlib.Data.List.Perm.Subperm
import MiniRpc.RpcNetwork

/-!
# What a call does to the server

A call makes at most `maxRetries+1` attempts, each with the same request in
it. As long as connections do not break, bodies fit in frames and `nextSeq_`
does not wrap, every request the server has dealt with on a connection is an
attempt of one call of the client, and no attempt is dealt with twice. So a
call has at most `maxRetries+1` effects on the server, or none, and the server
does nothing that no client has called for.
-/

set_option autoImplicit false

namespace MiniRpc.CallEffects
open MiniRpc.ByteBuffer MiniRpc.WireCodec MiniRpc.CodecStream MiniRpc.CallController
open MiniRpc.StepMachine MiniRpc.ProtoWire MiniRpc.CallChannel MiniRpc.CallProgress
open MiniRpc.CallTraffic MiniRpc.RequestAnswers MiniRpc.RpcNetwork
open MiniRpc.CallServer (ServiceRegistry isRequest echoRegistry)

section Channel
variable {M : Type}

def record (calls : List (OpenCall M)) : CallChannel.Output M → List (OpenCall M)
  | .called args => { args }::calls
  | .attempted m =>
    match calls with
    | [] => []
    | x::xs => { x with attempts := x.attempts++[m] }::xs
  | _ => calls

def callsOf (os : List (CallChannel.Output M)) : List (OpenCall M) := os.foldl record []

@[simp] theorem callsOf_append (os new : List (CallChannel.Output M)) :
    callsOf (os++new) = new.foldl record (callsOf os) := List.foldl_append

def envelopeOf (env : Envelopes) (args : CallArgs M) : Bytes :=
  env.request.serialize ⟨args.method,args.request⟩

/-- The latest call is the one in progress, and `attempt` counts its
time-outs. -/
def Current (env : Envelopes) (pc : Pc M) (calls : List (OpenCall M)) : Prop :=
  match pc with
  | .idle => True
  | .connecting c => ∃ x xs, calls = x::xs ∧ c.envelopeBytes = envelopeOf env x.args ∧
      x.attempts.length = c.attempt
  | .sending c _ => ∃ x xs, calls = x::xs ∧ c.envelopeBytes = envelopeOf env x.args ∧
      x.attempts.length = c.attempt+1
  | .waiting c _ => ∃ x xs, calls = x::xs ∧ c.envelopeBytes = envelopeOf env x.args ∧
      x.attempts.length = c.attempt+1

structure Counted (env : Envelopes) (s : RpcChannel M) (calls : List (OpenCall M))
    (attempts : List ProtocolMessage) : Prop where
  flat : attempts = calls.reverse.flatMap OpenCall.attempts
  bounded : ∀ x ∈ calls, x.attempts.length ≤ (s.maxRetries+1).toNat
  bodies : ∀ x ∈ calls, ∀ m ∈ x.attempts, m.body = envelopeOf env x.args
  current : Current env s.pc calls

theorem counted_silent {env : Envelopes} {s t : RpcChannel M} {calls : List (OpenCall M)}
    {attempts : List ProtocolMessage} (h : Counted env s calls attempts)
    (os : List (CallChannel.Output M)) (hretries : t.maxRetries = s.maxRetries)
    (hpc : Current env t.pc calls) (hrecord : os.foldl record calls = calls)
    (hnone : attemptsOf os = []) :
    Counted env t (os.foldl record calls) (attempts++attemptsOf os) := by
  rw [hrecord,hnone,List.append_nil]
  exact ⟨h.flat,by rw [hretries]; exact h.bounded,h.bodies,hpc⟩

theorem record_finish (s : RpcChannel M) (c : Call M) (calls : List (OpenCall M)) :
    (finish s c).2.foldl record calls = calls ∧ attemptsOf (finish s c).2 = [] := by
  rw [finish]
  cases c.done <;> exact ⟨rfl,rfl⟩

theorem record_decoded (ms : List ProtocolMessage) (calls : List (OpenCall M)) :
    (ms.map CallChannel.Output.decoded).foldl record calls = calls ∧
      attemptsOf (ms.map (CallChannel.Output.decoded (M := M))) = [] := by
  induction ms with
  | nil => exact ⟨rfl,rfl⟩
  | cons m ms ih => exact ih

theorem finish_counted {env : Envelopes} {s t : RpcChannel M} {calls : List (OpenCall M)}
    {attempts : List ProtocolMessage} (h : Counted env s calls attempts)
    (hretries : t.maxRetries = s.maxRetries) (c : Call M) :
    Counted env (finish t c).1 ((finish t c).2.foldl record calls)
      (attempts++attemptsOf (finish t c).2) := by
  obtain ⟨hrecord,hnone⟩ := record_finish t c calls
  exact counted_silent (t := (finish t c).1) h _ hretries trivial hrecord hnone

theorem startAttempt_counted {env : Envelopes} {s t : RpcChannel M} {x : OpenCall M}
    {xs : List (OpenCall M)} {attempts : List ProtocolMessage}
    (h : Counted env s (x::xs) attempts) (hretries : t.maxRetries = s.maxRetries) {c : Call M}
    (hbytes : c.envelopeBytes = envelopeOf env x.args) (hlen : x.attempts.length = c.attempt) :
    Counted env (startAttempt t c).1 ((startAttempt t c).2.foldl record (x::xs))
      (attempts++attemptsOf (startAttempt t c).2) := by
  rw [startAttempt]
  split
  · next hmore =>
    refine ⟨?_,?_,?_,?_⟩
    · simp [h.flat,record,attemptsOf]
    · intro y hy
      rcases List.mem_cons.mp hy with rfl | hy
      · rw [List.length_append,List.length_singleton,hlen]
        change c.attempt+1 ≤ (t.maxRetries+1).toNat
        omega
      · change y.attempts.length ≤ (t.maxRetries+1).toNat
        rw [hretries]
        exact h.bounded y (List.mem_cons_of_mem x hy)
    · intro y hy m hm
      rcases List.mem_cons.mp hy with rfl | hy
      · rcases List.mem_append.mp hm with hm | hm
        · exact h.bodies x List.mem_cons_self m hm
        · rw [List.mem_singleton.mp hm]
          exact hbytes
      · exact h.bodies y (List.mem_cons_of_mem x hy) m hm
    · exact ⟨_,xs,rfl,hbytes,by rw [List.length_append,hlen]; rfl⟩
  · exact finish_counted h hretries c

theorem callMethod_counted {env : Envelopes} {s : RpcChannel M} {calls : List (OpenCall M)}
    {attempts : List ProtocolMessage} (h : Counted env s calls attempts) (args : CallArgs M) :
    Counted env (callMethod env s args).1 ((callMethod env s args).2.foldl record calls)
      (attempts++attemptsOf (callMethod env s args).2) := by
  have hcalled : Counted env { s with pc := .idle } ({ args }::calls) attempts := by
    refine ⟨?_,?_,?_,trivial⟩
    · simp [h.flat]
    · intro x hx
      rcases List.mem_cons.mp hx with rfl | hx
      · exact Nat.zero_le _
      · exact h.bounded x hx
    · intro x hx m hm
      rcases List.mem_cons.mp hx with rfl | hx
      · exact absurd hm List.not_mem_nil
      · exact h.bodies x hx m hm
  rw [callMethod]
  split
  · rw [show attemptsOf [CallChannel.Output.called args] = [] from rfl,List.append_nil]
    exact ⟨hcalled.flat,hcalled.bounded,hcalled.bodies,{ args },calls,rfl,rfl,rfl⟩
  · exact startAttempt_counted hcalled rfl rfl rfl

theorem connectReturned_counted {env : Envelopes} {s : RpcChannel M} {calls : List (OpenCall M)}
    {attempts : List ProtocolMessage} (h : Counted env s calls attempts) {c : Call M}
    (hpc : s.pc = .connecting c) (failure : Option Errno) :
    Counted env (connectReturned s c failure).1 ((connectReturned s c failure).2.foldl record calls)
      (attempts++attemptsOf (connectReturned s c failure).2) := by
  cases failure with
  | some e => exact finish_counted h rfl _
  | none =>
    have hcurrent := h.current
    rw [hpc] at hcurrent
    obtain ⟨x,xs,rfl,hbytes,hlen⟩ := hcurrent
    exact startAttempt_counted (t := { s with fd := some s.opened, opened := s.opened+1 }) h rfl
      hbytes hlen

theorem readAnswer_counted {env : Envelopes} {s : RpcChannel M} {calls : List (OpenCall M)}
    {attempts : List ProtocolMessage} (h : Counted env s calls attempts) (c : Call M) (data : Bytes) :
    Counted env (readAnswer env s c data).1 ((readAnswer env s c data).2.foldl record calls)
      (attempts++attemptsOf (readAnswer env s c data).2) := by
  rw [readAnswer]
  generalize scanResponses c.seq (s.inputBuffer.readFd data) = scan
  obtain ⟨hrecord,hnone⟩ := record_decoded scan.decoded calls
  let out : List (CallChannel.Output M) := .received s.fd data::scan.decoded.map .decoded
  have hout : out.foldl record calls = calls := hrecord
  have hout' : attemptsOf out = [] := hnone
  have hend : ∀ d : Call M, Counted env (finish { s with inputBuffer := scan.buffer } d).1
      ((out++(finish { s with inputBuffer := scan.buffer } d).2).foldl record calls)
      (attempts++attemptsOf (out++(finish { s with inputBuffer := scan.buffer } d).2)) := by
    intro d
    rw [List.foldl_append,attemptsOf_append,hout,hout',List.nil_append]
    exact finish_counted (t := { s with inputBuffer := scan.buffer }) h rfl d
  cases scan.ending with
  | waits =>
    exact counted_silent (t := { s with inputBuffer := scan.buffer }) h out rfl h.current hout hout'
  | rejects e => exact hend _
  | found m => exact hend _

theorem counted_step (env : Envelopes) (s : RpcChannel M) (i : CallChannel.Input M)
    (calls : List (OpenCall M)) (attempts : List ProtocolMessage)
    (h : Counted env s calls attempts) :
    Counted env ((channel env).step s i).1 (((channel env).step s i).2.foldl record calls)
      (attempts++attemptsOf ((channel env).step s i).2) := by
  have ht := step_turn env s i
  generalize (channel env).step s i = r at ht ⊢
  cases ht with
  | ignores _ hi => exact counted_silent h [] rfl h.current rfl rfl
  | calls args hpc => exact callMethod_counted h args
  | closes hpc =>
    rw [close]
    cases s.fd with
    | none => exact counted_silent h [] rfl h.current rfl rfl
    | some fd => exact counted_silent h [.closed] rfl h.current rfl rfl
  | connects c failure hpc => exact connectReturned_counted h hpc failure
  | sends c rest now n errno hpc hn =>
    have hcurrent := h.current
    rw [hpc] at hcurrent
    refine counted_silent h [.sent _] rfl ?_ rfl rfl
    dsimp only
    split
    · exact hcurrent
    · exact hcurrent
  | resends c rest now n errno hpc hn he => exact counted_silent h [] rfl h.current rfl rfl
  | breaks c rest now n errno hpc hn he =>
    rw [sendFailed,close]
    cases s.fd with
    | none => exact finish_counted h rfl _
    | some fd => exact finish_counted (t := { s with fd := none }) h rfl _
  | retries c deadline now r hpc =>
    have hcurrent := h.current
    rw [hpc] at hcurrent
    obtain ⟨x,xs,rfl,hbytes,hlen⟩ := hcurrent
    exact startAttempt_counted h rfl hbytes hlen
  | repolls c deadline now r hpc => exact counted_silent h [] rfl h.current rfl rfl
  | fails c deadline now r hpc code message => exact finish_counted h rfl _
  | reads c deadline now rev data hpc => exact readAnswer_counted h c data

end Channel

section Network
variable {κ M N : Type} [DecidableEq κ]

/-- The requests from a connection that the server has dealt with: it has
answered them, or their method has thrown. -/
def handledOn (c : κ) (os : List (RpcNetwork.Output κ M)) : List ProtocolMessage :=
  (answersOn c (serverOf os)).map Prod.fst++thrownOn c (serverOf os)

theorem network_counted (env : Envelopes) (c : κ) (s : Network κ M N)
    (os : List (RpcNetwork.Output κ M)) (i : RpcNetwork.Input κ M N)
    (h : Counted env (s.clients c) (callsOf (clientOf c os)) (attemptsOf (clientOf c os))) :
    Counted env (((network env).step s i).1.clients c)
      (callsOf (clientOf c (os++((network env).step s i).2)))
      (attemptsOf (clientOf c (os++((network env).step s i).2))) := by
  cases i with
  | client d j =>
    simp only [network]
    split
    · rw [clientStep,clientOf_append]
      by_cases hd : d = c
      · subst hd
        simp only [clientOf_client,callsOf_append,attemptsOf_append,Function.update_self]
        exact counted_step env _ j _ _ h
      · simp only [clientOf_other hd,List.append_nil,Function.update_of_ne (Ne.symm hd)]
        exact h
    · rw [List.append_nil]
      exact h
  | server j =>
    simp only [network]
    split
    · rw [serverStep,clientOf_append,clientOf_server,List.append_nil]
      exact h
    · rw [List.append_nil]
      exact h
  | write d k =>
    simp only [network,writeStep]
    split
    · rw [List.append_nil]
      exact h
    · rw [clientOf_append]
      exact (List.append_nil (clientOf c os)).symm ▸ h

theorem run_counted (env : Envelopes) (registry : ServiceRegistry N) (timeoutMs maxRetries : κ → ℤ)
    (is : List (RpcNetwork.Input κ M N)) (c : κ) :
    Counted env (((network env).run (Network.new registry timeoutMs maxRetries) is).1.clients c)
      (callsOf (clientOf c ((network env).run (Network.new registry timeoutMs maxRetries) is).2))
      (attemptsOf
        (clientOf c ((network env).run (Network.new registry timeoutMs maxRetries) is).2)) :=
  run_invariant (network env)
    (fun s os => Counted env (s.clients c) (callsOf (clientOf c os)) (attemptsOf (clientOf c os)))
    (fun s os i h => network_counted env c s os i h) _ is
    ⟨rfl,fun _ hx => absurd hx List.not_mem_nil,fun _ hx => absurd hx List.not_mem_nil,trivial⟩

variable {env : Envelopes} {maxRetries : ℤ} {c : κ} {s : Network κ M N}
  {os : List (RpcNetwork.Output κ M)}

theorem handled_decoded (h : Linked env maxRetries c s os) :
    ∃ rest, ((decodedOn c (serverOf os)).filter isRequest).Perm (handledOn c os++rest) := by
  refine ⟨pendingOn c s.server,h.accounted.requests.trans ?_⟩
  rw [handledOn,List.append_assoc]
  exact List.perm_append_comm.append_left _

theorem handled_attempt (h : Linked env maxRetries c s os) (hm : Moderate env c os)
    {m : ProtocolMessage} (hin : m ∈ handledOn c os) :
    ∃ k ∈ attemptsOf (clientOf c os), m = received k := by
  obtain ⟨rest,hperm⟩ := handled_decoded h
  obtain ⟨left,hleft⟩ := decoded_attempts h hm
  have hdec := (List.mem_filter.mp (hperm.mem_iff.mpr (List.mem_append_left rest hin))).1
  have hall := List.mem_append_left left hdec
  rw [← hleft] at hall
  obtain ⟨k,hk,he⟩ := List.mem_map.mp hall
  exact ⟨k,hk,he.symm⟩

theorem handled_nodup (h : Linked env maxRetries c s os) (hm : Moderate env c os) :
    (handledOn c os).Nodup := by
  obtain ⟨rest,hperm⟩ := handled_decoded h
  obtain ⟨left,hleft⟩ := decoded_attempts h hm
  have hseq : (((attemptsOf (clientOf c os)).map received).map fun m => m.header.seq).Nodup := by
    rw [List.map_map]
    exact h.numbered.nodup hm.attempts
  have hdec := hseq.of_map
  rw [hleft] at hdec
  have hfilter := (List.nodup_append.mp hdec).1.filter isRequest
  exact (List.nodup_append.mp (hperm.nodup_iff.mp hfilter)).1

omit [DecidableEq κ] in
theorem attempt_call {calls : List (OpenCall M)}
    (hseq : ((calls.reverse.flatMap OpenCall.attempts).map fun m => m.header.seq).Nodup) {i j : ℕ}
    {x y : OpenCall M} (hi : calls[i]? = some x) (hj : calls[j]? = some y) {k l : ProtocolMessage}
    (hk : k ∈ x.attempts) (hl : l ∈ y.attempts) (heq : k.header.seq = l.header.seq) : i = j := by
  have hflat : (calls.flatMap fun x => x.attempts.map fun m => m.header.seq).Nodup := by
    rw [List.map_flatMap] at hseq
    exact ((List.reverse_perm calls).flatMap_right _).nodup_iff.mp hseq
  have hpair := List.pairwise_iff_getElem.mp (List.nodup_flatMap.mp hflat).2
  obtain ⟨hi',rfl⟩ := List.getElem?_eq_some_iff.mp hi
  obtain ⟨hj',rfl⟩ := List.getElem?_eq_some_iff.mp hj
  have hkm := List.mem_map_of_mem (f := fun m : ProtocolMessage => m.header.seq) hk
  have hlm := List.mem_map_of_mem (f := fun m : ProtocolMessage => m.header.seq) hl
  rcases Nat.lt_trichotomy i j with hlt | rfl | hgt
  · exact absurd (heq ▸ hlm) (hpair i j hi' hj' hlt hkm)
  · rfl
  · exact absurd (heq ▸ hkm) (hpair j i hj' hi' hgt hlm)

/-- On connections that do not break, of which `c` is `Moderate`: however
attempts, answers and time-outs are interleaved, a call on `c` leads to at
most `maxRetries+1` requests that the server deals with. Each request the
server has dealt with belongs to one call of the client, carries what that
call was given, and is dealt with once. -/
theorem call_effects_bounded (env : Envelopes) (registry : ServiceRegistry N)
    (timeoutMs maxRetries : κ → ℤ) (is : List (RpcNetwork.Input κ M N)) (c : κ)
    (hm : Moderate env c ((network env).run (Network.new registry timeoutMs maxRetries) is).2) :
    let os := ((network env).run (Network.new registry timeoutMs maxRetries) is).2
    let calls := callsOf (clientOf c os)
    (handledOn c os).Nodup ∧
    (∀ (i : ℕ) (call : OpenCall M), calls[i]? = some call →
      ((handledOn c os).filter (· ∈ call.attempts.map received)).length ≤
        (maxRetries c+1).toNat) ∧
    ∀ m ∈ handledOn c os, ∃ (i : ℕ) (call : OpenCall M), calls[i]? = some call ∧
      m ∈ call.attempts.map received ∧
      env.request.parse m.body = some ⟨call.args.method,call.args.request⟩ ∧
      ∀ (j : ℕ) (other : OpenCall M), calls[j]? = some other →
        m ∈ other.attempts.map received → j = i := by
  intro os calls
  have hlinked := linked_run env registry timeoutMs maxRetries is c
  have hcounted := run_counted env registry timeoutMs maxRetries is c
  have hnodup := handled_nodup hlinked hm
  refine ⟨hnodup,?_,?_⟩
  · intro i call hi
    have hsub : (handledOn c os).filter (· ∈ call.attempts.map received) ⊆
        call.attempts.map received := fun m hin => of_decide_eq_true (List.mem_filter.mp hin).2
    calc ((handledOn c os).filter (· ∈ call.attempts.map received)).length
        ≤ (call.attempts.map received).length :=
          (List.subperm_of_subset (hnodup.filter _) hsub).length_le
      _ = call.attempts.length := List.length_map _
      _ ≤ (maxRetries c+1).toNat := by
          have hbound := hcounted.bounded call (List.mem_of_getElem? hi)
          rwa [hlinked.retries] at hbound
  · intro m hin
    obtain ⟨k,hk,rfl⟩ := handled_attempt hlinked hm hin
    have hmem := hk
    rw [hcounted.flat] at hmem
    obtain ⟨call,hcall,hkcall⟩ := List.mem_flatMap.mp hmem
    obtain ⟨i,hi⟩ := List.mem_iff_getElem?.mp (List.mem_reverse.mp hcall)
    refine ⟨i,call,hi,List.mem_map_of_mem hkcall,?_,?_⟩
    · have hbody : (received k).body = envelopeOf env call.args :=
        hcounted.bodies call (List.mem_reverse.mp hcall) k hkcall
      rw [hbody]
      exact env.request.parse_serialize _
    · intro j other hj hother
      obtain ⟨l,hl,heq⟩ := List.mem_map.mp hother
      have hseq := hlinked.numbered.nodup hm.attempts
      rw [hcounted.flat] at hseq
      exact attempt_call hseq hj hi hl hkcall (congrArg (fun m => m.header.seq) heq)

/-- The first call of one client is made twice, and the server has answered
both attempts. -/
theorem retried_call_has_two_effects :
    ((handledOn true ((network protoEnvelopes).run
      (Network.new echoRegistry (fun _ => 1000) fun _ => 1) lateAnswer).2).length = 2) ∧
    ∀ (i : ℕ) (call : OpenCall Bytes), (callsOf (clientOf true ((network protoEnvelopes).run
      (Network.new echoRegistry (fun _ => 1000) fun _ => 1) lateAnswer).2))[i]? = some call →
      ((handledOn true ((network protoEnvelopes).run
        (Network.new echoRegistry (fun _ => 1000) fun _ => 1) lateAnswer).2).filter
          (· ∈ call.attempts.map received)).length ≤ 2 :=
  ⟨by decide +kernel,(call_effects_bounded protoEnvelopes echoRegistry (fun _ => 1000) (fun _ => 1)
    lateAnswer true ⟨by decide +kernel,by decide +kernel,by decide +kernel⟩).2.1⟩

end Network

end MiniRpc.CallEffects
