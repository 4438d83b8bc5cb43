import Mathlib.Data.List.Nodup
import MiniRpc.StatusFidelity

/-!
# What a channel puts on its connection and takes off it

The attempts of all calls of a channel are numbered in order. What it has
sent and what it still has to send are their encodings one after the other,
as long as no send fails. The frames it has decoded are those at the front
of what it has received, whatever became of the calls that received them. A
call that returns with a live controller not failed has decoded a frame
with the number of its last attempt and parsed its response from it.
-/

set_option autoImplicit false

namespace MiniRpc.CallTraffic
open MiniRpc.ByteBuffer MiniRpc.WireCodec MiniRpc.CodecStream MiniRpc.CallController
open MiniRpc.Incremental MiniRpc.StepMachine MiniRpc.CallChannel MiniRpc.CallProgress
open MiniRpc.StatusFidelity (returnsOf returnsOf_finish)

variable {M : Type}

def sentOf (os : List (Output M)) : Bytes :=
  os.flatMap fun
    | .sent bytes => bytes
    | _ => []

def receivedOf (os : List (Output M)) : Bytes :=
  os.flatMap fun
    | .received _ bytes => bytes
    | _ => []

def decodedOf (os : List (Output M)) : List ProtocolMessage :=
  os.filterMap fun
    | .decoded m => some m
    | _ => none

def unsent : Pc M → Bytes
  | .sending _ rest => rest
  | _ => []

def keepsConnection : Input M → Bool
  | .close => false
  | .sendReturned _ n errno => 0 < n || (n < 0 && errno.code == EINTR)
  | _ => true

def offered : Input M → Bytes
  | .polled _ (.ready _ (.ok data)) => data
  | _ => []

/-- What a step moves in either direction. -/
structure Traffic (s : RpcChannel M) (offer : Bytes) (r : RpcChannel M × List (Output M)) : Prop where
  maxRetries : r.1.maxRetries = s.maxRetries
  attempts : (attemptsOf r.2 = [] ∧ r.1.nextSeq = s.nextSeq) ∨
    ∃ body, attemptsOf r.2 = [requestMessage s.nextSeq body] ∧ r.1.nextSeq = s.nextSeq+1
  sent : unsent s.pc++(attemptsOf r.2).flatMap encoded = sentOf r.2++unsent r.1.pc
  received : receivedOf r.2 = [] ∨ receivedOf r.2 = offer
  decoded : ∀ all taken, Resumes frameParser all taken s.inputBuffer.readable →
    Resumes frameParser (all++receivedOf r.2) (taken++decodedOf r.2) r.1.inputBuffer.readable

@[simp] theorem attemptsOf_append (os new : List (Output M)) :
    attemptsOf (os++new) = attemptsOf os++attemptsOf new := List.filterMap_append

@[simp] theorem sentOf_append (os new : List (Output M)) :
    sentOf (os++new) = sentOf os++sentOf new := List.flatMap_append

@[simp] theorem receivedOf_append (os new : List (Output M)) :
    receivedOf (os++new) = receivedOf os++receivedOf new := List.flatMap_append

@[simp] theorem decodedOf_append (os new : List (Output M)) :
    decodedOf (os++new) = decodedOf os++decodedOf new := List.filterMap_append

@[simp] theorem decodedOf_decoded (ms : List ProtocolMessage) :
    decodedOf (ms.map (Output.decoded (M := M))) = ms := by
  induction ms with
  | nil => rfl
  | cons m ms ih => exact congrArg (m :: ·) ih

structure Quiet (s : RpcChannel M) (r : RpcChannel M × List (Output M)) : Prop where
  maxRetries : r.1.maxRetries = s.maxRetries
  nextSeq : r.1.nextSeq = s.nextSeq
  inputBuffer : r.1.inputBuffer = s.inputBuffer
  attempts : attemptsOf r.2 = []
  sent : sentOf r.2 = []
  received : receivedOf r.2 = []
  decoded : decodedOf r.2 = []

theorem quiet_traffic {s : RpcChannel M} {r : RpcChannel M × List (Output M)} (h : Quiet s r)
    (hpc : unsent r.1.pc = unsent s.pc) (offer : Bytes) : Traffic s offer r where
  maxRetries := h.maxRetries
  attempts := Or.inl ⟨h.attempts,h.nextSeq⟩
  sent := by rw [h.attempts,h.sent,hpc]; simp
  received := Or.inl h.received
  decoded all taken hr := by simpa [h.received,h.decoded,h.inputBuffer] using hr

theorem stays_traffic (s : RpcChannel M) (offer : Bytes) : Traffic s offer (s,[]) := by
  apply quiet_traffic
  · exact ⟨rfl,rfl,rfl,rfl,rfl,rfl,rfl⟩
  · rfl

theorem finish_quiet (s : RpcChannel M) (c : Call M) : Quiet s (finish s c) := by
  rw [finish]
  cases c.done <;> exact ⟨rfl,rfl,rfl,rfl,rfl,rfl,rfl⟩

theorem finish_traffic (s : RpcChannel M) (c : Call M) (hu : unsent s.pc = []) (offer : Bytes) :
    Traffic s offer (finish s c) := quiet_traffic (finish_quiet s c) (by rw [hu]; rfl) offer

theorem startAttempt_traffic (s : RpcChannel M) (c : Call M) (hu : unsent s.pc = [])
    (offer : Bytes) : Traffic s offer (startAttempt s c) := by
  rw [startAttempt]
  by_cases h : (c.attempt:ℤ) ≤ s.maxRetries
  · rw [if_pos h]
    refine ⟨rfl,Or.inr ⟨c.envelopeBytes,rfl,rfl⟩,?_,Or.inl rfl,?_⟩
    · rw [hu]
      simp [attemptsOf,sentOf,unsent]
    · intro all taken hr
      simpa [receivedOf,decodedOf] using hr
  · rw [if_neg h]
    exact finish_traffic s c hu offer

theorem Quiet.andThen {s s₀ : RpcChannel M} {os : List (Output M)} (h : Quiet s (s₀,os))
    (hpc : unsent s₀.pc = unsent s.pc) {offer : Bytes} {r : RpcChannel M × List (Output M)}
    (hr : Traffic s₀ offer r) : Traffic s offer (r.1,os++r.2) where
  maxRetries := hr.maxRetries.trans h.maxRetries
  attempts := by
    have hseq : s₀.nextSeq = s.nextSeq := h.nextSeq
    have ha : attemptsOf os = [] := h.attempts
    rw [attemptsOf_append,ha,← hseq]
    exact hr.attempts
  sent := by
    have ha : attemptsOf os = [] := h.attempts
    have hs : sentOf os = [] := h.sent
    rw [attemptsOf_append,sentOf_append,ha,hs,← hpc]
    exact hr.sent
  received := by
    have hrecv : receivedOf os = [] := h.received
    rw [receivedOf_append,hrecv]
    exact hr.received
  decoded all taken hres := by
    have hbuf : s₀.inputBuffer = s.inputBuffer := h.inputBuffer
    have hrecv : receivedOf os = [] := h.received
    have hdec : decodedOf os = [] := h.decoded
    rw [receivedOf_append,decodedOf_append,hrecv,hdec]
    exact hr.decoded all taken (by rw [hbuf]; exact hres)

theorem Traffic.andThen {s s₀ : RpcChannel M} {os : List (Output M)} {offer : Bytes}
    (h : Traffic s offer (s₀,os)) {r : RpcChannel M × List (Output M)} (hr : Quiet s₀ r)
    (hpc : unsent r.1.pc = unsent s₀.pc) : Traffic s offer (r.1,os++r.2) where
  maxRetries := hr.maxRetries.trans h.maxRetries
  attempts := by
    rw [attemptsOf_append,hr.attempts,List.append_nil,hr.nextSeq]
    exact h.attempts
  sent := by
    rw [attemptsOf_append,sentOf_append,hr.attempts,hr.sent,List.append_nil,List.append_nil,hpc]
    exact h.sent
  received := by
    rw [receivedOf_append,hr.received,List.append_nil]
    exact h.received
  decoded all taken hres := by
    rw [receivedOf_append,decodedOf_append,hr.received,hr.decoded,List.append_nil,List.append_nil,
      hr.inputBuffer]
    exact h.decoded all taken hres

theorem callMethod_traffic (env : Envelopes) (s : RpcChannel M) (args : CallArgs M)
    (hpc : s.pc = .idle) (offer : Bytes) : Traffic s offer (callMethod env s args) := by
  have hu : unsent s.pc = [] := by rw [hpc]; rfl
  rw [callMethod]
  cases s.fd with
  | none =>
    apply quiet_traffic
    · exact ⟨rfl,rfl,rfl,rfl,rfl,rfl,rfl⟩
    · exact hu.symm
  | some fd =>
    have hq : Quiet s (s,[.called args]) := ⟨rfl,rfl,rfl,rfl,rfl,rfl,rfl⟩
    exact hq.andThen rfl (startAttempt_traffic s _ hu offer)

theorem connectReturned_traffic (s : RpcChannel M) (c : Call M) (f : Option Errno)
    (hpc : s.pc = .connecting c) (offer : Bytes) : Traffic s offer (connectReturned s c f) := by
  have hu : unsent s.pc = [] := by rw [hpc]; rfl
  cases f with
  | some e => exact finish_traffic s _ hu offer
  | none =>
    have hq : Quiet s ({ s with fd := some s.opened, opened := s.opened+1 },[.connected s.opened]) :=
      ⟨rfl,rfl,rfl,rfl,rfl,rfl,rfl⟩
    apply hq.andThen rfl
    apply startAttempt_traffic
    exact hu

theorem sends_traffic (s : RpcChannel M) (c : Call M) (rest : Bytes) (deadline : ℤ) (n : ℕ)
    (hpc : s.pc = .sending c rest) (offer : Bytes) :
    Traffic s offer
      ({ s with pc := if rest.drop n = [] then .waiting c deadline else .sending c (rest.drop n) },
        [.sent (rest.take n)]) := by
  have hleft : unsent (if rest.drop n = [] then Pc.waiting c deadline
      else .sending c (rest.drop n)) = rest.drop n := by
    by_cases hl : rest.drop n = []
    · rw [if_pos hl,hl]
      rfl
    · rw [if_neg hl]
      rfl
  refine ⟨rfl,Or.inl ⟨rfl,rfl⟩,?_,Or.inl rfl,?_⟩
  · dsimp only
    rw [hleft,hpc]
    simp [attemptsOf,sentOf,unsent]
  · intro all taken hr
    simpa [receivedOf,decodedOf] using hr

theorem readAnswer_traffic (env : Envelopes) (s : RpcChannel M) (c : Call M) (data : Bytes)
    (hu : unsent s.pc = []) : Traffic s data (readAnswer env s c data) := by
  obtain ⟨hd,-,hb⟩ := scanResponses_search c.seq (s.inputBuffer.readFd data)
  have hread : Traffic s data
      ({ s with inputBuffer := (scanResponses c.seq (s.inputBuffer.readFd data)).buffer },
        .received s.fd data::(scanResponses c.seq (s.inputBuffer.readFd data)).decoded.map
          .decoded) := by
    generalize scanResponses c.seq (s.inputBuffer.readFd data) = scan at hd hb
    rw [readable_readFd] at hd hb
    have hrecv : receivedOf (.received s.fd data::scan.decoded.map (Output.decoded (M := M))) =
        data := by
      simp [receivedOf,List.flatMap_map]
    have hdec : decodedOf (.received s.fd data::scan.decoded.map (Output.decoded (M := M))) =
        scan.decoded := decodedOf_decoded scan.decoded
    refine ⟨rfl,Or.inl ⟨?_,rfl⟩,?_,Or.inr hrecv,?_⟩
    · simp [attemptsOf]
    · simp [attemptsOf,sentOf,List.flatMap_map]
    · intro all taken hr
      dsimp only
      rw [hrecv,hdec,hd,hb]
      exact resumes_search frameParser (resumes_append frameParser hr data) (isAnswer c.seq)
  have hidle : ∀ c' : Call M, unsent (finish
      { s with inputBuffer := (scanResponses c.seq (s.inputBuffer.readFd data)).buffer } c').1.pc =
        unsent s.pc := fun c' => hu.symm
  rw [readAnswer]
  cases (scanResponses c.seq (s.inputBuffer.readFd data)).ending with
  | waits => exact hread
  | rejects e => exact hread.andThen (finish_quiet _ _) (hidle _)
  | found m => exact hread.andThen (finish_quiet _ _) (hidle _)

theorem step_traffic (env : Envelopes) (s : RpcChannel M) (i : Input M)
    (hk : keepsConnection i = true) : Traffic s (offered i) ((channel env).step s i) := by
  have ht := step_turn env s i
  generalize (channel env).step s i = r at ht ⊢
  cases ht with
  | ignores _ hi => exact stays_traffic s _
  | calls args hpc => exact callMethod_traffic env s args hpc _
  | closes hpc => cases hk
  | connects c failure hpc => exact connectReturned_traffic s c failure hpc _
  | sends c rest now n errno hpc hn => exact sends_traffic s c rest _ _ hpc _
  | resends c rest now n errno hpc hn he => exact stays_traffic s _
  | breaks c rest now n errno hpc hn he =>
    simp only [keepsConnection,Bool.or_eq_true,Bool.and_eq_true,decide_eq_true_eq,
      beq_iff_eq] at hk
    obtain ⟨hneg,hcode⟩ := hk.resolve_left (by omega)
    exact absurd hcode (he hneg)
  | retries c deadline now r hpc => exact startAttempt_traffic s _ (by rw [hpc]; rfl) _
  | repolls c deadline now r hpc => exact stays_traffic s _
  | fails c deadline now r hpc code message => exact finish_traffic s _ (by rw [hpc]; rfl) _
  | reads c deadline now rev data hpc => exact readAnswer_traffic env s c data (by rw [hpc]; rfl)

/-- The attempts are requests numbered from one, and `nextSeq_` comes next. -/
structure Numbered (nextSeq : UInt64) (ms : List ProtocolMessage) : Prop where
  requests : ∀ m ∈ ms, ∃ seq body, m = requestMessage seq body
  seqs : ms.map (fun m => m.header.seq) = (List.range ms.length).map fun k => UInt64.ofNat (k+1)
  next : nextSeq = UInt64.ofNat (ms.length+1)

theorem Numbered.step {nextSeq nextSeq' : UInt64} {ms new : List ProtocolMessage}
    (hn : Numbered nextSeq ms) (h : (new = [] ∧ nextSeq' = nextSeq) ∨
      ∃ body, new = [requestMessage nextSeq body] ∧ nextSeq' = nextSeq+1) :
    Numbered nextSeq' (ms++new) := by
  rcases h with ⟨ha,hs⟩ | ⟨body,ha,hs⟩
  · rw [ha,hs,List.append_nil]
    exact hn
  · rw [ha,hs]
    refine ⟨?_,?_,?_⟩
    · intro m hm
      rcases List.mem_append.mp hm with hm | hm
      · exact hn.requests m hm
      · exact ⟨_,body,List.mem_singleton.mp hm⟩
    · rw [List.map_append,hn.seqs,List.length_append,List.length_singleton,List.range_succ,
        List.map_append,List.map_singleton,List.map_singleton,← hn.next]
      rfl
    · rw [hn.next,List.length_append,List.length_singleton,UInt64.ofNat_add (ms.length+1) 1]
      rfl

theorem Traffic.numbered {s : RpcChannel M} {offer : Bytes} {r : RpcChannel M × List (Output M)}
    (h : Traffic s offer r) {ms : List ProtocolMessage} (hn : Numbered s.nextSeq ms) :
    Numbered r.1.nextSeq (ms++attemptsOf r.2) := hn.step h.attempts

theorem Numbered.nodup {nextSeq : UInt64} {ms : List ProtocolMessage} (h : Numbered nextSeq ms)
    (hl : ms.length < 2^64) : (ms.map fun m => m.header.seq).Nodup := by
  rw [h.seqs]
  apply List.Nodup.map_on _ List.nodup_range
  intro a ha b hb hab
  rw [List.mem_range] at ha hb
  have hn := congrArg UInt64.toNat hab
  rw [UInt64.toNat_ofNat',UInt64.toNat_ofNat',Nat.mod_eq_of_lt (by omega),
    Nat.mod_eq_of_lt (by omega)] at hn
  omega

theorem track_attempts (os : List (Output M)) (o : Option (OpenCall M)) {args : CallArgs M}
    {ms : List ProtocolMessage} (h : os.foldl track o = some ⟨args,ms⟩) {m : ProtocolMessage}
    (hm : m ∈ ms) : (∃ x, o = some x ∧ m ∈ x.attempts) ∨ m ∈ attemptsOf os := by
  induction os generalizing o with
  | nil => exact Or.inl ⟨_,h,hm⟩
  | cons out os ih =>
    have hmem : m ∈ attemptsOf os → m ∈ attemptsOf (out::os) := by
      intro hin
      rw [show out::os = [out]++os from rfl,attemptsOf_append]
      exact List.mem_append_right _ hin
    rcases ih (track o out) h with ⟨x,hx,hin⟩ | hin
    · cases out with
      | called args' =>
        obtain rfl := Option.some.inj hx
        simp at hin
      | attempted k =>
        obtain ⟨y,rfl,rfl⟩ := Option.map_eq_some_iff.mp hx
        rcases List.mem_append.mp hin with hin | hin
        · exact Or.inl ⟨y,rfl,hin⟩
        · obtain rfl := List.mem_singleton.mp hin
          exact Or.inr (by simp [attemptsOf])
      | returned controller response => cases hx
      | connected conn => exact Or.inl ⟨x,hx,hin⟩
      | closed => exact Or.inl ⟨x,hx,hin⟩
      | sent bytes => exact Or.inl ⟨x,hx,hin⟩
      | received conn bytes => exact Or.inl ⟨x,hx,hin⟩
      | decoded k => exact Or.inl ⟨x,hx,hin⟩
      | doneRun => exact Or.inl ⟨x,hx,hin⟩
    · exact Or.inr (hmem hin)

theorem openCall_attempts {os : List (Output M)} {args : CallArgs M} {ms : List ProtocolMessage}
    (h : openCall os = some ⟨args,ms⟩) {m : ProtocolMessage} (hm : m ∈ ms) : m ∈ attemptsOf os := by
  rcases track_attempts os none h hm with ⟨x,hx,-⟩ | hin
  · cases hx
  · exact hin

def Succeeds (controller : ControllerPtr) : Prop := controller ≠ .null ∧ controller.failed = false

theorem fail_not_succeeds (c : Call M) (code : ErrorCode) (message : String) :
    ¬ Succeeds (c.fail code message).controller := by
  rintro ⟨hnull,hok⟩
  have hp : c.controller = .null := by
    by_contra hp
    have hf := (failController_failed c.controller code message).mpr hp
    rw [Call.fail] at hok
    rw [hok] at hf
    cases hf
  apply hnull
  rw [Call.fail,hp]
  rfl

theorem accept_succeeds (env : Envelopes) (c : Call M) (body : Bytes)
    (h : Succeeds (acceptResponse env c body).controller) :
    ∃ resp got, env.response.parse body = some resp ∧ resp.errorCode = kOk.value ∧
      c.parseResponse resp.response = some got ∧ (acceptResponse env c body).response = some got := by
  rw [acceptResponse] at h ⊢
  cases hp : env.response.parse body with
  | none =>
    rw [hp] at h
    exact absurd h (fail_not_succeeds c _ _)
  | some resp =>
    rw [hp] at h
    dsimp only at h ⊢
    by_cases hcode : resp.errorCode ≠ kOk.value
    · rw [if_pos hcode] at h
      exact absurd h (fail_not_succeeds c _ _)
    · rw [if_neg hcode] at h ⊢
      cases hg : c.parseResponse resp.response with
      | none =>
        rw [hg] at h
        exact absurd h (fail_not_succeeds c _ _)
      | some got => exact ⟨resp,got,rfl,not_not.mp hcode,hg,rfl⟩

/-- The open call has just decoded an answer to its last attempt and taken
its response from it. -/
def TakesAnswer (env : Envelopes) (o : Option (OpenCall M)) (os : List (Output M))
    (response : Option M) : Prop :=
  ∃ args ms last answer resp got,
    o = some ⟨args,ms++[last]⟩ ∧
    answer ∈ decodedOf os ∧ isAnswer last.header.seq answer = true ∧
    env.response.parse answer.body = some resp ∧ resp.errorCode = kOk.value ∧
    args.parseResponse resp.response = some got ∧ response = some got

theorem not_finish_fail (s : RpcChannel M) (c : Call M) (code : ErrorCode) (message : String)
    {x : ControllerPtr × Option M} (hx : x ∈ returnsOf (finish s (c.fail code message)).2) :
    ¬ Succeeds x.1 := by
  rw [returnsOf_finish] at hx
  obtain rfl := List.mem_singleton.mp hx
  exact fail_not_succeeds c code message

theorem not_timedOut (s : RpcChannel M) (c : Call M) {x : ControllerPtr × Option M}
    (hx : x ∈ returnsOf (timedOut s c).2) : ¬ Succeeds x.1 := by
  rw [timedOut,startAttempt] at hx
  split at hx
  · cases hx
  · rw [returnsOf_finish] at hx
    obtain rfl := List.mem_singleton.mp hx
    exact fail_not_succeeds c _ _

theorem first_attempt (s : RpcChannel M) (c : Call M) (hm : 0 ≤ s.maxRetries)
    (hc : c.attempt = 0) : returnsOf (startAttempt s c).2 = [] := by
  rw [startAttempt,hc,if_pos (by simpa using hm)]
  rfl

theorem readAnswer_takes (env : Envelopes) (s : RpcChannel M) (c : Call M) (data : Bytes)
    {args : CallArgs M} {ms : List ProtocolMessage} (hc : Carries env args c)
    {x : ControllerPtr × Option M} (hx : x ∈ returnsOf (readAnswer env s c data).2)
    (hok : Succeeds x.1) :
    TakesAnswer env (some ⟨args,ms++[requestMessage c.seq c.envelopeBytes]⟩)
      (readAnswer env s c data).2 x.2 := by
  have hnone := StatusFidelity.returnsOf_received (M := M) s.fd data
    (scanResponses c.seq (s.inputBuffer.readFd data)).decoded
  obtain ⟨hd,he,-⟩ := scanResponses_search c.seq (s.inputBuffer.readFd data)
  unfold readAnswer at hx ⊢
  dsimp only at hx ⊢
  generalize scanResponses c.seq (s.inputBuffer.readFd data) = scan at hx hnone hd he ⊢
  cases hend : scan.ending with
  | waits =>
    rw [hend] at hx
    dsimp only at hx
    rw [hnone] at hx
    cases hx
  | rejects e =>
    rw [hend] at hx
    dsimp only at hx
    rw [returnsOf,List.filterMap_append] at hx
    rcases List.mem_append.mp hx with hx | hx
    · rw [show List.filterMap _ _ = returnsOf _ from rfl,hnone] at hx
      cases hx
    · exact absurd hok (not_finish_fail _ c _ _ hx)
  | found m =>
    rw [hend] at hx he
    dsimp only at hx ⊢
    obtain ⟨hmem,hhit⟩ := search_found frameParser _ _ he.symm
    rw [returnsOf,List.filterMap_append] at hx
    rcases List.mem_append.mp hx with hx | hx
    · rw [show List.filterMap _ _ = returnsOf _ from rfl,hnone] at hx
      cases hx
    · rw [show List.filterMap _ _ = returnsOf _ from rfl,returnsOf_finish] at hx
      obtain rfl := List.mem_singleton.mp hx
      obtain ⟨resp,got,hp,hcode,hg,hresp⟩ := accept_succeeds env c m.body hok
      refine ⟨args,ms,_,m,resp,got,rfl,?_,hhit,hp,hcode,by rw [← hc.parseResponse]; exact hg,hresp⟩
      rw [decodedOf_append]
      apply List.mem_append_left
      have hdec : decodedOf (.received s.fd data::scan.decoded.map (Output.decoded (M := M))) =
        scan.decoded := decodedOf_decoded scan.decoded
      rw [hdec,hd]
      exact hmem

theorem not_sendFailed (s : RpcChannel M) (c : Call M) (errno : Errno)
    {x : ControllerPtr × Option M} (hx : x ∈ returnsOf (sendFailed s c errno).2) :
    ¬ Succeeds x.1 := by
  rw [sendFailed,returnsOf,List.filterMap_append] at hx
  rcases List.mem_append.mp hx with hx | hx
  · rw [close] at hx
    cases hfd : s.fd <;> simp [hfd] at hx
  · exact not_finish_fail _ c _ _ hx

/-- A call that succeeds has taken the answer to its last attempt. -/
theorem success_takes (env : Envelopes) (s : RpcChannel M) (i : Input M) (o : Option (OpenCall M))
    (ha : Agrees env s.pc o) (hm : 0 ≤ s.maxRetries) {x : ControllerPtr × Option M}
    (hx : x ∈ returnsOf ((channel env).step s i).2) (hok : Succeeds x.1) :
    TakesAnswer env o ((channel env).step s i).2 x.2 := by
  have ht := step_turn env s i
  generalize (channel env).step s i = r at ht hx ⊢
  cases ht with
  | ignores _ hi => cases hx
  | calls args hpc =>
    rw [callMethod] at hx
    cases hfd : s.fd with
    | none =>
      rw [hfd] at hx
      cases hx
    | some fd =>
      rw [hfd] at hx
      replace hx : x ∈ returnsOf (startAttempt s _).2 := hx
      rw [first_attempt s _ hm rfl] at hx
      cases hx
  | closes hpc =>
    rw [close] at hx
    cases hfd : s.fd <;> simp [hfd,returnsOf] at hx
  | connects c failure hpc =>
    rw [hpc] at ha
    cases failure with
    | some e => exact absurd hok (not_finish_fail s c _ _ hx)
    | none =>
      have hfirst := first_attempt { s with fd := some s.opened, opened := s.opened+1 } c hm ha.2
      replace hx : x ∈ returnsOf
        (startAttempt { s with fd := some s.opened, opened := s.opened+1 } c).2 := hx
      rw [hfirst] at hx
      cases hx
  | sends c rest now n errno hpc hn => cases hx
  | resends c rest now n errno hpc hn he => cases hx
  | breaks c rest now n errno hpc hn he => exact absurd hok (not_sendFailed s c errno hx)
  | retries c deadline now r hpc => exact absurd hok (not_timedOut s c hx)
  | repolls c deadline now r hpc => cases hx
  | fails c deadline now r hpc code message => exact absurd hok (not_finish_fail s c _ _ hx)
  | reads c deadline now rev data hpc =>
    rw [hpc] at ha
    obtain ⟨args,ms,rfl,hc⟩ := ha
    exact readAnswer_takes env s c data hc hx hok

end MiniRpc.CallTraffic
