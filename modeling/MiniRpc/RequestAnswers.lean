import Mathlib.Data.List.Perm.Basic
import MiniRpc.CallServer
import MiniRpc.ProtoWire

/-!
# One answer for each request

Every request decoded on a connection is, at any moment, answered, waiting
in the pool, or lost to an exception of its method, and it is in one of
these places only. The account holds for every chunking of the stream,
every order of the workers and every pattern of failed submissions.
-/

set_option autoImplicit false

namespace MiniRpc.RequestAnswers
open MiniRpc.ByteBuffer MiniRpc.WireCodec MiniRpc.CodecStream MiniRpc.CallController
open MiniRpc.Incremental MiniRpc.StepMachine MiniRpc.CallServer MiniRpc.ProtoWire

variable {κ M : Type} [DecidableEq κ]

def receivedOn (c : κ) (os : List (Output κ)) : Bytes :=
  os.flatMap fun
    | .received d data => if d = c then data else []
    | _ => []

def decodedOn (c : κ) (os : List (Output κ)) : List ProtocolMessage :=
  os.filterMap fun
    | .decoded d m => if d = c then some m else none
    | _ => none

def answersOn (c : κ) (os : List (Output κ)) : List (ProtocolMessage × RpcResponse) :=
  os.filterMap fun
    | .sendEnvelope d m envelope => if d = c then some (m,envelope) else none
    | _ => none

def thrownOn (c : κ) (os : List (Output κ)) : List ProtocolMessage :=
  os.filterMap fun
    | .threw d m => if d = c then some m else none
    | _ => none

def pendingOn (c : κ) (s : RpcServer κ M) : List ProtocolMessage :=
  s.queue.filterMap fun t => if t.conn = c then some t.msg else none

def sentOn (env : Envelopes) (c : κ) (os : List (Output κ)) : List Bytes :=
  (answersOn c os).map fun a => sendEnvelope env a.1.header.seq a.2

/-- Exactly one response frame with its sequence number was handed to
`conn->send` for each request among `frames`, and no other frame. -/
def AnsweredOnce (env : Envelopes) (c : κ) (frames : List ProtocolMessage)
    (os : List (Output κ)) : Prop :=
  ∃ replies : List (UInt64 × RpcResponse),
    sentOn env c os = replies.map (fun r => sendEnvelope env r.1 r.2) ∧
    (replies.map Prod.fst).Perm ((frames.filter isRequest).map fun m => m.header.seq)

/-- The account of a connection: what became of the decoded requests, and
how the decoded frames relate to the bytes received. -/
structure Accounted (c : κ) (s : RpcServer κ M) (os : List (Output κ)) : Prop where
  requests : ((decodedOn c os).filter isRequest).Perm
    ((answersOn c os).map Prod.fst++(pendingOn c s++thrownOn c os))
  frames : Resumes frameParser (receivedOn c os) (decodedOn c os) (s.conns c).inputBuffer.readable
  drained : (s.conns c).inCallback = false →
    (drain frameParser (s.conns c).inputBuffer.readable).items = []

theorem pendingOn_eraseIdx (c : κ) (s : RpcServer κ M) (k : ℕ) (t : PoolTask κ)
    (ht : s.queue[k]? = some t) :
    (pendingOn c s).Perm ((if t.conn = c then [t.msg] else [])++
      pendingOn c { s with queue := s.queue.eraseIdx k }) := by
  obtain ⟨hk,rfl⟩ := List.getElem?_eq_some_iff.mp ht
  have h := (List.getElem_cons_eraseIdx_perm hk).symm.filterMap
    fun t : PoolTask κ => if t.conn = c then some t.msg else none
  rw [List.filterMap_cons] at h
  unfold pendingOn
  split <;> rename_i hc <;> simpa [hc] using h

@[simp] theorem receivedOn_append (c : κ) (os os' : List (Output κ)) :
    receivedOn c (os++os') = receivedOn c os++receivedOn c os' := List.flatMap_append

@[simp] theorem decodedOn_append (c : κ) (os os' : List (Output κ)) :
    decodedOn c (os++os') = decodedOn c os++decodedOn c os' := List.filterMap_append

@[simp] theorem answersOn_append (c : κ) (os os' : List (Output κ)) :
    answersOn c (os++os') = answersOn c os++answersOn c os' := List.filterMap_append

@[simp] theorem thrownOn_append (c : κ) (os os' : List (Output κ)) :
    thrownOn c (os++os') = thrownOn c os++thrownOn c os' := List.filterMap_append

@[simp] theorem pendingOn_setConn (c d : κ) (s : RpcServer κ M) (x : Connection) :
    pendingOn c (s.setConn d x) = pendingOn c s := rfl

theorem effect_balance (env : Envelopes) (c : κ) {s s' : RpcServer κ M} {new : List (Output κ)}
    (he : Effect env s s' new) :
    ((decodedOn c new).filter isRequest++pendingOn c s).Perm
      ((answersOn c new).map Prod.fst++(pendingOn c s'++thrownOn c new)) := by
  have hrest : (pendingOn c s).Perm (pendingOn c s++[]) := .of_eq (List.append_nil _).symm
  cases he with
  | stays => exact hrest
  | closes d => exact hrest
  | receives d data => exact hrest
  | waits d hp => exact hrest
  | rejects d e hp => exact hrest
  | skips d m b hp hcb hm =>
    by_cases hd : d = c <;> simp [decodedOn,answersOn,thrownOn,hd,hm]
  | submits d m b hp hcb hm =>
    by_cases hd : d = c
    · simpa [decodedOn,answersOn,thrownOn,pendingOn,hd,hm] using
        (List.perm_append_singleton m (pendingOn d s)).symm
    · simp [decodedOn,answersOn,thrownOn,pendingOn,hd]
  | refuses d m b what hp hcb hm =>
    by_cases hd : d = c <;> simp [decodedOn,answersOn,thrownOn,hd,hm]
  | answers k t exit envelope ht hh =>
    have hp := pendingOn_eraseIdx c s k t ht
    by_cases hd : t.conn = c <;> simpa [decodedOn,answersOn,thrownOn,hd] using hp
  | drops k t exit ht hh =>
    have hp := pendingOn_eraseIdx c s k t ht
    by_cases hd : t.conn = c
    · simpa [decodedOn,answersOn,thrownOn,hd] using hp.trans List.perm_append_comm
    · simpa [decodedOn,answersOn,thrownOn,hd] using hp

theorem requests_step (env : Envelopes) (c : κ) {s s' : RpcServer κ M} {os new : List (Output κ)}
    (he : Effect env s s' new)
    (h : ((decodedOn c os).filter isRequest).Perm
      ((answersOn c os).map Prod.fst++(pendingOn c s++thrownOn c os))) :
    ((decodedOn c (os++new)).filter isRequest).Perm
      ((answersOn c (os++new)).map Prod.fst++(pendingOn c s'++thrownOn c (os++new))) := by
  rw [List.perm_iff_count] at h ⊢
  intro m
  have hm := h m
  have hb := List.perm_iff_count.mp (effect_balance env c he) m
  simp only [decodedOn_append,answersOn_append,thrownOn_append,List.filter_append,List.map_append,
    List.count_append] at hm hb ⊢
  omega

/-- What a step means for one connection: the bytes it received, the frames
it decoded, and its input side before and after. -/
inductive Feeds (x x' : Connection) : Bytes → List ProtocolMessage → Prop
  | keeps (hb : x'.inputBuffer = x.inputBuffer) (hi : x'.inCallback = x.inCallback) :
      Feeds x x' [] []
  | receives (data : Bytes) (hb : x'.inputBuffer.readable = x.inputBuffer.readable++data)
      (hi : x'.inCallback = true) : Feeds x x' data []
  | leaves (hb : x'.inputBuffer = x.inputBuffer)
      (hd : (drain frameParser x.inputBuffer.readable).items = []) : Feeds x x' [] []
  | takes (m : ProtocolMessage)
      (hp : parseFrame x.inputBuffer.readable = .item m x'.inputBuffer.readable)
      (hi : x'.inCallback = true) : Feeds x x' [] [m]

theorem feeds_setConn {s : RpcServer κ M} (c d : κ) {x : Connection} {got : Bytes}
    {ms : List ProtocolMessage} (h : Feeds (s.conns d) x got ms) :
    Feeds (s.conns c) ((s.setConn d x).conns c) (if d = c then got else [])
      (if d = c then ms else []) := by
  by_cases hc : d = c
  · subst hc
    simpa using h
  · rw [if_neg hc,if_neg hc,setConn_other s x (Ne.symm hc)]
    exact .keeps rfl rfl

theorem effect_feeds (env : Envelopes) (c : κ) {s s' : RpcServer κ M} {new : List (Output κ)}
    (he : Effect env s s' new) :
    Feeds (s.conns c) (s'.conns c) (receivedOn c new) (decodedOn c new) := by
  cases he with
  | stays => exact .keeps rfl rfl
  | closes d =>
    have h : Feeds (s.conns d) (s.conns d).handleClose [] [] := .keeps rfl rfl
    simpa [receivedOn,decodedOn] using feeds_setConn c d h
  | receives d data =>
    simpa [receivedOn,decodedOn] using feeds_setConn c d (.receives data (readable_readFd _ _) rfl)
  | waits d hp =>
    have hd : (drain frameParser (s.conns d).inputBuffer.readable).items = [] := by
      rw [drain_wait frameParser hp]
    have h : Feeds (s.conns d) { s.conns d with inCallback := false } [] [] := .leaves rfl hd
    simpa [receivedOn,decodedOn] using feeds_setConn c d h
  | rejects d e hp =>
    have hd : (drain frameParser (s.conns d).inputBuffer.readable).items = [] := by
      rw [drain_reject frameParser hp]
    simpa [receivedOn,decodedOn] using feeds_setConn c d (.leaves (by simp) hd)
  | skips d m b hp hcb hm =>
    have h : Feeds (s.conns d) { s.conns d with inputBuffer := b } [] [m] := .takes m hp hcb
    by_cases hc : d = c <;> simpa [receivedOn,decodedOn,hc] using feeds_setConn c d h
  | submits d m b hp hcb hm =>
    have h : Feeds (s.conns d) { s.conns d with inputBuffer := b } [] [m] := .takes m hp hcb
    by_cases hc : d = c <;> simpa [receivedOn,decodedOn,hc] using feeds_setConn c d h
  | refuses d m b what hp hcb hm =>
    have h : Feeds (s.conns d) { s.conns d with inputBuffer := b } [] [m] := .takes m hp hcb
    by_cases hc : d = c <;> simpa [receivedOn,decodedOn,hc] using feeds_setConn c d h
  | answers k t exit envelope ht hh => exact .keeps rfl rfl
  | drops k t exit ht hh => exact .keeps rfl rfl

theorem accounted_step (env : Envelopes) (c : κ) (s : RpcServer κ M) (os : List (Output κ))
    (i : Input κ M) (h : Accounted c s os) :
    Accounted c ((server env).step s i).1 (os++((server env).step s i).2) := by
  have he := step_effect env s i
  have hf := effect_feeds env c he
  refine ⟨requests_step env c he h.requests,?_,?_⟩
  · rw [receivedOn_append,decodedOn_append]
    generalize receivedOn c ((server env).step s i).2 = got,
      decodedOn c ((server env).step s i).2 = ms at hf ⊢
    cases hf with
    | keeps hb hi => simpa [hb] using h.frames
    | receives _ hb hi => simpa [hb] using resumes_append frameParser h.frames got
    | leaves hb hd => simpa [hb] using h.frames
    | takes m hp hi => simpa using resumes_item frameParser h.frames hp
  · generalize receivedOn c ((server env).step s i).2 = got,
      decodedOn c ((server env).step s i).2 = ms at hf
    cases hf with
    | keeps hb hi =>
      rw [hb,hi]
      exact h.drained
    | receives _ hb hi => simp [hi]
    | leaves hb hd => rw [hb]; exact fun _ => hd
    | takes m hp hi => simp [hi]

theorem accounted_start (c : κ) (registry : ServiceRegistry M) :
    Accounted c ({ registry } : RpcServer κ M) [] := by
  refine ⟨by simp [decodedOn,answersOn,pendingOn,thrownOn],?_,fun _ => ?_⟩
  · exact resumes_nil frameParser
  · exact congrArg Drained.items (drain_wait frameParser wireFraming.next_nil)

theorem run_accounted (env : Envelopes) (c : κ) (registry : ServiceRegistry M)
    (is : List (Input κ M)) :
    Accounted c ((server env).run { registry } is).1 ((server env).run { registry } is).2 :=
  run_invariant (server env) (Accounted c) (accounted_step env c) _ is (accounted_start c registry)

/-- Nothing is left to do for the connection: `onMessage` has returned and
no task of the connection waits. -/
structure Settled (c : κ) (s : RpcServer κ M) : Prop where
  decoded : (s.conns c).inCallback = false
  worked : ∀ t ∈ s.queue, t.conn ≠ c

theorem decodedOn_stream (c : κ) (s : RpcServer κ M) (os : List (Output κ))
    (ha : Accounted c s os) (hd : (s.conns c).inCallback = false) (ms : List ProtocolMessage)
    (hm : ∀ m ∈ ms, Sendable m) (hr : receivedOn c os = ms.flatMap encoded) :
    decodedOn c os = ms.map received := by
  have hf := congrArg Drained.items ha.frames
  rw [hr,encoded_stream,drain_stream wireFraming ms hm] at hf
  simp only [ha.drained hd,List.append_nil] at hf
  exact hf.symm

theorem requests_received (ms : List ProtocolMessage) :
    ((ms.map received).filter isRequest).map (fun m => m.header.seq) =
      (ms.filter isRequest).map fun m => m.header.seq := by
  induction ms with
  | nil => rfl
  | cons m ms ih =>
    have hr : isRequest (received m) = isRequest m := rfl
    rw [List.map_cons,List.filter_cons,List.filter_cons,hr]
    split
    · rw [List.map_cons,List.map_cons,ih]
      rfl
    · exact ih

/-- Once the frames that arrived on a connection are dealt with, each
request among them has been answered exactly once, and nothing else was
sent, if and only if no service method threw. -/
theorem answered_once_iff (env : Envelopes) (registry : ServiceRegistry M)
    (is : List (Input κ M)) (c : κ) (ms : List ProtocolMessage) (hm : ∀ m ∈ ms, Sendable m)
    (hr : receivedOn c ((server env).run { registry } is).2 = ms.flatMap encoded)
    (hs : Settled c ((server env).run { registry } is).1) :
    AnsweredOnce env c ms ((server env).run { registry } is).2 ↔
      ∀ request, .threw c request ∉ ((server env).run { registry } is).2 := by
  have ha := run_accounted env c registry is
  generalize (server env).run { registry } is = r at ha hr hs ⊢
  have hpend : pendingOn c r.1 = [] := by
    rw [pendingOn,List.filterMap_eq_nil_iff]
    intro t ht
    rw [if_neg (hs.worked t ht)]
  have hreq := ha.requests
  rw [decodedOn_stream c r.1 r.2 ha hs.decoded ms hm hr,hpend,List.nil_append] at hreq
  have hseqs : ((ms.filter isRequest).map fun m => m.header.seq).Perm
      (((answersOn c r.2).map Prod.fst++thrownOn c r.2).map fun m => m.header.seq) := by
    rw [← requests_received]
    exact hreq.map _
  have hthrown : (∀ request, .threw c request ∉ r.2) ↔ thrownOn c r.2 = [] := by
    rw [thrownOn,List.filterMap_eq_nil_iff]
    constructor
    · intro h o ho
      cases o with
      | threw d m =>
        by_cases hd : d = c
        · subst hd
          exact absurd ho (h m)
        · simp [hd]
      | _ => rfl
    · intro h m hmem
      simpa using h _ hmem
  rw [hthrown]
  constructor
  · rintro ⟨replies,hsent,hperm⟩
    have hl := congrArg List.length hsent
    have hp := (hperm.trans hseqs).length_eq
    simp only [sentOn,List.length_map,List.length_append] at hl hp
    exact List.eq_nil_of_length_eq_zero (by omega)
  · intro ht
    rw [ht,List.append_nil] at hseqs
    refine ⟨(answersOn c r.2).map fun a => (a.1.header.seq,a.2),by simp [sentOn],?_⟩
    simpa [Function.comp_def] using hseqs.symm

def echoRequest (seq : UInt64) : ProtocolMessage where
  header := { magic := kMagic, version := kProtocolVersion, type := MessageType.kRequest.code,
              seq := seq }
  body := protoEnvelopes.request.serialize ⟨"minirpc.example.EchoService.Echo",[104,105]⟩

def sampleRun (exit : MethodExit Bytes) : List (Input Unit Bytes) :=
  [.read () ((encoded (echoRequest 1)).take 10),.decode () none,
   .read () ((encoded (echoRequest 1)).drop 10++encoded (echoRequest 2)),
   .decode () none,.decode () (some "ThreadPool: queue full, timed out"),.decode () none,
   .work 0 exit]

theorem answered_once_two_requests :
    AnsweredOnce protoEnvelopes () [echoRequest 1,echoRequest 2]
      ((server protoEnvelopes).run { registry := echoRegistry } (sampleRun (.returned [] [104,105]))).2 := by
  refine (answered_once_iff protoEnvelopes echoRegistry _ () _ ?_ ?_ ⟨?_,?_⟩).mpr ?_
  · intro m hm
    simp only [List.mem_cons,List.not_mem_nil,or_false] at hm
    rcases hm with rfl | rfl <;> exact ⟨rfl,rfl,by decide +kernel⟩
  · decide +kernel
  · decide +kernel
  · intro t ht
    have hq : ((server protoEnvelopes).run { registry := echoRegistry }
      (sampleRun (.returned [] [104,105]))).1.queue.length = 0 := by decide +kernel
    rw [List.eq_nil_of_length_eq_zero hq] at ht
    simp at ht
  · intro request hmem
    have ht : (thrownOn () ((server protoEnvelopes).run { registry := echoRegistry }
      (sampleRun (.returned [] [104,105]))).2).length = 0 := by decide +kernel
    have hin : request ∈ thrownOn () ((server protoEnvelopes).run { registry := echoRegistry }
      (sampleRun (.returned [] [104,105]))).2 := List.mem_filterMap.mpr ⟨_,hmem,by simp⟩
    rw [List.eq_nil_of_length_eq_zero ht] at hin
    simp at hin

/-- The method of the first request throws: both requests were received and
nothing waits, but only the second was answered. -/
theorem thrown_request_unanswered :
    receivedOn () ((server protoEnvelopes).run { registry := echoRegistry }
      (sampleRun .threw)).2 = [echoRequest 1,echoRequest 2].flatMap encoded ∧
    (((server protoEnvelopes).run { registry := echoRegistry }
      (sampleRun .threw)).1.conns ()).inCallback = false ∧
    ((server protoEnvelopes).run { registry := echoRegistry }
      (sampleRun .threw)).1.queue.length = 0 ∧
    ¬ AnsweredOnce protoEnvelopes () [echoRequest 1,echoRequest 2]
      ((server protoEnvelopes).run { registry := echoRegistry } (sampleRun .threw)).2 := by
  refine ⟨by decide +kernel,by decide +kernel,by decide +kernel,?_⟩
  rintro ⟨replies,hsent,hperm⟩
  have hl : (sentOn protoEnvelopes () ((server protoEnvelopes).run { registry := echoRegistry }
    (sampleRun .threw)).2).length = 1 := by decide +kernel
  rw [hsent,List.length_map] at hl
  have hp := hperm.length_eq
  rw [List.length_map,hl] at hp
  exact absurd hp (by decide)

end MiniRpc.RequestAnswers
