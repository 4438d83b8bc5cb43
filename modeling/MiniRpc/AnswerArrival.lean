import MiniRpc.CallContract

/-!
# An answer that has arrived

`waitResponse` looks at the clock, polls, and reads what there is; a frame
that is longer than one read is taken over several polls. The bits that
report a hang-up are looked at before the data, so an answer whose sender
has closed the connection right after it is left in the socket, and the
clock is looked at again before the rest of a frame is read.
-/

set_option autoImplicit false

namespace MiniRpc.AnswerArrival
open MiniRpc.ByteBuffer MiniRpc.WireCodec MiniRpc.CodecStream MiniRpc.CallController
open MiniRpc.CallChannel MiniRpc.Incremental MiniRpc.StepMachine MiniRpc.CallContract
open MiniRpc.ProtoWire (protoEnvelopes)
open MiniRpc.CallServer (responseMessage sendEnvelope)
open MiniRpc.StatusFidelity (returnsOf echoSent echoCall echo_waiting)

variable {M : Type}

/-- A poll of a socket that has bytes to read: it is interrupted, or it
reports `POLLIN`, with whichever other bits, and some of the bytes are
read. -/
inductive Wake where
  | interrupted (now : ℤ) (text : String)
  | readable (now : ℤ) (revents : Revents) (data : Bytes) (hin : revents.pollin = true)
      (hdata : data ≠ [])

def Wake.now : Wake → ℤ
  | .interrupted now _ => now
  | .readable now _ _ _ _ => now

def Wake.result : Wake → PollResult
  | .interrupted _ text => .error ⟨EINTR,text⟩
  | .readable _ revents data _ _ => .ready revents (.ok data)

def Wake.data : Wake → Bytes
  | .interrupted _ _ => []
  | .readable _ _ data _ _ => data

def Wake.input (w : Wake) : Input M := .polled w.now w.result

def Wake.hangsUp : Wake → Bool
  | .interrupted _ _ => false
  | .readable _ revents _ _ _ => revents.pollerr || revents.pollhup || revents.pollnval

inductive Trouble where
  | late
  | hungUp
  deriving DecidableEq, Repr

def Wake.trouble (deadline : ℤ) (w : Wake) : Option Trouble :=
  if w.now ≥ deadline then some .late else if w.hangsUp then some .hungUp else none

def Trouble.ending (c : Call M) (t : RpcChannel M) : Trouble → RpcChannel M × List (Output M)
  | .late => timedOut t c
  | .hungUp => finish t (c.fail kClosed "connection closed")

def bytesOf (ws : List Wake) : Bytes := ws.flatMap Wake.data

/-- The attempt ended with the answer: it was decoded, and the call returned
what was made of it. -/
def EndsWith (env : Envelopes) (c : Call M) (answer : ProtocolMessage)
    (r : RpcChannel M × List (Output M)) : Prop :=
  ∃ t os, .decoded (received answer) ∈ os ∧
    r = ((finish t (acceptResponse env c answer.body)).1,
      os++(finish t (acceptResponse env c answer.body)).2)

def EndsBy (c : Call M) (answer : ProtocolMessage) (e : Trouble)
    (r : RpcChannel M × List (Output M)) : Prop :=
  ∃ t os, .decoded (received answer) ∉ os ∧ r = ((e.ending c t).1,os++(e.ending c t).2)

section
variable (env : Envelopes) {s : RpcChannel M} {c : Call M} {deadline : ℤ}

theorem step_wake (hpc : s.pc = .waiting c deadline) (w : Wake) :
    (channel env).step s w.input = waitIteration env s c deadline w.now w.result := by
  simp only [channel,Wake.input,hpc]

theorem step_trouble (hpc : s.pc = .waiting c deadline) {w : Wake} {e : Trouble}
    (he : w.trouble deadline = some e) : (channel env).step s w.input = e.ending c s := by
  rw [step_wake env hpc,waitIteration.eq_def]
  rw [Wake.trouble] at he
  by_cases hlate : w.now ≥ deadline
  · rw [if_pos hlate] at he ⊢
    obtain rfl := Option.some.inj he
    rfl
  · rw [if_neg hlate] at he ⊢
    by_cases hup : w.hangsUp = true
    · rw [if_pos hup] at he
      obtain rfl := Option.some.inj he
      cases w with
      | interrupted now text => cases hup
      | readable now revents data hin hdata =>
        rw [Wake.hangsUp] at hup
        dsimp only [Wake.result]
        rw [if_pos hup]
        rfl
    · rw [if_neg hup] at he
      cases he

theorem step_in_time (hpc : s.pc = .waiting c deadline) {w : Wake}
    (hw : w.trouble deadline = none) :
    (w.data = [] ∧ (channel env).step s w.input = (s,[])) ∨
    (channel env).step s w.input = readAnswer env s c w.data := by
  rw [step_wake env hpc,waitIteration.eq_def]
  rw [Wake.trouble] at hw
  by_cases hlate : w.now ≥ deadline
  · rw [if_pos hlate] at hw
    cases hw
  · rw [if_neg hlate] at hw ⊢
    by_cases hup : w.hangsUp = true
    · rw [if_pos hup] at hw
      cases hw
    · cases w with
      | interrupted now text => exact .inl ⟨rfl,rfl⟩
      | readable now revents data hin hdata =>
        right
        rw [Wake.hangsUp] at hup
        dsimp only [Wake.result]
        rw [if_neg hup,hin]
        cases data with
        | nil => exact absurd rfl hdata
        | cons b bs => rfl

theorem wakes_ignored (hpc : ∀ c' deadline', s.pc ≠ .waiting c' deadline') (ws : List Wake) :
    (channel env).run s (ws.map Wake.input) = (s,[]) := by
  induction ws with
  | nil => rfl
  | cons w ws ih =>
    have hstep : (channel env).step s w.input = (s,[]) := by
      cases hs : s.pc with
      | waiting c' deadline' => exact absurd hs (hpc c' deadline')
      | idle => simp only [channel,Wake.input,hs]
      | connecting c' => simp only [channel,Wake.input,hs]
      | sending c' rest => simp only [channel,Wake.input,hs]
    rw [List.map_cons,Machine.run,hstep,ih]
    rfl

theorem ending_not_waiting (e : Trouble) (t : RpcChannel M) (c' : Call M) (deadline' : ℤ) :
    (e.ending c t).1.pc ≠ .waiting c' deadline' := by
  cases e with
  | late =>
    rw [Trouble.ending,timedOut,startAttempt]
    split_ifs
    · intro h
      cases h
    · intro h
      cases h
  | hungUp =>
    intro h
    cases h

theorem ending_decodes_nothing (e : Trouble) (t : RpcChannel M) (m : ProtocolMessage) :
    .decoded m ∉ (e.ending c t).2 := by
  have hfinish : ∀ c' : Call M, .decoded m ∉ (finish t c').2 := by
    intro c'
    rw [finish]
    cases c'.done <;> simp
  cases e with
  | late =>
    rw [Trouble.ending,timedOut,startAttempt]
    split_ifs
    · simp
    · exact hfinish _
  | hungUp => exact hfinish _

/-- The bytes held and those still to come bring, after frames that do not
answer the attempt, the answer. -/
structure Brings (seq : UInt64) (held coming : Bytes) (answer : ProtocolMessage) (more : Bytes) :
    Prop where
  sendable : Sendable answer
  answers : isAnswer seq (received answer) = true
  stream : ∃ stale : List ProtocolMessage,
    (∀ m ∈ stale, Sendable m ∧ isAnswer seq (received m) = false) ∧
    held++coming = stale.flatMap encoded++(encoded answer++more)

theorem readAnswer_brings {data coming more : Bytes} {answer : ProtocolMessage}
    (h : Brings c.seq s.inputBuffer.readable (data++coming) answer more) :
    (EndsWith env c answer (readAnswer env s c data) ∧ coming.length ≤ more.length ∧
      (readAnswer env s c data).1.pc = .idle) ∨
    (coming ≠ [] ∧ .decoded (received answer) ∉ (readAnswer env s c data).2 ∧
      (readAnswer env s c data).1.pc = s.pc ∧
      Brings c.seq (readAnswer env s c data).1.inputBuffer.readable coming answer more) := by
  obtain ⟨hk,hhit,stale,hstale,hbytes⟩ := h
  have hv := fun m hm => (hstale m hm).1
  obtain ⟨-,hending,hrest⟩ := scanResponses_search c.seq (s.inputBuffer.readFd data)
  have hhits := scan_hits (k := received answer) c.seq (s.inputBuffer.readFd data)
  have hfound := scan_found (m := received answer) c.seq (s.inputBuffer.readFd data)
  rw [readable_readFd] at hending hrest
  rw [encoded_stream,encoded_frame,← List.append_assoc] at hbytes
  rw [readAnswer]
  generalize scanResponses c.seq (s.inputBuffer.readFd data) = scan at *
  rcases search_reaches wireFraming (isAnswer c.seq) stale hv (fun m hm => (hstale m hm).2) hk hhit
    _ _ more hbytes with ⟨hf,hmore⟩ | ⟨hw,hwait,left,hl,hleft⟩
  · have he : scan.ending = .found (received answer) := hending.trans hf
    rw [he]
    refine .inl ⟨⟨_,_,?_,rfl⟩,?_,rfl⟩
    · exact List.mem_cons_of_mem _ (List.mem_map_of_mem (hfound he).1)
    · rw [← hmore,List.length_append]
      omega
  · have he : scan.ending = .waits := hending.trans hw
    rw [he]
    refine .inr ⟨?_,?_,rfl,hk,hhit,left,fun m hm => hstale m (hl m hm),?_⟩
    · rintro rfl
      rw [List.append_nil] at hleft
      exact wait_short wireFraming (fun m hm => hv m (hl m hm)) hk _ more hwait hleft
    · intro hmem
      have hdec : received answer ∈ scan.decoded := by simpa using hmem
      rw [he] at hhits
      cases hhits hdec hhit
    · rw [encoded_stream,encoded_frame]
      dsimp only
      rw [hrest]
      exact hleft

theorem troubled_ends (hpc : s.pc = .waiting c deadline) {w : Wake} {e : Trouble}
    (he : w.trouble deadline = some e) (ws : List Wake) (answer : ProtocolMessage) :
    EndsBy c answer e ((channel env).run s ((w::ws).map Wake.input)) := by
  refine ⟨s,[],List.not_mem_nil,?_⟩
  rw [List.map_cons,Machine.run,step_trouble env hpc he,
    wakes_ignored env (ending_not_waiting e s)]
  simp

theorem wakes_end (hpc : s.pc = .waiting c deadline) (before : List Wake) (last : Wake)
    {answer : ProtocolMessage} {more : Bytes}
    (h : Brings c.seq s.inputBuffer.readable (bytesOf (before++[last])) answer more)
    (hlast : more.length < last.data.length) :
    ((before++[last]).findSome? (Wake.trouble deadline) = none →
      EndsWith env c answer ((channel env).run s ((before++[last]).map Wake.input))) ∧
    ∀ e, (before++[last]).findSome? (Wake.trouble deadline) = some e →
      EndsBy c answer e ((channel env).run s ((before++[last]).map Wake.input)) := by
  induction before generalizing s with
  | nil =>
    rw [List.nil_append,List.findSome?_singleton]
    refine ⟨fun hin => ?_,fun e he => troubled_ends env hpc he [] answer⟩
    rw [List.map_singleton,Machine.run,Machine.run,List.append_nil]
    rcases step_in_time env hpc hin with ⟨hdata,-⟩ | hstep
    · rw [hdata] at hlast
      exact absurd hlast (Nat.not_lt_zero _)
    · rw [bytesOf,List.nil_append,List.flatMap_singleton,← List.append_nil last.data] at h
      rcases readAnswer_brings env h with ⟨hends,-⟩ | ⟨hcoming,-⟩
      · rw [hstep]
        exact hends
      · exact absurd rfl hcoming
  | cons w before ih =>
    rw [List.cons_append,List.findSome?_cons]
    cases hw : w.trouble deadline with
    | some e =>
      refine ⟨fun hnone => ?_,fun e' he => ?_⟩
      · cases hnone
      · obtain rfl := Option.some.inj he
        exact troubled_ends env hpc hw _ answer
    | none =>
      dsimp only
      rw [bytesOf,List.cons_append,List.flatMap_cons] at h
      rcases step_in_time env hpc hw with ⟨hdata,hstep⟩ | hstep
      · rw [hdata,List.nil_append] at h
        rw [List.map_cons,Machine.run,hstep]
        exact ih hpc h
      · rcases readAnswer_brings env h with ⟨-,hlen,-⟩ | ⟨-,hnot,hpc',hbrings⟩
        · rw [List.flatMap_append,List.flatMap_singleton,List.length_append] at hlen
          omega
        · rw [List.map_cons,Machine.run,hstep]
          obtain ⟨hgood,hbad⟩ := ih (hpc'.trans hpc) hbrings
          refine ⟨fun hnone => ?_,fun e he => ?_⟩
          · obtain ⟨t,os,hmem,hrun⟩ := hgood hnone
            refine ⟨t,(readAnswer env s c w.data).2++os,List.mem_append_right _ hmem,?_⟩
            rw [hrun,List.append_assoc]
          · obtain ⟨t,os,hmem,hrun⟩ := hbad e he
            refine ⟨t,(readAnswer env s c w.data).2++os,?_,?_⟩
            · rw [List.mem_append,not_or]
              exact ⟨hnot,hmem⟩
            · rw [hrun,List.append_assoc]

theorem endsBy_not_endsWith {answer : ProtocolMessage} {e : Trouble}
    {r : RpcChannel M × List (Output M)} (h : EndsBy c answer e r) : ¬ EndsWith env c answer r := by
  rintro ⟨t,os,hmem,hr⟩
  obtain ⟨t',os',hnot,hr'⟩ := h
  have hall : .decoded (received answer) ∈ r.2 := by
    rw [hr]
    exact List.mem_append_left _ hmem
  rw [hr',List.mem_append] at hall
  rcases hall with hin | hin
  · exact hnot hin
  · exact ending_decodes_nothing e t' _ hin

end

/-- An attempt whose answer is read, in whatever pieces and behind whatever
frames, ends with that answer if and only if every poll up to the one that
reads its last byte is in time and reports no hang-up. Otherwise the first
poll that is not decides between `kTimeout` and `kClosed`. -/
theorem answer_arrival_iff (env : Envelopes) (s : RpcChannel M) (c : Call M) (deadline : ℤ)
    (hpc : s.pc = .waiting c deadline) (before : List Wake) (last : Wake) (answer : ProtocolMessage)
    (more : Bytes)
    (h : Brings c.seq s.inputBuffer.readable (bytesOf (before++[last])) answer more)
    (hlast : more.length < last.data.length) :
    (EndsWith env c answer ((channel env).run s ((before++[last]).map Wake.input)) ↔
      ∀ w ∈ before++[last], w.now < deadline ∧ w.hangsUp = false) ∧
    ∀ e, (before++[last]).findSome? (Wake.trouble deadline) = some e →
      EndsBy c answer e ((channel env).run s ((before++[last]).map Wake.input)) := by
  obtain ⟨hgood,hbad⟩ := wakes_end env hpc before last h hlast
  have htrouble : ∀ w : Wake, w.trouble deadline = none ↔ w.now < deadline ∧ w.hangsUp = false := by
    intro w
    rw [Wake.trouble]
    split_ifs with hlate hup
    · simpa using fun h => absurd hlate (not_le.mpr h)
    · simp [hup]
    · simpa using ⟨not_le.mp hlate,by simpa using hup⟩
  refine ⟨⟨fun hends => ?_,fun hall => hgood ?_⟩,hbad⟩
  · cases he : (before++[last]).findSome? (Wake.trouble deadline) with
    | some e => exact absurd hends (endsBy_not_endsWith env (hbad e he))
    | none =>
      rw [List.findSome?_eq_none_iff] at he
      exact fun w hw => (htrouble w).mp (he w hw)
  · rw [List.findSome?_eq_none_iff]
    exact fun w hw => (htrouble w).mpr (hall w hw)

def echoWaiting : RpcChannel Bytes := ((channel protoEnvelopes).run (RpcChannel.new 2000 0) echoSent).1

def echoAnswer : ProtocolMessage := responseMessage protoEnvelopes 1 { response := [104,105] }

def staleAnswer : ProtocolMessage := responseMessage protoEnvelopes 0 { response := [1] }

def readablePoll (now : ℤ) (data : Bytes) (hdata : data ≠ []) : Wake :=
  .readable now { pollin := true } data rfl hdata

theorem encoded_ne_nil (m : ProtocolMessage) : encoded m ≠ [] := by
  intro h
  have hlen := frame_length m
  rw [← encoded_frame,h,List.length_nil,kHeaderSize] at hlen
  omega

theorem echo_answer_kept :
    returnsOf ((channel protoEnvelopes).run echoWaiting
      ([readablePoll 1 (encoded staleAnswer) (encoded_ne_nil _),.interrupted 2 "EINTR",
        readablePoll 3 (encoded echoAnswer) (encoded_ne_nil _)].map Wake.input)).2 =
      [(.minirpc {},some [104,105])] ∧
    EndsWith protoEnvelopes echoCall echoAnswer ((channel protoEnvelopes).run echoWaiting
      ([readablePoll 1 (encoded staleAnswer) (encoded_ne_nil _),.interrupted 2 "EINTR",
        readablePoll 3 (encoded echoAnswer) (encoded_ne_nil _)].map Wake.input)) := by
  refine ⟨by decide +kernel,?_⟩
  have hbrings : Brings echoCall.seq echoWaiting.inputBuffer.readable
      (bytesOf ([readablePoll 1 (encoded staleAnswer) (encoded_ne_nil _),.interrupted 2 "EINTR"]++
        [readablePoll 3 (encoded echoAnswer) (encoded_ne_nil _)])) echoAnswer [] := by
    refine ⟨⟨rfl,rfl,by decide +kernel⟩,by decide +kernel,[staleAnswer],?_,by decide +kernel⟩
    intro m hm
    rw [List.mem_singleton.mp hm]
    exact ⟨⟨rfl,rfl,by decide +kernel⟩,by decide +kernel⟩
  refine (answer_arrival_iff protoEnvelopes echoWaiting echoCall (0+2000*1000000) echo_waiting _ _
    echoAnswer [] hbrings (by decide +kernel)).1.mpr ?_
  intro w hw
  simp only [List.cons_append,List.nil_append,List.mem_cons,List.not_mem_nil,or_false] at hw
  rcases hw with rfl | rfl | rfl
  · exact ⟨by decide,rfl⟩
  · exact ⟨by decide,rfl⟩
  · exact ⟨by decide,rfl⟩

/-- The peer closes the connection right after its answer: the poll reports
`POLLIN` and `POLLHUP`, and the call fails although the answer is there to
be read. An answer that takes two reads fails the call if the deadline
passes between them. -/
theorem arrived_answer_lost :
    returnsOf ((channel protoEnvelopes).run echoWaiting
      [.polled 1 (.ready { pollin := true, pollhup := true } (.ok (encoded echoAnswer)))]).2 =
      [(.minirpc (({} : RpcController).setFailedCode kClosed "connection closed"),none)] ∧
    returnsOf ((channel protoEnvelopes).run echoWaiting
      [.polled 1 (.ready { pollin := true } (.ok ((encoded echoAnswer).take 26))),
       .polled 2000000000 (.ready { pollin := true } (.ok ((encoded echoAnswer).drop 26)))]).2 =
      [(.minirpc (({} : RpcController).setFailedCode kTimeout "rpc call timeout"),none)] := by
  decide +kernel

end MiniRpc.AnswerArrival
