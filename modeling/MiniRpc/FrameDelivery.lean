import MiniRpc.CodecStream
import MiniRpc.WriteComplete

/-!
# Frames on a connection that many threads write to

The pool threads of a server send one frame each that the peer may accept, the
loop sends others, `::write` takes what it likes of them, and the peer reads
the bytes in pieces of its own. What the peer decodes are whole frames all the same, in the
order in which the loop took them; a connection that closes cuts the sequence
short and does nothing else to it.
-/

set_option autoImplicit false

namespace MiniRpc.FrameDelivery
open MiniRpc.ByteBuffer MiniRpc.PostedItems MiniRpc.StepMachine MiniRpc.ConnectionLoop
open MiniRpc.OutputStream MiniRpc.WriteComplete MiniRpc.WireCodec MiniRpc.CodecStream
open MiniRpc.Incremental

theorem receiveChunks_part (ms : List ProtocolMessage) (hm : ∀ m ∈ ms, Sendable m) (b : Buffer)
    (hb : b.readableBytes = 0) (cs : List Bytes) (hc : cs.flatten <+: ms.flatMap encoded) :
    (receiveChunks b cs).messages <+: ms.map received ∧ (receiveChunks b cs).thrown = [] := by
  obtain ⟨more,hmore⟩ := hc
  rw [encoded_stream] at hmore
  obtain ⟨hitems,hverdict,-⟩ := receiveChunks_drain b hb cs
  constructor
  · obtain ⟨left,hleft⟩ := resumes_stream wireFraming ms hm (resumes_drain frameParser cs.flatten)
      hmore
    rw [hitems]
    exact ⟨left,hleft.symm⟩
  · refine List.head?_eq_none_iff.mp (hverdict.trans ?_)
    cases hv : (drain frameParser cs.flatten).verdict with
    | none => rfl
    | some e =>
      have hall := drain_rejected frameParser cs.flatten more hv
      rw [hmore,drain_stream wireFraming ms hm] at hall
      cases hall

variable {τ : Type} [DecidableEq τ]

theorem closed_silent {s : EventLoop τ} (h : s.conn.state = .disconnected → s.conn.writing = false)
    {i : Input τ} {r : EventLoop τ × List (Output τ)} (hm : Move s i r)
    (hr : r.1.conn.state = .disconnected) : writtenOf r.2 = [] ∧ ranOf r.2 = [] := by
  cases hm with
  | writes w hb =>
    have hs := (handleWrite_unshut (τ := τ) s.conn w).state.symm.trans hr
    have hidle : (s.conn.handleWrite (τ := τ) w).2 = [] := by
      rw [TcpConnection.handleWrite,if_pos (h hs)]
    dsimp only
    rw [hidle]
    exact ⟨rfl,rfl⟩
  | sends message w hc =>
    have hs := (sendInLoop_unshut s.conn none message w).state.symm.trans hr
    exact State.noConfusion (hc.symm.trans hs)
  | shuts hc =>
    have hquiet := shutdownInLoop_quiet (τ := τ) { s.conn with state := .disconnecting }
    exact ⟨hquiet.2.2.2.1,hquiet.2.2.2.2.1⟩
  | runsSend w t message fs hb =>
    have hs := (sendInLoop_unshut s.conn (some t) message w).state.symm.trans hr
    have hidle : (s.conn.sendInLoop (some t) message w).2 = [] := by
      rw [TcpConnection.sendInLoop,if_pos hs]
    change writtenOf (s.conn.sendInLoop (some t) message w).2 = [] ∧
      ranOf (s.conn.sendInLoop (some t) message w).2 = []
    rw [hidle]
    exact ⟨rfl,rfl⟩
  | runsShutdown w t fs hb =>
    have hquiet := shutdownInLoop_quiet (τ := τ) s.conn
    exact ⟨hquiet.2.2.2.1,hquiet.2.2.2.2.1⟩
  | _ => exact ⟨rfl,rfl⟩

/-- What was written is the start of the messages that the loop took, and of
each sender's messages it took the first. -/
structure Sent (os : List (Output τ)) : Prop where
  written : writtenOf os <+: (ranOf os).flatMap Prod.snd
  order : ∀ sender, itemsOf sender (ranOf os) <+: itemsOf sender (acceptedOf os)

theorem integrity_sent {s : EventLoop τ} {os : List (Output τ)} (h : Integrity s os) : Sent os where
  written := ⟨_,h.stream⟩
  order := fun sender => ⟨_,h.order sender⟩

theorem sent_silent {os new : List (Output τ)} (h : Sent os) (hwritten : writtenOf new = [])
    (hran : ranOf new = []) : Sent (os++new) where
  written := by
    rw [writtenOf_append,ranOf_append,hwritten,hran,List.append_nil,List.append_nil]
    exact h.written
  order := by
    intro sender
    rw [ranOf_append,acceptedOf_append,hran,List.append_nil,itemsOf_append]
    exact (h.order sender).trans (List.prefix_append ..)

structure Delivers (s : EventLoop τ) (os : List (Output τ)) : Prop where
  opened : s.conn.state ≠ .disconnected → Integrity s os
  closed : s.conn.state = .disconnected → s.conn.writing = false
  sent : Sent os

theorem delivers_step (s : EventLoop τ) (os : List (Output τ)) (i : Input τ) (h : Delivers s os) :
    Delivers (eventLoop.step s i).1 (os++(eventLoop.step s i).2) where
  opened := integrity_step s os i h.opened
  closed := move_closed (step_move s i) h.closed
  sent := by
    by_cases hr : (eventLoop.step s i).1.conn.state = .disconnected
    · obtain ⟨hwritten,hran⟩ := closed_silent h.closed (step_move s i) hr
      exact sent_silent h.sent hwritten hran
    · exact integrity_sent (integrity_step s os i h.opened hr)

theorem run_delivers (is : List (Input τ)) :
    Delivers (eventLoop.run {} is).1 (eventLoop.run {} is).2 :=
  run_invariant eventLoop Delivers delivers_step {} is
    ⟨fun _ => integrity_start,fun hr => State.noConfusion hr,integrity_sent integrity_start⟩

theorem mem_itemsOf {sender : Option τ} {xs : List (Option τ × Bytes)} {message : Bytes} :
    message ∈ itemsOf sender xs ↔ (sender,message) ∈ xs := by
  simp only [itemsOf,List.mem_filterMap]
  constructor
  · rintro ⟨x,hx,heq⟩
    split_ifs at heq with hsender
    rw [← hsender,← Option.some.inj heq]
    exact hx
  · intro h
    exact ⟨_,h,by simp⟩

theorem ran_accepted {os : List (Output τ)} (h : Sent os) {x : Option τ × Bytes}
    (hx : x ∈ ranOf os) : x ∈ acceptedOf os :=
  mem_itemsOf.mp ((h.order x.1).subset (mem_itemsOf.mpr hx))

theorem exists_frames {messages : List Bytes} (h : ∀ message ∈ messages, ∃ m, Sendable m ∧
    message = encoded m) :
    ∃ ms : List ProtocolMessage, (∀ m ∈ ms, Sendable m) ∧ messages = ms.map encoded := by
  induction messages with
  | nil => exact ⟨[],by simp,rfl⟩
  | cons message messages ih =>
    obtain ⟨m,hm,rfl⟩ := h message List.mem_cons_self
    obtain ⟨ms,hms,rfl⟩ := ih fun x hx => h x (List.mem_cons_of_mem _ hx)
    exact ⟨m::ms,List.forall_mem_cons.mpr ⟨hm,hms⟩,rfl⟩

/-- In every run in which all that threads send are encodings of `Sendable`
messages, whatever `::write` returns and whether or not the connection closes:
in whatever pieces the peer gets what was written so far, or a part of it, it
meets no malformed frame and decodes the first frames of those that the loop
took, which are of each sender's frames the first, in the order they were
sent; and it has them all once everything is written and read. -/
theorem frames_arrive_whole (is : List (Input τ))
    (hframes : ∀ x ∈ acceptedOf (eventLoop.run {} is).2, ∃ m, Sendable m ∧ x.2 = encoded m) :
    ∃ ms : List ProtocolMessage,
      (ranOf (eventLoop.run {} is).2).map Prod.snd = ms.map encoded ∧
      (∀ sender, itemsOf sender (ranOf (eventLoop.run {} is).2) <+:
        itemsOf sender (acceptedOf (eventLoop.run {} is).2)) ∧
      ∀ b cs, b.readableBytes = 0 → cs.flatten <+: writtenOf (eventLoop.run {} is).2 →
        (receiveChunks b cs).messages <+: ms.map received ∧ (receiveChunks b cs).thrown = [] ∧
        (cs.flatten.length = (ms.flatMap encoded).length →
          (receiveChunks b cs).messages = ms.map received) := by
  have hsent := (run_delivers is).sent
  have htaken : ∀ message ∈ (ranOf (eventLoop.run {} is).2).map Prod.snd,
      ∃ m, Sendable m ∧ message = encoded m := by
    intro message hin
    obtain ⟨x,hx,rfl⟩ := List.mem_map.mp hin
    exact hframes x (ran_accepted hsent hx)
  obtain ⟨ms,hsendable,hms⟩ := exists_frames htaken
  have hstream : (ranOf (eventLoop.run {} is).2).flatMap Prod.snd = ms.flatMap encoded := by
    rw [List.flatMap_def,List.flatMap_def,hms]
  refine ⟨ms,hms,hsent.order,fun b cs hb hc => ?_⟩
  have hpart : cs.flatten <+: ms.flatMap encoded := hstream ▸ hc.trans hsent.written
  obtain ⟨hmessages,hthrown⟩ := receiveChunks_part ms hsendable b hb cs hpart
  refine ⟨hmessages,hthrown,fun hlen => ?_⟩
  have hall : cs.flatten = ms.flatMap encoded := hpart.eq_of_length hlen
  rw [encoded_stream] at hall
  rw [(receiveChunks_drain b hb cs).1,hall,drain_stream wireFraming ms hsendable]
  rfl

def twoFrames : List (Input ℕ) :=
  [.connectEstablished,.threadSend 1 (encoded (sampleMessage 1 [5])),
   .threadSend 2 (encoded (sampleMessage 2 [])),.queueInLoop 2,.queueInLoop 1,.doPendingFunctors,
   .runFunctor (.wrote 10),.runFunctor .again,.runFunctor .again,.handleWrite (.wrote 20)]

theorem second_thread_first :
    acceptedOf (eventLoop.run {} twoFrames).2 =
      [(some 1,encoded (sampleMessage 1 [5])),(some 2,encoded (sampleMessage 2 []))] ∧
    (writtenOf (eventLoop.run {} twoFrames).2).length = 30 ∧
    ∃ ms : List ProtocolMessage,
      (ranOf (eventLoop.run {} twoFrames).2).map Prod.snd = ms.map encoded ∧
      ∀ b cs, b.readableBytes = 0 → cs.flatten <+: writtenOf (eventLoop.run {} twoFrames).2 →
        (receiveChunks b cs).messages <+: ms.map received ∧ (receiveChunks b cs).thrown = [] := by
  have haccepted : acceptedOf (eventLoop.run {} twoFrames).2 =
      [(some 1,encoded (sampleMessage 1 [5])),(some 2,encoded (sampleMessage 2 []))] := by
    decide +kernel
  have hframes : ∀ x ∈ acceptedOf (eventLoop.run {} twoFrames).2,
      ∃ m, Sendable m ∧ x.2 = encoded m := by
    rw [haccepted]
    intro x hx
    rcases List.mem_cons.mp hx with rfl | hx
    · exact ⟨sampleMessage 1 [5],⟨rfl,rfl,by decide⟩,by dsimp only⟩
    · rw [List.mem_singleton.mp hx]
      exact ⟨sampleMessage 2 [],⟨rfl,rfl,by decide⟩,by dsimp only⟩
  obtain ⟨ms,hms,-,hread⟩ := frames_arrive_whole twoFrames hframes
  exact ⟨haccepted,by decide +kernel,ms,hms,
    fun b cs hb hc => ⟨(hread b cs hb hc).1,(hread b cs hb hc).2.1⟩⟩

end MiniRpc.FrameDelivery
