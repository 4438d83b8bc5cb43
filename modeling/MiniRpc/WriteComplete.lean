import MiniRpc.OutputStream

/-!
# When `writeCompleteCallback_` is called

`sendInLoop` calls it after a message that went out in one `::write`,
`handleWrite` after the `::write` that empties the output buffer. Over a whole
run the two places amount to one rule: the callback follows a write, at once
and once, exactly when that write took the last byte of everything
`sendInLoop` was given. An empty message whose `::write` fails is the one
case in which all is written and no callback follows.
-/

set_option autoImplicit false

namespace MiniRpc.WriteComplete
open MiniRpc.ByteBuffer MiniRpc.PostedItems MiniRpc.StepMachine MiniRpc.ConnectionLoop
open MiniRpc.OutputStream

variable {τ : Type}

def Flushed (os : List (Output τ)) : Prop := writtenOf os = (ranOf os).flatMap Prod.snd

def Drained (os : List (Output τ)) : Prop := (∃ pre bytes, os = pre++[.wrote bytes]) ∧ Flushed os

/-- After each part of the history, the callback is what comes next if and
only if the last byte has just been written. -/
def Called (os : List (Output τ)) : Prop :=
  Throughout (fun before o => o = .writeComplete ↔ Drained before) os

def isWrite : Output τ → Bool
  | .wrote _ => true
  | _ => false

theorem drained_nil : ¬Drained ([] : List (Output τ)) := by
  rintro ⟨⟨pre,bytes,h⟩,-⟩
  simp at h

theorem drained_snoc (os : List (Output τ)) (o : Output τ) :
    Drained (os++[o]) ↔ isWrite o = true ∧ Flushed (os++[o]) := by
  refine and_congr_left fun _ => ⟨?_,?_⟩
  · rintro ⟨pre,bytes,h⟩
    obtain ⟨-,rfl⟩ := List.append_inj' h rfl |>.imp_right List.singleton_inj.mp
    rfl
  · intro h
    cases o with
    | wrote bytes => exact ⟨os,bytes,rfl⟩
    | _ => cases h

theorem called_snoc {os : List (Output τ)} (h : Called os) {o : Output τ}
    (ho : o = .writeComplete ↔ Drained os) : Called (os++[o]) := by
  rw [Called,throughout_append,throughout_cons,List.append_nil]
  exact ⟨h,ho,throughout_nil _⟩

/-- The history between two steps: the callback was called where it should
be, and none is due. -/
structure Exact (os : List (Output τ)) : Prop where
  called : Called os
  due : ¬Drained os

theorem exact_nil : Exact ([] : List (Output τ)) := ⟨throughout_nil _,drained_nil⟩

theorem exact_other {os : List (Output τ)} (h : Exact os) {o : Output τ} (hw : isWrite o = false)
    (hc : o ≠ .writeComplete) : Exact (os++[o]) where
  called := called_snoc h.called ⟨fun ho => absurd ho hc,fun hd => absurd hd h.due⟩
  due := by
    rw [drained_snoc,hw]
    exact fun hd => Bool.noConfusion hd.1

theorem exact_others {os new : List (Output τ)} (h : Exact os)
    (hnew : ∀ o ∈ new, isWrite o = false ∧ o ≠ .writeComplete) : Exact (os++new) := by
  induction new generalizing os with
  | nil => simpa using h
  | cons o new ih =>
    have ho := hnew o (List.mem_cons_self ..)
    rw [List.append_cons os o new]
    exact ih (exact_other h ho.1 ho.2) fun o' h' => hnew o' (List.mem_cons_of_mem o h')

theorem called_wrote {os : List (Output τ)} (h : Exact os) (bytes : Bytes) :
    Called (os++[.wrote bytes]) :=
  called_snoc h.called ⟨fun ho => (by cases ho),fun hd => absurd hd h.due⟩

theorem exact_wrote {os : List (Output τ)} (h : Exact os) {bytes : Bytes}
    (hleft : ¬Flushed (os++[.wrote bytes])) : Exact (os++[.wrote bytes]) where
  called := called_wrote h bytes
  due := fun hd => hleft hd.2

theorem exact_complete {os : List (Output τ)} (h : Exact os) {bytes : Bytes}
    (hall : Flushed (os++[.wrote bytes])) : Exact (os++[.wrote bytes,.writeComplete]) := by
  rw [List.append_cons os]
  refine ⟨called_snoc (called_wrote h bytes) ⟨fun _ => ⟨⟨os,bytes,rfl⟩,hall⟩,fun _ => rfl⟩,?_⟩
  rw [drained_snoc]
  exact fun hd => Bool.noConfusion hd.1

theorem flushed_iff {os : List (Output τ)} {rest : Bytes}
    (h : writtenOf os++rest = (ranOf os).flatMap Prod.snd) : Flushed os ↔ rest = [] := by
  rw [Flushed,← h,List.self_eq_append_right]

theorem sendInLoop_exact {x : TcpConnection} {os : List (Output τ)} (h : Exact os)
    (hstream : writtenOf os++x.outputBuffer.readable = (ranOf os).flatMap Prod.snd)
    (sender : Option τ) (message : Bytes) (w : WriteResult) :
    Exact (os++(x.sendInLoop sender message w).2) := by
  have hran : Exact (os++[.sendInLoop sender message]) :=
    exact_other h rfl (by simp)
  rw [TcpConnection.sendInLoop]
  by_cases hs : x.state = .disconnected
  · rw [if_pos hs,List.append_nil]
    exact h
  rw [if_neg hs]
  by_cases hfast : x.writing = false ∧ x.outputBuffer.readableBytes = 0
  · rw [if_pos hfast]
    have hempty : x.outputBuffer.readable = [] :=
      List.eq_nil_of_length_eq_zero (by rw [readable_length,hfast.2])
    rw [hempty,List.append_nil] at hstream
    cases hw : x.write message w with
    | none => exact hran
    | some n =>
      have howed : writtenOf (os++[.sendInLoop sender message]++[.wrote (message.take n)])++
          message.drop n =
          (ranOf (os++[.sendInLoop sender message]++[.wrote (message.take n)])).flatMap
            Prod.snd := by
        simp only [writtenOf_append,ranOf_append,hstream,List.flatMap_append]
        simp [writtenOf,ranOf]
      dsimp only
      by_cases hall : message.length-n = 0
      · rw [if_pos hall,List.append_cons]
        have htake : message.take n = message := List.take_of_length_le (by omega)
        have hdrop : message.drop n = [] := List.drop_eq_nil_of_le (by omega)
        rw [htake] at howed
        exact exact_complete hran ((flushed_iff howed).mpr hdrop)
      · rw [if_neg hall,List.append_cons]
        have hdrop : message.drop n ≠ [] := by
          intro hnil
          exact hall (by simpa using congrArg List.length hnil)
        exact exact_wrote hran fun hf => hdrop ((flushed_iff howed).mp hf)
  · rw [if_neg hfast]
    exact hran

theorem handleWrite_exact {x : TcpConnection} {os : List (Output τ)} (h : Exact os)
    (hstream : writtenOf os++x.outputBuffer.readable = (ranOf os).flatMap Prod.snd)
    (w : WriteResult) : Exact (os++(x.handleWrite w).2) := by
  have hidle : Exact (os++[]) := by rwa [List.append_nil]
  rw [TcpConnection.handleWrite]
  by_cases hwriting : x.writing = false
  · rwa [if_pos hwriting]
  rw [if_neg hwriting]
  cases hw : x.write x.outputBuffer.readable w with
  | none => exact hidle
  | some n =>
    dsimp only
    by_cases hzero : n = 0
    · rwa [if_pos hzero]
    rw [if_neg hzero]
    have howed : writtenOf (os++[.wrote (x.outputBuffer.readable.take n)])++
        (x.outputBuffer.retrieve n).readable =
        (ranOf (os++[.wrote (x.outputBuffer.readable.take n)])).flatMap Prod.snd := by
      rw [readable_retrieve,writtenOf_append,ranOf_append,List.flatMap_append,← hstream]
      simp [writtenOf,ranOf]
    by_cases hall : (x.outputBuffer.retrieve n).readableBytes = 0
    · rw [if_pos hall]
      refine exact_complete h ((flushed_iff howed).mpr ?_)
      exact List.eq_nil_of_length_eq_zero (by rw [readable_length,hall])
    · rw [if_neg hall]
      refine exact_wrote h fun hf => hall ?_
      rw [← readable_length,(flushed_iff howed).mp hf,List.length_nil]

theorem shutdownInLoop_exact (x : TcpConnection) {os : List (Output τ)} (h : Exact os) :
    Exact (os++x.shutdownInLoop.2) := by
  refine exact_others h ?_
  rw [TcpConnection.shutdownInLoop]
  split_ifs <;> simp [isWrite]

variable [DecidableEq τ]

theorem exact_move {s : EventLoop τ} {os : List (Output τ)} (h : Exact os)
    (hopen : s.conn.state ≠ .disconnected → Integrity s os)
    (hclosed : s.conn.state = .disconnected → s.conn.writing = false) {i : Input τ}
    {r : EventLoop τ × List (Output τ)} (hm : Move s i r) : Exact (os++r.2) := by
  have hidle : Exact (os++[]) := by rwa [List.append_nil]
  cases hm with
  | writes w hb =>
    by_cases hs : s.conn.state = .disconnected
    · simpa only [TcpConnection.handleWrite,if_pos (hclosed hs)] using hidle
    · exact handleWrite_exact h (hopen hs).stream w
  | sends message w hs =>
    have hnot : s.conn.state ≠ .disconnected := by
      rw [hs]
      exact State.noConfusion
    have hacc : Exact (os++[.accepted none message]) :=
      exact_other h rfl (by simp)
    dsimp only
    rw [List.append_cons]
    refine sendInLoop_exact hacc ?_ none message w
    rw [writtenOf_append,ranOf_append,List.flatMap_append,← (hopen hnot).stream]
    simp [writtenOf,ranOf]
  | shuts hs => exact shutdownInLoop_exact _ h
  | accepts t message hs => exact exact_other h rfl (by simp)
  | runsSend w t message fs hb =>
    by_cases hs : s.conn.state = .disconnected
    · have hnone : ((s.setBatch (some fs)).runSend (some t) message w).2 = [] := by
        simp [EventLoop.runSend,EventLoop.setBatch,TcpConnection.sendInLoop,hs]
      rwa [hnone]
    · exact sendInLoop_exact h (hopen hs).stream (some t) message w
  | runsShutdown w t fs hb => exact shutdownInLoop_exact _ h
  | _ => exact hidle

structure Kept (s : EventLoop τ) (os : List (Output τ)) : Prop where
  exact : Exact os
  opened : s.conn.state ≠ .disconnected → Integrity s os
  closed : s.conn.state = .disconnected → s.conn.writing = false

theorem kept_step (s : EventLoop τ) (os : List (Output τ)) (i : Input τ) (h : Kept s os) :
    Kept (eventLoop.step s i).1 (os++(eventLoop.step s i).2) where
  exact := exact_move h.exact h.opened h.closed (step_move s i)
  opened := integrity_step s os i h.opened
  closed := move_closed (step_move s i) h.closed

/-- In every run, closed or not, whatever `::write` returns and whichever
threads send: what comes next in the history is the callback if and only if
what came last is a write that took the last byte of all that `sendInLoop`
was given. None is owed when the run ends. -/
theorem writeComplete_iff_drained (is : List (Input τ)) :
    (∀ before o after, (eventLoop.run {} is).2 = before++o::after →
      (o = .writeComplete ↔ Drained before)) ∧
    ¬Drained (eventLoop.run {} is).2 := by
  have h := (run_invariant eventLoop Kept kept_step {} is
    ⟨exact_nil,fun _ => integrity_start,fun hr => State.noConfusion hr⟩).exact
  exact ⟨h.called,h.due⟩

end MiniRpc.WriteComplete
