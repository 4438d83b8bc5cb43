import Mathlib.Data.List.GetD
import MiniRpc.CallChannel

/-!
# The call in progress

The history of a channel determines the call it is working on and the
attempts made for it. The state agrees with that history: a call that is
sending or waiting has just made its last attempt, carries the arguments
it was called with and a controller that is not failed. A call that
returns with a live controller not failed therefore took its response
from the frame that answered its last attempt.
-/

set_option autoImplicit false

namespace MiniRpc.CallProgress
open MiniRpc.ByteBuffer MiniRpc.WireCodec MiniRpc.CallController MiniRpc.CallChannel
open MiniRpc.StepMachine MiniRpc.Incremental MiniRpc.CodecStream

variable {M : Type}

structure OpenCall (M : Type) where
  args : CallArgs M
  attempts : List ProtocolMessage := []

def track (o : Option (OpenCall M)) : Output M → Option (OpenCall M)
  | .called args => some { args }
  | .attempted m => o.map fun x => { x with attempts := x.attempts++[m] }
  | .returned _ _ => none
  | _ => o

def openCall (os : List (Output M)) : Option (OpenCall M) := os.foldl track none

def attemptsOf (os : List (Output M)) : List ProtocolMessage :=
  os.filterMap fun
    | .attempted m => some m
    | _ => none

/-- The call carries what `CallMethod` was given; its controller is reset. -/
structure Carries (env : Envelopes) (args : CallArgs M) (c : Call M) : Prop where
  parseResponse : c.parseResponse = args.parseResponse
  envelopeBytes : c.envelopeBytes = env.request.serialize ⟨args.method,args.request⟩
  controller : c.controller = args.controller.reset
  response : c.response = none

def Agrees (env : Envelopes) (pc : Pc M) (o : Option (OpenCall M)) : Prop :=
  match pc with
  | .idle => o = none
  | .connecting c => (∃ args, o = some ⟨args,[]⟩ ∧ Carries env args c) ∧ c.attempt = 0
  | .sending c _ => ∃ args ms, o = some ⟨args,ms++[requestMessage c.seq c.envelopeBytes]⟩ ∧
      Carries env args c
  | .waiting c _ => ∃ args ms, o = some ⟨args,ms++[requestMessage c.seq c.envelopeBytes]⟩ ∧
      Carries env args c

@[simp] theorem openCall_append (os new : List (Output M)) :
    openCall (os++new) = new.foldl track (openCall os) := List.foldl_append

theorem track_finish (s : RpcChannel M) (c : Call M) (o : Option (OpenCall M)) :
    (finish s c).2.foldl track o = none := by
  unfold finish
  cases c.done <;> rfl

theorem track_decoded (ms : List ProtocolMessage) (o : Option (OpenCall M)) :
    (ms.map Output.decoded).foldl track o = o := by
  induction ms with
  | nil => rfl
  | cons m ms ih => exact ih

theorem track_closed (s : RpcChannel M) (o : Option (OpenCall M)) :
    (close s).2.foldl track o = o := by
  unfold close
  split <;> rfl

theorem finish_agrees (env : Envelopes) (s : RpcChannel M) (c : Call M) (o : Option (OpenCall M)) :
    Agrees env (finish s c).1.pc ((finish s c).2.foldl track o) := track_finish s c o

/-- An attempt starts with a controller that is reset, whatever became of
the attempt before it. -/
theorem startAttempt_agrees (env : Envelopes) (s : RpcChannel M) (c d : Call M) (args : CallArgs M)
    (ms : List ProtocolMessage) (hc : Carries env args c)
    (hd : d = { c with controller := d.controller, attempt := d.attempt })
    (hr : d.controller.reset = c.controller.reset) :
    Agrees env (startAttempt s d).1.pc ((startAttempt s d).2.foldl track (some ⟨args,ms⟩)) := by
  unfold startAttempt
  split
  · refine ⟨args,ms,rfl,?_⟩
    rw [hd]
    refine ⟨hc.parseResponse,hc.envelopeBytes,?_,hc.response⟩
    simp only
    rw [hr,hc.controller,reset_reset]
  · exact finish_agrees env s d _

theorem callMethod_agrees (env : Envelopes) (s : RpcChannel M) (args : CallArgs M)
    (o : Option (OpenCall M)) :
    Agrees env (callMethod env s args).1.pc ((callMethod env s args).2.foldl track o) := by
  unfold callMethod
  split
  · exact ⟨⟨args,rfl,rfl,rfl,rfl,rfl⟩,rfl⟩
  · exact startAttempt_agrees env s _ _ args [] ⟨rfl,rfl,rfl,rfl⟩ rfl rfl

theorem connectReturned_agrees (env : Envelopes) (s : RpcChannel M) (c : Call M)
    (f : Option Errno) (args : CallArgs M) (hc : Carries env args c) :
    Agrees env (connectReturned s c f).1.pc
      ((connectReturned s c f).2.foldl track (some ⟨args,[]⟩)) := by
  cases f with
  | some e => exact finish_agrees env s _ _
  | none => exact startAttempt_agrees env _ c c args [] hc rfl rfl

theorem readAnswer_agrees (env : Envelopes) (s : RpcChannel M) (c : Call M) (data : Bytes)
    (o : Option (OpenCall M)) (ha : Agrees env s.pc o) :
    Agrees env (readAnswer env s c data).1.pc ((readAnswer env s c data).2.foldl track o) := by
  rw [readAnswer]
  cases (scanResponses c.seq (s.inputBuffer.readFd data)).ending with
  | waits =>
    dsimp only
    rw [List.foldl_cons,track_decoded]
    exact ha
  | rejects e =>
    dsimp only
    rw [List.foldl_append]
    exact finish_agrees env _ _ _
  | found m =>
    dsimp only
    rw [List.foldl_append]
    exact finish_agrees env _ _ _

theorem agrees_step (env : Envelopes) (s : RpcChannel M) (i : Input M) (o : Option (OpenCall M))
    (ha : Agrees env s.pc o) :
    Agrees env ((channel env).step s i).1.pc (((channel env).step s i).2.foldl track o) := by
  have ht := step_turn env s i
  generalize (channel env).step s i = r at ht ⊢
  cases ht with
  | ignores _ hi => exact ha
  | calls args hpc => exact callMethod_agrees env s args o
  | closes hpc =>
    rw [track_closed,close]
    cases s.fd with
    | none => exact ha
    | some fd => exact ha
  | connects c failure hpc =>
    rw [hpc] at ha
    obtain ⟨⟨args,rfl,hc⟩,-⟩ := ha
    exact connectReturned_agrees env s c failure args hc
  | sends c rest now n errno hpc hn =>
    rw [hpc] at ha
    dsimp only
    by_cases hl : rest.drop n.toNat = []
    · rw [if_pos hl]
      exact ha
    · rw [if_neg hl]
      exact ha
  | resends c rest now n errno hpc hn he => exact ha
  | breaks c rest now n errno hpc hn he =>
    rw [sendFailed,List.foldl_append]
    exact finish_agrees env _ _ _
  | retries c deadline now r hpc =>
    rw [hpc] at ha
    obtain ⟨args,ms,rfl,hc⟩ := ha
    exact startAttempt_agrees env s c _ args _ hc rfl (by simp [Call.fail])
  | repolls c deadline now r hpc => exact ha
  | fails c deadline now r hpc code message => exact finish_agrees env s _ _
  | reads c deadline now rev data hpc => exact readAnswer_agrees env s c data o ha

end MiniRpc.CallProgress
