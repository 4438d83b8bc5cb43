import MiniRpc.ByteBuffer

/-!
# Error codes, controllers and the RPC envelopes

The outcome of a call travels through a controller on each side and through
the `RpcResponse` envelope in between. Protocol buffer serialization is a
parameter: a `Serializer` is a pair of functions with the law that parsing
undoes serializing. Proto `string` fields are Lean strings, which are valid
UTF-8 by construction; `bytes` fields are byte lists.
-/

set_option autoImplicit false

namespace MiniRpc.CallController
open MiniRpc.ByteBuffer

/-- `enum class ErrorCode`, whose values are all those of its underlying
`int`: a code read off the wire is cast without a check. -/
structure ErrorCode where
  value : Int32
  deriving DecidableEq, Repr

def kOk : ErrorCode := ⟨0⟩
def kSystem : ErrorCode := ⟨1⟩
def kInvalidArgument : ErrorCode := ⟨2⟩
def kTimeout : ErrorCode := ⟨3⟩
def kClosed : ErrorCode := ⟨4⟩
def kNoService : ErrorCode := ⟨5⟩
def kNoMethod : ErrorCode := ⟨6⟩
def kUnknown : ErrorCode := ⟨99⟩

structure RpcController where
  failed : Bool := false
  canceled : Bool := false
  errorCode : ErrorCode := kOk
  errorText : String := ""
  deriving DecidableEq, Repr

def RpcController.reset (_ : RpcController) : RpcController := {}

/-- `SetFailed(reason)`: a controller without a code gets `kUnknown`. -/
def RpcController.setFailed (c : RpcController) (reason : String) : RpcController :=
  { c with
    failed := true
    errorText := reason
    errorCode := if c.errorCode = kOk then kUnknown else c.errorCode }

def RpcController.setFailedCode (c : RpcController) (code : ErrorCode) (reason : String) :
    RpcController :=
  { c with failed := true, errorCode := code, errorText := reason }

/-- The `google::protobuf::RpcController*` a caller passes: null, the
controller of this library, or another implementation of the interface. -/
inductive ControllerPtr where
  | null
  | minirpc (c : RpcController)
  | other (failed : Bool) (errorText : String)
  deriving DecidableEq, Repr

def ControllerPtr.reset : ControllerPtr → ControllerPtr
  | .null => .null
  | .minirpc c => .minirpc c.reset
  | .other _ _ => .other false ""

def ControllerPtr.failed : ControllerPtr → Bool
  | .null => false
  | .minirpc c => c.failed
  | .other f _ => f

def failController (p : ControllerPtr) (code : ErrorCode) (message : String) : ControllerPtr :=
  match p with
  | .null => .null
  | .minirpc c => .minirpc (c.setFailedCode code message)
  | .other _ _ => .other true message

@[simp] theorem reset_not_failed (p : ControllerPtr) : p.reset.failed = false := by
  cases p <;> rfl

@[simp] theorem reset_reset (p : ControllerPtr) : p.reset.reset = p.reset := by
  cases p <;> rfl

@[simp] theorem failController_reset (p : ControllerPtr) (code : ErrorCode) (message : String) :
    (failController p code message).reset = p.reset := by
  cases p <;> rfl

theorem failController_failed (p : ControllerPtr) (code : ErrorCode) (message : String) :
    (failController p code message).failed = true ↔ p ≠ .null := by
  cases p <;> simp [failController,ControllerPtr.failed,RpcController.setFailedCode]

structure Serializer (M : Type*) where
  serialize : M → Bytes
  parse : Bytes → Option M
  parse_serialize : ∀ m, parse (serialize m) = some m

structure RpcRequest where
  method : String := ""
  request : Bytes := []
  deriving DecidableEq, Repr

structure RpcResponse where
  errorCode : Int32 := 0
  errorMessage : String := ""
  response : Bytes := []
  deriving DecidableEq, Repr

structure Envelopes where
  request : Serializer RpcRequest
  response : Serializer RpcResponse

end MiniRpc.CallController
