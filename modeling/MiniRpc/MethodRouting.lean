import Mathlib.Data.List.ReduceOption
import MiniRpc.CallServer
import MiniRpc.ProtoWire

/-!
# Which method a request reaches

A request names its method by `package.Service.Method`. The text is cut at
its last dot, so that cutting undoes the joining of a service name and a
method name, which has no dot; no other text is cut. A service is found
under its full name if it was the first to be registered under it.
-/

set_option autoImplicit false

namespace MiniRpc.MethodRouting
open MiniRpc.ByteBuffer MiniRpc.WireCodec MiniRpc.CodecStream MiniRpc.CallController
open MiniRpc.CallServer MiniRpc.ProtoWire

variable {M : Type}

def firstNamed (history : List (Option (Service M))) (name : String) : Option (Service M) :=
  history.reduceOption.find? fun service => service.fullName = name

structure Joins (text serviceName methodName : String) : Prop where
  service : serviceName ≠ ""
  method : methodName ≠ ""
  dotless : '.' ∉ methodName.toList
  text : text = serviceName++"."++methodName

/-- The text names a method of the service that answers to its full name. -/
structure Names (history : List (Option (Service M))) (text : String) (service : Service M)
    (methodName : String) (method : Method M) : Prop where
  first : firstNamed history service.fullName = some service
  service_named : service.fullName ≠ ""
  method_found : service.findMethodByName methodName = some method
  text_eq : text = service.fullName++"."++methodName

def Identifiers (history : List (Option (Service M))) : Prop :=
  ∀ service, some service ∈ history → ∀ name, (service.findMethodByName name).isSome →
    name ≠ "" ∧ '.' ∉ name.toList

theorem firstNamed_fullName {history : List (Option (Service M))} {name : String}
    {service : Service M} (h : firstNamed history name = some service) :
    service.fullName = name ∧ some service ∈ history := by
  refine ⟨by simpa using List.find?_some h,?_⟩
  exact List.reduceOption_mem_iff.mp (List.mem_of_find?_eq_some h)

theorem Names.joins {history : List (Option (Service M))} (hnames : Identifiers history)
    {text methodName : String} {service : Service M} {method : Method M}
    (h : Names history text service methodName method) :
    Joins text service.fullName methodName := by
  obtain ⟨hname,hdotless⟩ := hnames service (firstNamed_fullName h.first).2 methodName
    (by rw [h.method_found]; rfl)
  exact ⟨h.service_named,hname,hdotless,h.text_eq⟩

end MiniRpc.MethodRouting
