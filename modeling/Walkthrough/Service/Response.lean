import Walkthrough.Service.Request
import Walkthrough.Trace.Encoding

/-!
# Responses

What a request is answered with.  Only a request that failed validation is rejected; a
rejection took no time worth telling.  A request that was accepted fails if the computation
of its answer is broken off.
-/

namespace Walkthrough

inductive Response where
  | executed (output : Text) (elapsed : Nat)
  | visualized (steps : Trace) (output : Text) (elapsed : Nat)
  | rejected (errors : FieldErrors)
  | failed (message : Text) (elapsed : Nat)

namespace Response

def isSuccess : Response → Bool
  | .executed _ _ | .visualized _ _ _ => true
  | .rejected _ | .failed _ _ => false

def output? : Response → Option Text
  | .executed output _ | .visualized _ output _ => some output
  | .rejected _ | .failed _ _ => none

def error? : Response → Option Text
  | .rejected errors => some errors.message
  | .failed message _ => some message
  | .executed _ _ | .visualized _ _ _ => none

def steps? : Response → Option Trace
  | .visualized steps _ _ => some steps
  | _ => none

def elapsed? : Response → Option Nat
  | .executed _ elapsed | .visualized _ _ elapsed | .failed _ elapsed => some elapsed
  | .rejected _ => none

def toJson (r : Response) : Json :=
  .record
    [("success", some (.bool r.isSuccess)),
      ("output", r.output?.map .string),
      ("error", r.error?.map .string),
      ("visualizationSteps", r.steps?.map Trace.toJson),
      ("executionTime", r.elapsed?.map .ofNat)]

end Response
end Walkthrough
