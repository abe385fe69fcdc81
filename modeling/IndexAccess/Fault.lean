import IndexAccess.Index

/-!
# Planning faults

A fault ends the planning of a query.  It says which part of the planner raised it, whether a rule
of that part was broken or something asked for is not supported, and what happened.
-/

namespace IndexAccess

inductive FaultClass where
  | invariantViolation
  | unsupported
  deriving DecidableEq

inductive FaultOrigin where
  | catalog
  | path
  | config
  deriving DecidableEq

namespace FaultClass

def label : FaultClass → String
  | .invariantViolation => "invariant_violation"
  | .unsupported => "unsupported"

end FaultClass

namespace FaultOrigin

def label : FaultOrigin → String
  | .catalog => "catalog"
  | .path => "path"
  | .config => "config"

end FaultOrigin

structure Fault where
  category : FaultClass
  origin : FaultOrigin
  message : String
  deriving DecidableEq

namespace Fault

/-- Origin and class, as in `catalog:invariant_violation`. -/
def kind (fault : Fault) : String :=
  fault.origin.label ++ ":" ++ fault.category.label

def render (fault : Fault) : String :=
  fault.kind ++ ": " ++ fault.message

end Fault

def IndexFault.toFault (fault : IndexFault) : Fault :=
  ⟨.invariantViolation, .catalog, fault.message⟩

end IndexAccess
