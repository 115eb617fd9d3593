import Scenario.Expr.Code
import Scenario.Expr.Source
import Scenario.Json.Decoder

/-!
What can go wrong, and in which words it is told. Definition errors come from content, evaluation
errors from content that meets a state it cannot be evaluated in, and usage errors from the host.
-/

namespace Scenario

inductive Kind
  | variable
  | attribute
  | item
  | status
  | event
deriving Repr, DecidableEq

def Kind.label : Kind → String
  | .variable => "variable"
  | .attribute => "attribute"
  | .item => "item"
  | .status => "status"
  | .event => "event"

def ticked (s : String) : String := "\x60" ++ s ++ "\x60"

def interval (min max : Float) : String :=
  s!"[{Layout.sentence.render min}, {Layout.sentence.render max}]"

/-- What a definition error is about: a whole document, or one definition in it. -/
inductive Context
  | document (name : String)
  | definition (kind : Kind) (id : String)
deriving Repr, DecidableEq

def Context.label : Context → String
  | .document name => name
  | .definition kind id => s!"{kind.label} {ticked id}"

inductive ExpressionFault
  | characters (slice : String) (offset : Nat)
  | grammar (fault : Expr.SyntaxFault)
  | unknownFunction (function : String)
  | arity (function : String) (minimum actual : Nat)
deriving Repr

def ExpressionFault.message : ExpressionFault → String
  | .characters slice offset => s!"unexpected character(s) {ticked slice} at {offset}"
  | .grammar fault => fault.message
  | .unknownFunction f => s!"unknown function {ticked f}"
  | .arity f minimum actual => s!"{ticked f} expects {minimum} argument(s), got {actual}"

/-- Why a definition makes no sense although each part of it does. -/
inductive Defect
  | noGroups
  | noMessages
  | bounds (min max : Float)
deriving Repr

def Defect.message : Defect → String
  | .noGroups => "Random needs at least one group"
  | .noMessages => "DisplayRandomMessage needs at least one message"
  | .bounds min max => s!"invalid bounds {interval min max}"

inductive DefinitionError
  | expression (source : String) (fault : ExpressionFault)
  | field (context : Context) (name : String) (cause : DefinitionError)
  | invalid (context : Context) (defect : Defect)
  | malformed (context : Context) (fault : Json.Fault)
deriving Repr

/-- Malformed documents are told by their context and fault alone. -/
def DefinitionError.message : DefinitionError → String
  | .expression source fault => s!"expression {ticked source}: {fault.message}"
  | .field context name cause => s!"{context.label}: field {ticked name}: {cause.message}"
  | .invalid context defect => s!"{context.label}: {defect.message}"
  | .malformed context _ => context.label

inductive WeightFault
  | weight (weight : Float)
  | sum (total : Float)
deriving Repr

def WeightFault.message : WeightFault → String
  | .weight w => s!"weight {Layout.sentence.render w} is negative or not finite"
  | .sum total => s!"weights must have a positive sum, got {Layout.sentence.render total}"

inductive EvaluationError
  | notANumber (source : Source)
  | unknown (kind : Kind) (id : String)
  | hostFunction (function : String) (message : String)
  | invalidWeights (fault : WeightFault)
  | randomOutOfRange (value : Float)
  | invalidBounds (id : String) (min max : Float)
  | modifierCycle (target : String)
deriving Repr

def EvaluationError.message : EvaluationError → String
  | .notANumber source => s!"expression {ticked source.display} evaluated to NaN"
  | .unknown kind id => s!"unknown {kind.label} {ticked id}"
  | .hostFunction f message => s!"host function {ticked f}: {message}"
  | .invalidWeights fault => s!"invalid weights: {fault.message}"
  | .randomOutOfRange x =>
    s!"random source produced {Layout.sentence.render x}, expected a value in [0, 1)"
  | .invalidBounds id min max => s!"invalid bounds for {ticked id}: {interval min max}"
  | .modifierCycle target => s!"modifier amounts for {ticked target} depend on their own target"

inductive Incompatibility
  | unknown (kind : Kind) (id : String)
  | invalidBounds (id : String) (min max : Float)
deriving Repr

def Incompatibility.message : Incompatibility → String
  | .unknown kind id => s!"unknown {kind.label} {ticked id}"
  | .invalidBounds id min max => s!"variable {ticked id} has invalid bounds {interval min max}"

inductive UsageError
  | passInFlight
  | duplicate (kind : Kind) (id : String)
  | invalidChoice (index : Nat) (offered : List Nat)
  | incompatibleSave (incompatibility : Incompatibility)
deriving Repr

def UsageError.message : UsageError → String
  | .passInFlight => "a trigger pass is already in flight"
  | .duplicate .event id => s!"event {ticked id} is already registered"
  | .duplicate kind id => s!"{ticked kind.label} {ticked id} is already registered"
  | .invalidChoice index offered =>
    let list := ", ".intercalate (offered.map toString)
    s!"choice index {index} was not offered (offered: [{list}])"
  | .incompatibleSave i => s!"save state is incompatible: {i.message}"

inductive Error
  | definition (error : DefinitionError)
  | evaluation (error : EvaluationError)
  | usage (error : UsageError)
deriving Repr

def Error.message : Error → String
  | .definition e => e.message
  | .evaluation e => e.message
  | .usage e => e.message

end Scenario
