import LinearDialogue.Failure

/-!
# Bindings and labels

What a writer puts into the fields of a node.  A field of a line is bound: to nothing, to a value
or to a variable.  The id and the kind tag of a node are labels: plain values as a rule, but a
binding can be put in their place, and then the binding itself tells nodes apart.

Labels are compared like the keys of a table.  A plain label never agrees with a bound one, whatever
its text.
-/

namespace LinearDialogue

/-- What a field of a line is bound to: nothing, a value, or a variable by name. -/
inductive Binding
  | unbound
  | literal (value : Value)
  | variable (name : Value)
  deriving DecidableEq

/-- The id or the kind tag of a node: a plain value, or the binding that is in its place. -/
inductive Label
  | plain (value : Value)
  | literal (value : Value)
  | variable (name : Value)
  deriving DecidableEq

/-- The label that a binding makes; the unbound one is null. -/
def Binding.label : Binding → Label
  | .unbound => .plain .null
  | .literal value => .literal value
  | .variable name => .variable name

namespace Label

def isKey : Label → Bool
  | .plain v | .literal v | .variable v => v.isKey

/-- Do two labels agree?  Plain ones agree as keys do, bound ones when they are of one form and what
they hold is alike. -/
def agrees : Label → Label → Bool
  | .plain a, .plain b => a.agrees b
  | .literal a, .literal b => a.alike b
  | .variable a, .variable b => a.alike b
  | _, _ => false

/-- Do two labels name one entry of a table?  They do when they agree, or are one label. -/
def matchesKey (a b : Label) : Bool := a.agrees b || decide (a = b)

/-- Is a label taken for yes?  Bound ones are. -/
def isTruthy : Label → Bool
  | .plain v => v.isTruthy
  | _ => true

/-- The value that documents and messages show for a label. -/
def value : Label → Value
  | .plain v => v
  | .literal v => .text ("Literal(value=" ++ v.shown ++ ")")
  | .variable name => .text ("VariableRef(name=" ++ name.shown ++ ")")

def checkKey (label : Label) : Except Failure Unit :=
  if label.isKey then .ok () else .error .wrongType

end Label

end LinearDialogue
