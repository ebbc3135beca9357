/-!
# Problems with fields

What can be wrong with the fields of a record or of a compiled graph, and where.
-/

namespace LinearDialogue

/-- A step into a document: a field by name or an item by position. -/
inductive Place
  | field (name : String)
  | item (index : Nat)
  deriving DecidableEq

inductive Defect
  | missing
  | noInteger
  | notFinite
  | fractional
  | tooLong
  | unreadableInteger
  | tooSmall
  | tooLarge
  | noText
  | wrongTag
  | noList
  | noRecord
  | unknownField
  | immutable
  deriving DecidableEq

structure Problem where
  path : List Place
  defect : Defect
  deriving DecidableEq

/-- The same problem, one step further down. -/
def Problem.within (place : Place) (problem : Problem) : Problem :=
  { problem with path := place :: problem.path }

/-- The headline of several problems of one record class. -/
def Problem.headline (className : String) (problems : List Problem) : String :=
  toString problems.length ++ " validation error" ++ (if problems.length = 1 then "" else "s") ++
    " for " ++ className

end LinearDialogue
