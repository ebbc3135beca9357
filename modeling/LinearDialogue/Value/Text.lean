import LinearDialogue.Binary64.Notation
import LinearDialogue.Text.Quoted
import LinearDialogue.Value

/-!
# Values as text

`Value.shown` is the form in which messages show a value: text is quoted, lists stand in square
brackets, objects in braces.  `Value.plain` is the same form but for text itself, which stays as it
is.
-/

namespace LinearDialogue.Value

def nullWord : String := "None"

def boolWord : Bool → String
  | true => "True"
  | false => "False"

mutual

def shown : Value → String
  | .null => nullWord
  | .bool b => boolWord b
  | .int n => toString n
  | .float x => x.text
  | .text s => Text.quoted s
  | .list items => "[" ++ String.intercalate ", " (shownList items) ++ "]"
  | .object fields => "\x7b" ++ String.intercalate ", " (shownFields fields) ++ "\x7d"

def shownList : List Value → List String
  | [] => []
  | item :: rest => shown item :: shownList rest

def shownFields : List (String × Value) → List String
  | [] => []
  | (name, value) :: rest => (Text.quoted name ++ ": " ++ shown value) :: shownFields rest

end

/-- A value as text: text itself, or its shown form. -/
def plain : Value → String
  | .text s => s
  | value => value.shown

/-- Several values shown between parentheses; a single one is followed by a comma. -/
def shownRow : List Value → String
  | [value] => "(" ++ value.shown ++ ",)"
  | values => "(" ++ String.intercalate ", " (shownList values) ++ ")"

end LinearDialogue.Value
