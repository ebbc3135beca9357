import LinearDialogue.Authored.Graph
import LinearDialogue.Text.Quoted

/-!
# Fresh ids

Ids for nodes that are made without one: 32 hexadecimal digits in the form of random identifiers,
with the digits of the version and of the variant in their places and a running number in the rest.
-/

namespace LinearDialogue

def freshId (n : Nat) : String :=
  String.ofList (Text.hexDigits 12 (n >>> 72) ++ '4' :: Text.hexDigits 3 (n >>> 60) ++
    '8' :: Text.hexDigits 15 n)

def Node.fresh (kind : NodeKind) (n : Nat) : Node :=
  let body : NodeBody :=
    match kind with
    | .entry => .entry
    | .exit => .exit (.list [])
    | .line => .line {}
    | .choice => .choice
  { id := .plain (.text (freshId n)), body }

def Node.freshAll (kinds : List NodeKind) : List Node :=
  kinds.mapIdx fun i kind => Node.fresh kind i

end LinearDialogue
