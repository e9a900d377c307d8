import EmuChef.Lib.Json

/-! The indented text of JSON values. -/

namespace EmuChef.Json

def indentation (depth : Nat) : String := String.ofList (List.replicate (2 * depth) ' ')

def bracketed (depth : Nat) (opening closing : String) (lines : List String) : String :=
  if lines = [] then opening ++ closing
  else
    opening ++ "\n" ++ ",\n".intercalate (lines.map (indentation (depth + 1) ++ ·)) ++ "\n" ++
      indentation depth ++ closing

mutual

def prettyAt (depth : Nat) : Json → String
  | array items => bracketed depth "[" "]" (prettyItems (depth + 1) items)
  | object fields => bracketed depth "\x7b" "\x7d" (prettyFields (depth + 1) fields)
  | other => other.render

def prettyItems (depth : Nat) : List Json → List String
  | [] => []
  | item :: rest => prettyAt depth item :: prettyItems depth rest

def prettyFields (depth : Nat) : List (String × Json) → List String
  | [] => []
  | field :: rest => prettyField depth field :: prettyFields depth rest

def prettyField (depth : Nat) : String × Json → String
  | (name, value) => renderText name ++ ": " ++ prettyAt depth value

end

def pretty (value : Json) : String := prettyAt 0 value

example : (object [("a", array [integer 1, array []])]).pretty =
    "\x7b\n  \"a\": [\n    1,\n    []\n  ]\n\x7d" := by decide

end EmuChef.Json
