import EmuChef.Lib.OrderedMap
import Mathlib.Algebra.Group.Int.Defs
import Mathlib.Algebra.Ring.Nat

/-! JSON values whose objects keep the order of their fields. -/

namespace EmuChef

inductive Json where
  | null
  | bool (value : Bool)
  | integer (value : Int)
  | decimal (digits : String)
  | string (text : String)
  | array (items : List Json)
  | object (fields : List (String × Json))

namespace Json

def isNull : Json → Bool
  | null => true
  | _ => false

def isTrue : Json → Bool
  | bool held => held
  | _ => false

def asStr : Json → Option String
  | string text => some text
  | _ => none

theorem asStr_eq_some {value : Json} {text : String} :
    value.asStr = some text ↔ value = string text := by
  cases value with
  | string held => simp [asStr]
  | _ => simp [asStr]

def isString : Json → Bool
  | string _ => true
  | _ => false

def isBoolean : Json → Bool
  | bool _ => true
  | _ => false

def isArray : Json → Bool
  | array _ => true
  | _ => false

def isObject : Json → Bool
  | object _ => true
  | _ => false

def isInteger64 : Json → Bool
  | integer value => -(2 ^ 63) ≤ value && value < 2 ^ 64
  | _ => false

def asArray : Json → Option (List Json)
  | array items => some items
  | _ => none

def asObject : Json → Option (List (String × Json))
  | object fields => some fields
  | _ => none

def field? (value : Json) (name : String) : Option Json :=
  match value with
  | object fields => (fields.find? fun field => field.1 = name).map Prod.snd
  | _ => none

@[simp] theorem field?_nil (name : String) : (object []).field? name = none := rfl

@[simp] theorem field?_cons {key name : String} {value : Json} {rest : List (String × Json)} :
    (object ((key, value) :: rest)).field? name =
      if key = name then some value else (object rest).field? name := by
  by_cases same : key = name
  · simp [field?, same]
  · simp [field?, same]

def optionalField (name : String) : Option Json → List (String × Json)
  | some value => [(name, value)]
  | none => []

@[simp] theorem field?_optionalField_append {key name : String} {value : Option Json}
    {rest : List (String × Json)} :
    (object (optionalField key value ++ rest)).field? name =
      if key = name then value.or ((object rest).field? name) else (object rest).field? name := by
  cases value with
  | none => simp [optionalField]
  | some value => simp [optionalField]

def strings (texts : List String) : Json := array (texts.map string)

def ofMap {α : Type} (write : α → Json) (map : OrderedMap String α) : Json :=
  object (map.entries.map fun entry => (entry.1, write entry.2))

@[simp] theorem field?_ofMap {α : Type} {write : α → Json} {map : OrderedMap String α}
    {name : String} : (ofMap write map).field? name = (map.get? name).map write := by
  obtain ⟨entries, distinct⟩ := map
  simp only [ofMap, field?, OrderedMap.get?]
  clear distinct
  induction entries with
  | nil => rfl
  | cons entry rest ih =>
      by_cases same : entry.1 = name
      · simp [same]
      · simpa [same] using ih

mutual

def equal : Json → Json → Bool
  | null, null => true
  | bool first, bool second => first = second
  | integer first, integer second => first = second
  | decimal first, decimal second => first = second
  | string first, string second => first = second
  | array first, array second => equalItems first second
  | object first, object second => first.length = second.length && fieldsWithin first (object second)
  | _, _ => false

def equalItems : List Json → List Json → Bool
  | [], [] => true
  | first :: rest, second :: others => equal first second && equalItems rest others
  | _, _ => false

def fieldsWithin : List (String × Json) → Json → Bool
  | [], _ => true
  | field :: rest, other => fieldWithin field other && fieldsWithin rest other

def fieldWithin : String × Json → Json → Bool
  | (name, value), other =>
      match other.field? name with
      | some found => equal value found
      | none => false

end

def escapeLetter (letter : Char) : List Char :=
  match letter with
  | '"' => ['\\', '"']
  | '\\' => ['\\', '\\']
  | '\n' => ['\\', 'n']
  | '\r' => ['\\', 'r']
  | '\t' => ['\\', 't']
  | '\x08' => ['\\', 'b']
  | '\x0c' => ['\\', 'f']
  | other =>
      if other.toNat < 0x20 then
        ['\\', 'u', '0', '0', Nat.digitChar (other.toNat / 16), Nat.digitChar (other.toNat % 16)]
      else [other]

def renderText (text : String) : String :=
  String.ofList (['"'] ++ text.toList.flatMap escapeLetter ++ ['"'])

mutual

def render : Json → String
  | null => "null"
  | bool true => "true"
  | bool false => "false"
  | integer value => toString value
  | decimal digits => digits
  | string text => renderText text
  | array items => "[" ++ ",".intercalate (renderItems items) ++ "]"
  | object fields => "\x7b" ++ ",".intercalate (renderFields fields) ++ "\x7d"

def renderItems : List Json → List String
  | [] => []
  | item :: rest => render item :: renderItems rest

def renderFields : List (String × Json) → List String
  | [] => []
  | field :: rest => renderField field :: renderFields rest

def renderField : String × Json → String
  | (name, value) => renderText name ++ ":" ++ render value

end

end Json

end EmuChef
