import SceneGrammar.Number.Decimal
import SceneGrammar.Scene

/-!
The written form of an event: one object of JSON without blanks, its fields in a fixed order.
-/

namespace SceneGrammar

namespace JsonText

def quoted (text : String) : String := "\"" ++ text ++ "\""

def array (items : List String) : String := "[" ++ ",".intercalate items ++ "]"

def object (fields : List (String × String)) : String :=
  "\x7b" ++ ",".intercalate (fields.map fun (name, value) => quoted name ++ ":" ++ value) ++ "\x7d"

def optional {α : Type} (write : α → String) : Option α → String
  | none => "null"
  | some value => write value

def byte (value : UInt8) : String := .ofList (digitsOf value.toNat)

def color (c : Rgba) : String :=
  object [("r", byte c.red), ("g", byte c.green), ("b", byte c.blue), ("a", byte c.alpha)]

def vector {n : Nat} (v : Vector Float n) : String := array (v.toList.map doubleText)

def matrix (m : Matrix) : String := array (m.entries.map singleText)

end JsonText

open JsonText in
def Event.json : Event Matrix → String
  | .background c => object [("event", quoted "background"), ("color", color c)]
  | .camera c =>
    object [("event", quoted "camera"), ("translation", optional vector c.offset),
      ("rotation", optional vector c.rotation), ("pivot", optional vector c.pivot),
      ("scale", optional doubleText c.scale)]
  | .draw d =>
    object [("event", quoted "draw"), ("primitive", quoted d.solid.name),
      ("matrix", matrix d.pose.placement), ("color", color d.pose.color)]

end SceneGrammar
