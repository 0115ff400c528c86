import Polymaker.Lib.HostFloat
import Polymaker.Lib.Json

/-!
# Reading a decoded payload

What a reader that takes whatever comes does with the values of a JSON text.

* `Host`: how the host reads a text as a float, and how it writes a value that is no text;
* `Host.str`, `truthy`, `items`, `getMember`: a value as a string, as a condition, as something to
  iterate over, and a member of an object.
-/

namespace JsonTree

/-- The conversions of a host that depend on the text of a value. -/
structure Host (F : Type := ℚ) where
  floatOfString : String → Option F
  repr : JsonTree F → String

variable {F : Type}

/-- A value as a string; a string is itself. -/
def Host.str (H : Host F) : JsonTree F → String
  | .str s => s
  | x => H.repr x

/-- Whether a value counts as true: what is empty or zero does not. -/
def truthy [HostFloat F] : JsonTree F → Bool
  | .null => false
  | .bool b => b
  | .int k => k ≠ 0
  | .float x => !HostFloat.eq x (HostFloat.ofRat 0)
  | .str s => s ≠ ""
  | .arr items => !items.isEmpty
  | .obj members => !members.isEmpty

/-- What a loop over a value goes through, `none` where it cannot start: the items of an array, the
keys of an object, the characters of a string. -/
def items : JsonTree F → Option (List (JsonTree F))
  | .arr items => some items
  | .obj members => some (members.map fun m => .str m.1)
  | .str s => some (s.toList.map fun c => .str c.toString)
  | .null | .bool _ | .int _ | .float _ => none

/-- The member of an object under a key, or a default. -/
def getMemberD (d : List (String × JsonTree F)) (key : String) (dflt : JsonTree F) : JsonTree F :=
  (d.lookup key).getD dflt

/-- The member of an object under a key, `null` where there is none. -/
def getMember (d : List (String × JsonTree F)) (key : String) : JsonTree F := getMemberD d key .null

end JsonTree
