import Mathlib.Data.Rat.Defs
import Mathlib.Tactic.Common

/-!
# JSON values

The values that a JSON text stands for, and records read back from their members.

* `JsonTree`: a value over the floats of a host, the rationals if nothing is said; integers and
  floats are kept apart, as a reader keeps them;
* `Codec`: a type with a JSON form, the round trip being a field;
* `member`, `memberD`: a member of an object, required or with a default.
-/

/-- A JSON value. -/
inductive JsonTree (F : Type := ℚ)
  | null
  | bool (b : Bool)
  | int (k : ℤ)
  | float (x : F)
  | str (s : String)
  | arr (items : List (JsonTree F))
  | obj (members : List (String × JsonTree F))

namespace JsonTree

/-- A type whose values are written as JSON, and read back as they were. -/
class Codec (α : Type*) where
  enc : α → JsonTree
  dec : JsonTree → Option α
  dec_enc : ∀ a, dec (enc a) = some a

open Codec

attribute [simp] dec_enc

instance : Codec Bool where
  enc := .bool
  dec
    | .bool b => some b
    | _ => none
  dec_enc _ := rfl

instance : Codec ℤ where
  enc := .int
  dec
    | .int k => some k
    | _ => none
  dec_enc _ := rfl

instance : Codec ℚ where
  enc := .float
  dec
    | .float x => some x
    | _ => none
  dec_enc _ := rfl

instance : Codec String where
  enc := .str
  dec
    | .str s => some s
    | _ => none
  dec_enc _ := rfl

/-- A string, or `null`. -/
instance : Codec (Option String) where
  enc
    | some s => .str s
    | none => .null
  dec
    | .str s => some (some s)
    | .null => some none
    | _ => none
  dec_enc
    | some _ => rfl
    | none => rfl

/-- A pair, as the array of its components. -/
instance {α β : Type*} [Codec α] [Codec β] : Codec (α × β) where
  enc p := .arr [enc p.1, enc p.2]
  dec
    | .arr [x, y] => (dec x).bind fun a => (dec y).map fun b => (a, b)
    | _ => none
  dec_enc p := by simp

variable {α : Type*} [Codec α]

/-- A member an object has to have. -/
def member (d : List (String × JsonTree)) (key : String) : Option α := (d.lookup key).bind dec

/-- A member an object may lack. -/
def memberD (d : List (String × JsonTree)) (key : String) (dflt : α) : Option α :=
  match d.lookup key with
  | some x => dec x
  | none => some dflt

theorem member_of_lookup {d : List (String × JsonTree)} {key : String} {a : α}
    (h : d.lookup key = some (enc a)) : member d key = some a := by
  unfold member
  rw [h]
  exact dec_enc a

theorem memberD_of_lookup {d : List (String × JsonTree)} {key : String} {a : α}
    (h : d.lookup key = some (enc a)) (dflt : α) : memberD d key dflt = some a := by
  unfold memberD
  rw [h]
  exact dec_enc a

end JsonTree
