import Polymaker.Lib.HostFloat

/-!
# Sorted dictionaries

Dictionaries with a sorted list of their keys, as a package has them, keys and values being floats.
The list is searched by the order of the keys, so it loses track of them when one is no number.

* `SortedDict`: such a dictionary: built from rows, one item set, one removed if it is there;
* `Ordered`, `Lawful`: a dictionary whose keys were all numbers, and that the package finds the keys
  of such a one;
* `Bisected`, `bisected`: one with a list of keys that is searched by bisection.
-/

/-- A sorted dictionary.  `pop d k` removes a key if it is there, and is `none` where it raises, for
the key is there and the list does not find it. -/
structure SortedDict (F : Type) where
  Carrier : Type
  ofRows : List (F × F) → Carrier
  set : Carrier → F → F → Carrier
  pop : Carrier → F → Option Carrier

namespace SortedDict

variable {F : Type} [HostFloat F]

/-- All keys that were ever put into it are numbers. -/
inductive Ordered (D : SortedDict F) : D.Carrier → Prop
  | ofRows {rows : List (F × F)} (h : ∀ r ∈ rows, ¬ HostFloat.IsNan r.1) : Ordered D (D.ofRows rows)
  | set {d : D.Carrier} (h : Ordered D d) {k : F} (hk : ¬ HostFloat.IsNan k) (v : F) :
    Ordered D (D.set d k v)
  | pop {d d' : D.Carrier} (h : Ordered D d) {k : F} (hpop : D.pop d k = some d') : Ordered D d'

/-- The package finds what is there, as long as the keys are ordered. -/
structure Lawful (D : SortedDict F) : Prop where
  pop : ∀ d, D.Ordered d → ∀ k, (D.pop d k).isSome

end SortedDict

/-! ### Bisection -/

/-- The items of a dictionary, and the list of its keys. -/
structure Bisected (F : Type) where
  items : List (F × F)
  keys : List F

namespace Bisected

variable {F : Type} [HostFloat F]

/-- `bisect_left` between two places: the first place where no smaller key stands. -/
def bisectLeft (keys : List F) (k : F) : ℕ → ℕ → ℕ → ℕ
  | 0, lo, _ => lo
  | fuel + 1, lo, hi =>
    if lo < hi then
      match keys[(lo + hi) / 2]? with
      | some m =>
        if HostFloat.lt m k then bisectLeft keys k fuel ((lo + hi) / 2 + 1) hi
        else bisectLeft keys k fuel lo ((lo + hi) / 2)
      | none => lo
    else lo

/-- `bisect_right`: the first place where a greater key stands. -/
def bisectRight (keys : List F) (k : F) : ℕ → ℕ → ℕ → ℕ
  | 0, lo, _ => lo
  | fuel + 1, lo, hi =>
    if lo < hi then
      match keys[(lo + hi) / 2]? with
      | some m =>
        if HostFloat.lt k m then bisectRight keys k fuel lo ((lo + hi) / 2)
        else bisectRight keys k fuel ((lo + hi) / 2 + 1) hi
      | none => lo
    else lo

/-- A key is added: behind the last one unless it is smaller. -/
def addKey (keys : List F) (k : F) : List F :=
  match keys.getLast? with
  | some last =>
    if HostFloat.lt k last then
      keys.insertIdx (bisectRight keys k keys.length 0 keys.length) k
    else keys ++ [k]
  | none => [k]

/-- A key is removed, `none` where it is not found. -/
def removeKey (keys : List F) (k : F) : Option (List F) :=
  match keys.getLast? with
  | some last =>
    if HostFloat.lt last k then none
    else
      let i := bisectLeft keys k keys.length 0 keys.length
      match keys[i]? with
      | some m => if HostFloat.eq m k then some (keys.eraseIdx i) else none
      | none => none
  | none => none

/-- Whether a key is there. -/
def hasKey (d : Bisected F) (k : F) : Bool := d.items.any fun e => HostFloat.eq e.1 k

/-- One item is set. -/
def set (d : Bisected F) (k v : F) : Bisected F :=
  if d.hasKey k then
    { d with items := d.items.map fun e => if HostFloat.eq e.1 k then (e.1, v) else e }
  else ⟨d.items ++ [(k, v)], addKey d.keys k⟩

/-- One item is removed if it is there. -/
def pop (d : Bisected F) (k : F) : Option (Bisected F) :=
  if d.hasKey k then
    (removeKey d.keys k).map fun keys =>
      ⟨d.items.filter fun e => !HostFloat.eq e.1 k, keys⟩
  else some d

end Bisected

/-- The sorted dictionary with one list of keys. -/
def SortedDict.bisected (F : Type) [HostFloat F] : SortedDict F where
  Carrier := Bisected F
  ofRows rows := rows.foldl (fun d e => d.set e.1 e.2) ⟨[], []⟩
  set := Bisected.set
  pop := Bisected.pop
