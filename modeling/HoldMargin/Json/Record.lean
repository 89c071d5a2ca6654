import HoldMargin.Json
import HoldMargin.TableId
/-!
# Reading typed values out of structured data

A record is written as an object of named fields or as the list of its
fields' values. Fields the record does not have are passed over; a field
named twice, a value of another shape and a number outside its range make
the whole reading fail, and the result is then `none`.
-/

namespace HoldMargin

/-- How a notation writes records and cases, where notations differ. -/
structure Notation where
  /-- A record written as a list may be followed by further values. -/
  surplusValues : Bool
  /-- What may stand beside the name of a case that has no fields. -/
  isUnit : Json → Bool

/-- A record as it was written. -/
inductive Record where
  | named (fields : List (String × Json))
  | listed (fields : List (String × Json))

namespace Json

/-! ## Single values -/

/-- A natural number below `bound`. -/
def natBelow? (bound : Nat) : Json → Option Nat
  | .nat n => if n < bound then some n else none
  | _ => none

/-- A 32-bit word. -/
def word32? : Json → Option UInt32
  | .nat n => if n < UInt32.size then some n.toUInt32 else none
  | _ => none

/-- A 64-bit count. -/
def count? (v : Json) : Option Nat := v.natBelow? UInt64.size

/-- An identifier. -/
def id? {t : Table} (v : Json) : Option (TableId t) := v.word32?.map TableId.mk

/-- A text. -/
def text? : Json → Option String
  | .str s => some s
  | _ => none

/-- A truth value. -/
def bool? : Json → Option Bool
  | .bool b => some b
  | _ => none

/-- A list of values that `read` accepts. -/
def list? {α : Type} (read : Json → Option α) : Json → Option (List α)
  | .arr items => items.mapM read
  | _ => none

/-- A value that `read` accepts, or null for none. -/
def orNull? {α : Type} (read : Json → Option α) : Json → Option (Option α)
  | .null => some none
  | v => (read v).map some

/-- The field of an object. -/
def field? (name : String) : Json → Option Json
  | .obj fields => fields.lookup name
  | _ => none

end Json

namespace Record

/-- The value written for a field. -/
def find? (name : String) : Record → Option Json
  | .named fields => fields.lookup name
  | .listed fields => fields.lookup name

/-- A field that must be written. -/
def required {α : Type} (r : Record) (name : String) (read : Json → Option α) : Option α :=
  (r.find? name).bind read

/-- A field that stands for `fallback` when it is not written. -/
def withDefault {α : Type} (r : Record) (name : String) (fallback : α) (read : Json → Option α) :
    Option α :=
  match r.find? name with
  | some v => read v
  | none => some fallback

/-- A field that may be null, and that may be left out among named fields. -/
def nullable {α : Type} (r : Record) (name : String) (read : Json → Option α) :
    Option (Option α) :=
  match r, r.find? name with
  | _, some v => v.orNull? read
  | .named _, none => some none
  | .listed _, none => none

end Record

namespace Notation

/-- The record with the fields `names`, in their order of declaration. -/
def record? (n : Notation) (names : List String) : Json → Option Record
  | .obj fields =>
    if names.all fun name => fields.countP (·.1 == name) ≤ 1 then some (.named fields) else none
  | .arr items =>
    if n.surplusValues || items.length ≤ names.length then some (.listed (names.zip items))
    else none
  | _ => none

/-- The name of a case without fields. -/
def case? (n : Notation) : Json → Option String
  | .str name => some name
  | .obj [(name, payload)] => if n.isUnit payload then some name else none
  | _ => none

end Notation

/-- Records and cases as JSON writes them. -/
def jsonNotation : Notation where
  surplusValues := false
  isUnit
    | .null => true
    | _ => false

end HoldMargin
