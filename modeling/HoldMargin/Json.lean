/-!
# Structured data

The values a structured text denotes. The type keeps what typed reading
needs and no more: a number written as plain digits is kept as a number,
any other number as its literal, since nothing here computes with it.
Fields keep the order they are written in, and a name may occur twice.
-/

namespace HoldMargin

/-- A value of structured data. -/
inductive Json where
  | null
  | bool (value : Bool)
  /-- A number written with digits alone. -/
  | nat (value : Nat)
  /-- Any other number, by its literal. -/
  | decimal (literal : String)
  | str (text : String)
  /-- A string, or an object with a name, whose escapes hold an unpaired
  surrogate: it is well written and denotes no text. -/
  | illFormed
  | arr (items : List Json)
  | obj (fields : List (String × Json))
deriving Inhabited

namespace Json

/-- A text, or null for an absent one. -/
def optional {α : Type} (write : α → Json) : Option α → Json
  | none => .null
  | some a => write a

/-- The list of the values of `as`. -/
def list {α : Type} (write : α → Json) (as : List α) : Json := .arr (as.map write)

/-! ## Fields in ascending order of their names -/

/-- Puts a field before the first one with a greater name. -/
def insertField (f : String × Json) : List (String × Json) → List (String × Json)
  | [] => [f]
  | g :: gs => if f.1 < g.1 then f :: g :: gs else g :: insertField f gs

mutual
/-- The value with the fields of every object in ascending order of names. -/
def sortFields : Json → Json
  | .arr items => .arr (sortItems items)
  | .obj fields => .obj (sortEntries fields)
  | v => v

/-- `sortFields` on every item. -/
def sortItems : List Json → List Json
  | [] => []
  | v :: vs => v.sortFields :: sortItems vs

/-- `sortFields` on every field's value, the fields themselves put in order. -/
def sortEntries : List (String × Json) → List (String × Json)
  | [] => []
  | (name, v) :: fields => insertField (name, v.sortFields) (sortEntries fields)
end

end Json

end HoldMargin
