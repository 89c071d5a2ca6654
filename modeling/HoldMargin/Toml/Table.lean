import HoldMargin.Json
/-!
# Tables of TOML and how they come to be defined

A table may be opened by a header, implied by the header of a table below
it, or made by a dotted key, and each may be extended only in its own way:
`Entries.descend?` walks to the table a key path names and refuses a path
that leads through a finished value, or through a header's table by a
dotted key; `Entries.define?`, `openTable?` and `appendTable?` add a value,
open a table and add a table to a list of tables. A value once defined is
never replaced.
-/

namespace HoldMargin.Toml

/-- How a table came to be. -/
inductive Origin where
  /-- Opened by its own header. -/
  | header
  /-- Named on the way to a table that a header opened. -/
  | implied
  /-- Made by a dotted key. -/
  | dotted
deriving DecidableEq

/-- What a key of a table names. -/
inductive Entry where
  /-- A finished value: a scalar, a list or an inline table. -/
  | value (v : Json)
  | table (origin : Origin) (entries : List (String × Entry))
  /-- A list of tables, each opened by its own header; the last comes first. -/
  | tables (last : List (String × Entry)) (earlier : List (List (String × Entry)))

/-- The entries of a table, in the order of their definition. -/
abbrev Entries := List (String × Entry)

namespace Entries

/-- What a key names. -/
def get? (es : Entries) (key : String) : Option Entry := es.lookup key

/-- The entries with `e` as what `key` names. -/
def put (key : String) (e : Entry) : Entries → Entries
  | [] => [(key, e)]
  | (k, old) :: es => if k = key then (key, e) :: es else (k, old) :: put key e es

/-- Changes the entries of the table at the end of a path that starts at a
table `es` of the given origin. The tables on the way that do not exist yet
are made, as `missing` says. -/
def descend? (es : Entries) (missing origin : Origin) (path : List String)
    (change : Origin → Entries → Option Entries) : Option Entries :=
  match path with
  | [] => change origin es
  | key :: path =>
    match es.get? key with
    | none =>
      (descend? [] missing missing path change).map fun t => es.put key (.table missing t)
    | some (.value _) => none
    | some (.tables last earlier) =>
      (descend? last missing .header path change).map fun t => es.put key (.tables t earlier)
    | some (.table made t) =>
      if missing = .dotted ∧ made = .header then none
      else (descend? t missing made path change).map fun t => es.put key (.table made t)

/-- Defines a value under a key path. A path of several keys must end in a
table that dotted keys made, and no key is defined twice. -/
def define? (path : List String) (key : String) (v : Json) (es : Entries) : Option Entries :=
  es.descend? .dotted .header path fun origin es =>
    if !path.isEmpty && origin != .dotted then none
    else if (es.get? key).isSome then none
    else some (es.put key (.value v))

/-- Opens the table of a header. A table is opened once; one that was only
implied so far keeps its entries. -/
def openTable? (path : List String) (key : String) (es : Entries) : Option Entries :=
  es.descend? .implied .header path fun _ es =>
    match es.get? key with
    | none => some (es.put key (.table .header []))
    | some (.table .implied t) => some (es.put key (.table .header t))
    | some _ => none

/-- Adds a table to the list of tables of a header. -/
def appendTable? (path : List String) (key : String) (es : Entries) : Option Entries :=
  es.descend? .implied .header path fun _ es =>
    match es.get? key with
    | none => some (es.put key (.tables [] []))
    | some (.tables last earlier) => some (es.put key (.tables [] (last :: earlier)))
    | some _ => none

end Entries

mutual
/-- The value of what a key names. -/
def Entry.toJson : Entry → Json
  | .value v => v
  | .table _ es => .obj (entriesToJson es)
  | .tables last earlier => .arr (tablesToJson earlier [.obj (entriesToJson last)])

/-- The fields of a table. -/
def entriesToJson : List (String × Entry) → List (String × Json)
  | [] => []
  | (key, e) :: es => (key, e.toJson) :: entriesToJson es

/-- The tables of a list, in order, before `after`. -/
def tablesToJson : List (List (String × Entry)) → List Json → List Json
  | [], after => after
  | t :: earlier, after => tablesToJson earlier (.obj (entriesToJson t) :: after)
end

end HoldMargin.Toml
