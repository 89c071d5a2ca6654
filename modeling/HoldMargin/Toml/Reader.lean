import HoldMargin.Toml.Scalar
import HoldMargin.Toml.Table
import HoldMargin.Toml.Text
/-!
# Reading TOML documents

`Toml.read` gives the table a document denotes, as an object, or `none` if
the document breaks the grammar or defines a key twice. A document is a
sequence of lines; each opens a table, defines a value or holds nothing
but a comment. Values and keys may be nested up to a fixed depth.
-/

namespace HoldMargin.Toml

/-- Lists, inline tables and the parts of a dotted key are nested less than
this deep. -/
def nestingLimit : Nat := 80

/-- The text after its leading blanks. -/
def skipBlanks (cs : List Char) : List Char := cs.dropWhile isBlank

/-- The text after a comment, if there is one. -/
def skipComment : List Char → List Char
  | '#' :: cs => cs.dropWhile isLineChar
  | cs => cs

/-- What follows the end of a line on which only blanks and a comment are
left. The end of the document ends its last line. -/
def endLine? (cs : List Char) : Option (List Char) :=
  match skipComment (skipBlanks cs) with
  | [] => some []
  | cs => afterLineEnd? cs

/-- Skips blanks, comments and line ends, as between the items of a list. -/
def skipLines : Nat → List Char → List Char
  | 0, cs => cs
  | fuel + 1, cs =>
    match skipBlanks cs with
    | '#' :: rest =>
      match afterLineEnd? (rest.dropWhile isLineChar) with
      | some rest => skipLines fuel rest
      | none => '#' :: rest
    | cs =>
      match afterLineEnd? cs with
      | some rest => skipLines fuel rest
      | none => cs

/-! ## Keys -/

/-- A character of a key without quotes. -/
def isKeyChar (c : Char) : Bool := c.isAlphanum || c = '_' || c = '-'

/-- One part of a key. -/
def keyPart? (cs : List Char) : Option (String × List Char) :=
  match cs with
  | '"' :: rest =>
    (basic cs.length [] rest).map fun (text, rest) => (String.ofList text.reverse, rest)
  | '\'' :: rest =>
    (literal [] rest).map fun (text, rest) => (String.ofList text.reverse, rest)
  | cs =>
    match cs.takeWhile isKeyChar with
    | [] => none
    | part => some (String.ofList part, cs.dropWhile isKeyChar)

/-- The parts of a key, with blanks around each, last first. -/
def keyParts : Nat → List String → List Char → Option (List String × List Char)
  | 0, _, _ => none
  | fuel + 1, parts, cs =>
    match keyPart? (skipBlanks cs) with
    | none => none
    | some (part, rest) =>
      match skipBlanks rest with
      | '.' :: rest => keyParts fuel (part :: parts) rest
      | rest => some (part :: parts, rest)

/-- A key: the path to its table, its own name, and what follows. -/
def key? (cs : List Char) : Option (List String × String × List Char) :=
  match keyParts (cs.length + 1) [] cs with
  | some (name :: path, rest) =>
    if path.length + 1 < nestingLimit then some (path.reverse, name, rest) else none
  | _ => none

/-! ## Values -/

/-- A bare scalar: the longest word of its characters. A date may be parted
from its time by one blank. -/
def readScalar (cs : List Char) : Option (Json × List Char) :=
  let word := cs.takeWhile isScalarChar
  let rest := cs.dropWhile isScalarChar
  match isDate word, rest with
  | true, ' ' :: a :: b :: ':' :: after =>
    if a.isDigit && b.isDigit then
      let time := (a :: b :: ':' :: after).takeWhile isScalarChar
      (scalar? (word ++ 'T' :: time)).map fun v =>
        (v, (a :: b :: ':' :: after).dropWhile isScalarChar)
    else (scalar? word).map fun v => (v, rest)
  | _, _ => (scalar? word).map fun v => (v, rest)

mutual
/-- Reads a value that starts at once, nested `depth` deep. -/
def readValue : Nat → Nat → List Char → Option (Json × List Char)
  | 0, _, _ => none
  | fuel + 1, depth, cs =>
    match cs with
    | '[' :: rest =>
      if depth + 1 < nestingLimit then readItems fuel (depth + 1) [] rest else none
    | '{' :: rest =>
      if depth + 1 < nestingLimit then
        match skipBlanks rest with
        | '}' :: rest => some (.obj [], rest)
        | rest => readInline fuel (depth + 1) [] rest
      else none
    | '"' :: _ => (string? cs).map fun (s, rest) => (.str s, rest)
    | '\'' :: _ => (string? cs).map fun (s, rest) => (.str s, rest)
    | cs => readScalar cs

/-- Reads the items of a list, the last of which a comma may follow. -/
def readItems : Nat → Nat → List Json → List Char → Option (Json × List Char)
  | 0, _, _, _ => none
  | fuel + 1, depth, reversed, cs =>
    match skipLines cs.length cs with
    | ']' :: rest => some (.arr reversed.reverse, rest)
    | cs =>
      match readValue fuel depth cs with
      | none => none
      | some (v, rest) =>
        match skipLines rest.length rest with
        | ',' :: rest => readItems fuel depth (v :: reversed) rest
        | ']' :: rest => some (.arr (v :: reversed).reverse, rest)
        | _ => none

/-- Reads the definitions of an inline table from the start of one. -/
def readInline : Nat → Nat → Entries → List Char → Option (Json × List Char)
  | 0, _, _, _ => none
  | fuel + 1, depth, es, cs =>
    match key? cs with
    | some (path, name, '=' :: rest) =>
      match readValue fuel depth (skipBlanks rest) with
      | none => none
      | some (v, rest) =>
        match es.define? path name v with
        | none => none
        | some es =>
          match skipBlanks rest with
          | ',' :: rest => readInline fuel depth es rest
          | '}' :: rest => some (.obj (entriesToJson es), rest)
          | _ => none
    | _ => none
end

/-! ## Documents -/

/-- The header of a table or of a list of tables: what it opens, and what
follows its line. -/
def header? (cs : List Char) : Option (Bool × List String × String × List Char) :=
  match cs with
  | '[' :: '[' :: cs =>
    match key? cs with
    | some (path, name, ']' :: ']' :: rest) =>
      (endLine? rest).map fun rest => (true, path, name, rest)
    | _ => none
  | '[' :: cs =>
    match key? cs with
    | some (path, name, ']' :: rest) =>
      (endLine? rest).map fun rest => (false, path, name, rest)
    | _ => none
  | _ => none

/-- A definition on a line of its own, and what follows the line. -/
def definition? (cs : List Char) : Option (List String × String × Json × List Char) :=
  match key? cs with
  | some (path, name, '=' :: rest) =>
    match readValue (rest.length + 1) 0 (skipBlanks rest) with
    | some (v, rest) => (endLine? rest).map fun rest => (path, name, v, rest)
    | none => none
  | _ => none

/-- Reads the lines of a document. `root` holds what they have defined so
far, and `current` is the path of the table that was opened last. -/
def readLines : Nat → Entries → List String → List Char → Option Entries
  | 0, _, _, _ => none
  | fuel + 1, root, current, cs =>
    match skipBlanks cs with
    | [] => some root
    | '#' :: rest =>
      match endLine? ('#' :: rest) with
      | some rest => readLines fuel root current rest
      | none => none
    | '[' :: rest =>
      match header? ('[' :: rest) with
      | some (isList, path, name, rest) =>
        match if isList then root.appendTable? path name else root.openTable? path name with
        | some root => readLines fuel root (path ++ [name]) rest
        | none => none
      | none => none
    | c :: rest =>
      match afterLineEnd? (c :: rest) with
      | some rest => readLines fuel root current rest
      | none =>
        match definition? (c :: rest) with
        | some (path, name, v, rest) =>
          match root.descend? .implied .header current fun _ es => es.define? path name v with
          | some root => readLines fuel root current rest
          | none => none
        | none => none

/-- The table a document denotes. A byte order mark at its start is left
out. -/
def read (text : String) : Option Json :=
  let cs := match text.toList with
    | '\ufeff' :: cs => cs
    | cs => cs
  (readLines (cs.length + 1) [] [] cs).map fun es => .obj (entriesToJson es)

end HoldMargin.Toml
