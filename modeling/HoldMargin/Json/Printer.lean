import HoldMargin.Json
/-!
# Writing structured data as indented text

`Json.write depth v rest` is the text of `v` followed by `rest`, in the
layout with one item a line and two blanks a level; an empty list or
object stays on its line. Strings are written with the shortest escape of
each character that needs one.
-/

namespace HoldMargin.Json

/-- A lower-case hexadecimal digit. -/
def hexDigit (n : Nat) : Char := Nat.digitChar (n % 16)

/-- One character of a string literal, followed by `rest`: quotes,
backslashes and control characters are escaped, and nothing else. -/
def writeChar (c : Char) (rest : List Char) : List Char :=
  if c = '"' then '\\' :: '"' :: rest
  else if c = '\\' then '\\' :: '\\' :: rest
  else if c = '\n' then '\\' :: 'n' :: rest
  else if c = '\r' then '\\' :: 'r' :: rest
  else if c = '\t' then '\\' :: 't' :: rest
  else if c = '\x08' then '\\' :: 'b' :: rest
  else if c = '\x0c' then '\\' :: 'f' :: rest
  else if c.toNat < 32 then
    '\\' :: 'u' :: '0' :: '0' :: hexDigit (c.toNat / 16) :: hexDigit c.toNat :: rest
  else c :: rest

/-- A string literal, followed by `rest`. -/
def writeText (s : String) (rest : List Char) : List Char :=
  '"' :: s.toList.foldr writeChar ('"' :: rest)

/-- A new line indented to `depth` levels, followed by `rest`. -/
def newLine (depth : Nat) (rest : List Char) : List Char :=
  '\n' :: (List.replicate (2 * depth) ' ' ++ rest)

mutual
/-- The text of a value nested `depth` levels deep, followed by `rest`. -/
def write (depth : Nat) : Json → List Char → List Char
  | .null, rest => "null".toList ++ rest
  | .bool true, rest => "true".toList ++ rest
  | .bool false, rest => "false".toList ++ rest
  | .nat n, rest => Nat.toDigits 10 n ++ rest
  | .decimal literal, rest => literal.toList ++ rest
  | .str s, rest => writeText s rest
  -- no text is denoted, so the shortest literal that denotes none is written
  | .illFormed, rest => "\"\\ud800\"".toList ++ rest
  | .arr [], rest => '[' :: ']' :: rest
  | .arr (v :: vs), rest =>
    '[' :: newLine (depth + 1) (write (depth + 1) v (writeItems depth vs rest))
  | .obj [], rest => '{' :: '}' :: rest
  | .obj ((name, v) :: fields), rest =>
    '{' :: newLine (depth + 1) (writeText name (':' :: ' ' ::
      write (depth + 1) v (writeFields depth fields rest)))

/-- The items of a list after its first, and its end. -/
def writeItems (depth : Nat) : List Json → List Char → List Char
  | [], rest => newLine depth (']' :: rest)
  | v :: vs, rest => ',' :: newLine (depth + 1) (write (depth + 1) v (writeItems depth vs rest))

/-- The fields of an object after its first, and its end. -/
def writeFields (depth : Nat) : List (String × Json) → List Char → List Char
  | [], rest => newLine depth ('}' :: rest)
  | (name, v) :: fields, rest =>
    ',' :: newLine (depth + 1) (writeText name (':' :: ' ' ::
      write (depth + 1) v (writeFields depth fields rest)))
end

/-- The indented text of a value. -/
def pretty (v : Json) : String := String.ofList (v.write 0 [])

end HoldMargin.Json
