import HoldMargin.Json.Reader
/-!
# Strings of TOML

The four kinds of string: basic and literal, on one line or on several.
Each reader starts after the opening quotes and returns the text, its
characters last first, with what follows the closing quotes. A line end in
a string of several lines counts as one line feed however it is written.
-/

namespace HoldMargin.Toml

/-- A blank within a line. -/
def isBlank (c : Char) : Bool := c = ' ' || c = '\t'

/-- A character that may stand in a line: a tab, or no control character. -/
def isLineChar (c : Char) : Bool := c = '\t' || (32 ≤ c.toNat && c.toNat ≠ 127)

/-- What follows a line end. -/
def afterLineEnd? : List Char → Option (List Char)
  | '\n' :: rest => some rest
  | '\r' :: '\n' :: rest => some rest
  | _ => none

/-- The character with a code, unless the code is that of a surrogate or of
no character at all. -/
def charOf? (code : Nat) : Option Char :=
  if h : code.isValidChar then some (Char.ofNatAux code h) else none

/-- The value of a run of hexadecimal digits. -/
def hexRun? (cs : List Char) : Option Nat :=
  cs.foldl (fun n c => n.bind fun n => (Json.hexValue? c).map (n * 16 + ·)) (some 0)

/-- The character an escape stands for, after the backslash. -/
def escape? : List Char → Option (Char × List Char)
  | '"' :: rest => some ('"', rest)
  | '\\' :: rest => some ('\\', rest)
  | 'b' :: rest => some ('\x08', rest)
  | 'f' :: rest => some ('\x0c', rest)
  | 'n' :: rest => some ('\n', rest)
  | 'r' :: rest => some ('\r', rest)
  | 't' :: rest => some ('\t', rest)
  | 'u' :: a :: b :: c :: d :: rest =>
    ((hexRun? [a, b, c, d]).bind charOf?).map fun e => (e, rest)
  | 'U' :: a :: b :: c :: d :: e :: f :: g :: h :: rest =>
    ((hexRun? [a, b, c, d, e, f, g, h]).bind charOf?).map fun x => (x, rest)
  | _ => none

/-- A basic string on one line. -/
def basic : Nat → List Char → List Char → Option (List Char × List Char)
  | 0, _, _ => none
  | _ + 1, _, [] => none
  | fuel + 1, text, c :: cs =>
    if c = '"' then some (text, cs)
    else if c = '\\' then
      match escape? cs with
      | some (e, rest) => basic fuel (e :: text) rest
      | none => none
    else if isLineChar c then basic fuel (c :: text) cs
    else none

/-- A literal string on one line. -/
def literal : List Char → List Char → Option (List Char × List Char)
  | _, [] => none
  | text, c :: cs =>
    if c = '\'' then some (text, cs)
    else if isLineChar c then literal (c :: text) cs
    else none

/-- The end of a string of several lines, after three closing quotes: up to
two more quotes belong to the text. -/
def afterClosing (quote : Char) (text : List Char) : List Char → List Char × List Char
  | [] => (text, [])
  | [a] => if a = quote then (quote :: text, []) else (text, [a])
  | a :: b :: rest =>
    if a = quote then
      if b = quote then (quote :: quote :: text, rest) else (quote :: text, b :: rest)
    else (text, a :: b :: rest)

/-- The text after a backslash that ends its line: all blanks and line ends
up to the next other character are left out. -/
def afterFold? (cs : List Char) : Option (List Char) :=
  (afterLineEnd? (cs.dropWhile isBlank)).map trim
where
  /-- Drops blanks and line ends. -/
  trim : List Char → List Char
    | '\n' :: rest => trim rest
    | '\r' :: '\n' :: rest => trim rest
    | c :: rest => if isBlank c then trim rest else c :: rest
    | [] => []

/-- A basic string of several lines. -/
def basicLines : Nat → List Char → List Char → Option (List Char × List Char)
  | 0, _, _ => none
  | fuel + 1, text, cs =>
    match cs with
    | [] => none
    | '"' :: '"' :: '"' :: rest => some (afterClosing '"' text rest)
    | '\\' :: rest =>
      match afterFold? rest with
      | some rest => basicLines fuel text rest
      | none =>
        match escape? rest with
        | some (e, rest) => basicLines fuel (e :: text) rest
        | none => none
    | c :: rest =>
      match afterLineEnd? (c :: rest) with
      | some rest => basicLines fuel ('\n' :: text) rest
      | none => if isLineChar c then basicLines fuel (c :: text) rest else none

/-- A literal string of several lines. -/
def literalLines : Nat → List Char → List Char → Option (List Char × List Char)
  | 0, _, _ => none
  | fuel + 1, text, cs =>
    match cs with
    | [] => none
    | '\'' :: '\'' :: '\'' :: rest => some (afterClosing '\'' text rest)
    | c :: rest =>
      match afterLineEnd? (c :: rest) with
      | some rest => literalLines fuel ('\n' :: text) rest
      | none => if isLineChar c then literalLines fuel (c :: text) rest else none

/-- The text after the line end that may follow opening quotes. -/
def skipLineEnd (cs : List Char) : List Char := (afterLineEnd? cs).getD cs

/-- Any string, from its opening quotes. -/
def string? (cs : List Char) : Option (String × List Char) :=
  let fuel := cs.length
  let found := match cs with
    | '"' :: '"' :: '"' :: rest => basicLines fuel [] (skipLineEnd rest)
    | '"' :: rest => basic fuel [] rest
    | '\'' :: '\'' :: '\'' :: rest => literalLines fuel [] (skipLineEnd rest)
    | '\'' :: rest => literal [] rest
    | _ => none
  found.map fun (text, rest) => (String.ofList text.reverse, rest)

end HoldMargin.Toml
