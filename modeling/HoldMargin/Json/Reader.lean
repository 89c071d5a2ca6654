import HoldMargin.Json
/-!
# Reading structured data from text

`Json.read` accepts exactly one value, with blanks around it, and refuses
everything else. A string literal is read as the sequence of its escapes'
16-bit units: a leading surrogate joins the trailing one that follows it,
and a literal with an unpaired surrogate is accepted as `Json.illFormed`.
Readers take the text that is left and return what they leave of it.
-/

namespace HoldMargin.Json

/-- The blanks between tokens. -/
def isBlank (c : Char) : Bool := c = ' ' || c = '\n' || c = '\t' || c = '\r'

/-- The text after its leading blanks. -/
def skipBlanks (cs : List Char) : List Char := cs.dropWhile isBlank

/-! ## String literals -/

/-- A string literal as far as it has been read. -/
structure Literal where
  /-- The characters read, last first. -/
  reversed : List Char := []
  /-- A leading surrogate that waits for the trailing one. -/
  lead : Option Nat := none
  /-- No surrogate read so far is unpaired. -/
  paired : Bool := true

/-- The literal with one more character. -/
def Literal.push (l : Literal) (c : Char) : Literal :=
  { reversed := c :: l.reversed, lead := none, paired := l.paired && l.lead.isNone }

/-- The literal with one more 16-bit unit. -/
def Literal.pushUnit (l : Literal) (unit : Nat) : Literal :=
  if 0xd800 ≤ unit ∧ unit < 0xdc00 then
    { l with lead := some unit, paired := l.paired && l.lead.isNone }
  else if 0xdc00 ≤ unit ∧ unit < 0xe000 then
    match l.lead with
    | some lead =>
      { l with
        reversed := Char.ofNat (0x10000 + (lead - 0xd800) * 0x400 + (unit - 0xdc00)) :: l.reversed
        lead := none }
    | none => { l with paired := false }
  else l.push (Char.ofNat unit)

/-- The value of a finished literal. -/
def Literal.text? (l : Literal) : Option String :=
  if l.paired && l.lead.isNone then some (String.ofList l.reversed.reverse) else none

/-- The value of a hexadecimal digit. -/
def hexValue? (c : Char) : Option Nat :=
  if c.isDigit then some (c.toNat - '0'.toNat)
  else if 'a' ≤ c ∧ c ≤ 'f' then some (c.toNat - 'a'.toNat + 10)
  else if 'A' ≤ c ∧ c ≤ 'F' then some (c.toNat - 'A'.toNat + 10)
  else none

/-- The unit written by four hexadecimal digits. -/
def hexUnit? (a b c d : Char) : Option Nat :=
  match hexValue? a, hexValue? b, hexValue? c, hexValue? d with
  | some a, some b, some c, some d => some (((a * 16 + b) * 16 + c) * 16 + d)
  | _, _, _, _ => none

/-- The character that a backslash and `c` stand for. -/
def escaped? (c : Char) : Option Char :=
  if c = '"' ∨ c = '\\' ∨ c = '/' then some c
  else if c = 'n' then some '\n'
  else if c = 'r' then some '\r'
  else if c = 't' then some '\t'
  else if c = 'b' then some '\x08'
  else if c = 'f' then some '\x0c'
  else none

/-- Reads a string literal up to its closing quote. -/
def readLiteral (l : Literal) : List Char → Option (Literal × List Char)
  | [] => none
  | '"' :: rest => some (l, rest)
  | '\\' :: 'u' :: a :: b :: c :: d :: rest =>
    match hexUnit? a b c d with
    | some unit => readLiteral (l.pushUnit unit) rest
    | none => none
  | '\\' :: c :: rest =>
    match escaped? c with
    | some e => readLiteral (l.push e) rest
    | none => none
  | c :: rest => if c.toNat < 32 then none else readLiteral (l.push c) rest

/-! ## Numbers -/

/-- Splits off the leading digits. -/
def spanDigits (cs : List Char) : List Char × List Char :=
  (cs.takeWhile Char.isDigit, cs.dropWhile Char.isDigit)

/-- The digits of a fraction with its point; nothing if there is no point. -/
def readFraction : List Char → Option (List Char × List Char)
  | '.' :: cs =>
    match spanDigits cs with
    | ([], _) => none
    | (ds, rest) => some ('.' :: ds, rest)
  | cs => some ([], cs)

/-- The exponent with its mark and sign; nothing if there is no mark. -/
def readExponent : List Char → Option (List Char × List Char)
  | [] => some ([], [])
  | e :: cs =>
    if e = 'e' ∨ e = 'E' then
      let (sign, cs) := match cs with
        | '+' :: r => (['+'], r)
        | '-' :: r => (['-'], r)
        | r => ([], r)
      match spanDigits cs with
      | ([], _) => none
      | (ds, rest) => some (e :: (sign ++ ds), rest)
    else some ([], e :: cs)

/-- Reads a number: its whole part has no needless leading zero. -/
def readNumber (cs : List Char) : Option (Json × List Char) :=
  let (sign, cs) := match cs with
    | '-' :: r => (['-'], r)
    | r => ([], r)
  match spanDigits cs with
  | ([], _) => none
  | ('0' :: _ :: _, _) => none
  | (whole, rest) =>
    match readFraction rest with
    | none => none
    | some (fraction, rest) =>
      match readExponent rest with
      | none => none
      | some (exponent, rest) =>
        if sign.isEmpty && fraction.isEmpty && exponent.isEmpty then
          some (.nat (Nat.ofDigitChars 10 whole 0), rest)
        else some (.decimal (String.ofList (sign ++ whole ++ fraction ++ exponent)), rest)

/-! ## Values -/

/-- An object of the fields read, unless one of its names denotes no text. -/
def ofReadFields (reversed : List (Option String × Json)) : Json :=
  match reversed.reverse.mapM fun f => f.1.map fun name => (name, f.2) with
  | some fields => .obj fields
  | none => .illFormed

mutual
/-- Reads one value that starts at once. -/
def readValue : Nat → List Char → Option (Json × List Char)
  | 0, _ => none
  | _ + 1, [] => none
  | fuel + 1, c :: cs =>
    if c = '"' then
      match readLiteral {} cs with
      | none => none
      | some (l, rest) =>
        match l.text? with
        | some s => some (.str s, rest)
        | none => some (.illFormed, rest)
    else if c = '[' then
      match skipBlanks cs with
      | ']' :: rest => some (.arr [], rest)
      | rest => readItems fuel [] rest
    else if c = '{' then
      match skipBlanks cs with
      | '}' :: rest => some (.obj [], rest)
      | rest => readFields fuel [] rest
    else if c = 'n' then
      match cs with
      | 'u' :: 'l' :: 'l' :: rest => some (.null, rest)
      | _ => none
    else if c = 't' then
      match cs with
      | 'r' :: 'u' :: 'e' :: rest => some (.bool true, rest)
      | _ => none
    else if c = 'f' then
      match cs with
      | 'a' :: 'l' :: 's' :: 'e' :: rest => some (.bool false, rest)
      | _ => none
    else readNumber (c :: cs)

/-- Reads the items of a list from the start of one, and its end. -/
def readItems : Nat → List Json → List Char → Option (Json × List Char)
  | 0, _, _ => none
  | fuel + 1, reversed, cs =>
    match readValue fuel cs with
    | none => none
    | some (v, rest) =>
      match skipBlanks rest with
      | ',' :: rest => readItems fuel (v :: reversed) (skipBlanks rest)
      | ']' :: rest => some (.arr (v :: reversed).reverse, rest)
      | _ => none

/-- Reads the fields of an object from the start of one, and its end. -/
def readFields : Nat → List (Option String × Json) → List Char → Option (Json × List Char)
  | 0, _, _ => none
  | fuel + 1, reversed, cs =>
    match cs with
    | '"' :: cs =>
      match readLiteral {} cs with
      | none => none
      | some (name, rest) =>
        match skipBlanks rest with
        | ':' :: rest =>
          match readValue fuel (skipBlanks rest) with
          | none => none
          | some (v, rest) =>
            match skipBlanks rest with
            | ',' :: rest => readFields fuel ((name.text?, v) :: reversed) (skipBlanks rest)
            | '}' :: rest => some (ofReadFields ((name.text?, v) :: reversed), rest)
            | _ => none
        | _ => none
    | _ => none
end

/-- The value a text denotes. Every step of a reader takes a character, so
as many steps as characters are enough. -/
def read (text : String) : Option Json :=
  let cs := skipBlanks text.toList
  match readValue (cs.length + 1) cs with
  | some (v, rest) => if (skipBlanks rest).isEmpty then some v else none
  | none => none

end HoldMargin.Json
