import HoldMargin.Json
/-!
# Bare scalars of TOML

A truth value, a number or a date and time is written as one unbroken word
(a date and a time may be parted by one blank, which the reader joins).
`Toml.scalar?` decides which of the grammar's forms the whole word has and
refuses a word that has none. Only integers keep their value; a float or a
date is never asked for, so its text is enough.
-/

namespace HoldMargin.Toml

/-- A character that a bare scalar may consist of. -/
def isScalarChar (c : Char) : Bool :=
  c.isAlphanum || c = '+' || c = '-' || c = '_' || c = '.' || c = ':'

/-! ## Digits -/

/-- The digits of a word in which single underscores may stand between
digits; there must be at least one digit. -/
def digits? (isDigit : Char → Bool) : List Char → Option (List Char)
  | [] => none
  | [c] => if isDigit c then some [c] else none
  | c :: '_' :: rest => if isDigit c then (digits? isDigit rest).map (c :: ·) else none
  | c :: rest => if isDigit c then (digits? isDigit rest).map (c :: ·) else none

/-- The digits of a whole number, which has no needless leading zero. -/
def wholeDigits? (cs : List Char) : Option (List Char) :=
  match digits? Char.isDigit cs with
  | some ('0' :: _ :: _) => none
  | found => found

/-- The sign of a word, true for a minus, and the rest of it. -/
def splitSign : List Char → Bool × List Char
  | '-' :: cs => (true, cs)
  | '+' :: cs => (false, cs)
  | cs => (false, cs)

/-- The value of a digit of a base up to sixteen. -/
def digitValue (c : Char) : Nat :=
  if c.isDigit then c.toNat - '0'.toNat else c.toLower.toNat - 'a'.toNat + 10

/-- The value of digits in a base. -/
def ofDigits (base : Nat) (ds : List Char) : Nat :=
  ds.foldl (fun n d => n * base + digitValue d) 0

/-! ## Integers -/

/-- An integer in the range of signed 64-bit words. -/
def ofInteger? (negative : Bool) (magnitude : Nat) : Option Json :=
  if negative then
    if magnitude = 0 then some (.nat 0)
    else if magnitude ≤ UInt64.size / 2 then some (.decimal s!"-{magnitude}") else none
  else if magnitude < UInt64.size / 2 then some (.nat magnitude) else none

/-- Whether a character is a hexadecimal digit. -/
def isHexDigit (c : Char) : Bool := c.isDigit || ('a' ≤ c.toLower && c.toLower ≤ 'f')

/-- An integer in base ten, or without a sign in base sixteen, eight or two. -/
def integer? : List Char → Option Json
  | '0' :: 'x' :: cs => (digits? isHexDigit cs).bind fun ds => ofInteger? false (ofDigits 16 ds)
  | '0' :: 'o' :: cs =>
    (digits? (fun c => '0' ≤ c && c ≤ '7') cs).bind fun ds => ofInteger? false (ofDigits 8 ds)
  | '0' :: 'b' :: cs =>
    (digits? (fun c => c = '0' || c = '1') cs).bind fun ds => ofInteger? false (ofDigits 2 ds)
  | cs =>
    let (negative, cs) := splitSign cs
    (wholeDigits? cs).bind fun ds => ofInteger? negative (ofDigits 10 ds)

/-! ## Floats -/

/-- Whether `mantissa * 10 ^ exponent` rounds to a finite double: it lies
below the midpoint between the greatest double and the next power of two.
The mantissa has at most `places` digits, which settles the values that are
far from that limit without a power of ten. -/
def isFinite (mantissa : Nat) (exponent : Int) (places : Nat) : Bool :=
  let midpoint := (1 <<< 1024) - (1 <<< 970)
  if mantissa = 0 || exponent + places ≤ 300 then true
  else if 400 ≤ exponent then false
  else if 0 ≤ exponent then mantissa * Nat.pow 10 exponent.toNat < midpoint
  else mantissa < midpoint * Nat.pow 10 exponent.natAbs

/-- The digits of a float: whole part, fraction and exponent. -/
def floatParts? (cs : List Char) : Option (List Char × List Char × Int) := do
  let isMark (c : Char) : Bool := c = 'e' || c = 'E'
  let mantissa := cs.takeWhile fun c => !isMark c
  let exponent ← match cs.dropWhile fun c => !isMark c with
    | [] => some 0
    | _ :: rest =>
      let (negative, ds) := splitSign rest
      (digits? Char.isDigit ds).map fun ds =>
        if negative then -(ofDigits 10 ds : Int) else (ofDigits 10 ds : Int)
  match mantissa.span (· != '.') with
  | (whole, []) =>
    if mantissa.length = cs.length then none
    else (wholeDigits? whole).map fun ds => (ds, [], exponent)
  | (whole, _ :: fraction) =>
    match wholeDigits? whole, digits? Char.isDigit fraction with
    | some ds, some fs => some (ds, fs, exponent)
    | _, _ => none

/-- A float. One that would round to positive infinity is refused. -/
def float? (cs : List Char) : Option Json :=
  let (negative, rest) := splitSign cs
  let accepted :=
    if rest = ['i', 'n', 'f'] || rest = ['n', 'a', 'n'] then true
    else
      match floatParts? rest with
      | none => false
      | some (whole, fraction, exponent) =>
        let ds := whole ++ fraction
        negative || isFinite (ofDigits 10 ds) (exponent - fraction.length) ds.length
  if accepted then some (.decimal (String.ofList cs)) else none

/-! ## Dates and times -/

/-- The number written by exactly the digits `cs`. -/
def fixed? (cs : List Char) : Option Nat :=
  if cs.all Char.isDigit then some (ofDigits 10 cs) else none

/-- The number of days of a month. -/
def daysIn (year month : Nat) : Nat :=
  if month = 2 then if year % 4 = 0 ∧ (year % 100 ≠ 0 ∨ year % 400 = 0) then 29 else 28
  else if month = 4 ∨ month = 6 ∨ month = 9 ∨ month = 11 then 30
  else 31

/-- Whether the word is a date, `YYYY-MM-DD`. -/
def isDate : List Char → Bool
  | [a, b, c, d, '-', e, f, '-', g, h] =>
    match fixed? [a, b, c, d], fixed? [e, f], fixed? [g, h] with
    | some year, some month, some day =>
      1 ≤ month && month ≤ 12 && 1 ≤ day && day ≤ daysIn year month
    | _, _, _ => false
  | _ => false

/-- Whether `hh:mm` are an hour and a minute. -/
def isClock (a b c d : Char) : Bool :=
  match fixed? [a, b], fixed? [c, d] with
  | some hour, some minute => hour ≤ 23 && minute ≤ 59
  | _, _ => false

/-- What is left of a word after a time, `hh:mm:ss` and perhaps a fraction. -/
def afterTime? : List Char → Option (List Char)
  | a :: b :: ':' :: c :: d :: ':' :: e :: f :: rest =>
    match isClock a b c d, fixed? [e, f] with
    | true, some second =>
      if second ≤ 60 then
        match rest with
        | '.' :: rest =>
          if (rest.takeWhile Char.isDigit).isEmpty then none
          else some (rest.dropWhile Char.isDigit)
        | rest => some rest
      else none
    | _, _ => none
  | _ => none

/-- Whether the word is an offset from universal time. -/
def isOffset : List Char → Bool
  | [z] => z = 'Z' || z = 'z'
  | [sign, a, b, ':', c, d] => (sign = '+' || sign = '-') && isClock a b c d
  | _ => false

/-- A date, a time, or a date and a time with or without an offset. -/
def isDateTime (cs : List Char) : Bool :=
  afterTime? cs = some [] || isDate cs ||
    (isDate (cs.take 10) &&
      match cs.drop 10 with
      | mark :: time =>
        (mark = 'T' || mark = 't') &&
          match afterTime? time with
          | some rest => rest.isEmpty || isOffset rest
          | none => false
      | [] => false)

/-! ## Words -/

/-- The value of a bare scalar. -/
def scalar? (word : List Char) : Option Json :=
  if word = ['t', 'r', 'u', 'e'] then some (.bool true)
  else if word = ['f', 'a', 'l', 's', 'e'] then some (.bool false)
  else if isDateTime word then some (.obj [("datetime", .str (String.ofList word))])
  else
    match integer? word with
    | some v => some v
    | none => float? word

end HoldMargin.Toml
