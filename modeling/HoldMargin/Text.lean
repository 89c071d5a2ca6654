/-!
# Text

Finding a text inside another, and setting a text in a column. Both count
characters.
-/

namespace HoldMargin.Text

/-- Whether `part` stands somewhere within `whole`. -/
def occursIn (part : List Char) : List Char → Bool
  | [] => part.isEmpty
  | c :: cs => part.isPrefixOf (c :: cs) || occursIn part cs

/-- `s` with blanks after it, to a width of at least `width`. -/
def padRight (width : Nat) (s : String) : String :=
  s ++ String.ofList (List.replicate (width - s.length) ' ')

/-- `s` with blanks before it, to a width of at least `width`. -/
def padLeft (width : Nat) (s : String) : String :=
  String.ofList (List.replicate (width - s.length) ' ') ++ s

/-- `s` with zeros before it, to a width of at least `width`. -/
def padZeros (width : Nat) (s : String) : String :=
  String.ofList (List.replicate (width - s.length) '0') ++ s

/-- `s` as a line. -/
def line (s : String) : String := s ++ "\n"

end HoldMargin.Text
