import HoldMargin.Json.Printer
import HoldMargin.Json.Reader
/-!
# What is written is read back

Reading the text of a value gives the value (`Json.read_pretty`), if the value
is plain: a number is written with digits alone, and every string denotes a
text. Reading goes from the front, so what is written is looked at together
with the text that follows it; a number needs to know that what follows does
not go on with it (`EndsNumber`), and everything else ends by itself.
-/

namespace HoldMargin

namespace Json

/-! ## Blanks -/

/-- A new line is passed over with its indentation. -/
theorem skipBlanks_newLine (depth : Nat) (rest : List Char) :
    skipBlanks (newLine depth rest) = skipBlanks rest := by
  have hblanks : ∀ n, skipBlanks (List.replicate n ' ' ++ rest) = skipBlanks rest := by
    intro n
    induction n with
    | zero => rfl
    | succ n ih =>
      rw [List.replicate_succ, List.cons_append, skipBlanks, List.dropWhile_cons]
      exact ih
  exact hblanks (2 * depth)

/-! ## Numbers -/

/-- Whether a text does not go on with a number that stands before it. -/
def EndsNumber (rest : List Char) : Prop :=
  ∀ c ∈ rest.head?, c.isDigit = false ∧ c ≠ '.' ∧ c ≠ 'e' ∧ c ≠ 'E'

theorem endsNumber_nil : EndsNumber [] := nofun

theorem endsNumber_newLine (depth : Nat) (rest : List Char) : EndsNumber (newLine depth rest) := by
  rintro c ⟨⟩
  decide

theorem endsNumber_comma (rest : List Char) : EndsNumber (',' :: rest) := by
  rintro c ⟨⟩
  decide

theorem spanDigits_append {ds rest : List Char} (hds : ∀ c ∈ ds, c.isDigit = true)
    (h : EndsNumber rest) : spanDigits (ds ++ rest) = (ds, rest) := by
  have hrest : ∀ c ∈ rest.head?, c.isDigit = false := fun c hc => (h c hc).1
  have htake : rest.takeWhile Char.isDigit = [] := by
    cases rest with
    | nil => rfl
    | cons c cs => rw [List.takeWhile_cons, hrest c rfl]; rfl
  have hdrop : rest.dropWhile Char.isDigit = rest := by
    cases rest with
    | nil => rfl
    | cons c cs => rw [List.dropWhile_cons, hrest c rfl]; rfl
  rw [spanDigits, List.takeWhile_append_of_pos hds, List.dropWhile_append_of_pos hds, htake, hdrop,
    List.append_nil]

/-- A positive number is written without a zero in front. -/
theorem head?_toDigits_ne_zero {n : Nat} (h : 0 < n) : (Nat.toDigits 10 n).head? ≠ some '0' := by
  induction n using Nat.strongRecOn with
  | ind n ih =>
    rw [Nat.toDigits_eq_if (by decide)]
    split
    · rw [List.head?_cons, ne_eq, Option.some.injEq, Nat.digitChar_eq_zero]
      exact Nat.ne_of_gt h
    · rename_i hlt
      have hfront := ih (n / 10) (by omega) (by omega)
      obtain ⟨c, cs, hcs⟩ :=
        List.exists_cons_of_ne_nil (Nat.toDigits_ne_nil (n := n / 10) (b := 10))
      rw [hcs] at hfront ⊢
      exact hfront

/-- A number of more than one digit is written without a zero in front. -/
theorem toDigits_ne_zero_cons (n : Nat) (c : Char) (cs : List Char) :
    Nat.toDigits 10 n ≠ '0' :: c :: cs := by
  intro heq
  by_cases hn : n < 10
  · rw [Nat.toDigits_of_lt_base hn, List.cons.injEq] at heq
    cases heq.2
  · have hfront := head?_toDigits_ne_zero (n := n) (by omega)
    rw [heq] at hfront
    exact hfront rfl

theorem readFraction_of_ends {rest : List Char} (h : EndsNumber rest) :
    readFraction rest = some ([], rest) := by
  cases rest with
  | nil => rfl
  | cons c cs =>
    unfold readFraction
    split
    · rename_i heq
      cases heq
      exact absurd rfl (h '.' rfl).2.1
    · rfl

theorem readExponent_of_ends {rest : List Char} (h : EndsNumber rest) :
    readExponent rest = some ([], rest) := by
  cases rest with
  | nil => rfl
  | cons c cs =>
    have hc := (h c rfl).2.2
    exact if_neg (not_or.mpr hc)

/-- **The digits of a number are read as the number.** -/
theorem readNumber_toDigits (n : Nat) {rest : List Char} (h : EndsNumber rest) :
    readNumber (Nat.toDigits 10 n ++ rest) = some (.nat n, rest) := by
  have hdigits : ∀ c ∈ Nat.toDigits 10 n, c.isDigit = true := fun c hc =>
    Nat.isDigit_of_mem_toDigits (by decide) (by decide) hc
  have hspan := spanDigits_append hdigits h
  have hvalue : Nat.ofDigitChars 10 (Nat.toDigits 10 n) 0 = n := Nat.ofDigitChars_ten_toDigits
  have hne : Nat.toDigits 10 n ≠ [] := Nat.toDigits_ne_nil
  have hzero := toDigits_ne_zero_cons n
  unfold readNumber
  generalize Nat.toDigits 10 n = ds at *
  split
  rename_i sign cs hsign
  split at hsign
  · rename_i r heq
    -- a digit is no sign
    obtain ⟨d, ds, rfl⟩ := List.exists_cons_of_ne_nil hne
    have hd := hdigits d List.mem_cons_self
    cases heq
    cases hd
  · cases hsign
    rw [hspan]
    split
    · rename_i heq
      cases heq
      exact absurd rfl hne
    · rename_i heq
      cases heq
      exact absurd rfl (hzero _ _)
    · rename_i heq
      cases heq
      simp [readFraction_of_ends h, readExponent_of_ends h, hvalue]

/-! ## Strings -/

theorem hexValue?_digitChar : ∀ n < 16, hexValue? (Nat.digitChar n) = some n := by decide

theorem hexValue?_hexDigit (n : Nat) : hexValue? (hexDigit n) = some (n % 16) :=
  hexValue?_digitChar (n % 16) (Nat.mod_lt n (by decide))

/-- Units below the surrogates are characters. -/
theorem pushUnit_toNat (l : Literal) {c : Char} (h : c.toNat < 32) :
    l.pushUnit c.toNat = l.push c := by
  rw [Literal.pushUnit, if_neg (by omega), if_neg (by omega), Char.ofNat_toNat]

/-- **A character is read as it is written.** -/
theorem readLiteral_writeChar (l : Literal) (c : Char) (rest : List Char) :
    readLiteral l (writeChar c rest) = readLiteral (l.push c) rest := by
  unfold writeChar
  split
  · subst c
    rfl
  split
  · subst c
    rfl
  split
  · subst c
    rfl
  split
  · subst c
    rfl
  split
  · subst c
    rfl
  split
  · subst c
    rfl
  split
  · subst c
    rfl
  split
  · rename_i hcontrol
    have hunit : hexUnit? '0' '0' (hexDigit (c.toNat / 16)) (hexDigit c.toNat) =
        some c.toNat := by
      have hzero : hexValue? '0' = some 0 := rfl
      rw [hexUnit?, hzero, hexValue?_hexDigit, hexValue?_hexDigit]
      dsimp only
      congr 1
      omega
    rw [readLiteral, hunit]
    dsimp only
    rw [pushUnit_toNat l hcontrol]
  · rename_i hquote hbackslash _ _ _ _ _ hcontrol
    rw [readLiteral.eq_def]
    split
    · rename_i heq
      cases heq
    · rename_i heq
      cases heq
      exact absurd rfl hquote
    · rename_i heq
      cases heq
      exact absurd rfl hbackslash
    · rename_i heq
      cases heq
      exact absurd rfl hbackslash
    · rename_i heq
      cases heq
      rw [if_neg hcontrol]

/-- Characters are read up to the closing quote. -/
theorem readLiteral_foldr (cs : List Char) (l : Literal) (rest : List Char) :
    readLiteral l (cs.foldr writeChar ('"' :: rest)) = some (cs.foldl Literal.push l, rest) := by
  induction cs generalizing l with
  | nil => rfl
  | cons c cs ih => rw [List.foldr_cons, readLiteral_writeChar, ih, List.foldl_cons]

theorem foldl_push (cs reversed : List Char) :
    cs.foldl Literal.push { reversed } = { reversed := cs.reverse ++ reversed } := by
  induction cs generalizing reversed with
  | nil => rfl
  | cons c cs ih =>
    rw [List.foldl_cons, List.reverse_cons, List.append_assoc]
    exact ih (c :: reversed)

/-- **A string literal is read as its text**, behind the opening quote. -/
theorem readLiteral_toList (s : String) (rest : List Char) :
    ∃ l, readLiteral {} (s.toList.foldr writeChar ('"' :: rest)) = some (l, rest) ∧
      l.text? = some s := by
  refine ⟨s.toList.foldl Literal.push {}, readLiteral_foldr s.toList {} rest, ?_⟩
  rw [foldl_push]
  simp [Literal.text?]

/-! ## Values -/

/-- **A plain value**: its numbers are written with digits alone, and its strings
denote texts. -/
inductive IsPlain : Json → Prop where
  | null : IsPlain .null
  | bool (b : Bool) : IsPlain (.bool b)
  | nat (n : Nat) : IsPlain (.nat n)
  | str (s : String) : IsPlain (.str s)
  | arr {items : List Json} (h : ∀ v ∈ items, IsPlain v) : IsPlain (.arr items)
  | obj {fields : List (String × Json)} (h : ∀ f ∈ fields, IsPlain f.2) : IsPlain (.obj fields)

theorem write_nat (depth n : Nat) (rest : List Char) :
    (Json.nat n).write depth rest = Nat.toDigits 10 n ++ rest := rfl

theorem write_str (depth : Nat) (s : String) (rest : List Char) :
    (Json.str s).write depth rest = writeText s rest := rfl

theorem write_arr_cons (depth : Nat) (v : Json) (vs : List Json) (rest : List Char) :
    (Json.arr (v :: vs)).write depth rest =
      '[' :: newLine (depth + 1) (v.write (depth + 1) (writeItems depth vs rest)) := rfl

theorem write_obj_cons (depth : Nat) (name : String) (v : Json) (fields : List (String × Json))
    (rest : List Char) :
    (Json.obj ((name, v) :: fields)).write depth rest =
      '{' :: newLine (depth + 1) (writeText name (':' :: ' ' ::
        v.write (depth + 1) (writeFields depth fields rest))) := rfl

theorem writeItems_nil (depth : Nat) (rest : List Char) :
    writeItems depth [] rest = newLine depth (']' :: rest) := rfl

theorem writeItems_cons (depth : Nat) (v : Json) (vs : List Json) (rest : List Char) :
    writeItems depth (v :: vs) rest =
      ',' :: newLine (depth + 1) (v.write (depth + 1) (writeItems depth vs rest)) := rfl

theorem writeFields_nil (depth : Nat) (rest : List Char) :
    writeFields depth [] rest = newLine depth ('}' :: rest) := rfl

theorem writeFields_cons (depth : Nat) (name : String) (v : Json) (fields : List (String × Json))
    (rest : List Char) :
    writeFields depth ((name, v) :: fields) rest =
      ',' :: newLine (depth + 1) (writeText name (':' :: ' ' ::
        v.write (depth + 1) (writeFields depth fields rest))) := rfl

/-- The text of a value starts at once, and not with the end of a list. -/
theorem exists_write_eq_cons {v : Json} (h : v.IsPlain) (depth : Nat) (rest : List Char) :
    ∃ c cs, v.write depth rest = c :: cs ∧ isBlank c = false ∧ c ≠ ']' := by
  cases h with
  | null => exact ⟨'n', _, rfl, rfl, by decide⟩
  | bool b => cases b <;> exact ⟨_, _, rfl, rfl, by decide⟩
  | nat n =>
    obtain ⟨c, cs, hcs⟩ := List.exists_cons_of_ne_nil (Nat.toDigits_ne_nil (n := n) (b := 10))
    have hc : c.isDigit = true :=
      Nat.isDigit_of_mem_toDigits (by decide) (by decide) (hcs ▸ List.mem_cons_self)
    refine ⟨c, cs ++ rest, by rw [write_nat, hcs, List.cons_append], ?_, ?_⟩
    · refine Bool.eq_false_iff.mpr fun hblank => ?_
      simp only [isBlank, Bool.or_eq_true, decide_eq_true_eq] at hblank
      rcases hblank with ((rfl | rfl) | rfl) | rfl <;> exact absurd hc (by decide)
    · rintro rfl
      exact absurd hc (by decide)
  | str s => exact ⟨'"', _, rfl, rfl, by decide⟩
  | @arr items _ => cases items <;> exact ⟨'[', _, rfl, rfl, by decide⟩
  | @obj fields _ =>
    rcases fields with - | ⟨⟨name, v⟩, fields⟩ <;> exact ⟨'{', _, rfl, rfl, by decide⟩

theorem skipBlanks_write {v : Json} (h : v.IsPlain) (depth : Nat) (rest : List Char) :
    skipBlanks (v.write depth rest) = v.write depth rest := by
  obtain ⟨c, cs, heq, hblank, -⟩ := exists_write_eq_cons h depth rest
  rw [heq, skipBlanks, List.dropWhile_cons, hblank]
  rfl

/-! ### The length of a text

Every step of a reader takes a character, and what is written for a value is at
least one character long. -/

theorem length_le_writeChar (c : Char) (rest : List Char) :
    rest.length ≤ (writeChar c rest).length := by
  unfold writeChar
  repeat' split
  all_goals simp only [List.length_cons]; omega

theorem length_lt_writeText (s : String) (rest : List Char) :
    rest.length < (writeText s rest).length := by
  have hchars : ∀ (cs : List Char) (end_ : List Char),
      end_.length ≤ (cs.foldr writeChar end_).length := by
    intro cs end_
    induction cs with
    | nil => exact Nat.le_refl _
    | cons c cs ih => exact Nat.le_trans ih (length_le_writeChar c _)
  have hle := hchars s.toList ('"' :: rest)
  rw [List.length_cons] at hle
  rw [writeText, List.length_cons]
  omega

theorem length_newLine (depth : Nat) (rest : List Char) :
    (newLine depth rest).length = rest.length + 2 * depth + 1 := by
  rw [newLine, List.length_cons, List.length_append, List.length_replicate]
  omega

theorem length_lt_writeItems {vs : List Json} {depth : Nat}
    (h : ∀ v ∈ vs, ∀ rest, rest.length < (v.write (depth + 1) rest).length) (rest : List Char) :
    rest.length < (writeItems depth vs rest).length := by
  induction vs with
  | nil =>
    rw [writeItems_nil, length_newLine, List.length_cons]
    omega
  | cons v vs ih =>
    have hvs := ih fun w hw => h w (List.mem_cons_of_mem _ hw)
    have hv := h v List.mem_cons_self (writeItems depth vs rest)
    rw [writeItems_cons, List.length_cons, length_newLine]
    omega

theorem length_lt_writeFields {fields : List (String × Json)} {depth : Nat}
    (h : ∀ f ∈ fields, ∀ rest, rest.length < (f.2.write (depth + 1) rest).length)
    (rest : List Char) : rest.length < (writeFields depth fields rest).length := by
  induction fields with
  | nil =>
    rw [writeFields_nil, length_newLine, List.length_cons]
    omega
  | cons f fields ih =>
    obtain ⟨name, v⟩ := f
    have hfields := ih fun g hg => h g (List.mem_cons_of_mem _ hg)
    have hv : _ < (v.write _ _).length :=
      h (name, v) List.mem_cons_self (writeFields depth fields rest)
    have hname := length_lt_writeText name
      (':' :: ' ' :: v.write (depth + 1) (writeFields depth fields rest))
    rw [List.length_cons, List.length_cons] at hname
    rw [writeFields_cons, List.length_cons, length_newLine]
    omega

theorem length_lt_append {cs rest : List Char} (h : cs ≠ []) :
    rest.length < (cs ++ rest).length := by
  rw [List.length_append]
  exact Nat.lt_add_of_pos_left (List.length_pos_iff.mpr h)

/-- **What is written for a value** is not empty. -/
theorem length_lt_write {v : Json} (h : v.IsPlain) (depth : Nat) (rest : List Char) :
    rest.length < (v.write depth rest).length := by
  induction h generalizing depth rest with
  | null => exact length_lt_append (by decide : "null".toList ≠ [])
  | bool b =>
    cases b with
    | false => exact length_lt_append (by decide : "false".toList ≠ [])
    | true => exact length_lt_append (by decide : "true".toList ≠ [])
  | nat n =>
    rw [write_nat]
    exact length_lt_append Nat.toDigits_ne_nil
  | str s => exact length_lt_writeText s rest
  | @arr items _ ih =>
    cases items with
    | nil => exact length_lt_append (by decide : ['[', ']'] ≠ [])
    | cons v vs =>
      have hvs :=
        length_lt_writeItems (fun w hw => ih w (List.mem_cons_of_mem _ hw) (depth + 1)) rest
      have hv := ih v List.mem_cons_self (depth + 1) (writeItems depth vs rest)
      rw [write_arr_cons, List.length_cons, length_newLine]
      omega
  | @obj fields _ ih =>
    cases fields with
    | nil => exact length_lt_append (by decide : ['{', '}'] ≠ [])
    | cons f fields =>
      obtain ⟨name, v⟩ := f
      have hfields := length_lt_writeFields
        (fun g hg => ih g (List.mem_cons_of_mem _ hg) (depth + 1)) rest
      have hv : _ < (v.write _ _).length :=
        ih (name, v) List.mem_cons_self (depth + 1) (writeFields depth fields rest)
      have hname := length_lt_writeText name
        (':' :: ' ' :: v.write (depth + 1) (writeFields depth fields rest))
      rw [List.length_cons, List.length_cons] at hname
      rw [write_obj_cons, List.length_cons, length_newLine]
      omega

/-! ### Reading values -/

/-- Whether a value is read back wherever it is written, with a step and as many steps
more as its text has characters. -/
def IsReadBack (v : Json) : Prop :=
  ∀ (depth fuel : Nat) (rest : List Char), EndsNumber rest →
    (v.write depth rest).length ≤ fuel + 1 + rest.length →
    readValue (fuel + 1) (v.write depth rest) = some (v, rest)

theorem endsNumber_writeItems (depth : Nat) (vs : List Json) (rest : List Char) :
    EndsNumber (writeItems depth vs rest) := by
  cases vs with
  | nil => exact endsNumber_newLine depth _
  | cons v vs => exact endsNumber_comma _

theorem endsNumber_writeFields (depth : Nat) (fields : List (String × Json)) (rest : List Char) :
    EndsNumber (writeFields depth fields rest) := by
  rcases fields with - | ⟨⟨name, v⟩, fields⟩
  · exact endsNumber_newLine depth _
  · exact endsNumber_comma _

/-- An item is read, and what is written behind it decides whether another one
follows; as many steps are left as that text takes. -/
theorem exists_readItems {v : Json} {vs : List Json} (hplain : ∀ w ∈ v :: vs, w.IsPlain)
    (hv : v.IsReadBack) (reversed : List Json) (depth fuel : Nat) (rest : List Char)
    (hfuel : (v.write (depth + 1) (writeItems depth vs rest)).length < fuel + rest.length) :
    ∃ left, (writeItems depth vs rest).length ≤ left + rest.length ∧
      readItems fuel reversed (v.write (depth + 1) (writeItems depth vs rest)) =
        match skipBlanks (writeItems depth vs rest) with
        | ',' :: rest => readItems left (v :: reversed) (skipBlanks rest)
        | ']' :: rest => some (.arr (v :: reversed).reverse, rest)
        | _ => none := by
  have hlt := length_lt_write (hplain v List.mem_cons_self) (depth + 1) (writeItems depth vs rest)
  have hend : rest.length < (writeItems depth vs rest).length :=
    length_lt_writeItems (fun w hw => length_lt_write (hplain w (List.mem_cons_of_mem _ hw)) _) rest
  obtain ⟨fuel, rfl⟩ : ∃ n, fuel = n + 1 + 1 := ⟨fuel - 2, by omega⟩
  have hread := hv (depth + 1) fuel _ (endsNumber_writeItems depth vs rest) (by omega)
  have hstep := readItems.eq_def (fuel + 1 + 1) reversed
    (v.write (depth + 1) (writeItems depth vs rest))
  dsimp only at hstep
  rw [hread] at hstep
  exact ⟨fuel + 1, by omega, hstep⟩

/-- **The items of a list are read up to its end.** -/
theorem readItems_writeItems {v : Json} {vs : List Json} (hplain : ∀ w ∈ v :: vs, w.IsPlain)
    (hread : ∀ w ∈ v :: vs, w.IsReadBack) (done : List Json) (depth fuel : Nat)
    (rest : List Char)
    (hfuel : (v.write (depth + 1) (writeItems depth vs rest)).length < fuel + rest.length) :
    readItems fuel done.reverse (v.write (depth + 1) (writeItems depth vs rest)) =
      some (.arr (done ++ v :: vs), rest) := by
  induction vs generalizing v done fuel with
  | nil =>
    obtain ⟨_, -, heq⟩ := exists_readItems hplain (hread v List.mem_cons_self) done.reverse depth
      fuel rest hfuel
    have hbracket : skipBlanks (']' :: rest) = ']' :: rest := rfl
    rw [heq, writeItems_nil, skipBlanks_newLine, hbracket]
    simp
  | cons w vs ih =>
    obtain ⟨left, hleft, heq⟩ := exists_readItems hplain (hread v List.mem_cons_self) done.reverse
      depth fuel rest hfuel
    have hplain' : ∀ x ∈ w :: vs, x.IsPlain := fun x hx => hplain x (List.mem_cons_of_mem _ hx)
    have hblanks := skipBlanks_write (hplain' w List.mem_cons_self) (depth + 1)
      (writeItems depth vs rest)
    rw [writeItems_cons, List.length_cons, length_newLine] at hleft
    have hw := ih hplain' (fun x hx => hread x (List.mem_cons_of_mem _ hx)) (done ++ [v]) left
      (by omega)
    rw [List.reverse_append, List.append_assoc] at hw
    rw [heq, writeItems_cons]
    show readItems left (v :: done.reverse) (skipBlanks (newLine _ _)) = _
    rw [skipBlanks_newLine, hblanks]
    exact hw

theorem ofReadFields_map (fields : List (String × Json)) :
    ofReadFields (fields.map fun f => (some f.1, f.2)).reverse = .obj fields := by
  have hnames : ((fields.map fun f => (some f.1, f.2)).mapM fun f : Option String × Json =>
      f.1.map fun name => (name, f.2)) = some fields := by
    induction fields with
    | nil => rfl
    | cons f fields ih =>
      rw [List.map_cons, List.mapM_cons, ih]
      rfl
  rw [ofReadFields, List.reverse_reverse, hnames]

/-- A field is read, and what is left decides whether another one follows. -/
theorem readFields_writeText {name : String} {v : Json} {fuel : Nat} {cs rest : List Char}
    (hblanks : skipBlanks cs = cs) (hv : readValue fuel cs = some (v, rest))
    (reversed : List (Option String × Json)) :
    readFields (fuel + 1) reversed (writeText name (':' :: ' ' :: cs)) =
      match skipBlanks rest with
      | ',' :: rest => readFields fuel ((some name, v) :: reversed) (skipBlanks rest)
      | '}' :: rest => some (ofReadFields ((some name, v) :: reversed), rest)
      | _ => none := by
  obtain ⟨l, hl, htext⟩ := readLiteral_toList name (':' :: ' ' :: cs)
  have hcolon : skipBlanks (':' :: ' ' :: cs) = ':' :: ' ' :: cs := rfl
  have hblank : skipBlanks (' ' :: cs) = cs := hblanks
  have hstep := readFields.eq_def (fuel + 1) reversed (writeText name (':' :: ' ' :: cs))
  rw [writeText] at hstep
  simp only [hl, hcolon, hblank, hv, htext] at hstep
  exact hstep

/-- As many steps are left behind a field as the rest of the text takes. -/
theorem exists_readFields {name : String} {v : Json} {fields : List (String × Json)}
    (hplain : ∀ f ∈ (name, v) :: fields, f.2.IsPlain) (hv : v.IsReadBack)
    (reversed : List (Option String × Json)) (depth fuel : Nat) (rest : List Char)
    (hfuel : (writeText name (':' :: ' ' ::
      v.write (depth + 1) (writeFields depth fields rest))).length < fuel + rest.length) :
    ∃ left, (writeFields depth fields rest).length ≤ left + rest.length ∧
      readFields fuel reversed
          (writeText name (':' :: ' ' :: v.write (depth + 1) (writeFields depth fields rest))) =
        match skipBlanks (writeFields depth fields rest) with
        | ',' :: rest => readFields left ((some name, v) :: reversed) (skipBlanks rest)
        | '}' :: rest => some (ofReadFields ((some name, v) :: reversed), rest)
        | _ => none := by
  have hplainv : v.IsPlain := hplain (name, v) List.mem_cons_self
  have hname := length_lt_writeText name
    (':' :: ' ' :: v.write (depth + 1) (writeFields depth fields rest))
  have hlt := length_lt_write hplainv (depth + 1) (writeFields depth fields rest)
  have hend : rest.length < (writeFields depth fields rest).length :=
    length_lt_writeFields (fun f hf => length_lt_write (hplain f (List.mem_cons_of_mem _ hf)) _)
      rest
  rw [List.length_cons, List.length_cons] at hname
  obtain ⟨fuel, rfl⟩ : ∃ n, fuel = n + 1 + 1 := ⟨fuel - 2, by omega⟩
  refine ⟨fuel + 1, by omega, ?_⟩
  exact readFields_writeText (skipBlanks_write hplainv _ _)
    (hv (depth + 1) fuel _ (endsNumber_writeFields depth fields rest) (by omega)) reversed

/-- **The fields of an object are read up to its end.** -/
theorem readFields_writeFields {name : String} {v : Json} {fields : List (String × Json)}
    (hplain : ∀ f ∈ (name, v) :: fields, f.2.IsPlain)
    (hread : ∀ f ∈ (name, v) :: fields, f.2.IsReadBack) (done : List (String × Json))
    (depth fuel : Nat) (rest : List Char)
    (hfuel : (writeText name (':' :: ' ' ::
      v.write (depth + 1) (writeFields depth fields rest))).length < fuel + rest.length) :
    readFields fuel (done.map fun f => (some f.1, f.2)).reverse
        (writeText name (':' :: ' ' :: v.write (depth + 1) (writeFields depth fields rest))) =
      some (.obj (done ++ (name, v) :: fields), rest) := by
  induction fields generalizing name v done fuel with
  | nil =>
    obtain ⟨_, -, heq⟩ := exists_readFields hplain (hread (name, v) List.mem_cons_self)
      (done.map fun f => (some f.1, f.2)).reverse depth fuel rest hfuel
    have hbrace : skipBlanks ('}' :: rest) = '}' :: rest := rfl
    have hobj := ofReadFields_map (done ++ [(name, v)])
    rw [List.map_append, List.reverse_append] at hobj
    rw [heq, writeFields_nil, skipBlanks_newLine, hbrace, ← hobj]
    rfl
  | cons f fields ih =>
    obtain ⟨next, w⟩ := f
    obtain ⟨left, hleft, heq⟩ := exists_readFields hplain (hread (name, v) List.mem_cons_self)
      (done.map fun f => (some f.1, f.2)).reverse depth fuel rest hfuel
    rw [writeFields_cons, List.length_cons, length_newLine] at hleft
    have hw := ih (fun g hg => hplain g (List.mem_cons_of_mem _ hg))
      (fun g hg => hread g (List.mem_cons_of_mem _ hg)) (done ++ [(name, v)]) left (by omega)
    rw [List.map_append, List.reverse_append, List.append_assoc] at hw
    have hquote : ∀ cs, skipBlanks (writeText next cs) = writeText next cs := fun cs => rfl
    rw [heq, writeFields_cons]
    show readFields left _ (skipBlanks (newLine _ _)) = _
    rw [skipBlanks_newLine, hquote]
    exact hw

theorem readValue_digit {c : Char} (hc : c.isDigit = true) (fuel : Nat) (cs : List Char) :
    readValue (fuel + 1) (c :: cs) = readNumber (c :: cs) := by
  have hne : ∀ x : Char, x.isDigit = false → c ≠ x := by
    rintro x hx rfl
    exact absurd hc (hx ▸ Bool.false_ne_true)
  rw [readValue.eq_def]
  dsimp only
  rw [if_neg (hne _ rfl), if_neg (hne _ rfl), if_neg (hne _ rfl), if_neg (hne _ rfl),
    if_neg (hne _ rfl), if_neg (hne _ rfl)]

/-- **A plain value is read back wherever it is written.** -/
theorem isReadBack {v : Json} (h : v.IsPlain) : v.IsReadBack := by
  induction h with
  | null =>
    intro depth fuel rest _ _
    rfl
  | bool b =>
    intro depth fuel rest _ _
    cases b <;> rfl
  | nat n =>
    intro depth fuel rest hends _
    have hnumber := readNumber_toDigits n hends
    obtain ⟨c, cs, hcs⟩ := List.exists_cons_of_ne_nil (Nat.toDigits_ne_nil (n := n) (b := 10))
    have hc : c.isDigit = true :=
      Nat.isDigit_of_mem_toDigits (by decide) (by decide) (hcs ▸ List.mem_cons_self)
    rw [hcs, List.cons_append] at hnumber
    rw [write_nat, hcs, List.cons_append, readValue_digit hc, hnumber]
  | str s =>
    intro depth fuel rest _ _
    obtain ⟨l, hl, htext⟩ := readLiteral_toList s rest
    rw [write_str, writeText, readValue.eq_def]
    dsimp only
    rw [if_pos rfl, hl]
    simp only [htext]
  | @arr items hplain ih =>
    intro depth fuel rest _ hfuel
    cases items with
    | nil => rfl
    | cons v vs =>
      obtain ⟨c, cs, hcs, -, hc⟩ := exists_write_eq_cons (hplain v List.mem_cons_self) (depth + 1)
        (writeItems depth vs rest)
      have hblanks := skipBlanks_write (hplain v List.mem_cons_self) (depth + 1)
        (writeItems depth vs rest)
      rw [write_arr_cons, List.length_cons, length_newLine] at hfuel
      have hitems := readItems_writeItems hplain ih [] depth fuel rest (by omega)
      rw [write_arr_cons, readValue.eq_def]
      dsimp only
      rw [if_neg (by decide), if_pos rfl, skipBlanks_newLine, hblanks]
      split
      · rename_i heq
        rw [hcs] at heq
        cases heq
        exact absurd rfl hc
      · exact hitems
  | @obj fields hplain ih =>
    intro depth fuel rest _ hfuel
    cases fields with
    | nil => rfl
    | cons f fields =>
      obtain ⟨name, v⟩ := f
      rw [write_obj_cons, List.length_cons, length_newLine] at hfuel
      have hfields := readFields_writeFields hplain ih [] depth fuel rest (by omega)
      rw [write_obj_cons, readValue.eq_def]
      dsimp only
      rw [if_neg (by decide), if_neg (by decide), if_pos rfl, skipBlanks_newLine]
      exact hfields

/-- **Reading the text of a plain value gives the value.** -/
theorem read_pretty {v : Json} (h : v.IsPlain) : read v.pretty = some v := by
  have hblanks := skipBlanks_write h 0 []
  have hv := isReadBack h 0 (v.write 0 []).length [] endsNumber_nil (by simp)
  rw [read, pretty, String.toList_ofList, hblanks, hv]
  rfl

end Json

end HoldMargin
