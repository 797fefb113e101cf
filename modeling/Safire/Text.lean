/-
Byte strings and the C library conversions the node applies to them.

A `std::string` is the list of its bytes, one `Char` for each byte. Positions
are counted from zero and `std::string::npos` is `none`. A function that takes
a `char *` reads its argument up to the first NUL byte.
-/

import Safire.Library.Search

namespace Safire

abbrev Text := List Char

namespace Text

private def scanFor (needle : Text) : Text → Nat → Option Nat
  | [], position => if needle = [] then some position else none
  | byte :: rest, position =>
      if needle.isPrefixOf (byte :: rest) then some position
      else scanFor needle rest (position + 1)

/-- `content.find(needle, start)`. -/
def find (content needle : Text) (start : Nat) : Option Nat :=
  scanFor needle (content.drop start) start

private theorem scanFor_of_clear {needle text rest : Text} (position : Nat)
    (clear : Search.Clear needle text rest) :
    scanFor needle (text ++ rest) position = scanFor needle rest (position + text.length) := by
  induction text generalizing position with
  | nil => rfl
  | cons byte text ih =>
      obtain ⟨first, later⟩ := Search.clear_cons_iff.mp clear
      rw [List.cons_append, scanFor, if_neg (by rwa [List.isPrefixOf_iff_prefix]), ih _ later,
        List.length_cons, Nat.add_assoc, Nat.add_comm 1]

theorem find_of_clear {content needle text rest : Text} {start : Nat}
    (split : content.drop start = text ++ (needle ++ rest))
    (clear : Search.Clear needle text (needle ++ rest)) :
    find content needle start = some (start + text.length) := by
  rw [find, split, scanFor_of_clear start clear]
  cases needle with
  | nil => cases rest <;> rfl
  | cons byte needle =>
      have found : (byte :: needle).isPrefixOf (byte :: (needle ++ rest)) = true :=
        List.isPrefixOf_iff_prefix.mpr (List.prefix_append (byte :: needle) rest)
      rw [List.cons_append, scanFor, if_pos found]

theorem find_none_of_clear {content needle : Text} {start : Nat} (present : needle ≠ [])
    (clear : Search.Clear needle (content.drop start) []) : find content needle start = none := by
  rw [find, ← List.append_nil (content.drop start), scanFor_of_clear start clear, scanFor,
    if_neg present]

private theorem clear_of_scanFor_none {needle text : Text} {position : Nat}
    (missing : scanFor needle text position = none) : Search.Clear needle text [] := by
  induction text generalizing position with
  | nil => exact Search.clear_nil
  | cons byte text ih =>
      rw [scanFor] at missing
      split at missing
      · cases missing
      · rename_i differs
        rw [List.isPrefixOf_iff_prefix] at differs
        rw [Search.clear_cons_iff, List.append_nil]
        exact ⟨differs, ih missing⟩

theorem find_none_iff {content needle : Text} {start : Nat} (present : needle ≠ []) :
    find content needle start = none ↔ ¬ needle <:+: content.drop start := by
  rw [← Search.clear_iff_not_infix present]
  exact ⟨clear_of_scanFor_none, find_none_of_clear present⟩

private theorem le_of_scanFor {needle text : Text} {position found : Nat}
    (scan : scanFor needle text position = some found) : position ≤ found := by
  induction text generalizing position with
  | nil =>
      rw [scanFor] at scan
      split at scan
      · exact (Option.some.inj scan).le
      · cases scan
  | cons byte text ih =>
      rw [scanFor] at scan
      split at scan
      · exact (Option.some.inj scan).le
      · exact Nat.le_of_succ_le (ih scan)

private theorem scanFor_inside {needle text : Text} {position found : Nat}
    (scan : scanFor needle text position = some found) :
    found + needle.length ≤ position + text.length := by
  induction text generalizing position with
  | nil =>
      rw [scanFor] at scan
      split at scan
      · rename_i empty
        rw [← Option.some.inj scan, empty]
      · cases scan
  | cons byte text ih =>
      rw [scanFor] at scan
      split at scan
      · rename_i here
        have fits := (List.isPrefixOf_iff_prefix.mp here).length_le
        rw [← Option.some.inj scan]
        omega
      · have later := ih scan
        rw [List.length_cons]
        omega

/-- A found text lies inside the content. -/
theorem find_inside {content needle : Text} {position : Nat}
    (found : find content needle 0 = some position) :
    position + needle.length ≤ content.length := by
  have inside := scanFor_inside found
  rwa [List.drop_zero, Nat.zero_add] at inside

/-- The test `content.find(needle) == 0`. -/
theorem find_zero_iff {content needle : Text} (present : needle ≠ []) :
    find content needle 0 = some 0 ↔ needle <+: content := by
  rw [find, List.drop_zero]
  cases content with
  | nil =>
      rw [scanFor, if_neg present, List.prefix_nil]
      constructor
      · intro found
        cases found
      · intro empty
        exact absurd empty present
  | cons byte content =>
      rw [scanFor, ← List.isPrefixOf_iff_prefix]
      split
      · rename_i front
        exact ⟨fun _ => front, fun _ => rfl⟩
      · rename_i other
        constructor
        · intro found
          exact absurd (le_of_scanFor found) (Nat.not_succ_le_zero 0)
        · intro front
          exact absurd front other

theorem find_ne_zero_of_head {content needle : Text} (present : needle ≠ [])
    (heads : needle.head? ≠ content.head?) : find content needle 0 ≠ some 0 := by
  rw [Ne, find_zero_iff present]
  intro front
  obtain ⟨rest, same⟩ := front
  rw [← same, List.head?_append_of_ne_nil _ present] at heads
  exact heads rfl

/-- `content.substr(position, count)`, for a position inside the string. -/
def substr (content : Text) (position count : Nat) : Text :=
  (content.drop position).take count

/-- `trim`, which several files of the source define alike. -/
def trim (value : Text) : Text :=
  let blank : Char → Bool := fun byte => byte ∈ [' ', '\t', '\r', '\n']
  (value.dropWhile blank).rdropWhile blank

/-- `std::getline` until the stream ends. A delimiter at the end closes the last
part and opens no other one. -/
def getlines (delimiter : Char) (content : Text) : List Text :=
  let parts := content.splitOn delimiter
  if parts.getLast? = some [] then parts.dropLast else parts

theorem getlines_cons {delimiter : Char} {part : Text} (whole : delimiter ∉ part) (rest : Text) :
    getlines delimiter (part ++ delimiter :: rest) = part :: getlines delimiter rest := by
  have present : rest.splitOn delimiter ≠ [] := List.splitOn_ne_nil _ _
  have last : (part :: rest.splitOn delimiter).getLast? = (rest.splitOn delimiter).getLast? :=
    List.getLast?_cons_of_ne_nil present
  unfold getlines
  dsimp only
  rw [List.splitOn_append_cons_self_of_not_mem whole, last, List.dropLast_cons_of_ne_nil present]
  split <;> rfl

theorem getlines_single {delimiter : Char} {part : Text} (whole : delimiter ∉ part)
    (present : part ≠ []) : getlines delimiter part = [part] := by
  unfold getlines
  dsimp only
  rw [List.splitOn_eq_singleton whole, if_neg]
  rw [List.getLast?_singleton, Option.some_inj]
  exact present

/-- The part of a string that a `char *` argument shows to the callee. -/
def cString (content : Text) : Text :=
  content.takeWhile (· ≠ '\x00')

/-- `isspace` in the "C" locale. -/
def isSpace (byte : Char) : Bool :=
  byte = ' ' || byte = '\t' || byte = '\n' || byte = '\x0b' || byte = '\x0c' || byte = '\r'

def digitsValue (digits : Text) : Nat :=
  digits.foldl (fun value digit => 10 * value + (digit.toNat - '0'.toNat)) 0

def longMin : Int := -9223372036854775808

def longMax : Int := 9223372036854775807

/-- Whether there is a minus sign, and the text after an optional sign. -/
def splitSign : Text → Bool × Text
  | '-' :: rest => (true, rest)
  | '+' :: rest => (false, rest)
  | rest => (false, rest)

/-- `strtol(content, &end, 10)`: the value, saturated to the range of a 64-bit
`long`, and the text from `end` on. No conversion gives `none`. -/
def strtol (content : Text) : Option (Int × Text) :=
  let (negative, unsigned) := splitSign (content.dropWhile isSpace)
  let digits := unsigned.takeWhile Char.isDigit
  if digits = [] then none
  else
    let magnitude : Int := digitsValue digits
    let value := if negative then -magnitude else magnitude
    some (max longMin (min longMax value), unsigned.drop digits.length)

def atol (content : Text) : Int :=
  match strtol content with
  | none => 0
  | some (value, _) => value

/-- `atoi` converts the `long` to a 32-bit `int`. -/
def atoi (content : Text) : Int :=
  Int.bmod (atol content) (2 ^ 32)

/-- The whole text has to be one number, up to a terminating NUL. -/
def parseLongValue (content : Text) : Option Int :=
  match strtol content with
  | none => none
  | some (value, []) => some value
  | some (value, stop :: _) => if stop = '\x00' then some value else none

/-- `boost::lexical_cast<std::string>` of a `long`, and `<<` on a stream. -/
def ofLong (value : Int) : Text :=
  value.repr.toList

theorem ofLong_injective {left right : Int} (same : ofLong left = ofLong right) :
    left = right :=
  Int.repr_inj.mp (String.toList_inj.mp same)

/-- The values of a 64-bit `long`. -/
def IsLong (value : Int) : Prop :=
  longMin ≤ value ∧ value ≤ longMax

instance (value : Int) : Decidable (IsLong value) :=
  inferInstanceAs (Decidable (_ ∧ _))

theorem isLong_strtol {content rest : Text} {value : Int}
    (converted : strtol content = some (value, rest)) : IsLong value := by
  unfold strtol at converted
  dsimp only at converted
  split at converted
  · cases converted
  · cases converted
    exact ⟨le_max_left _ _, max_le (by decide) (min_le_left _ _)⟩

theorem isLong_atol (content : Text) : IsLong (atol content) := by
  unfold atol
  split
  · exact ⟨by decide, by decide⟩
  · exact isLong_strtol ‹_›

theorem isLong_parseLongValue {content : Text} {value : Int}
    (parsed : parseLongValue content = some value) : IsLong value := by
  unfold parseLongValue at parsed
  split at parsed
  · cases parsed
  · rename_i converted
    rw [← Option.some.inj parsed]
    exact isLong_strtol converted
  · rename_i converted
    split at parsed
    · rw [← Option.some.inj parsed]
      exact isLong_strtol converted
    · cases parsed

theorem ofLong_eq (value : Int) :
    ofLong value = (if value < 0 then ['-'] else []) ++ Nat.toDigits 10 value.natAbs := by
  unfold ofLong
  cases value with
  | ofNat n => simp [Int.repr, Nat.repr]
  | negSucc n => simp [Int.repr, Nat.repr, Int.negSucc_lt_zero]

theorem mem_ofLong {value : Int} {byte : Char} (member : byte ∈ ofLong value) :
    byte = '-' ∨ byte.isDigit = true := by
  rw [ofLong_eq, List.mem_append] at member
  rcases member with sign | digit
  · split at sign
    · exact .inl (List.mem_singleton.mp sign)
    · cases sign
  · exact .inr (Nat.isDigit_of_mem_toDigits (by decide) (by decide) digit)

/-- Two texts that end in a number after the same separator byte agree before
and after it. -/
theorem append_ofLong_inj {left right : Text} {first second : Int} {separator : Char}
    (notMinus : separator ≠ '-') (notDigit : separator.isDigit = false)
    (same : left ++ [separator] ++ ofLong first = right ++ [separator] ++ ofLong second) :
    left = right ∧ first = second := by
  have absent : ∀ number, separator ∉ ofLong number := by
    intro number member
    rcases mem_ofLong member with minus | digit
    · exact notMinus minus
    · rw [notDigit] at digit
      cases digit
  rw [List.append_assoc, List.append_assoc, List.singleton_append, List.singleton_append] at same
  rcases List.append_eq_append_iff.mp same with ⟨middle, grown, rest⟩ | ⟨middle, grown, rest⟩
  · cases middle with
    | nil =>
        rw [List.nil_append] at rest
        exact ⟨by rw [grown, List.append_nil], ofLong_injective (List.cons.inj rest).2⟩
    | cons byte middle =>
        refine absurd ?_ (absent first)
        rw [(List.cons.inj rest).2]
        simp
  · cases middle with
    | nil =>
        rw [List.nil_append] at rest
        exact ⟨by rw [grown, List.append_nil], ofLong_injective (List.cons.inj rest).2.symm⟩
    | cons byte middle =>
        refine absurd ?_ (absent second)
        rw [(List.cons.inj rest).2]
        simp

theorem digitsValue_toDigits (value : Nat) : digitsValue (Nat.toDigits 10 value) = value := by
  have read : Nat.ofDigitChars 10 (Nat.toDigits 10 value) 0 = value := Nat.ofDigitChars_ten_toDigits
  rw [Nat.ofDigitChars_eq_foldl] at read
  exact read

theorem isSpace_of_isDigit {byte : Char} (digit : byte.isDigit = true) : isSpace byte = false := by
  by_contra space
  simp only [isSpace, Bool.not_eq_false, Bool.or_eq_true, decide_eq_true_eq, or_assoc] at space
  rcases space with rfl | rfl | rfl | rfl | rfl | rfl <;> simp [Char.isDigit] at digit

theorem isDigit_toDigits (value : Nat) : ∀ byte ∈ Nat.toDigits 10 value, byte.isDigit = true :=
  fun _ member => Nat.isDigit_of_mem_toDigits (by decide) (by decide) member

theorem exists_toDigits_cons (value : Nat) :
    ∃ digit rest, Nat.toDigits 10 value = digit :: rest ∧ digit.isDigit = true := by
  obtain ⟨digit, rest, split⟩ :=
    List.exists_cons_of_ne_nil (Nat.toDigits_ne_nil : Nat.toDigits 10 value ≠ [])
  exact ⟨digit, rest, split, isDigit_toDigits value digit (by rw [split]; simp)⟩

private theorem strtol_nonnegative (value : Nat) :
    strtol (Nat.toDigits 10 value) = some (max longMin (min longMax value), []) := by
  have digits : (Nat.toDigits 10 value).takeWhile Char.isDigit = Nat.toDigits 10 value :=
    List.takeWhile_eq_self_iff.mpr (isDigit_toDigits value)
  obtain ⟨digit, rest, split, isDigit⟩ := exists_toDigits_cons value
  have notMinus : digit ≠ '-' := by
    rintro rfl
    simp [Char.isDigit] at isDigit
  have notPlus : digit ≠ '+' := by
    rintro rfl
    simp [Char.isDigit] at isDigit
  have number := digitsValue_toDigits value
  rw [split] at digits number ⊢
  have sign : splitSign (digit :: rest) = (false, digit :: rest) := by
    unfold splitSign
    split
    · rename_i same
      exact absurd (List.cons.inj same).1 notMinus
    · rename_i same
      exact absurd (List.cons.inj same).1 notPlus
    · rfl
  rw [strtol, List.dropWhile_cons_of_neg (by simp [isSpace_of_isDigit isDigit]), sign]
  simp [digits, number]

private theorem strtol_negative (value : Nat) :
    strtol ('-' :: Nat.toDigits 10 value) = some (max longMin (min longMax (-value)), []) := by
  have digits : (Nat.toDigits 10 value).takeWhile Char.isDigit = Nat.toDigits 10 value :=
    List.takeWhile_eq_self_iff.mpr (isDigit_toDigits value)
  rw [strtol, List.dropWhile_cons_of_neg (by decide)]
  simp [splitSign, digits, digitsValue_toDigits]

theorem ofLong_ne_nil (number : Int) : ofLong number ≠ [] := by
  obtain ⟨digit, rest, split, -⟩ := exists_toDigits_cons number.natAbs
  rw [ofLong_eq, split]
  simp

theorem strtol_ofLong (value : Int) :
    strtol (ofLong value) = some (max longMin (min longMax value), []) := by
  rw [ofLong_eq]
  split
  · rename_i negative
    have abs : -(value.natAbs : Int) = value := by omega
    rw [List.singleton_append, strtol_negative, abs]
  · rename_i nonnegative
    have abs : (value.natAbs : Int) = value := by omega
    rw [List.nil_append, strtol_nonnegative, abs]

theorem atol_ofLong {value : Int} (range : IsLong value) : atol (ofLong value) = value := by
  rw [atol, strtol_ofLong]
  dsimp only
  rw [min_eq_right range.2, max_eq_right range.1]

theorem parseLongValue_ofLong {value : Int} (range : IsLong value) :
    parseLongValue (ofLong value) = some value := by
  unfold parseLongValue
  rw [strtol_ofLong]
  obtain ⟨lower, upper⟩ := range
  simp [lower, upper]

end Text

end Safire
