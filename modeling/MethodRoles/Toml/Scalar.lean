import MethodRoles.Data
import MethodRoles.Text
import MethodRoles.Toml.Text

/-!
# Numbers, dates and words of TOML

A number that is well-formed and out of range is void: a document may hold it where nobody asks for
its value.
-/
namespace MethodRoles.Toml

open Data

/-! ## Numbers -/

/-- Digits with single underscores between them, without the underscores. -/
def digits? (isDigit : Char → Bool) : List Char → Option (List Char)
  | [] => none
  | [d] => if isDigit d then some [d] else none
  | d :: '_' :: cs => if isDigit d then (digits? isDigit cs).map (d :: ·) else none
  | d :: cs => if isDigit d then (digits? isDigit cs).map (d :: ·) else none

/-- Decimal digits, of which a zero comes first only if it is the only one. -/
def whole? (cs : List Char) : Option (List Char) :=
  match digits? Char.isDigit cs with
  | some ('0' :: _ :: _) => none
  | ds => ds

def splitSign : List Char → Bool × List Char
  | '-' :: cs => (true, cs)
  | '+' :: cs => (false, cs)
  | cs => (false, cs)

/-- The number that digits of a base stand for. -/
def inBase (base : Nat) (ds : List Char) : Nat :=
  ds.foldl (fun n d => n * base + (Text.hexValue? d).getD 0) 0

/-- Integers have up to 128 bits; beyond them they are void. -/
def integerValue (negative : Bool) (n : Nat) (literal : List Char) : Value :=
  if negative && n != 0 then
    if n ≤ Nat.pow 2 127 then .number (String.ofList literal) else .void
  else if n < Nat.pow 2 128 then .nat n
  else .void

/-- An integer in a base other than ten, after the mark of the base. It may lack digits and is void
then. -/
def markedInteger? (base : Nat) (isDigit : Char → Bool) (ds literal : List Char) : Option Value :=
  if ds = [] then some .void
  else (digits? isDigit ds).map fun ds => integerValue false (inBase base ds) literal

/-- Whether a text begins with a digit of some base. -/
def startsWithDigit (cs : List Char) : Bool := (cs.head?.bind Text.hexValue?).isSome

/-- A decimal integer without its sign. Underscores divide it into groups. Whether the groups after
the first are decimal is not part of the grammar: they begin with a digit of some base, all but the
last also end with one, and there is no mark of a float and no space in them; if they hold anything
but decimal digits, the integer is void. -/
def decimal? (negative : Bool) (ds literal : List Char) : Option Value :=
  match Text.segments '_' ds with
  | first :: groups =>
    let digits := first ++ groups.flatten
    let isFirst := first ≠ [] && first.all Char.isDigit && (first.head? ≠ some '0' || ds = ['0'])
    let areGroups := groups.all startsWithDigit &&
      groups.dropLast.all (fun g => startsWithDigit g.reverse) &&
      !ds.any (fun c => c == '.' || c == 'e' || c == 'E' || c == ' ')
    if !(isFirst && areGroups) then none
    else if digits.all Char.isDigit then some (integerValue negative (inBase 10 digits) literal)
    else some .void
  | [] => none

def integer? (cs : List Char) : Option Value :=
  match cs with
  | '0' :: 'x' :: ds => markedInteger? 16 (fun c => (Text.hexValue? c).isSome) ds cs
  | '0' :: 'o' :: ds => markedInteger? 8 (fun c => '0' ≤ c && c ≤ '7') ds cs
  | '0' :: 'b' :: ds => markedInteger? 2 (fun c => c == '0' || c == '1') ds cs
  | _ =>
    let (negative, ds) := splitSign cs
    decimal? negative ds cs

/-- The part of a number before a mark, and the part after it if the mark is there. -/
def splitMark (isMark : Char → Bool) (cs : List Char) : List Char × Option (List Char) :=
  match cs.dropWhile (!isMark ·) with
  | [] => (cs, none)
  | _ :: rest => (cs.takeWhile (!isMark ·), some rest)

/-- Whether `digits` with the point moved by `exponent` places exceeds what a binary floating-point
number of 64 bits can hold; the least such number is half a unit above the greatest one. -/
def overflows (digits : Nat) (exponent : Int) : Bool :=
  let bound := Nat.pow 2 1024 - Nat.pow 2 970
  if digits == 0 then false
  else if exponent > 400 then true
  else if exponent ≥ 0 then digits * Nat.pow 10 exponent.toNat ≥ bound
  else if (-exponent).toNat > (Nat.toDigits 10 digits).length then false
  else digits ≥ bound * Nat.pow 10 (-exponent).toNat

/-- A number with a fraction or an exponent; beyond the range of such numbers it is void. -/
def float? (cs : List Char) : Option Value :=
  let (_, unsigned) := splitSign cs
  let value (digits : List Char) (exponent : Int) : Value :=
    if overflows (Nat.ofDigitChars 10 digits 0) exponent then .void
    else .number (String.ofList cs)
  if unsigned = ['i', 'n', 'f'] || unsigned = ['n', 'a', 'n'] then some (.number (String.ofList cs))
  else
    let (mantissa, exponent) := splitMark (fun c => c == 'e' || c == 'E') unsigned
    let (front, fraction) := splitMark (· == '.') mantissa
    let exponentDigits := exponent.map fun e =>
      let (negative, ds) := splitSign e
      (digits? Char.isDigit ds).map fun ds =>
        let n := Nat.ofDigitChars 10 ds 0
        if negative then -(n : Int) else n
    match whole? front, fraction.map (digits? Char.isDigit), exponentDigits with
    | some front, none, some (some e) => some (value front e)
    | some front, some (some fraction), none => some (value (front ++ fraction) (-fraction.length))
    | some front, some (some fraction), some (some e) =>
      some (value (front ++ fraction) (e - fraction.length))
    | _, _, _ => none

/-! ## Dates and times -/

/-- The number that two digits at the front stand for, if it lies within bounds. -/
def twoDigits (lo hi : Nat) : Scanner Nat
  | a :: b :: cs =>
    if a.isDigit && b.isDigit then
      let n := Nat.ofDigitChars 10 [a, b] 0
      if lo ≤ n && n ≤ hi then some (n, cs) else none
    else none
  | _ => none

def mark? (c : Char) : List Char → Option (List Char)
  | d :: cs => if d == c then some cs else none
  | [] => none

def isLeapYear (year : Nat) : Bool := year % 4 == 0 && (year % 100 != 0 || year % 400 == 0)

def daysIn (year month : Nat) : Nat :=
  if month == 2 then if isLeapYear year then 29 else 28
  else if month == 4 || month == 6 || month == 9 || month == 11 then 30
  else 31

/-- What comes after a date at the front. -/
def afterDate? (cs : List Char) : Option (List Char) := do
  let (century, cs) ← twoDigits 0 99 cs
  let (year, cs) ← twoDigits 0 99 cs
  let (month, cs) ← twoDigits 1 12 (← mark? '-' cs)
  let (_, cs) ← twoDigits 1 (daysIn (century * 100 + year) month) (← mark? '-' cs)
  return cs

/-- What comes after the seconds at the front, which may have a fraction. -/
def afterSeconds? (cs : List Char) : Option (List Char) := do
  let (_, cs) ← twoDigits 0 60 cs
  match cs with
  | '.' :: d :: cs => if d.isDigit then some (cs.dropWhile Char.isDigit) else none
  | cs => some cs

/-- What comes after a time at the front, which may lack the seconds. -/
def afterTime? (cs : List Char) : Option (List Char) := do
  let (_, cs) ← twoDigits 0 23 cs
  let (_, cs) ← twoDigits 0 59 (← mark? ':' cs)
  match cs with
  | ':' :: cs => afterSeconds? cs
  | cs => some cs

/-- Whether a text is an offset from universal time, or nothing. -/
def isOffset : List Char → Bool
  | [] | ['Z'] | ['z'] => true
  | c :: cs =>
    (c == '+' || c == '-') &&
      ((do
        let (_, cs) ← twoDigits 0 23 cs
        let (_, cs) ← twoDigits 0 59 (← mark? ':' cs)
        return cs) : Option (List Char)) == some []

/-- Whether a text is a time that may come after a date. -/
def isDayTime (cs : List Char) : Bool := (afterTime? cs).any isOffset

/-- Whether a text is a date, a time, or both. -/
def isMoment (cs : List Char) : Bool :=
  match afterDate? cs with
  | some [] => true
  | some (c :: rest) => (c == 'T' || c == 't' || c == ' ') && isDayTime rest
  | none => afterTime? cs == some []

/-! ## Scalars -/

/-- Whether a character other than a blank ends a scalar that is not a string. -/
def endsScalar (c : Char) : Bool :=
  ['\n', '\r', ',', '=', '[', ']', '{', '}', '#'].contains c

def isQuote (c : Char) : Bool := c == '"' || c == '\''

/-- The text of a scalar that is not a string, and what comes after it. The text runs on over blanks
to the next word, so that a date may have a time after it; blanks without a word after them are no
part of it, and a word after blanks does not begin with a quote. `text` is what has been read and
`blanks` the blanks after it, both in reverse. -/
def scalarText (text blanks : List Char) : List Char → List Char × List Char
  | [] => (text.reverse, blanks.reverse)
  | c :: cs =>
    if isSpace c then scalarText text (c :: blanks) cs
    else if endsScalar c || (blanks ≠ [] && isQuote c) then
      (text.reverse, blanks.reverse ++ c :: cs)
    else scalarText (c :: blanks ++ text) [] cs

/-- The value of a scalar. A date or time is an object with a key that no record has. -/
def scalarValue? (cs : List Char) : Option Value :=
  if cs = ['t', 'r', 'u', 'e'] then some (.bool true)
  else if cs = ['f', 'a', 'l', 's', 'e'] then some (.bool false)
  else if isMoment cs then some (.obj [("moment", .str (String.ofList cs))])
  else integer? cs <|> float? cs

/-- A scalar that is not a string. -/
def scalar : Scanner Value := fun cs =>
  let (text, rest) := scalarText [] [] cs
  (scalarValue? text).map (·, rest)

end MethodRoles.Toml
