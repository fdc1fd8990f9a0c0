/-!
# Texts

Blank characters, the numbers that a text holds, the pieces of a text between separators, and the
text that bytes stand for.
-/
namespace MethodRoles.Text

/-! ## Blank characters -/

/-- The characters with the Unicode property `White_Space`. -/
def isBlank (c : Char) : Bool :=
  let n := c.toNat
  (0x9 ≤ n && n ≤ 0xD) || n == 0x20 || n == 0x85 || n == 0xA0 || n == 0x1680 ||
    (0x2000 ≤ n && n ≤ 0x200A) || n == 0x2028 || n == 0x2029 || n == 0x202F || n == 0x205F ||
    n == 0x3000

def trimStart (cs : List Char) : List Char := cs.dropWhile isBlank

def trimEnd (cs : List Char) : List Char := (trimStart cs.reverse).reverse

def trim (cs : List Char) : List Char := trimEnd (trimStart cs)

@[simp] theorem trim_nil : trim [] = [] := rfl

/-!
## Numbers

Counts, metrics, lines and columns are numbers below `2 ^ 64`.
-/

/-- Numbers of the program stay below this limit. -/
def wordLimit : Nat := Nat.pow 2 64

/-- Reads an optional `+` and decimal digits; the number has to stay below `wordLimit`. -/
def readWord? (cs : List Char) : Option Nat :=
  let digits := match cs with
    | '+' :: rest => rest
    | _ => cs
  if digits ≠ [] ∧ digits.all Char.isDigit ∧ Nat.ofDigitChars 10 digits 0 < wordLimit then
    some (Nat.ofDigitChars 10 digits 0)
  else none

/-- The value of a hexadecimal digit, with letters of either case. -/
def hexValue? (c : Char) : Option Nat :=
  if c.isDigit then some (c.toNat - '0'.toNat)
  else if 'a' ≤ c && c ≤ 'f' then some (c.toNat - 'a'.toNat + 10)
  else if 'A' ≤ c && c ≤ 'F' then some (c.toNat - 'A'.toNat + 10)
  else none

/-!
## Pieces and lines

`segments` cuts a text at every separator and keeps empty pieces; `lines` cuts it into lines the way
a reader of text files does.
-/

/-- The pieces between the separators: one more than there are separators. -/
def segments (sep : Char) : List Char → List (List Char)
  | [] => [[]]
  | c :: cs =>
    if c = sep then [] :: segments sep cs
    else match segments sep cs with
      | [] => [[c]]
      | piece :: pieces => (c :: piece) :: pieces

theorem segments_ne_nil (sep : Char) (cs : List Char) : segments sep cs ≠ [] := by
  induction cs with
  | nil => simp [segments]
  | cons c cs ih =>
    unfold segments
    split
    · simp
    · split <;> simp

/-- Closes a line read in reverse: a carriage return right before the line feed is no part of it. -/
def closeLine : List Char → List Char
  | '\r' :: line => line.reverse
  | line => line.reverse

/-- The lines of `cs`, the first of which begins with `line`, given in reverse. -/
def linesFrom (line : List Char) : List Char → List (List Char)
  | [] => if line.isEmpty then [] else [line.reverse]
  | c :: cs => if c = '\n' then closeLine line :: linesFrom [] cs else linesFrom (c :: line) cs

/-- Lines end at a line feed, with or without a carriage return before it. There is no empty line
after a final line feed, and a carriage return that ends the text stays. -/
def lines (text : String) : List String :=
  (linesFrom [] text.toList).map String.ofList

/-- The text of some lines, each of which is ended by a line feed. -/
def ofLines (lines : List String) : String := String.join (lines.map (· ++ "\n"))

/-!
## Bytes

Bytes that are not UTF-8 still have a text to be looked at. In it a replacement character stands for
every byte that begins no character, and for every character that breaks off.
-/

/-- Stands for bytes that are no character. -/
def replacement : Char := '\uFFFD'

/-- A character that has begun: its bits so far, how many bytes are missing after the next one, and
the bounds of the next one. -/
structure Begun where
  bits : Nat
  missing : Nat
  low : UInt8 := 0x80
  high : UInt8 := 0xBF

/-- What a byte at the beginning of a character gives: characters that are complete, and one that
goes on. The bounds of the second byte leave out overlong forms, surrogates and what lies beyond
the last character. -/
def firstByte (b : UInt8) : List Char × Option Begun :=
  if b < 0x80 then ([Char.ofNat b.toNat], none)
  else if b < 0xC2 then ([replacement], none)
  else if b < 0xE0 then ([], some { bits := b.toNat - 0xC0, missing := 0 })
  else if b < 0xF0 then
    ([], some {
      bits := b.toNat - 0xE0
      missing := 1
      low := if b = 0xE0 then 0xA0 else 0x80
      high := if b = 0xED then 0x9F else 0xBF })
  else if b < 0xF5 then
    ([], some {
      bits := b.toNat - 0xF0
      missing := 2
      low := if b = 0xF0 then 0x90 else 0x80
      high := if b = 0xF4 then 0x8F else 0xBF })
  else ([replacement], none)

/-- What one more byte gives. A byte that does not continue a character begins another one. -/
def nextByte (begun : Option Begun) (b : UInt8) : List Char × Option Begun :=
  match begun with
  | none => firstByte b
  | some c =>
    if c.low ≤ b && b ≤ c.high then
      let bits := c.bits * 64 + (b.toNat - 0x80)
      match c.missing with
      | 0 => ([Char.ofNat bits], none)
      | n + 1 => ([], some { bits, missing := n })
    else
      let (cs, next) := firstByte b
      (replacement :: cs, next)

/-- The characters of bytes, the first of which come after those of a character that has begun. -/
def charsFrom (begun : Option Begun) : List UInt8 → List Char
  | [] => if begun.isSome then [replacement] else []
  | b :: bs =>
    let (cs, next) := nextByte begun b
    cs ++ charsFrom next bs

/-- The text that bytes stand for. -/
def ofBytes (bytes : ByteArray) : String :=
  (String.fromUTF8? bytes).getD (String.ofList (charsFrom none bytes.toList))

end MethodRoles.Text
