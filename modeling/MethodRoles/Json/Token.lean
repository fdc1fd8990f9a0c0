import MethodRoles.Data
import MethodRoles.Text

/-!
# JSON tokens

The lexer reads a text character by character. Blanks between tokens are space, tab, line feed and
carriage return. A string is read as a list of codes: the code points of its characters and the
16-bit units of its `\u` escapes, two of which may stand for one character.
-/
namespace MethodRoles.Json

open Data

inductive Token where
  | openBrace
  | closeBrace
  | openBracket
  | closeBracket
  | comma
  | colon
  | scalar (v : Value)
  /-- A string, as its codes in reverse. -/
  | text (codes : List Nat)
  deriving Repr

def isHighSurrogate (n : Nat) : Bool := 0xD800 ≤ n && n < 0xDC00

def isLowSurrogate (n : Nat) : Bool := 0xDC00 ≤ n && n < 0xE000

/-- The characters that a reversed list of codes stands for, put in front of `done`. There are none
when half of a surrogate pair stands alone. -/
def joinCodes (done : List Char) : List Nat → Option (List Char)
  | [] => some done
  | n :: codes =>
    if isLowSurrogate n then
      match codes with
      | [] => none
      | m :: codes =>
        if isHighSurrogate m then
          joinCodes (Char.ofNat (0x10000 + (m - 0xD800) * 0x400 + (n - 0xDC00)) :: done) codes
        else none
    else if isHighSurrogate n then none
    else joinCodes (Char.ofNat n :: done) codes

/-- The text of a string token, if its codes stand for one. -/
def textOf? (codes : List Nat) : Option String := (joinCodes [] codes).map String.ofList

/-! ## Numbers and words -/

/-- Characters of numbers and of the words `null`, `true` and `false`. -/
def isWordChar (c : Char) : Bool := c.isAlphanum || c == '+' || c == '-' || c == '.'

/-- Drops a non-empty run of digits. -/
def dropDigits? : List Char → Option (List Char)
  | c :: cs => if c.isDigit then some (cs.dropWhile Char.isDigit) else none
  | [] => none

/-- Drops the digits in front of the point: no zero comes before another digit. -/
def dropWhole? : List Char → Option (List Char)
  | '0' :: cs => some cs
  | cs => dropDigits? cs

def dropFraction? : List Char → Option (List Char)
  | '.' :: cs => dropDigits? cs
  | cs => some cs

def dropExponent? : List Char → Option (List Char)
  | c :: cs =>
    if c == 'e' || c == 'E' then
      match cs with
      | '+' :: cs => dropDigits? cs
      | '-' :: cs => dropDigits? cs
      | cs => dropDigits? cs
    else some (c :: cs)
  | [] => some []

def isNumber (cs : List Char) : Bool :=
  let unsigned := match cs with
    | '-' :: rest => rest
    | _ => cs
  ((dropWhole? unsigned).bind dropFraction?).bind dropExponent? == some []

/-- The value of a number or word. -/
def scalar? (cs : List Char) : Option Value :=
  if cs = ['n', 'u', 'l', 'l'] then some .null
  else if cs = ['t', 'r', 'u', 'e'] then some (.bool true)
  else if cs = ['f', 'a', 'l', 's', 'e'] then some (.bool false)
  else if isNumber cs then
    if cs.all Char.isDigit then some (.nat (Nat.ofDigitChars 10 cs 0))
    else some (.number (String.ofList cs))
  else none

/-! ## The lexer -/

/-- Where the lexer stands; what it has read of the token at hand comes in reverse. -/
inductive Scan where
  | between
  | word (chars : List Char)
  | string (codes : List Nat)
  | escape (codes : List Nat)
  | unicode (codes : List Nat) (digits : Nat) (code : Nat)
  deriving Repr

/-- The character that a one-letter escape stands for. -/
def escaped? : Char → Option Char
  | '"' => some '"'
  | '\\' => some '\\'
  | '/' => some '/'
  | 'b' => some '\x08'
  | 'f' => some '\x0c'
  | 'n' => some '\n'
  | 'r' => some '\r'
  | 't' => some '\t'
  | _ => none

/-- Reads a character outside of words and strings; `done` holds the tokens so far in reverse. -/
def scanBetween (done : List Token) (c : Char) : Option (Scan × List Token) :=
  if c == ' ' || c == '\t' || c == '\n' || c == '\r' then some (.between, done)
  else match c with
    | '{' => some (.between, .openBrace :: done)
    | '}' => some (.between, .closeBrace :: done)
    | '[' => some (.between, .openBracket :: done)
    | ']' => some (.between, .closeBracket :: done)
    | ',' => some (.between, .comma :: done)
    | ':' => some (.between, .colon :: done)
    | '"' => some (.string [], done)
    | c => if isWordChar c then some (.word [c], done) else none

def scanChar (done : List Token) (c : Char) : Scan → Option (Scan × List Token)
  | .between => scanBetween done c
  | .word chars =>
    if isWordChar c then some (.word (c :: chars), done)
    else (scalar? chars.reverse).bind fun v => scanBetween (.scalar v :: done) c
  | .string codes =>
    if c == '"' then some (.between, .text codes :: done)
    else if c == '\\' then some (.escape codes, done)
    else if c.toNat < 0x20 then none
    else some (.string (c.toNat :: codes), done)
  | .escape codes =>
    if c == 'u' then some (.unicode codes 0 0, done)
    else (escaped? c).map fun e => (.string (e.toNat :: codes), done)
  | .unicode codes digits code =>
    (Text.hexValue? c).map fun h =>
      if digits == 3 then (.string ((code * 16 + h) :: codes), done)
      else (.unicode codes (digits + 1) (code * 16 + h), done)

def scanEnd (done : List Token) : Scan → Option (List Token)
  | .between => some done.reverse
  | .word chars => (scalar? chars.reverse).map fun v => (Token.scalar v :: done).reverse
  | _ => none

def scanFrom (scan : Scan) (done : List Token) : List Char → Option (List Token)
  | [] => scanEnd done scan
  | c :: cs =>
    match scanChar done c scan with
    | some (scan, done) => scanFrom scan done cs
    | none => none

/-- The tokens of a text, if it consists of tokens and blanks. -/
def tokens? (cs : List Char) : Option (List Token) := scanFrom .between [] cs

end MethodRoles.Json
