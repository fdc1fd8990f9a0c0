import MethodRoles.Text

/-!
# Strings of TOML

Basic strings know escapes, literal strings do not; both exist in a form for one line and in a form
for several lines. A string for several lines drops a line feed right after its opening quotes and
may end in up to two quotes more than close it.
-/
namespace MethodRoles.Toml

/-- Reads something from the front of a text and gives what comes after it. -/
abbrev Scanner (α : Type) := List Char → Option (α × List Char)

def isSpace (c : Char) : Bool := c == ' ' || c == '\t'

def dropSpaces (cs : List Char) : List Char := cs.dropWhile isSpace

/-- What may stand in comments and strings: tabs, and all but control characters. -/
def isTextChar (c : Char) : Bool := c == '\t' || (0x20 ≤ c.toNat && c.toNat != 0x7F)

/-- Whether a line feed comes next. -/
def atLineFeed (cs : List Char) : Bool := cs.head? == some '\n'

/-- A line break right at the front is dropped. -/
def dropLineBreak : List Char → List Char
  | '\n' :: cs => cs
  | '\r' :: '\n' :: cs => cs
  | cs => cs

/-- Where the reader of a basic string stands. -/
inductive BasicState where
  | plain
  | escape
  /-- Reading the hexadecimal digits of an escape, this many of them still to come. -/
  | code (digits : Nat) (value : Nat)
  /-- After a backslash at the end of a line: the line break has to come. -/
  | lineEnd
  /-- After such a line break: blanks and line breaks are dropped. -/
  | fold
  deriving DecidableEq, Repr

def escapeOf? : Char → Option Char
  | 'b' => some '\x08'
  | 't' => some '\t'
  | 'n' => some '\n'
  | 'e' => some '\x1b'
  | 'f' => some '\x0c'
  | 'r' => some '\r'
  | '"' => some '"'
  | '\\' => some '\\'
  | _ => none

/-- The character with a code point, if it is one of a character. -/
def charOf? (n : Nat) : Option Char := if n.isValidChar then some (Char.ofNat n) else none

/-- Reads a character of an escape that has begun; gives the new state and text. -/
def readEscape (state : BasicState) (done : List Char) (c : Char) :
    Option (BasicState × List Char) :=
  match state with
  | .escape =>
    if c == 'x' then some (.code 2 0, done)
    else if c == 'u' then some (.code 4 0, done)
    else if c == 'U' then some (.code 8 0, done)
    else (escapeOf? c).map fun e => (.plain, e :: done)
  | .code (digits + 1) value =>
    match Text.hexValue? c with
    | none => none
    | some h =>
      if digits == 0 then (charOf? (value * 16 + h)).map fun e => (.plain, e :: done)
      else some (.code digits (value * 16 + h), done)
  | _ => none

def closed (done : List Char) : String := String.ofList done.reverse

/-- The rest of a basic string on one line; `done` is what has been read of it, in reverse. -/
def basicFrom (state : BasicState) (done : List Char) : Scanner String
  | [] => none
  | c :: cs =>
    if state = .plain then
      if c == '"' then some (closed done, cs)
      else if c == '\\' then basicFrom .escape done cs
      else if isTextChar c then basicFrom .plain (c :: done) cs
      else none
    else match readEscape state done c with
      | some (state, done) => basicFrom state done cs
      | none => none

/-- The rest of a literal string on one line. -/
def literalFrom (done : List Char) : Scanner String
  | [] => none
  | c :: cs =>
    if c == '\'' then some (closed done, cs)
    else if isTextChar c then literalFrom (c :: done) cs
    else none

/-- The closing quotes of a string for several lines, one of which has been read: what they add to
the text, and what comes after them. -/
def closing? (quote : Char) (done : List Char) : Scanner String
  | a :: b :: cs =>
    if a == quote && b == quote then
      match cs with
      | c :: d :: rest =>
        if c == quote && d == quote then some (closed (quote :: quote :: done), rest)
        else if c == quote then some (closed (quote :: done), d :: rest)
        else some (closed done, cs)
      | [c] => if c == quote then some (closed (quote :: done), []) else some (closed done, cs)
      | [] => some (closed done, [])
    else none
  | _ => none

/-- The rest of a basic string for several lines. -/
def basicLinesFrom (state : BasicState) (done : List Char) : Scanner String
  | [] => none
  | c :: cs =>
    let isBreak := c == '\n' || (c == '\r' && atLineFeed cs)
    let state := if state = .fold && !isSpace c && !isBreak then .plain else state
    match state with
    | .plain =>
      if c == '"' then
        match closing? '"' done cs with
        | some result => some result
        | none => basicLinesFrom .plain ('"' :: done) cs
      else if c == '\\' then basicLinesFrom .escape done cs
      else if isTextChar c || isBreak then basicLinesFrom .plain (c :: done) cs
      else none
    | .fold => basicLinesFrom .fold done cs
    | .lineEnd =>
      if isBreak then basicLinesFrom .fold done cs
      else if isSpace c then basicLinesFrom .lineEnd done cs
      else none
    | .escape =>
      if isBreak then basicLinesFrom .fold done cs
      else if isSpace c then basicLinesFrom .lineEnd done cs
      else match readEscape .escape done c with
        | some (state, done) => basicLinesFrom state done cs
        | none => none
    | .code digits value =>
      match readEscape (.code digits value) done c with
      | some (state, done) => basicLinesFrom state done cs
      | none => none

/-- The rest of a literal string for several lines. -/
def literalLinesFrom (done : List Char) : Scanner String
  | [] => none
  | c :: cs =>
    if c == '\'' then
      match closing? '\'' done cs with
      | some result => some result
      | none => literalLinesFrom ('\'' :: done) cs
    else if isTextChar c || c == '\n' || (c == '\r' && atLineFeed cs) then
      literalLinesFrom (c :: done) cs
    else none

/-- A string on one line. -/
def lineString : Scanner String
  | '"' :: cs => basicFrom .plain [] cs
  | '\'' :: cs => literalFrom [] cs
  | _ => none

/-- A string of any form. -/
def string : Scanner String
  | '"' :: '"' :: '"' :: cs => basicLinesFrom .plain [] (dropLineBreak cs)
  | '\'' :: '\'' :: '\'' :: cs => literalLinesFrom [] (dropLineBreak cs)
  | cs => lineString cs

end MethodRoles.Toml
