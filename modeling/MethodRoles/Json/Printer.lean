import MethodRoles.Data

/-!
# Writing JSON

Two layouts: `compact` on one line, and `pretty` with an item to a line and two blanks to a level.
-/
namespace MethodRoles.Json

open Data

def hexDigit (n : Nat) : Char := if n < 10 then Char.ofNat (0x30 + n) else Char.ofNat (0x57 + n)

/-- Quotes, backslashes and control characters are escaped, the latter by a letter where there is
one. -/
def escape (c : Char) : List Char :=
  if c == '"' then ['\\', '"']
  else if c == '\\' then ['\\', '\\']
  else if c == '\x08' then ['\\', 'b']
  else if c == '\x0c' then ['\\', 'f']
  else if c == '\n' then ['\\', 'n']
  else if c == '\r' then ['\\', 'r']
  else if c == '\t' then ['\\', 't']
  else if c.toNat < 0x20 then
    ['\\', 'u', '0', '0', hexDigit (c.toNat / 16), hexDigit (c.toNat % 16)]
  else [c]

def quote (s : String) : List Char := '"' :: s.toList.flatMap escape ++ ['"']

structure Layout where
  /-- What separates brackets and items, at a level of nesting. -/
  gap : Nat → List Char
  colon : List Char

def Layout.compact : Layout where
  gap _ := []
  colon := [':']

def Layout.pretty : Layout where
  gap level := '\n' :: List.replicate (2 * level) ' '
  colon := [':', ' ']

mutual

def render (layout : Layout) (level : Nat) : Value → List Char
  | .null => ['n', 'u', 'l', 'l']
  | .bool true => ['t', 'r', 'u', 'e']
  | .bool false => ['f', 'a', 'l', 's', 'e']
  | .nat n => Nat.toDigits 10 n
  | .number literal => literal.toList
  | .str s => quote s
  | .void => ['"', '\\', 'u', 'd', '8', '0', '0', '"']
  | .arr [] => ['[', ']']
  | .arr (v :: items) =>
    '[' :: layout.gap (level + 1) ++ render layout (level + 1) v ++
      renderItems layout (level + 1) items ++ layout.gap level ++ [']']
  | .obj [] => ['{', '}']
  | .obj ((key, v) :: members) =>
    '{' :: layout.gap (level + 1) ++ quote key ++ layout.colon ++ render layout (level + 1) v ++
      renderMembers layout (level + 1) members ++ layout.gap level ++ ['}']

/-- Renders the items after the first one. -/
def renderItems (layout : Layout) (level : Nat) : List Value → List Char
  | [] => []
  | v :: items => ',' :: layout.gap level ++ render layout level v ++ renderItems layout level items

/-- Renders the members after the first one. -/
def renderMembers (layout : Layout) (level : Nat) : List (String × Value) → List Char
  | [] => []
  | (key, v) :: members =>
    ',' :: layout.gap level ++ quote key ++ layout.colon ++ render layout level v ++
      renderMembers layout level members

end

def compact (v : Value) : String := String.ofList (render .compact 0 v)

def pretty (v : Value) : String := String.ofList (render .pretty 0 v)

end MethodRoles.Json
