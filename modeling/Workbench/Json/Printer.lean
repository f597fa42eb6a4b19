import Workbench.Json.Basic
import Workbench.Number.Shortest
set_option autoImplicit false

namespace Workbench.Json

def hexDigit (n : Nat) : Char :=
  if n < 10 then Char.ofNat (48 + n) else Char.ofNat (87 + n)

def escapeChar (c : Char) : List Char :=
  if c == '"' then ['\\', '"']
  else if c == '\\' then ['\\', '\\']
  else if c == '\n' then ['\\', 'n']
  else if c == '\r' then ['\\', 'r']
  else if c == '\t' then ['\\', 't']
  else if c.toNat == 8 then ['\\', 'b']
  else if c.toNat == 12 then ['\\', 'f']
  else if c.toNat < 32 then ['\\', 'u', '0', '0', hexDigit (c.toNat / 16), hexDigit (c.toNat % 16)]
  else [c]

def quote (s : List Char) : List Char := '"' :: s.flatMap escapeChar ++ ['"']

def intText : Int → List Char
  | .ofNat n => Nat.toDigits 10 n
  | .negSucc n => '-' :: Nat.toDigits 10 (n + 1)

def numberText (l : NumberLayout) : Number → List Char
  | .int n => intText n
  | .float d => l.render d

mutual
def renderChars : Json → List Char
  | .null => ['n', 'u', 'l', 'l']
  | .bool true => ['t', 'r', 'u', 'e']
  | .bool false => ['f', 'a', 'l', 's', 'e']
  | .number n => numberText .json n
  | .string s => quote s.toList
  | .array xs => '[' :: renderItems xs
  | .object fs => '{' :: renderFields fs

def renderItems : List Json → List Char
  | [] => [']']
  | [x] => x.renderChars ++ [']']
  | x :: xs => x.renderChars ++ ',' :: renderItems xs

def renderFields : List (String × Json) → List Char
  | [] => ['}']
  | [(k, x)] => quote k.toList ++ ':' :: x.renderChars ++ ['}']
  | (k, x) :: fs => quote k.toList ++ ':' :: x.renderChars ++ ',' :: renderFields fs
end

def render (v : Json) : String := String.ofList v.renderChars

def newline (depth : Nat) : List Char := '\n' :: List.replicate (2 * depth) ' '

mutual
def prettyChars (depth : Nat) : Json → List Char
  | .array [] => ['[', ']']
  | .array (x :: xs) => '[' :: prettyItems (depth + 1) (x :: xs) ++ newline depth ++ [']']
  | .object [] => ['{', '}']
  | .object (f :: fs) => '{' :: prettyFields (depth + 1) (f :: fs) ++ newline depth ++ ['}']
  | .null => renderChars .null
  | .bool b => renderChars (.bool b)
  | .number n => renderChars (.number n)
  | .string s => renderChars (.string s)

def prettyItems (depth : Nat) : List Json → List Char
  | [] => []
  | [x] => newline depth ++ prettyChars depth x
  | x :: xs => newline depth ++ prettyChars depth x ++ ',' :: prettyItems depth xs

def prettyFields (depth : Nat) : List (String × Json) → List Char
  | [] => []
  | [(k, x)] => newline depth ++ quote k.toList ++ ':' :: ' ' :: prettyChars depth x
  | (k, x) :: fs =>
    newline depth ++ quote k.toList ++ ':' :: ' ' :: prettyChars depth x ++ ',' ::
      prettyFields depth fs
end

def pretty (v : Json) : String := String.ofList (prettyChars 0 v)

end Workbench.Json
