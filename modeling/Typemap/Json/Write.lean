import Typemap.Json.Basic

/-!
# Writing JSON

The compact text of a value. A string is written as it is, but for quotes,
backslashes and control characters. A string without text is written as a lone
surrogate, so that every value has a text that reads back.
-/

namespace Typemap.Json

def hexDigit (n : Nat) : Char := Nat.digitChar n

def escapeChar (c : Char) : List Char :=
  if c = '"' then ['\\', '"']
  else if c = '\\' then ['\\', '\\']
  else if c = '\x08' then ['\\', 'b']
  else if c = '\x0c' then ['\\', 'f']
  else if c = '\n' then ['\\', 'n']
  else if c = '\r' then ['\\', 'r']
  else if c = '\t' then ['\\', 't']
  else if c.toNat < 0x20 then
    ['\\', 'u', '0', '0', hexDigit (c.toNat / 16), hexDigit (c.toNat % 16)]
  else [c]

def literal (text : List Char) : List Char := '"' :: text.flatMap escapeChar ++ ['"']

namespace Scalar

def spelling : Scalar → List Char
  | null => "null".toList
  | bool true => "true".toList
  | bool false => "false".toList
  | natural n => Nat.toDigits 10 n
  | decimal negative digits exponent =>
      (if negative then ['-'] else []) ++ Nat.toDigits 10 digits ++ 'e' ::
        ((if exponent < 0 then ['-'] else []) ++ Nat.toDigits 10 exponent.natAbs)
  | string (some text) => literal text.toList
  | string none => '"' :: '\\' :: "ud800".toList ++ ['"']

end Scalar

namespace Token

def spelling : Token → List Char
  | openArray => ['[']
  | closeArray => [']']
  | openObject => ['{']
  | closeObject => ['}']
  | colon => [':']
  | comma => [',']
  | scalar s => s.spelling

end Token

def write (j : Json) : String := String.ofList (j.tokens.flatMap (·.spelling))

end Typemap.Json
