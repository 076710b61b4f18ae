import MooCore.Text.Unprintable
/-!
# Texts as error messages show them

A text between double quotes, a character between single quotes. The quote in use, the backslash
and four control characters have two-letter escapes; unprintable characters and combining marks
are written as their code point in hexadecimal.
-/

set_option autoImplicit false
namespace MooCore.Text

def hexDigits (n : Nat) : List Char :=
  let d := Char.ofNat (if n % 16 < 10 then 48 + n % 16 else 87 + n % 16)
  if n < 16 then [d] else hexDigits (n / 16) ++ [d]
termination_by n
decreasing_by omega

def showChar (quote c : Char) : List Char :=
  if c = '\x00' then ['\\', '0']
  else if c = '\t' then ['\\', 't']
  else if c = '\r' then ['\\', 'r']
  else if c = '\n' then ['\\', 'n']
  else if c = '\\' ∨ c = quote then ['\\', c]
  else if isUnprintable c then ['\\', 'u', '\x7b'] ++ hexDigits c.toNat ++ ['\x7d']
  else [c]

def quoted (s : String) : String :=
  String.ofList ('"' :: s.toList.flatMap (showChar '"') ++ ['"'])

def quotedChar (c : Char) : String :=
  String.ofList ('\'' :: showChar '\'' c ++ ['\''])

end MooCore.Text
