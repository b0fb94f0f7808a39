import TimingWheel.Text.Unprintable

/-!
# Quoted text

A text in double quotes on one line: quotes, backslashes and the usual controls are escaped with a
backslash, and characters without a shape of their own are given by their code point.
-/

namespace TimingWheel.Text

/-- A character inside of the quotes. -/
def escape (c : Char) : List Char :=
  if c = '"' then ['\\', '"']
  else if c = '\\' then ['\\', '\\']
  else if c = '\n' then ['\\', 'n']
  else if c = '\r' then ['\\', 'r']
  else if c = '\t' then ['\\', 't']
  else if c.toNat = 0 then ['\\', '0']
  else if isUnprintable c then
    '\\' :: 'u' :: '\x7b' :: (Nat.toDigits 16 c.toNat ++ ['\x7d'])
  else [c]

def quote (text : String) : String :=
  String.ofList ('"' :: (text.toList.flatMap escape ++ ['"']))

end TimingWheel.Text
