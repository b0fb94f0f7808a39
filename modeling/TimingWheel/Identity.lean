import TimingWheel.Json.Basic

/-!
# Identities

The outward identity of an entry: an opaque text. A fresh one is a random universally unique
identifier, written as 32 hexadecimal digits in five groups, of which one digit tells the version
and one the variant.
-/

namespace TimingWheel

/-- The outward identity of an entry. -/
structure Identity where
  text : String
  deriving Repr, DecidableEq

namespace Identity

/-- The last digits of a number in base 16, as many as asked for. -/
def hexDigits (n : Nat) : Nat → List Char
  | 0 => []
  | k + 1 => hexDigits (n / 16) k ++ [Text.hexDigit (n % 16)]

/-- The identifier made of 122 random bits: version 4, variant 2. -/
def ofRandom (bits : Nat) : Identity :=
  let variant := Text.hexDigit (8 + (bits >>> 60) % 4)
  ⟨String.ofList (hexDigits (bits >>> 90) 8 ++ '-' :: hexDigits (bits >>> 74) 4
    ++ '-' :: '4' :: hexDigits (bits >>> 62) 3 ++ '-' :: variant :: hexDigits (bits >>> 48) 3
    ++ '-' :: hexDigits bits 12)⟩

/-- The shape of an identifier: `x` for a random digit, `y` for the one that tells the variant. -/
def shape (i : Identity) : String :=
  String.ofList (i.text.toList.zipIdx.map fun (c, k) =>
    if c = '-' ∨ k = 14 then c else if k = 19 then 'y' else 'x')

def toJson (i : Identity) : Json := .ofText i.text

end Identity

end TimingWheel
