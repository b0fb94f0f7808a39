/-!
# Binary floating point numbers

Numbers with 53 significant bits, as exact values: no rounding is left to a machine.

* `Binary64.ofDecimal` is the number nearest to a decimal, a tie going to the even mantissa.
* `Binary64.text` writes a number with the fewest digits that read back as it, of those the nearest
  ones, always positionally and without an exponent.
-/

namespace TimingWheel

inductive Binary64 where
  | nan
  | infinite (negative : Bool)
  /-- The value `mantissa * 2 ^ (exponent - 1074)`. -/
  | finite (negative : Bool) (mantissa exponent : Nat)
  deriving Repr, DecidableEq

namespace Binary64

/-- The leading one of 53 significant bits. -/
def leadingBit : Nat := 0x10000000000000

/-- The quotient rounded to the nearest natural number, a tie to the even one. -/
def divNearest (num den : Nat) : Nat :=
  let q := num / den
  let r := 2 * (num % den)
  if r < den ∨ (r = den ∧ q % 2 = 0) then q else q + 1

/-- The number nearest to a positive fraction. The exponent is the least one at which the mantissa
needs no more than 53 bits. -/
def ofFraction (negative : Bool) (num den : Nat) : Binary64 :=
  -- The fraction is counted in units of the smallest exponent.
  let scaled := num <<< 1074
  let e := (scaled / den).log2 - 52
  let m := divNearest scaled (den <<< e)
  if m = 0 then .finite negative 0 0
  else
    let (m, e) := if m = 2 * leadingBit then (leadingBit, e + 1) else (m, e)
    if 2045 < e then .infinite negative else .finite negative m e

/-- The number nearest to `digits * 10 ^ exponent`. -/
def ofDecimal (negative : Bool) (digits : Nat) (exponent : Int) : Binary64 :=
  if digits = 0 then .finite negative 0 0
  else
    let magnitude : Int := (Nat.toDigits 10 digits).length + exponent
    -- Far outside of the range nothing needs to be computed.
    if 400 < magnitude then .infinite negative
    else if magnitude < -400 then .finite negative 0 0
    else if 0 ≤ exponent then ofFraction negative (digits * Nat.pow 10 exponent.toNat) 1
    else ofFraction negative digits (Nat.pow 10 (-exponent).toNat)

/-- The reals that are nearest to a number, as an interval in quarters of its last place: both ends,
and whether they belong to it. Below a power of two the numbers lie half as far apart. -/
def readBack (mantissa exponent : Nat) : Nat × Nat × Bool :=
  let low := if mantissa = leadingBit ∧ 0 < exponent then 4 * mantissa - 1 else 4 * mantissa - 2
  (low, 4 * mantissa + 2, mantissa % 2 = 0)

/-- The digits of a positive number at a decimal place, if a decimal with that last place reads
back: of the two neighbours on that grid the nearer one, of two equally near ones the upper one.
Everything is counted in units of `1 / scale`; `unit` is the place. -/
def atPlace? (value low high unit : Nat) (closed : Bool) : Option Nat :=
  let below := value / unit
  let inside (x : Nat) : Bool := if closed then low ≤ x && x ≤ high else low < x && x < high
  let lower := below * unit
  let upper := lower + unit
  match inside lower && 0 < below, inside upper with
  | true, true => if 2 * (value - lower) < unit then some below else some (below + 1)
  | true, false => some below
  | false, true => some (below + 1)
  | false, false => none

/-- The first place, from the given one downwards, at which a decimal reads back. -/
def firstPlace (value low high scale : Nat) (closed : Bool) : Nat → Int → Nat × Int
  | 0, place => (value / scale, place)
  | n + 1, place =>
    -- A place below the point widens the scale instead of narrowing the unit.
    let widen := Nat.pow 10 (-place).toNat
    let unit := scale * Nat.pow 10 place.toNat
    match atPlace? (value * widen) (low * widen) (high * widen) unit closed with
    | some d => (d, place)
    | none => firstPlace value low high scale closed n (place - 1)

/-- Digits and last place of the shortest decimal that reads back. -/
def shortest (mantissa exponent : Nat) : Nat × Int :=
  let (low, high, closed) := readBack mantissa exponent
  let factor := 1 <<< exponent
  let scale := 4 <<< 1074
  let value := 4 * mantissa * factor
  -- The place above the first digit, for a value of at least one and for a smaller one.
  let top : Int :=
    if scale ≤ value then ((Nat.toDigits 10 (value / scale)).length : Int)
    else 1 - ((Nat.toDigits 10 (scale / value)).length : Int)
  firstPlace value (low * factor) (high * factor) scale closed 20 top

/-- Digits with the given last place, without an exponent. -/
def positional (digits : Nat) (place : Int) : List Char :=
  let ds := Nat.toDigits 10 digits
  if 0 ≤ place then ds ++ List.replicate place.toNat '0'
  else
    let fraction := (-place).toNat
    let padded := List.replicate (fraction + 1 - ds.length) '0' ++ ds
    padded.take (padded.length - fraction) ++ '.' :: padded.drop (padded.length - fraction)

def sign (negative : Bool) : String := if negative then "-" else ""

def text : Binary64 → String
  | .nan => "NaN"
  | .infinite negative => sign negative ++ "inf"
  | .finite negative 0 _ => sign negative ++ "0"
  | .finite negative mantissa exponent =>
    let (digits, place) := shortest mantissa exponent
    sign negative ++ String.ofList (positional digits place)

end Binary64

end TimingWheel
