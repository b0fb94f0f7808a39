/-!
# Counts

Milliseconds, ticks and runs are counted in 64 bits. Where a computed count could grow past the
largest one it stays there, by `addCapped` and `mulCapped`, or there is none, by `mulChecked`.
`total` adds up a list, without such a rule.
-/

namespace TimingWheel

/-- The largest count. -/
def ceiling : Nat := 0xFFFFFFFFFFFFFFFF

/-- The sum, or the largest count where the sum is larger. -/
def addCapped (a b : Nat) : Nat := min (a + b) ceiling

/-- The product, or the largest count where the product is larger. -/
def mulCapped (a b : Nat) : Nat := min (a * b) ceiling

/-- The product, as long as it is a count. -/
def mulChecked (a b : Nat) : Option Nat := if a * b ≤ ceiling then some (a * b) else none

/-- The sum of any number of counts. -/
def total : List Nat → Nat
  | [] => 0
  | n :: rest => n + total rest

theorem addCapped_le (a b : Nat) : addCapped a b ≤ ceiling := Nat.min_le_right _ _

theorem mulCapped_le (a b : Nat) : mulCapped a b ≤ ceiling := Nat.min_le_right _ _

theorem addCapped_eq {a b : Nat} (h : a + b ≤ ceiling) : addCapped a b = a + b :=
  Nat.min_eq_left h

theorem mulCapped_eq {a b : Nat} (h : a * b ≤ ceiling) : mulCapped a b = a * b :=
  Nat.min_eq_left h

theorem mulChecked_eq_some {a b n : Nat} :
    mulChecked a b = some n ↔ a * b ≤ ceiling ∧ a * b = n := by
  unfold mulChecked
  split
  · next hcount => simp [hcount]
  · next hmore => simp [hmore]

theorem mulChecked_eq_none {a b : Nat} : mulChecked a b = none ↔ ceiling < a * b := by
  unfold mulChecked
  split <;> simp_all

end TimingWheel
