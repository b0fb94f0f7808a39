import TimingWheel.Count

/-!
# Run limits

How often an entry may still run. A limit is given as a count, of which the largest means that
there is no limit.
-/

namespace TimingWheel

/-- The runs an entry has: without a limit, or a number of them. -/
inductive Runs where
  | unlimited
  | left (n : Nat)
  deriving Repr, DecidableEq, Inhabited

namespace Runs

def ofCount (n : Nat) : Runs := if n = ceiling then .unlimited else .left n

def toCount : Runs → Nat
  | .unlimited => ceiling
  | .left n => n

def isSpent : Runs → Bool
  | .left 0 => true
  | _ => false

/-- The runs left after one more, `none` where there is none to take. -/
def consume : Runs → Option Runs
  | .unlimited => some .unlimited
  | .left 0 => none
  | .left (n + 1) => some (.left n)

theorem toCount_ofCount (n : Nat) : (ofCount n).toCount = n := by
  by_cases h : n = ceiling <;> simp [ofCount, toCount, h]

theorem consume_eq_none_iff {r : Runs} : r.consume = none ↔ r.isSpent = true := by
  rcases r with _ | _ | n <;> simp [consume, isSpent]

end Runs

end TimingWheel
