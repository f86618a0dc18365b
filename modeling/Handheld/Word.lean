namespace Handheld

/-- A position beyond 64 bits, or a text too long to exist. -/
inductive Overflow where
  | overflow
  deriving DecidableEq

namespace Word

/-- The first number that needs more than 64 bits. -/
def limit : Nat := 0x10000000000000000

/-- The first number that needs more than 32 bits. -/
def limit32 : Nat := 0x100000000

/-- A number that fits a word. -/
def check (n : Nat) : Except Overflow Nat := if n < limit then .ok n else .error .overflow

theorem check_eq_ok_iff {n m : Nat} : check n = .ok m ↔ n < limit ∧ m = n := by
  unfold check
  split
  · simp_all [eq_comm]
  · simp only [reduceCtorEq, false_iff]; omega

end Word
end Handheld
