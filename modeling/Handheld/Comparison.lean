namespace Handheld

inductive Comparison where
  | eq
  | ne
  | gt
  | le
  | lt
  | ge
  deriving DecidableEq

namespace Comparison

def all : List Comparison := [eq, ne, gt, le, lt, ge]

def symbol : Comparison → String
  | eq => "="
  | ne => "<>"
  | gt => ">"
  | le => "<="
  | lt => "<"
  | ge => ">="

def ofSymbol? (s : String) : Option Comparison := all.find? fun c => c.symbol = s

/-- The comparison that holds exactly when this one does not. -/
def opposite : Comparison → Comparison
  | eq => ne
  | ne => eq
  | gt => le
  | le => gt
  | lt => ge
  | ge => lt

def holds : Comparison → Ordering → Bool
  | eq, o => o = .eq
  | ne, o => o ≠ .eq
  | gt, o => o = .gt
  | le, o => o ≠ .gt
  | lt, o => o = .lt
  | ge, o => o ≠ .lt

theorem holds_opposite (c : Comparison) (o : Ordering) : c.opposite.holds o = !c.holds o := by
  cases c <;> cases o <;> rfl

end Comparison
end Handheld
