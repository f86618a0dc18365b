namespace Handheld

/-- What a register holds. -/
inductive Kind where
  | text
  | int
  | float
  deriving DecidableEq

namespace Kind

/-- The word used in messages. -/
def label : Kind → String
  | text => "text"
  | int => "integer"
  | float => "float"

/-- The word used in structured data. -/
def name : Kind → String
  | text => "text"
  | int => "int"
  | float => "float"

def all : List Kind := [text, int, float]

end Kind

/-- The members of a group are numbered from zero here and from one in their names. -/
inductive Register where
  | dat (i : Fin 10)
  | int (i : Fin 10)
  | flt (i : Fin 10)
  | usr (i : Fin 3)
  | date (i : Fin 13)
  | time (i : Fin 4)
  | htid
  | bst (i : Fin 4)
  | rslt
  | brcod
  | numbr
  | endky
  deriving DecidableEq

/-- Pooled registers may be handed out as temporaries; system registers are written by the terminal
only. -/
inductive Register.Role where
  | pooled
  | user
  | system
  deriving DecidableEq

namespace Register

def kind : Register → Kind
  | dat _ | usr _ | date _ | time _ | htid => .text
  | int _ | bst _ | rslt | brcod | numbr | endky => .int
  | flt _ => .float

def role : Register → Role
  | dat _ | int _ | flt _ => .pooled
  | usr _ => .user
  | _ => .system

def isSystem (r : Register) : Bool := r.role = .system

def isPooled (r : Register) : Bool := r.role = .pooled

/-- The place within a group of numbered registers, zero for a register of its own. -/
def ordinal : Register → Nat
  | dat i | int i | flt i => i + 1
  | usr i => i + 1
  | date i => i + 1
  | time i | bst i => i + 1
  | _ => 0

/-- The place in the catalog. -/
def rank : Register → Nat
  | dat i => i
  | int i => 10 + i
  | flt i => 20 + i
  | usr i => 30 + i
  | date i => 33 + i
  | time i => 46 + i
  | htid => 50
  | bst i => 51 + i
  | rslt => 55
  | brcod => 56
  | numbr => 57
  | endky => 58

def digits : List String :=
  ["1", "2", "3", "4", "5", "6", "7", "8", "9", "10"]

/-- The date formats are numbered 1 to 9 and A to D. -/
def dateDigits : List String :=
  ["1", "2", "3", "4", "5", "6", "7", "8", "9", "A", "B", "C", "D"]

def name : Register → String
  | dat i => "DAT" ++ digits.getD i ""
  | int i => "INT" ++ digits.getD i ""
  | flt i => "FLT" ++ digits.getD i ""
  | usr i => "USR" ++ digits.getD i ""
  | date i => "DATE" ++ dateDigits.getD i ""
  | time i => "TIME" ++ digits.getD i ""
  | htid => "HTID"
  | bst i => "BST" ++ digits.getD i ""
  | rslt => "RSLT"
  | brcod => "BRCOD"
  | numbr => "NUMBR"
  | endky => "ENDKY"

/-- The whole catalog in its order. -/
def all : List Register :=
  (List.finRange 10).map dat ++ (List.finRange 10).map int ++ (List.finRange 10).map flt ++
    (List.finRange 3).map usr ++ (List.finRange 13).map date ++ (List.finRange 4).map time ++
    [htid] ++ (List.finRange 4).map bst ++ [rslt, brcod, numbr, endky]

def ofName? (s : String) : Option Register := all.find? fun r => r.name = s

/-- The pooled registers of one kind, in catalog order. -/
def pool (k : Kind) : List Register := all.filter fun r => r.isPooled && r.kind = k

/-- Status registers mean something only right after the instruction that set them, so an
assignment may not read them. -/
def isUnreadable : Register → Bool
  | rslt | brcod | numbr | endky => true
  | _ => false

theorem mem_all (r : Register) : r ∈ all := by
  cases r <;> simp [all]

theorem map_rank_all : all.map rank = List.range 59 := rfl

/-- The catalog is in the order of its places. -/
theorem pairwise_all : all.Pairwise (·.rank < ·.rank) := by
  have hranks : (all.map rank).Pairwise (· < ·) := map_rank_all ▸ List.pairwise_lt_range
  exact List.pairwise_map.mp hranks

theorem mem_pool {k : Kind} {r : Register} : r ∈ pool k ↔ r.isPooled = true ∧ r.kind = k := by
  simp [pool, r.mem_all]

theorem pairwise_pool (k : Kind) : (pool k).Pairwise (·.rank < ·.rank) := pairwise_all.filter _

/-- The pooled registers for text are one group. -/
theorem eq_dat {r : Register} (hp : r.isPooled = true) (hk : r.kind = .text) : ∃ i, r = .dat i := by
  cases r <;> simp_all [isPooled, role, kind]

end Register
end Handheld
