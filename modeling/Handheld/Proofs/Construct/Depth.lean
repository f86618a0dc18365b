import Handheld.Proofs.Construct.Success

namespace Handheld

/-- Each open menu holds a temporary, so as many can be open as there are pooled integer
registers. -/
def menuLimit : Nat := 10

theorem length_pool : (Register.pool .int).length = menuLimit := Register.length_pool .int

mutual

/-- How many menus stand inside one another's actions. -/
def Construct.menuDepth : Construct → Nat
  | .block body => menuDepthAll body
  | .ifElse _ yes no => max (menuDepthAll yes) (menuDepthAll no)
  | .loop body => menuDepthAll body
  | .switch _ cases default => max (menuDepthCases cases) (menuDepthAll default)
  | .ifFileExists _ yes no => max (menuDepthAll yes) (menuDepthAll no)
  | .menuLoop entries _ _ => menuDepthEntries entries + 1
  | _ => 0

def menuDepthAll : List Construct → Nat
  | [] => 0
  | k :: rest => max k.menuDepth (menuDepthAll rest)

def menuDepthCases : List Case → Nat
  | [] => 0
  | .mk _ body :: rest => max (menuDepthAll body) (menuDepthCases rest)

def menuDepthEntries : List MenuEntry → Nat
  | [] => 0
  | .mk _ action :: rest => max (menuDepthAction action) (menuDepthEntries rest)

def menuDepthAction : Option (List Construct) → Nat
  | none => 0
  | some body => menuDepthAll body

end

namespace Context

/-- All pooled registers are free but for `n` integer registers. -/
structure Holding (c : Context) (n : Nat) : Prop where
  others : ∀ k, k ≠ .int → c.pools.get k = .full k
  count : (c.free .int).length + n = menuLimit

variable {c c' : Context} {n : Nat}

theorem Holding.initial : Holding Context.initial 0 := by
  refine ⟨fun k _ => Pools.get_full k, ?_⟩
  rw [free_initial, length_pool]
  rfl

theorem Holding.congr (h : c.Holding n) (he : c'.pools = c.pools) : c'.Holding n := by
  refine ⟨fun k hk => ?_, ?_⟩
  · rw [he]
    exact h.others k hk
  · rw [free_congr he]
    exact h.count

theorem Holding.le (h : c.Holding n) : n ≤ menuLimit := h.count ▸ Nat.le_add_left _ _

/-- Where none is in use the pools are full. -/
theorem Holding.pools_eq (h : c.Holding 0) : c.pools = .full := by
  refine Pools.ext fun k => ?_
  rw [Pools.get_full]
  by_cases hk : k = .int
  · subst hk
    have hlength : (c.free .int).length = (Register.pool .int).length := by
      rw [length_pool]
      exact h.count
    exact (c.pools.get .int).within.eq_of_length hlength
  · rw [h.others k hk]

theorem Holding.take? (h : c.Holding n) {r : Register} {pools : Pools}
    (ht : c.pools.take? .int = some (r, pools)) (m : String) :
    ({ c with pools }.note m).Holding (n + 1) := by
  obtain ⟨hfree, hothers⟩ := Pools.free_take? ht
  have hcount := h.count
  rw [Context.free, hfree, List.length_cons] at hcount
  refine ⟨fun k hk => (hothers k hk).trans (h.others k hk), ?_⟩
  show (pools.get .int).free.length + (n + 1) = menuLimit
  omega

theorem Holding.allocate (h : c.Holding n) {r : Register} (ha : c.allocate .int = .ok (r, c')) :
    c'.Holding (n + 1) := by
  obtain ⟨pools, htake, rfl⟩ := take?_allocate ha
  exact h.take? htake _

/-- While the pool is not used up there is a temporary to take. -/
theorem Holding.exists_take? (h : c.Holding n) (hn : n < menuLimit) :
    ∃ r pools, c.pools.take? .int = some (r, pools) := by
  cases ht : c.pools.take? .int with
  | none =>
    have hcount := h.count
    rw [Context.free, Pools.take?_eq_none.mp ht, List.length_nil] at hcount
    omega
  | some a => exact ⟨a.1, a.2, rfl⟩

/-- When all of the pool is in use there is none. -/
theorem Holding.allocate_error (h : c.Holding menuLimit) :
    c.allocate .int = .error (.poolExhausted .int) := by
  have hcount := h.count
  have hfree : c.free .int = [] := List.length_eq_zero_iff.mp (by omega)
  have hnone : c.pools.take? .int = none := Pools.take?_eq_none.mpr hfree
  simp only [Context.allocate, hnone]

end Context

end Handheld
