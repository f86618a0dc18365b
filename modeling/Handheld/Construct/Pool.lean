import Handheld.Register

namespace Handheld

namespace Register

variable {r q : Register} {rs catalog : List Register}

/-- Puts the register in front of the first one that comes behind it in the catalog. -/
def insertInto (r : Register) : List Register → List Register
  | [] => [r]
  | q :: rest => if r.rank < q.rank then r :: q :: rest else q :: r.insertInto rest

theorem mem_insertInto : q ∈ r.insertInto rs ↔ q = r ∨ q ∈ rs := by
  induction rs with
  | nil => simp [insertInto]
  | cons p rest ih =>
    unfold insertInto
    split
    · exact List.mem_cons
    · rw [List.mem_cons, ih, List.mem_cons]
      exact or_left_comm

theorem length_insertInto (r : Register) (rs : List Register) :
    (r.insertInto rs).length = rs.length + 1 := by
  induction rs with
  | nil => rfl
  | cons q rest ih =>
    unfold insertInto
    split
    · rfl
    · simp [ih]

theorem insertInto_of_lt (h : ∀ q ∈ rs, r.rank < q.rank) : r.insertInto rs = r :: rs := by
  cases rs with
  | nil => rfl
  | cons q rest => exact if_pos (h q List.mem_cons_self)

/-- By induction on the catalog: the register is put where the catalog has it. -/
theorem insertInto_sublist (hc : catalog.Pairwise (·.rank < ·.rank)) (h : rs.Sublist catalog)
    (hr : r ∈ catalog) (hnot : r ∉ rs) : (r.insertInto rs).Sublist catalog := by
  induction h with
  | slnil => cases hr
  | @cons rs rest q h ih =>
    obtain ⟨hq, hrest⟩ := List.pairwise_cons.mp hc
    rcases List.mem_cons.mp hr with rfl | hr
    · have hbehind : ∀ p ∈ rs, r.rank < p.rank := fun p hp => hq p (h.subset hp)
      rw [insertInto_of_lt hbehind]
      exact h.cons_cons r
    · exact (ih hrest hr hnot).cons q
  | @cons_cons rs rest q h ih =>
    obtain ⟨hq, hrest⟩ := List.pairwise_cons.mp hc
    have hne : r ≠ q := fun he => hnot (he ▸ List.mem_cons_self)
    have hnot : r ∉ rs := fun hmem => hnot (List.mem_cons_of_mem q hmem)
    have hr : r ∈ rest := (List.mem_cons.mp hr).resolve_left hne
    have hbehind : ¬ r.rank < q.rank := Nat.lt_asymm (hq r hr)
    rw [insertInto, if_neg hbehind]
    exact (ih hrest hr hnot).cons_cons q

end Register

/-- The free registers of a kind, in catalog order. -/
structure Pool (k : Kind) where
  free : List Register
  within : free.Sublist (Register.pool k)
  deriving DecidableEq

namespace Pool

variable {k : Kind} {p q : Pool k} {r : Register}

def full (k : Kind) : Pool k := ⟨Register.pool k, .refl _⟩

/-- The first free register, and the pool without it. -/
def takeFirst? : Pool k → Option (Register × Pool k)
  | ⟨[], _⟩ => none
  | ⟨r :: rest, h⟩ => some (r, ⟨rest, (List.sublist_cons_self r rest).trans h⟩)

theorem pairwise_free (p : Pool k) : p.free.Pairwise (·.rank < ·.rank) :=
  (Register.pairwise_pool k).sublist p.within

/-- The pool with the register put back; none if it is free already. -/
def insert? (p : Pool k) (r : Register) (hr : r ∈ Register.pool k) : Option (Pool k) :=
  if h : r ∈ p.free then none
  else some ⟨r.insertInto p.free, Register.insertInto_sublist (Register.pairwise_pool k) p.within hr h⟩

theorem ext (h : p.free = q.free) : p = q := by
  cases p
  cases q
  cases h
  rfl

theorem takeFirst?_eq_none : p.takeFirst? = none ↔ p.free = [] := by
  obtain ⟨_ | ⟨r, rest⟩, h⟩ := p
  · exact iff_of_true rfl rfl
  · exact iff_of_false nofun nofun

theorem takeFirst?_eq_some : p.takeFirst? = some (r, q) ↔ p.free = r :: q.free := by
  obtain ⟨_ | ⟨r', rest⟩, h⟩ := p
  · exact iff_of_false nofun nofun
  · constructor
    · intro he
      obtain ⟨rfl, rfl⟩ := Prod.mk.inj (Option.some.inj he)
      rfl
    · intro he
      obtain ⟨rfl, hrest⟩ := List.cons.inj he
      exact congrArg (fun q => some (r', q)) (ext hrest)

theorem insert?_eq_none {hr : r ∈ Register.pool k} : p.insert? r hr = none ↔ r ∈ p.free := by
  unfold insert?
  split
  · next h => exact iff_of_true rfl h
  · next h => exact iff_of_false nofun h

theorem free_insert? {hr : r ∈ Register.pool k} (h : p.insert? r hr = some q) :
    r ∉ p.free ∧ q.free = r.insertInto p.free := by
  unfold insert? at h
  split at h
  · cases h
  · next hnot =>
    cases h
    exact ⟨hnot, rfl⟩

/-- The register taken last goes back to its place. -/
theorem insert?_takeFirst? (h : p.takeFirst? = some (r, q)) (hr : r ∈ Register.pool k) :
    q.insert? r hr = some p := by
  have hfree := takeFirst?_eq_some.mp h
  obtain ⟨hbehind, -⟩ := List.pairwise_cons.mp (hfree ▸ p.pairwise_free)
  have hnot : r ∉ q.free := fun hmem => Nat.lt_irrefl _ (hbehind r hmem)
  unfold insert?
  rw [dif_neg hnot]
  refine congrArg some (ext ?_)
  rw [hfree]
  exact Register.insertInto_of_lt hbehind

end Pool

/-- The pools that temporaries are taken from, one for each kind. -/
structure Pools where
  text : Pool .text
  int : Pool .int
  float : Pool .float
  deriving DecidableEq

namespace Pools

variable {k : Kind} {ps qs : Pools} {r : Register}

def full : Pools := ⟨.full .text, .full .int, .full .float⟩

def get (ps : Pools) : (k : Kind) → Pool k
  | .text => ps.text
  | .int => ps.int
  | .float => ps.float

def set (ps : Pools) : (k : Kind) → Pool k → Pools
  | .text, p => { ps with text := p }
  | .int, p => { ps with int := p }
  | .float, p => { ps with float := p }

/-- The first free register of the kind, and the pools without it. -/
def take? (ps : Pools) (k : Kind) : Option (Register × Pools) :=
  (ps.get k).takeFirst?.map fun a => (a.1, ps.set k a.2)

/-- The pools with the register put back; none if it does not come from a pool, or is free already. -/
def give? (ps : Pools) (r : Register) : Option Pools :=
  if h : r.isPooled then
    ((ps.get r.kind).insert? r (Register.mem_pool.mpr ⟨h, rfl⟩)).map (ps.set r.kind)
  else none

/-- How many registers are free. -/
def size (ps : Pools) : Nat :=
  (ps.get .text).free.length + (ps.get .int).free.length + (ps.get .float).free.length

theorem get_full (k : Kind) : full.get k = .full k := by
  cases k <;> rfl

theorem get_set (ps : Pools) (k : Kind) (p : Pool k) : (ps.set k p).get k = p := by
  cases k <;> rfl

theorem get_set_of_ne {j : Kind} (h : j ≠ k) (ps : Pools) (p : Pool k) : (ps.set k p).get j = ps.get j := by
  cases k <;> cases j <;> first | rfl | exact absurd rfl h

theorem ext (h : ∀ k, (ps.get k).free = (qs.get k).free) : ps = qs := by
  have htext : ps.text = qs.text := Pool.ext (h .text)
  have hint : ps.int = qs.int := Pool.ext (h .int)
  have hfloat : ps.float = qs.float := Pool.ext (h .float)
  cases ps
  cases qs
  cases htext
  cases hint
  cases hfloat
  rfl

theorem take?_eq_none : ps.take? k = none ↔ (ps.get k).free = [] :=
  Option.map_eq_none_iff.trans Pool.takeFirst?_eq_none

/-- Taking a register leaves the others of its pool, and the other pools. -/
theorem free_take? (h : ps.take? k = some (r, qs)) :
    (ps.get k).free = r :: (qs.get k).free ∧ ∀ j, j ≠ k → qs.get j = ps.get j := by
  obtain ⟨⟨r', p⟩, hfirst, he⟩ := Option.map_eq_some_iff.mp h
  obtain ⟨rfl, rfl⟩ := Prod.mk.inj he
  rw [get_set]
  exact ⟨Pool.takeFirst?_eq_some.mp hfirst, fun j hj => get_set_of_ne hj ps p⟩

theorem mem_pool_of_take? (h : ps.take? k = some (r, qs)) : r ∈ Register.pool k :=
  (ps.get k).within.subset ((free_take? h).1 ▸ List.mem_cons_self)

theorem give?_eq_none : ps.give? r = none ↔ r.isPooled = false ∨ r ∈ (ps.get r.kind).free := by
  unfold give?
  split
  · next h => simp [h, Pool.insert?_eq_none]
  · next h => simp [h]

/-- Putting a register back adds it to its pool, and leaves the other pools. -/
theorem free_give? (h : ps.give? r = some qs) :
    r.isPooled = true ∧ r ∉ (ps.get r.kind).free ∧
      (qs.get r.kind).free = r.insertInto (ps.get r.kind).free ∧
      ∀ j, j ≠ r.kind → qs.get j = ps.get j := by
  unfold give? at h
  split at h
  · next hpooled =>
    obtain ⟨p, hinsert, rfl⟩ := Option.map_eq_some_iff.mp h
    obtain ⟨hnot, hfree⟩ := Pool.free_insert? hinsert
    rw [get_set]
    exact ⟨hpooled, hnot, hfree, fun j hj => get_set_of_ne hj ps p⟩
  · cases h

theorem size_succ (k : Kind) (hk : (ps.get k).free.length = (qs.get k).free.length + 1)
    (hothers : ∀ j, j ≠ k → qs.get j = ps.get j) : ps.size = qs.size + 1 := by
  have htext := hothers .text
  have hint := hothers .int
  have hfloat := hothers .float
  cases k <;> simp_all [size] <;> omega

theorem size_take? (h : ps.take? k = some (r, qs)) : ps.size = qs.size + 1 := by
  obtain ⟨hfree, hothers⟩ := free_take? h
  exact size_succ k (congrArg List.length hfree) hothers

theorem size_give? (h : ps.give? r = some qs) : qs.size = ps.size + 1 := by
  obtain ⟨-, -, hfree, hothers⟩ := free_give? h
  refine size_succ r.kind ?_ fun j hj => (hothers j hj).symm
  rw [hfree]
  exact Register.length_insertInto r _

/-- Putting back the register taken last undoes the taking. -/
theorem give?_take? (h : ps.take? k = some (r, qs)) : qs.give? r = some ps := by
  obtain ⟨hfree, hothers⟩ := free_take? h
  obtain ⟨hpooled, rfl⟩ := Register.mem_pool.mp (mem_pool_of_take? h)
  unfold give?
  rw [dif_pos hpooled, Pool.insert?_takeFirst? (Pool.takeFirst?_eq_some.mpr hfree)]
  refine congrArg some (ext fun j => ?_)
  by_cases hj : j = r.kind
  · subst hj
    rw [get_set]
  · rw [get_set_of_ne hj, hothers j hj]

end Pools
end Handheld
