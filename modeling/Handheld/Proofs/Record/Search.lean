import Handheld.Proofs.Record.Pointer

namespace Handheld

namespace Text

variable {t u : Text}

/-- A byte comes before, behind, or is the same. -/
theorem byte_cases (x y : UInt8) : x < y ∨ x = y ∨ y < x := by
  by_cases h : x = y
  · exact .inr (.inl h)
  · rcases UInt8.lt_or_lt_of_ne h with h | h
    · exact .inl h
    · exact .inr (.inr h)

theorem compareLex_swap (a b : List UInt8) :
    order.compareLex b a = (order.compareLex a b).swap := by
  induction a generalizing b with
  | nil => cases b <;> rfl
  | cons x r ih =>
    cases b with
    | nil => rfl
    | cons y s =>
      rcases byte_cases x y with h | rfl | h
      · simp [order.compareLex, h, UInt8.lt_asymm h]
      · simpa [order.compareLex] using ih s
      · simp [order.compareLex, h, UInt8.lt_asymm h]

/-- Comparing the other way round. -/
theorem order_swap (t u : Text) : u.order t = (t.order u).swap := compareLex_swap _ _

theorem eq_of_compareLex {a b : List UInt8} (h : order.compareLex a b = .eq) : a = b := by
  induction a generalizing b with
  | nil =>
    cases b with
    | nil => rfl
    | cons y s => cases h
  | cons x r ih =>
    cases b with
    | nil => cases h
    | cons y s =>
      rcases byte_cases x y with hxy | rfl | hxy
      · simp [order.compareLex, hxy] at h
      · rw [ih (by simpa [order.compareLex] using h)]
      · simp [order.compareLex, hxy, UInt8.lt_asymm hxy] at h

theorem eq_of_order (h : t.order u = .eq) : t = u := Text.ext (eq_of_compareLex h)

end Text

namespace RecordFile

/-- The key of a record: its fields, one behind the other. -/
def keyOf (record : Text) (fields : List KeyField) : Text :=
  .join (fields.map fun k => record.slice k.offset k.len)

theorem joined_eq_keyOf (record : Text) (fields : List KeyField) :
    joined record fields = keyOf record fields := by
  have hfold (key : Text) :
      fields.foldl (fun key k => key ++ record.slice k.offset k.len) key = key ++ keyOf record fields := by
    induction fields generalizing key with
    | nil => exact key.append_empty.symm
    | cons k rest ih => exact (ih _).trans (Text.append_join key _ _)
  exact hfold .empty

/-- The keys of the whole records do not decrease from one record to a later one. -/
def Ascending (f : RecordFile) (len : Nat) (fields : List KeyField) : Prop :=
  ∀ i j, i ≤ j → j < f.size / len →
    (keyOf (f.record len i) fields).order (keyOf (f.record len j) fields) ≠ .gt

variable {f : RecordFile} {len : Nat} {fields : List KeyField} {key : Text}

theorem count_eq_div (f : RecordFile) (len : Nat) : f.count len = f.size / len := by
  unfold count
  split
  · next h => rw [h, Nat.div_zero]
  · rfl

/-- What is found has the key. -/
theorem keyOf_searchRange {low high i : Nat} (h : f.searchRange len fields key low high = some i) :
    keyOf (f.record len i) fields = key := by
  fun_induction searchRange f len fields key low high with
  | case1 low high hlt mid hcmp ih => exact ih h
  | case2 low high hlt mid hcmp ih => exact ih h
  | case3 low high hlt mid hcmp =>
    obtain rfl : mid = i := Option.some.inj h
    rw [← joined_eq_keyOf]
    exact Text.eq_of_order hcmp
  | case4 => cases h

/-- The range that is left holds every record with the key. -/
theorem searchRange_isSome (hasc : f.Ascending len fields) {low high i : Nat}
    (hhigh : high ≤ f.size / len) (hlow : low ≤ i) (hi : i < high)
    (hkey : keyOf (f.record len i) fields = key) :
    (f.searchRange len fields key low high).isSome := by
  fun_induction searchRange f len fields key low high with
  | case1 low high hlt mid hcmp ih =>
    -- The middle key comes before the one sought, which is not at or before the middle.
    have hafter : mid < i := by
      refine Nat.lt_of_not_le fun hle => hasc i mid hle (by omega) ?_
      rw [hkey, Text.order_swap, ← joined_eq_keyOf, hcmp]
      rfl
    exact ih hhigh hafter hi
  | case2 low high hlt mid hcmp ih =>
    -- The middle key comes behind the one sought, which is not at or behind the middle.
    have hbefore : i < mid := by
      refine Nat.lt_of_not_le fun hle => hasc mid i hle (by omega) ?_
      rw [hkey, ← joined_eq_keyOf, hcmp]
    exact ih (by omega) hlow hbefore
  | case3 => rfl
  | case4 low high hlt => omega

/-- The search goes to a whole record with the key, or leaves the file; where the keys ascend, it does so
only if no record has the key. -/
theorem search_cases (f : RecordFile) (len : Nat) (fields : List KeyField) (key : Text) :
    (∃ i < f.size / len, keyOf (f.record len i) fields = key ∧
      f.search len fields key = (some (f.record len i), f.sought (i * len))) ∨
    (f.search len fields key = (none, f) ∧
      (f.Ascending len fields → ∀ i < f.size / len, keyOf (f.record len i) fields ≠ key)) := by
  unfold search
  rw [count_eq_div]
  cases hr : f.searchRange len fields key 0 (f.size / len) with
  | some i => exact .inl ⟨i, searchRange_lt hr, keyOf_searchRange hr, rfl⟩
  | none =>
    refine .inr ⟨rfl, fun hasc i hi hkey => ?_⟩
    have hsome := searchRange_isSome hasc (Nat.le_refl _) (Nat.zero_le i) hi hkey
    rw [hr] at hsome
    cases hsome

/-- The records that are counted are whole. -/
theorem length_record {i : Nat} (h : i < f.size / len) : (f.record len i).length = len := by
  have hle := record_le (f.count_eq_div len ▸ h)
  rw [Nat.succ_mul] at hle
  exact length_slice hle

end RecordFile
end Handheld
