import Handheld.Proofs.Machine.Range
import Handheld.Proofs.Text.Splice

namespace Handheld.Screen

variable {s : Screen} {r c len : Nat} {t : Text}

/-- The byte in a cell. -/
def cell? (s : Screen) (r c : Nat) : Option UInt8 := (s.row r).bytes[c]?

theorem Exact.cell?_eq_none (hs : s.Exact) (h : s.rows.length ≤ r ∨ s.columns ≤ c) : s.cell? r c = none := by
  rw [cell?]
  by_cases hr : r < s.rows.length
  · have hrow : (s.row r).bytes.length = s.columns := hs.length_row hr
    exact List.getElem?_eq_none (by omega)
  · rw [row, List.getElem?_eq_none (Nat.le_of_not_lt hr)]
    rfl

theorem Exact.cell?_isSome (hs : s.Exact) (hr : r < s.rows.length) (hc : c < s.columns) :
    ∃ byte, s.cell? r c = some byte := by
  have hrow : (s.row r).bytes.length = s.columns := hs.length_row hr
  exact ⟨_, List.getElem?_eq_getElem (hrow ▸ hc)⟩

/-- Writing changes the cells written to. -/
theorem cell?_put (hs : s.Exact) (hr : r < s.rows.length) (hc : c + t.length ≤ s.columns) (r' c' : Nat) :
    (s.put r c t).cell? r' c' =
      if r' = r ∧ c ≤ c' ∧ c' < c + t.length then t.bytes[c' - c]? else s.cell? r' c' := by
  by_cases hrow : r' = r
  · subst hrow
    have hput : (s.put r' c t).row r' = (s.row r').replace c t := by
      rw [row, put, List.getElem?_set_self hr]
      rfl
    rw [cell?, hput, Text.getElem?_replace_within (by rwa [hs.length_row hr])]
    simp only [true_and]
    rfl
  · have hput : (s.put r c t).row r' = s.row r' := by
      rw [row, put, List.getElem?_set_ne (Ne.symm hrow)]
      rfl
    rw [cell?, hput, if_neg fun h => hrow h.1]
    rfl

/-- Text that fits its row is put there. -/
theorem apply_text (hr : r < s.rows.length) (hlen : 0 < t.length) (hc : c + t.length ≤ s.columns) :
    s.apply (.text r c t) = s.put r c t := by
  have hall : t.slice 0 (s.columns - c) = t := by
    rw [Text.slice, List.drop_zero, List.take_of_length_le (by rw [Text.length] at hc; omega)]
  have hvisible : s.visible? r c t = some t := by
    rw [visible?, if_pos ⟨hr, by omega⟩, hall]
  rw [apply, hvisible]

theorem cell?_text (hs : s.Exact) (hr : r < s.rows.length) (hc : c < s.columns) (byte : UInt8)
    (r' c' : Nat) :
    (s.apply (.text r c ⟨[byte]⟩)).cell? r' c' =
      if r' = r ∧ c' = c then some byte else s.cell? r' c' := by
  have hone : (⟨[byte]⟩ : Text).length = 1 := rfl
  rw [apply_text hr (by rw [hone]; omega) (by rw [hone]; omega), cell?_put hs hr (by rw [hone]; omega), hone]
  by_cases hcell : r' = r ∧ c' = c
  · obtain ⟨rfl, rfl⟩ := hcell
    rw [if_pos ⟨rfl, Nat.le_refl _, by omega⟩, if_pos ⟨rfl, rfl⟩, Nat.sub_self]
    rfl
  · rw [if_neg hcell, if_neg fun h => hcell ⟨h.1, by omega⟩]

/-- Clearing a region blanks the cells of it that there are. -/
theorem Exact.cell?_clearRegion (hs : s.Exact) (r' c' : Nat) :
    (s.apply (.clearRegion r c len)).cell? r' c' =
      if r' = r ∧ c ≤ c' ∧ c' < c + len then (s.cell? r' c').map fun _ => Text.fill
      else s.cell? r' c' := by
  rw [Screen.apply, erasure?]
  split
  · next hcleared =>
    -- the region ends at its own end or at the right edge
    split at hcleared
    · next hin =>
      obtain ⟨hr, hc⟩ := hin
      cases hcleared
      have hlength : (Text.spaces (min (c + len) s.columns - c)).length = min (c + len) s.columns - c :=
        List.length_replicate
      rw [cell?_put hs hr (by rw [hlength]; omega), hlength]
      by_cases hcell : r' = r ∧ c ≤ c' ∧ c' < c + len
      · rw [if_pos hcell]
        by_cases hright : c' < s.columns
        · obtain ⟨byte, hbyte⟩ := hs.cell?_isSome (r := r') (hcell.1 ▸ hr) hright
          rw [if_pos ⟨hcell.1, by omega, by omega⟩, hbyte]
          exact List.getElem?_replicate_of_lt (by omega)
        · rw [if_neg (by omega), hs.cell?_eq_none (.inr (by omega))]
          rfl
      · rw [if_neg hcell, if_neg (by omega)]
    · cases hcleared
  · next hnothing =>
    split at hnothing
    · cases hnothing
    · next hout =>
      split
      · rw [hs.cell?_eq_none (by omega)]
        rfl
      · rfl

/-- A region that fits its row is blank behind. -/
theorem cell?_clearRegion (hs : s.Exact) (hr : r < s.rows.length) (hc : c + len ≤ s.columns)
    (r' c' : Nat) :
    (s.apply (.clearRegion r c len)).cell? r' c' =
      if r' = r ∧ c ≤ c' ∧ c' < c + len then some Text.fill else s.cell? r' c' := by
  rw [hs.cell?_clearRegion]
  split
  · next hin =>
    obtain ⟨byte, hbyte⟩ := hs.cell?_isSome (r := r') (c := c') (hin.1 ▸ hr) (by omega)
    rw [hbyte]
    rfl
  · rfl

end Handheld.Screen
