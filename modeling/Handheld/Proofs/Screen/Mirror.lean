import Handheld.Proofs.Screen.Cells

namespace Handheld.Screen

variable {s : Screen} {mirror : List Text} {rows columns r c : Nat} {d : Drawing} {x : Damage}

/-- The cell is one of those damaged. -/
def Damage.Covers (x : Damage) (r c : Nat) : Prop := r = x.row ∧ x.col ≤ c ∧ c < x.col + x.len

instance (x : Damage) (r c : Nat) : Decidable (x.Covers r c) :=
  inferInstanceAs (Decidable (_ ∧ _ ∧ _))

/-- Copies the damaged cells of the screen, and looks at no other. -/
def copyDamage (s : Screen) (mirror : List Text) (x : Damage) : List Text :=
  mirror.mapIdx fun r line =>
    ⟨line.bytes.mapIdx fun c byte => if x.Covers r c then (s.cell? r c).getD byte else byte⟩

/-- What a watcher of the screen has behind a drawing: the cells of each damage told to him, as they are
when all is drawn. -/
def watch (s : Screen) (mirror : List Text) (d : Drawing) : List Text :=
  (s.damage d).foldl (s.apply d).copyDamage mirror

/-- A watcher of one drawing after the other. -/
def watchAll (s : Screen) (mirror : List Text) : List Drawing → List Text
  | [] => mirror
  | d :: ds => (s.apply d).watchAll (s.watch mirror d) ds

section Copies

/-- The byte in a cell of some rows. -/
def cellOf? (lines : List Text) (r c : Nat) : Option UInt8 := ((lines[r]?).getD .empty).bytes[c]?

theorem ext_cells {a b : List Text} (hlength : a.length = b.length)
    (hcells : ∀ r c, cellOf? a r c = cellOf? b r c) : a = b := by
  refine List.ext_getElem hlength fun r ha hb => Text.ext (List.ext_getElem? fun c => ?_)
  have hcell := hcells r c
  rw [cellOf?, cellOf?, List.getElem?_eq_getElem ha, List.getElem?_eq_getElem hb] at hcell
  exact hcell

theorem cellOf?_copyDamage (s : Screen) (mirror : List Text) (x : Damage) (r c : Nat) :
    cellOf? (s.copyDamage mirror x) r c =
      (cellOf? mirror r c).map fun byte => if x.Covers r c then (s.cell? r c).getD byte else byte := by
  rw [cellOf?, cellOf?, copyDamage, List.getElem?_mapIdx]
  cases mirror[r]? with
  | none => rfl
  | some line =>
    show (line.bytes.mapIdx _)[c]? = _
    rw [List.getElem?_mapIdx]
    rfl

theorem length_watch (s : Screen) (mirror : List Text) (d : Drawing) :
    (s.watch mirror d).length = mirror.length := by
  have hfold (xs : List Damage) (mirror : List Text) :
      (xs.foldl (s.apply d).copyDamage mirror).length = mirror.length := by
    induction xs generalizing mirror with
    | nil => rfl
    | cons x xs ih =>
      rw [List.foldl_cons, ih, copyDamage, List.length_mapIdx]
  exact hfold _ _

/-- A copy that is right stays right. -/
theorem foldl_copyDamage_keeps (h : cellOf? mirror r c = s.cell? r c) (xs : List Damage) :
    cellOf? (xs.foldl s.copyDamage mirror) r c = s.cell? r c := by
  induction xs generalizing mirror with
  | nil => exact h
  | cons x xs ih =>
    refine ih ?_
    rw [cellOf?_copyDamage, h]
    cases s.cell? r c with
    | none => rfl
    | some byte =>
      rw [Option.map_some, Option.getD_some, ite_self]

/-- A damaged cell that there is a place for is copied. -/
theorem foldl_copyDamage_copies {xs : List Damage} {new : UInt8} (hnew : s.cell? r c = some new)
    (hplace : (cellOf? mirror r c).isSome) (hx : x ∈ xs) (hcovers : x.Covers r c) :
    cellOf? (xs.foldl s.copyDamage mirror) r c = s.cell? r c := by
  obtain ⟨old, hold⟩ := Option.isSome_iff_exists.mp hplace
  induction xs generalizing mirror old with
  | nil => cases hx
  | cons y ys ih =>
    have hstep := cellOf?_copyDamage s mirror y r c
    rw [hold, Option.map_some] at hstep
    rcases List.mem_cons.mp hx with rfl | hlater
    · rw [if_pos hcovers, hnew, Option.getD_some] at hstep
      exact foldl_copyDamage_keeps (hstep.trans hnew.symm) ys
    · exact ih (hstep ▸ rfl) hlater _ hstep

end Copies

section Damage

/-- What a drawing can do to the cells: it writes over a part of one row and reports that part, or it
clears all, or it leaves them. -/
theorem apply_cases (s : Screen) (d : Drawing) :
    (∃ r c t, r < s.rows.length ∧ c + t.length ≤ s.columns ∧ s.apply d = s.put r c t ∧
      s.damage d = [⟨r, c, t.length⟩]) ∨
    d = .clearAll ∨ (s.apply d).rows = s.rows := by
  cases d with
  | clearAll => exact .inr (.inl rfl)
  | clearRegion r c len =>
    rw [apply, damage]
    cases ht : s.erasure? r c len with
    | none => exact .inr (.inr rfl)
    | some t =>
      obtain ⟨hr, hc⟩ := erasure?_eq_some ht
      exact .inl ⟨r, c, t, hr, hc, rfl, rfl⟩
  | text r c t =>
    rw [apply, damage]
    cases ht : s.visible? r c t with
    | none => exact .inr (.inr rfl)
    | some shown =>
      obtain ⟨hr, hc⟩ := visible?_eq_some ht
      exact .inl ⟨r, c, shown, hr, hc, rfl, rfl⟩
  | cursor | hideCursor | beep => exact .inr (.inr rfl)

/-- No cell changes without being reported. -/
theorem Exact.damage_of_ne (hs : s.Exact) (h : (s.apply d).cell? r c ≠ s.cell? r c) :
    ∃ x ∈ s.damage d, x.Covers r c := by
  rcases s.apply_cases d with ⟨row, col, t, hrow, hcol, happly, hdamage⟩ | rfl | hrows
  · rw [hdamage]
    refine ⟨_, List.mem_singleton_self _, ?_⟩
    rw [happly, cell?_put hs hrow hcol] at h
    by_contra hout
    exact h (if_neg hout)
  · by_cases hin : r < s.rows.length ∧ c < s.columns
    · refine ⟨⟨r, 0, s.columns⟩, List.mem_map.mpr ⟨r, List.mem_range.mpr hin.1, rfl⟩, rfl, Nat.zero_le c, ?_⟩
      show c < 0 + s.columns
      omega
    · -- there is no such cell, before and behind
      have hout : s.rows.length ≤ r ∨ s.columns ≤ c := by omega
      obtain ⟨hcolumns, hrows⟩ := s.size_apply .clearAll
      have hafter := (hs.apply .clearAll).cell?_eq_none (by rwa [hrows, hcolumns])
      exact absurd (hafter.trans (hs.cell?_eq_none hout).symm) h
  · rw [cell?, row, hrows] at h
    exact absurd rfl h

/-- A watcher who has the screen has it again behind the next drawing. -/
theorem Exact.watch_rows (hs : s.Exact) (d : Drawing) : s.watch s.rows d = (s.apply d).rows := by
  obtain ⟨hcolumns, hrows⟩ := s.size_apply d
  refine ext_cells ((s.length_watch s.rows d).trans hrows.symm) fun r c => ?_
  by_cases hsame : (s.apply d).cell? r c = s.cell? r c
  · exact foldl_copyDamage_keeps hsame.symm _
  · obtain ⟨x, hx, hcovers⟩ := hs.damage_of_ne hsame
    obtain ⟨hrow, hright⟩ := damage_within hx
    have hr : r < s.rows.length := hcovers.1 ▸ hrow
    have hc : c < s.columns := Nat.lt_of_lt_of_le hcovers.2.2 hright
    obtain ⟨old, hold⟩ := hs.cell?_isSome hr hc
    obtain ⟨new, hnew⟩ := (hs.apply d).cell?_isSome (hrows ▸ hr) (hcolumns ▸ hc)
    exact foldl_copyDamage_copies hnew (Option.isSome_iff_exists.mpr ⟨old, hold⟩) hx hcovers

end Damage

section Runs

/-- A screen of a fixed size with its cursor inside, if it has one. -/
structure Sized (s : Screen) (rows columns : Nat) : Prop where
  height : s.rows.length = rows
  width : s.columns = columns
  exact : s.Exact
  cursor : ∀ k ∈ s.cursor, k.row < rows ∧ k.col < columns

theorem sized_blank (rows columns : Nat) : (blank rows columns).Sized rows columns :=
  ⟨List.length_replicate, rfl, exact_blank rows columns, nofun⟩

/-- A cursor is shown inside the screen only. -/
theorem cursor_apply {k : Cursor} (h : k ∈ (s.apply d).cursor) :
    k ∈ s.cursor ∨ k.row < s.rows.length ∧ k.col < s.columns := by
  cases d with
  | cursor row col shape =>
    simp only [Screen.apply] at h
    split at h
    · next hin =>
      cases h
      exact .inr ⟨hin.1, hin.2.1⟩
    · cases h
  | hideCursor => cases h
  | clearRegion row col len =>
    simp only [Screen.apply] at h
    split at h <;> exact .inl h
  | text row col t =>
    simp only [Screen.apply] at h
    split at h <;> exact .inl h
  | clearAll | beep => exact .inl h

theorem Sized.apply (h : s.Sized rows columns) (d : Drawing) : (s.apply d).Sized rows columns := by
  obtain ⟨hcolumns, hrows⟩ := s.size_apply d
  refine ⟨hrows.trans h.height, hcolumns.trans h.width, h.exact.apply d, fun k hk => ?_⟩
  rcases cursor_apply hk with hbefore | hinside
  · exact h.cursor k hbefore
  · rwa [h.height, h.width] at hinside

/-- The size, and the copy of a watcher, through any number of drawings. -/
theorem Sized.run (h : s.Sized rows columns) (ds : List Drawing) :
    (ds.foldl Screen.apply s).Sized rows columns ∧
      s.watchAll s.rows ds = (ds.foldl Screen.apply s).rows := by
  induction ds generalizing s with
  | nil => exact ⟨h, rfl⟩
  | cons d ds ih =>
    obtain ⟨hsized, hwatched⟩ := ih (h.apply d)
    refine ⟨hsized, ?_⟩
    rw [watchAll, h.exact.watch_rows d]
    exact hwatched

/-- Behind any drawings the screen has its size and its cursor inside, if it has one; the next drawing
damages only cells that there are; and the damage has been enough to copy the screen. -/
theorem damage_mirrors (rows columns : Nat) (ds : List Drawing) :
    (ds.foldl Screen.apply (blank rows columns)).Sized rows columns ∧
      (∀ d, ∀ x ∈ (ds.foldl Screen.apply (blank rows columns)).damage d,
        x.row < rows ∧ x.col + x.len ≤ columns) ∧
      (blank rows columns).watchAll (blank rows columns).rows ds =
        (ds.foldl Screen.apply (blank rows columns)).rows := by
  obtain ⟨hsized, hwatched⟩ := (sized_blank rows columns).run ds
  refine ⟨hsized, fun d x hx => ?_, hwatched⟩
  have hwithin := damage_within hx
  rwa [Damage.Within, hsized.height, hsized.width] at hwithin

end Runs

end Handheld.Screen
