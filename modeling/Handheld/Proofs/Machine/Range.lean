import Handheld.Machine.Execute
import Handheld.Proofs.Line.Bounds

namespace Handheld

namespace Screen

/-- Every row is as wide as the screen. -/
def Exact (s : Screen) : Prop := ∀ r ∈ s.rows, r.length = s.columns

/-- Writing over cells that are all there. -/
def put? (s : Screen) (r c : Nat) (t : Text) : Except Overflow Screen :=
  if r < s.rows.length ∧ c + t.length ≤ (s.row r).length then .ok (s.put r c t)
  else .error .overflow

/-- A drawing that writes over no cell outside a row. -/
def applied? (s : Screen) : Drawing → Except Overflow Screen
  | .clearRegion r c len =>
    match s.erasure? r c len with
    | some t => s.put? r c t
    | none => .ok s
  | .text r c t =>
    match s.visible? r c t with
    | some t => s.put? r c t
    | none => .ok s
  | d => .ok (s.apply d)

/-- The number of beeps that a drawing is. -/
def Drawing.beeps : Drawing → Nat
  | .beep => 1
  | _ => 0

variable {s : Screen} {r c len : Nat} {t shown : Text}

theorem length_slice_le (t : Text) (start len : Nat) : (t.slice start len).length ≤ len := by
  simp only [Text.slice, Text.length, List.length_take]
  exact Nat.min_le_left _ _

theorem visible?_eq_some (h : s.visible? r c t = some shown) :
    r < s.rows.length ∧ c + shown.length ≤ s.columns := by
  unfold visible? at h
  split at h
  · next hin =>
    obtain rfl : t.slice 0 (s.columns - c) = shown := Option.some.inj h
    have hlen := length_slice_le t 0 (s.columns - c)
    exact ⟨hin.1, by omega⟩
  · cases h

theorem erasure?_eq_some (h : s.erasure? r c len = some shown) :
    r < s.rows.length ∧ c + shown.length ≤ s.columns := by
  unfold erasure? at h
  split at h
  · next hin =>
    obtain rfl : Text.spaces (min (c + len) s.columns - c) = shown := Option.some.inj h
    have hlen : (Text.spaces (min (c + len) s.columns - c)).length = min (c + len) s.columns - c := by
      simp [Text.length, Text.spaces, Text.filled]
    refine ⟨hin.1, ?_⟩
    rw [hlen]
    omega
  · cases h

theorem exact_blank (rows columns : Nat) : (blank rows columns).Exact := by
  intro r hr
  obtain rfl := List.eq_of_mem_replicate hr
  exact List.length_replicate

theorem Exact.length_row (h : s.Exact) (hr : r < s.rows.length) : (s.row r).length = s.columns := by
  rw [row, List.getElem?_eq_getElem hr]
  exact h _ (List.getElem_mem hr)

theorem Exact.put?_eq (h : s.Exact) (hr : r < s.rows.length) (hc : c + t.length ≤ s.columns) :
    s.put? r c t = .ok (s.put r c t) := by
  rw [put?, if_pos ⟨hr, (h.length_row hr).symm ▸ hc⟩]

/-- Drawing writes over cells that are there. -/
theorem Exact.applied?_eq (h : s.Exact) (d : Drawing) : s.applied? d = .ok (s.apply d) := by
  cases d with
  | clearRegion r c len =>
    cases ht : s.erasure? r c len with
    | none => simp [applied?, apply, ht]
    | some t =>
      obtain ⟨hr, hc⟩ := erasure?_eq_some ht
      simp only [applied?, apply, ht]
      exact h.put?_eq hr hc
  | text r c t =>
    cases ht : s.visible? r c t with
    | none => simp [applied?, apply, ht]
    | some shown =>
      obtain ⟨hr, hc⟩ := visible?_eq_some ht
      simp only [applied?, apply, ht]
      exact h.put?_eq hr hc
  | _ => rfl

theorem Exact.put (h : s.Exact) (hr : r < s.rows.length) (hc : c + t.length ≤ s.columns) :
    (s.put r c t).Exact := by
  intro line hline
  rcases List.mem_or_eq_of_mem_set hline with hline | rfl
  · exact h line hline
  · have hrow := h.length_row hr
    rw [Text.length_replace, hrow]
    exact Nat.max_eq_left hc

theorem size_apply (s : Screen) (d : Drawing) :
    (s.apply d).columns = s.columns ∧ (s.apply d).rows.length = s.rows.length := by
  cases d with
  | clearRegion r c len => simp only [apply]; split <;> simp [Screen.put]
  | text r c t => simp only [apply]; split <;> simp [Screen.put]
  | _ => simp [apply]

theorem Exact.apply (h : s.Exact) (d : Drawing) : (s.apply d).Exact := by
  cases d with
  | clearAll =>
    intro line hline
    obtain ⟨_, -, rfl⟩ := List.mem_map.mp hline
    simp [Text.length, Text.spaces, Text.filled, Screen.apply]
  | clearRegion r c len =>
    cases ht : s.erasure? r c len with
    | none => simpa only [Screen.apply, ht] using h
    | some t =>
      obtain ⟨hr, hc⟩ := erasure?_eq_some ht
      simpa only [Screen.apply, ht] using h.put hr hc
  | text r c t =>
    cases ht : s.visible? r c t with
    | none => simpa only [Screen.apply, ht] using h
    | some shown =>
      obtain ⟨hr, hc⟩ := visible?_eq_some ht
      simpa only [Screen.apply, ht] using h.put hr hc
  | cursor | hideCursor | beep => exact h

/-- Cells that lie on a screen. -/
def Damage.Within (d : Damage) (s : Screen) : Prop := d.row < s.rows.length ∧ d.col + d.len ≤ s.columns

/-- What a drawing overwrites lies on the screen. -/
theorem damage_within {e : Damage} {d : Drawing} (h : e ∈ s.damage d) : e.Within s := by
  cases d with
  | clearAll =>
    obtain ⟨r, hr, rfl⟩ := List.mem_map.mp h
    exact ⟨List.mem_range.mp hr, Nat.le_of_eq (Nat.zero_add _)⟩
  | clearRegion r c len =>
    simp only [damage] at h
    split at h
    · next ht =>
      obtain rfl := List.mem_singleton.mp h
      exact erasure?_eq_some ht
    · cases h
  | text r c t =>
    simp only [damage] at h
    split at h
    · next ht =>
      obtain rfl := List.mem_singleton.mp h
      exact visible?_eq_some ht
    · cases h
  | cursor | hideCursor | beep => cases h

theorem beeps_apply (s : Screen) (d : Drawing) : (s.apply d).beeps = s.beeps + d.beeps := by
  cases d with
  | clearRegion r c len => simp only [Screen.apply]; split <;> rfl
  | text r c t => simp only [Screen.apply]; split <;> rfl
  | _ => rfl

end Screen

namespace RecordFile

/-- The pointer stands in the file, and the file is not too long to exist. -/
structure Whole (f : RecordFile) : Prop where
  pointer : f.pointer ≤ f.size
  size : f.size < Text.sizeLimit

/-- The record with a number, if the file holds all of it. -/
def record? (f : RecordFile) (len index : Nat) : Except Overflow Text :=
  if (index + 1) * len ≤ f.size then .ok (f.record len index) else .error .overflow

/-- The search, which looks at no record that is not there. -/
def searchRange? (f : RecordFile) (len : Nat) (fields : List KeyField) (key : Text) (low high : Nat) :
    Except Overflow (Option Nat) :=
  if _ : low < high then
    let mid := low + (high - low) / 2
    match f.record? len mid with
    | .error e => .error e
    | .ok record =>
      match (joined record fields).order key with
      | .lt => searchRange? f len fields key (mid + 1) high
      | .gt => searchRange? f len fields key low mid
      | .eq => .ok (some mid)
  else .ok none
termination_by high - low

/-- The search with every place checked; a hit moves to its record. -/
def search? (f : RecordFile) (len : Nat) (fields : List KeyField) (key : Text) :
    Except Overflow (Option Text × RecordFile) :=
  match f.searchRange? len fields key 0 (f.count len) with
  | .error e => .error e
  | .ok none => .ok (none, f)
  | .ok (some i) => (f.position len i).map fun r => (some (f.record len i), r.2)

variable {f : RecordFile} {len : Nat} {fields : List KeyField} {key : Text}

/-- The records that are counted are there. -/
theorem record_le {i : Nat} (h : i < f.count len) : (i + 1) * len ≤ f.size := by
  unfold count at h
  split at h
  · cases h
  · exact Nat.le_trans (Nat.mul_le_mul_right len h) (Nat.div_mul_le_self f.size len)

theorem record?_eq {i : Nat} (h : i < f.count len) : f.record? len i = .ok (f.record len i) := by
  rw [record?, if_pos (record_le h)]

/-- A step of the search that looks at a record in the middle. -/
theorem searchRange?_step {low high : Nat} (hlt : low < high) (h : high ≤ f.count len) :
    f.searchRange? len fields key low high =
      match (joined (f.record len (low + (high - low) / 2)) fields).order key with
      | .lt => searchRange? f len fields key (low + (high - low) / 2 + 1) high
      | .gt => searchRange? f len fields key low (low + (high - low) / 2)
      | .eq => .ok (some (low + (high - low) / 2)) := by
  have hmid : low + (high - low) / 2 < f.count len := by omega
  rw [searchRange?, dif_pos hlt]
  simp only [record?_eq hmid]

theorem searchRange?_eq {low high : Nat} (h : high ≤ f.count len) :
    f.searchRange? len fields key low high = .ok (f.searchRange len fields key low high) := by
  fun_induction searchRange f len fields key low high with
  | case1 low high hlt mid hcmp ih =>
    simp only [searchRange?_step hlt h]
    rw [hcmp]
    exact ih h
  | case2 low high hlt mid hcmp ih =>
    simp only [searchRange?_step hlt h]
    rw [hcmp]
    exact ih (by omega)
  | case3 low high hlt mid hcmp =>
    simp only [searchRange?_step hlt h]
    rw [hcmp]
  | case4 low high hlt => rw [searchRange?, dif_neg hlt]

theorem searchRange_lt {low high i : Nat} (h : f.searchRange len fields key low high = some i) :
    i < high := by
  fun_induction searchRange f len fields key low high with
  | case1 low high hlt mid hcmp ih => exact ih h
  | case2 low high hlt mid hcmp ih =>
    have := ih h
    omega
  | case3 low high hlt mid hcmp =>
    obtain rfl : mid = i := Option.some.inj h
    omega
  | case4 => cases h

/-- Moving to a record that is counted. -/
theorem position_eq (hs : f.size < Text.sizeLimit) {i : Nat} (h : i < f.count len) :
    f.position len i = .ok (true, { f with pointer := i * len, eof := false }) := by
  have hle := record_le h
  have hlast : len * i + len ≤ f.size := by
    rw [Nat.mul_comm len i, ← Nat.succ_mul]
    exact hle
  have hword : len * i + len < Word.limit := by
    have : Text.sizeLimit < Word.limit := by decide
    omega
  have hcheck : Word.check (len * i + len) = .ok (len * i + len) :=
    Word.check_eq_ok_iff.mpr ⟨hword, rfl⟩
  rw [position, if_pos (by omega), hcheck]
  simp only [Except.map, if_pos hlast]
  simp only [seek, Nat.mul_comm len i]

/-- A search looks at records that are there, and moves to one of them. -/
theorem search?_eq (hs : f.size < Text.sizeLimit) (len : Nat) (fields : List KeyField) (key : Text) :
    f.search? len fields key = .ok (f.search len fields key) := by
  rw [search?, searchRange?_eq (Nat.le_refl _), search]
  cases hi : f.searchRange len fields key 0 (f.count len) with
  | none => rfl
  | some i => simp only [position_eq hs (searchRange_lt hi), Except.map]

theorem Whole.search {record : Text} {f' : RecordFile} (h : f.Whole)
    (hsearch : f.search len fields key = (some record, f')) : f'.Whole := by
  unfold RecordFile.search at hsearch
  split at hsearch
  · next i hi =>
    obtain ⟨-, rfl⟩ := Prod.mk.inj hsearch
    have hle := record_le (searchRange_lt hi)
    have hmul : i * len ≤ (i + 1) * len := Nat.mul_le_mul_right len (Nat.le_succ i)
    exact ⟨Nat.le_trans hmul hle, h.size⟩
  · cases hsearch

theorem Whole.seek (h : f.Whole) {target : Option Nat} (ht : ∀ p ∈ target, p ≤ f.size) :
    (f.seek target).2.Whole := by
  cases target with
  | none => exact ⟨h.pointer, h.size⟩
  | some p => exact ⟨ht p rfl, h.size⟩

/-- A movement by a record of three digits stays in the file. -/
theorem Whole.moved (h : f.Whole) (hlen : len < 1000) (pos : FilePosition) :
    ∃ r, Machine.Act.moved f len pos = .ok r ∧ r.2.Whole := by
  have hpointer := h.pointer
  have hsize := h.size
  change f.size < 0x8000000000000000 at hsize
  cases pos with
  | previous =>
    refine ⟨_, rfl, h.seek fun p hp => ?_⟩
    split at hp
    · cases hp
      omega
    · cases hp
  | next =>
    have hcheck : Word.check (f.pointer + len) = .ok (f.pointer + len) := by
      refine Word.check_eq_ok_iff.mpr ⟨?_, rfl⟩
      show f.pointer + len < 0x10000000000000000
      omega
    refine ⟨_, by rw [Machine.Act.moved, next, hcheck]; rfl, h.seek fun p hp => ?_⟩
    split at hp
    · cases hp
      omega
    · cases hp
  | top =>
    refine ⟨_, rfl, h.seek fun p hp => ?_⟩
    split at hp
    · cases hp
      exact Nat.zero_le _
    · cases hp
  | bottom =>
    refine ⟨_, rfl, h.seek fun p hp => ?_⟩
    split at hp
    · cases hp
      exact Nat.sub_le _ _
    · cases hp
  | current => exact ⟨_, rfl, h⟩

theorem read_ok (f : RecordFile) (hlen : len < 1000) : ∃ record, f.read len = .ok record ∧ True := by
  have hcheck : Text.checkSize len = .ok len :=
    Text.checkSize_eq_ok_iff.mpr ⟨Nat.lt_trans hlen (by decide), rfl⟩
  unfold read
  split
  · exact ⟨_, by rw [hcheck]; rfl, trivial⟩
  · split
    · exact ⟨_, rfl, trivial⟩
    · exact ⟨_, rfl, trivial⟩

theorem whole_fresh : RecordFile.fresh.Whole := ⟨Nat.le_refl _, by decide⟩

theorem Whole.write (h : f.Whole) {data : Text} (hd : f.pointer + data.length < Text.sizeLimit) :
    (f.write data).Whole := by
  have hsize := h.size
  refine ⟨?_, ?_⟩
  · rw [pointer_write, size_write]
    exact Nat.le_trans h.pointer (Nat.le_max_left _ _)
  · rw [size_write]
    omega

theorem whole_append {data : Text} (hd : f.size + data.length < Text.sizeLimit) :
    (f.append data).Whole :=
  ⟨by rw [pointer_append, size_append]; exact Nat.le_add_right _ _, by rw [size_append]; exact hd⟩

end RecordFile

namespace Value

/-- The comparison of two values of one kind, none of two others. -/
def matched? : Value → Value → Option Ordering
  | int n, int k => some (compare n.toInt k.toInt)
  | float x, float y => some (x.order y)
  | text t, text u => some (t.order u)
  | _, _ => none

/-- A converted value can be compared. -/
theorem matched?_coerce (a b : Value) : a.matched? (b.coerce a.kind) = some (a.order b) := by
  cases a <;> rfl

end Value

end Handheld
