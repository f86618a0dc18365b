import Handheld.Proofs.Machine.Records
import Handheld.Proofs.Record.Pointer
import Handheld.Proofs.Record.Search

namespace Handheld.Machine

/-- The key that is searched: each register cut or padded to its field, one behind the other. -/
def soughtKey (m : Machine) (keys : List Slice) : Text :=
  .join (keys.map fun s => (m.registers.text s.reg).forceSize s.len Text.fill)

/-- Where a record has the fields of its key. -/
def keyFields (keys : List Slice) : List RecordFile.KeyField := keys.map fun s => ⟨s.pos, s.len⟩

/-- The search has found the record with the number: the result register holds it, and the pointer of
the file stands on it. -/
structure Found (m m' : Machine) (file : Text) (f : RecordFile) (len : Nat) (keys : List Slice)
    (result : Register) (i : Nat) : Prop where
  status : m'.registers.get .rslt = .int 0
  counted : i < f.size / len
  whole : (f.record len i).length = len
  key : RecordFile.keyOf (f.record len i) (keyFields keys) = m.soughtKey keys
  held : m'.registers.get result = (Value.text (f.record len i)).coerce result.kind
  pointed : m'.files.get? file = some { f with pointer := i * len, eof := false }

/-- The search has found nothing: the result register is reset, and the file is as it was. -/
structure Missed (m' : Machine) (file : Text) (f : RecordFile) (result : Register) : Prop where
  status : m'.registers.get .rslt = .int (-2)
  reset : m'.registers.stored? result = none
  blank : m'.registers.get result = .zero result.kind
  untouched : m'.files.get? file = some f

variable {m : Machine} {name : FileName} {len : Nat} {keys : List Slice} {result : Register}
  {f : RecordFile}

/-- The length of the key that is searched. -/
def keyLength (keys : List Slice) : Nat := (keys.map Slice.len).sum

theorem joinField_run (m : Machine) (key : Text) (s : Slice) :
    Act.joinField key s m =
      if key.length + s.len < Text.sizeLimit then
        (.ok (key ++ (m.registers.text s.reg).forceSize s.len Text.fill), m)
      else (.error .overflow, m) := by
  have hlength := (m.registers.text s.reg).length_forceSize s.len Text.fill
  rw [Act.joinField, Act.run_bind]
  by_cases hfield : s.len < Text.sizeLimit
  · have hforced : (m.registers.text s.reg).forced s.len = _ := Text.forced_eq hfield
    simp only [Act.textOf, Act.read, hforced]
    split
    · next hfits =>
      rw [← hlength] at hfits
      rw [Act.checked, Act.run_bind, Act.run_pure]
      simp only [Text.joined_eq hfits]
      rfl
    · next hlong =>
      rw [← hlength, Nat.not_lt] at hlong
      rw [Act.checked, Act.run_bind, Act.run_pure]
      simp only [Text.joined_overflow hlong]
      rfl
  · have hforced : (m.registers.text s.reg).forced s.len = _ :=
      Text.forced_overflow (Nat.le_of_not_lt hfield)
    have hlong : ¬ key.length + s.len < Text.sizeLimit := by omega
    simp only [Act.textOf, Act.read, hforced, if_neg hlong]
    rfl

/-- By induction on the fields: they are joined one behind the other as long as a text can hold them. -/
theorem joinFields_run (keys : List Slice) (m : Machine) {key : Text} (h : key.length < Text.sizeLimit) :
    keys.foldlM Act.joinField key m =
      if key.length + keyLength keys < Text.sizeLimit then (.ok (key ++ m.soughtKey keys), m)
      else (.error .overflow, m) := by
  induction keys generalizing key with
  | nil =>
    have hfits : key.length + keyLength [] < Text.sizeLimit := h
    have hjoin : key ++ m.soughtKey [] = key := Text.ext (List.append_nil key.bytes)
    rw [if_pos hfits, hjoin]
    rfl
  | cons s rest ih =>
    have hsum : keyLength (s :: rest) = s.len + keyLength rest := rfl
    rw [List.foldlM_cons, Act.run_bind, joinField_run]
    by_cases hfits : key.length + s.len < Text.sizeLimit
    · have hnext : (key ++ (m.registers.text s.reg).forceSize s.len Text.fill).length =
          key.length + s.len := by
        have hlength := (m.registers.text s.reg).length_forceSize s.len Text.fill
        calc (key ++ (m.registers.text s.reg).forceSize s.len Text.fill).length
          _ = key.length + ((m.registers.text s.reg).forceSize s.len Text.fill).length :=
            List.length_append
          _ = key.length + s.len := by rw [hlength]
      have hjoin : key ++ (m.registers.text s.reg).forceSize s.len Text.fill ++ m.soughtKey rest =
          key ++ m.soughtKey (s :: rest) := Text.ext (List.append_assoc ..)
      rw [if_pos hfits]
      simp only
      rw [ih (hnext ▸ hfits), hnext, hsum, Nat.add_assoc, hjoin]
    · rw [if_neg hfits, if_neg (by omega)]

theorem searchKey_run (keys : List Slice) (m : Machine) :
    Act.searchKey keys m =
      if keyLength keys < Text.sizeLimit then (.ok (m.soughtKey keys), m)
      else (.error .overflow, m) := by
  have hempty : Text.empty ++ m.soughtKey keys = m.soughtKey keys := rfl
  have hlength : Text.empty.length + keyLength keys = keyLength keys := Nat.zero_add _
  rw [Act.searchKey, joinFields_run keys m (by decide), hempty, hlength]

theorem reset_eq (h : result.isSystem = false) (m : Machine) :
    Act.reset result m = (.ok (), { m with registers := m.registers.clear result }) := by
  have hreset : m.registers.initUser result = .ok (m.registers.clear result) := by
    rw [RegisterStore.initUser, RegisterStore.checkUser, h]
    rfl
  show ((Act.lift (m.registers.initUser result) >>= _ : Act Unit) m) = _
  rw [hreset]
  rfl

/-- A hit moves the pointer and stores the record, a miss resets the register. -/
theorem masterSearch_eq (hf : m.files.get? (m.fileNamed name) = some f)
    (hsize : keyLength keys < Text.sizeLimit) (hresult : result.isSystem = false) :
    Act.masterSearch name len keys result m = (.ok (),
      match f.search len (keyFields keys) (m.soughtKey keys) with
      | (some record, g) => { m with
          files := m.files.put (m.fileNamed name) g
          registers := (m.registers.store result (.text record)).store .rslt (.int Act.success) }
      | (none, _) => { m with
          registers := (m.registers.clear result).store .rslt (.int Act.badPosition) }) := by
  simp only [Act.masterSearch, Act.run_bind, nameOf_eq, searchKey_run, if_pos hsize, Act.file?, Act.read, hf]
  rw [← keyFields]
  rcases f.search len (keyFields keys) (m.soughtKey keys) with ⟨_ | record, g⟩
  · simp only [Act.run_bind, reset_eq hresult, status_eq]
  · simp only [Act.run_bind, Act.putFile, Act.update, set_eq hresult, status_eq]

/-- A key that is too long for a text is not searched for. -/
theorem masterSearch_overflow (h : Text.sizeLimit ≤ keyLength keys) :
    Act.masterSearch name len keys result m = (.error .overflow, m) := by
  simp only [Act.masterSearch, Act.run_bind, nameOf_eq, searchKey_run, if_neg (Nat.not_lt.mpr h)]

theorem ne_of_user (h : result.isSystem = false) : result ≠ .rslt := by
  rintro rfl
  cases h

/-- Behind a hit the result register holds the record, and the pointer stands on it. -/
theorem found_stored {i : Nat} (hresult : result.isSystem = false) (hi : i < f.size / len)
    (hkey : RecordFile.keyOf (f.record len i) (keyFields keys) = m.soughtKey keys) :
    Found m { m with
        files := m.files.put (m.fileNamed name) (f.sought (i * len))
        registers := (m.registers.store result (.text (f.record len i))).store .rslt
          (.int Act.success) }
      (m.fileNamed name) f len keys result i where
  status := (RegisterStore.get_store ..).trans (if_pos rfl)
  counted := hi
  whole := RecordFile.length_record hi
  key := hkey
  held := by
    dsimp only
    rw [RegisterStore.get_store, if_neg (ne_of_user hresult).symm, RegisterStore.get_store, if_pos rfl]
  pointed := (FileArea.get?_put ..).trans (if_pos rfl)

/-- A user register that holds nothing reads as the zero of its kind. -/
theorem unset_of_user (h : result.isSystem = false) (s : RegisterStore) :
    s.unset result = .zero result.kind := by
  cases result with
  | dat | int | flt | usr => rfl
  | date | time | htid | bst | rslt | brcod | numbr | endky => cases h

theorem missed_cleared (hf : m.files.get? (m.fileNamed name) = some f)
    (hresult : result.isSystem = false) :
    Missed { m with
        registers := (m.registers.clear result).store .rslt (.int Act.badPosition) }
      (m.fileNamed name) f result where
  status := (RegisterStore.get_store ..).trans (if_pos rfl)
  reset := by
    dsimp only
    rw [RegisterStore.stored?_store, if_neg (ne_of_user hresult).symm, RegisterStore.stored?_clear,
      if_pos rfl]
  blank := by
    dsimp only
    rw [RegisterStore.get_store, if_neg (ne_of_user hresult).symm, RegisterStore.get_clear, if_pos rfl,
      unset_of_user hresult]
  untouched := hf

/-- Moving the pointer of a file changes no byte of any file. -/
theorem contents_sought (hf : m.files.get? (m.fileNamed name) = some f) (p : Nat) (other : Text) :
    ((m.files.put (m.fileNamed name) (f.sought p)).get? other).map (·.content) =
      (m.files.get? other).map (·.content) := by
  rw [FileArea.get?_put]
  split
  · next h => rw [← h, hf]; rfl
  · rfl

/-- A search ends in one of two ways and changes no byte of a file. With the records in the order of
their keys it finds one that has the key, if there is one. -/
theorem masterSearch_hits_or_misses (reply : LinkReply) (m : Machine) (name : FileName) (len : Nat)
    (key : Slice) (key2 : Option Slice) (method : UInt8) (pos : FilePosition) (result : Register)
    (f : RecordFile) (hf : m.files.get? (m.fileNamed name) = some f) (hresult : result.isSystem = false)
    (hsize : ((key :: key2.toList).map Slice.len).sum < Text.sizeLimit) :
    ∃ m', Act.execute reply (.masterSearch name len key key2 method pos result) m = (.ok (), m') ∧
      ((∃ i, Found m m' (m.fileNamed name) f len (key :: key2.toList) result i) ∨
        Missed m' (m.fileNamed name) f result) ∧
      (∀ other, (m'.files.get? other).map (·.content) = (m.files.get? other).map (·.content)) ∧
      (f.Ascending len (keyFields (key :: key2.toList)) →
        (∃ i < f.size / len, RecordFile.keyOf (f.record len i) (keyFields (key :: key2.toList)) =
          m.soughtKey (key :: key2.toList)) →
        m'.registers.get .rslt = .int 0) ∧
      (len = 0 → m'.registers.get .rslt = .int (-2)) := by
  have hrun : Act.execute reply (.masterSearch name len key key2 method pos result) m = _ :=
    masterSearch_eq hf hsize hresult
  rcases f.search_cases len (keyFields (key :: key2.toList)) (m.soughtKey (key :: key2.toList)) with
    ⟨i, hi, hkey, hsearch⟩ | ⟨hsearch, hnone⟩
  · rw [hsearch] at hrun
    have hfound : Found m _ (m.fileNamed name) f len (key :: key2.toList) result i :=
      found_stored hresult hi hkey
    refine ⟨_, hrun, .inl ⟨i, hfound⟩, contents_sought hf _, fun _ _ => hfound.status, ?_⟩
    rintro rfl
    exact absurd hi (by simp)
  · rw [hsearch] at hrun
    have hmissed : Missed _ (m.fileNamed name) f result := missed_cleared hf hresult
    exact ⟨_, hrun, .inr hmissed, fun _ => rfl,
      fun hasc ⟨i, hi, hkey⟩ => absurd hkey (hnone hasc i hi), fun _ => hmissed.status⟩

/-- A machine with a file of four records and the beginning of a fifth, and two registers with the
parts of a key that two of the records have. -/
def stocked : Machine :=
  { idle with
    files := .put .empty (.ofString "STOCK") (.ofText (.ofString "A1xB2yB2zC3w?"))
    registers := (idle.registers.store (.dat (Fin.last 9)) (.text (.ofString "B"))).store
      (.usr (Fin.last 2)) (.text (.ofString "2 ")) }

theorem masterSearch_hits_or_misses_stocked :
    ∃ m' i, Act.execute ⟨.empty, []⟩ (.masterSearch (.literal (.ofString "STOCK")) 3
        ⟨.dat (Fin.last 9), 0, 1⟩ (some ⟨.usr (Fin.last 2), 1, 1⟩) 0 .current (.usr 1)) stocked =
          (.ok (), m') ∧
      Found stocked m' (.ofString "STOCK") (.ofText (.ofString "A1xB2yB2zC3w?")) 3
        [⟨.dat (Fin.last 9), 0, 1⟩, ⟨.usr (Fin.last 2), 1, 1⟩] (.usr 1) i := by
  obtain ⟨m', hrun, hends, -, hascending, -⟩ :=
    masterSearch_hits_or_misses ⟨.empty, []⟩ stocked (.literal (.ofString "STOCK")) 3
      ⟨.dat (Fin.last 9), 0, 1⟩ (some ⟨.usr (Fin.last 2), 1, 1⟩) 0 .current (.usr 1)
      (.ofText (.ofString "A1xB2yB2zC3w?")) rfl rfl (by decide)
  have hordered : ∀ j < 4, ∀ i ≤ j,
      (RecordFile.keyOf ((RecordFile.ofText (.ofString "A1xB2yB2zC3w?")).record 3 i)
        [⟨0, 1⟩, ⟨1, 1⟩]).order
      (RecordFile.keyOf ((RecordFile.ofText (.ofString "A1xB2yB2zC3w?")).record 3 j)
        [⟨0, 1⟩, ⟨1, 1⟩]) ≠ .gt := by decide
  have hstatus := hascending (fun i j hij hj => hordered j hj i hij) ⟨1, by decide, by decide⟩
  rcases hends with ⟨i, hfound⟩ | hmissed
  · exact ⟨m', i, hrun, hfound⟩
  · exact absurd (hstatus.symm.trans hmissed.status) (by decide)

/-- A search for a key that is too long for a text overflows instead of missing. -/
theorem not_every_masterSearch_ends :
    ¬ ∀ (reply : LinkReply) (m : Machine) (name : FileName) (len : Nat) (key : Slice)
      (key2 : Option Slice) (method : UInt8) (pos : FilePosition) (result : Register) (f : RecordFile),
      m.files.get? (m.fileNamed name) = some f → result.isSystem = false →
      (∀ s ∈ key :: key2.toList, s.pos + s.len ≤ len) →
      ∃ m', Act.execute reply (.masterSearch name len key key2 method pos result) m = (.ok (), m') := by
  intro h
  obtain ⟨m', hrun⟩ := h ⟨.empty, []⟩ stocked (.literal (.ofString "STOCK")) Text.sizeLimit
    ⟨.dat (Fin.last 9), 0, Text.sizeLimit⟩ none 0 .current (.usr 1) _ rfl rfl (by decide)
  have hlong : Text.sizeLimit ≤ keyLength [⟨.dat (Fin.last 9), 0, Text.sizeLimit⟩] := Nat.le_refl _
  exact nomatch (masterSearch_overflow hlong).symm.trans hrun

end Handheld.Machine
