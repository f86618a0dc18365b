import Handheld.Proofs.Machine.Range
import Handheld.Proofs.Record.Sequence

namespace Handheld.RecordFile

/-- What moves the record pointer and nothing else. -/
inductive Movement where
  | previous
  | next
  | top
  | bottom
  /-- To the record with the number, from zero. -/
  | position (index : Nat)
  deriving DecidableEq

namespace Movement

def run (f : RecordFile) (len : Nat) : Movement → Except Overflow (Bool × RecordFile)
  | previous => .ok (f.previous len)
  | next => f.next len
  | top => .ok (f.top len)
  | bottom => .ok (f.bottom len)
  | position index => f.position len index

/-- Where a movement goes; a negative place lies before the file. -/
def target (f : RecordFile) (len : Nat) : Movement → Int
  | previous => f.pointer - len
  | next => f.pointer + len
  | top => 0
  | bottom => f.size - len
  | position index => index * len

/-- A whole record lies where the movement goes. -/
def Lands (f : RecordFile) (len : Nat) (move : Movement) : Prop :=
  0 ≤ move.target f len ∧ move.target f len + len ≤ f.size

/-- The places that the movement computes fit a word. -/
def InWord (f : RecordFile) (len : Nat) : Movement → Prop
  | next => f.pointer + len < Word.limit
  | position index => index * len + len < Word.limit
  | _ => True

instance (f : RecordFile) (len : Nat) (move : Movement) : Decidable (move.Lands f len) :=
  inferInstanceAs (Decidable (_ ∧ _))

end Movement

/-- The file after a movement that found its record. -/
def sought (f : RecordFile) (p : Nat) : RecordFile := { f with pointer := p, eof := false }

variable {f g : RecordFile} {len : Nat} {move : Movement}

/-- In a file that its pointer stands in, a movement goes to its record or is stuck. -/
theorem Movement.run_eq (hf : f.pointer ≤ f.size) (hw : move.InWord f len) :
    (move.Lands f len ∧ ∃ p : Nat, move.target f len = p ∧ move.run f len = .ok (true, f.sought p)) ∨
      (¬ move.Lands f len ∧ move.run f len = .ok (false, f.stuck)) := by
  cases move with
  | previous =>
    simp only [Lands, target, run, RecordFile.previous, seek_ite]
    by_cases h : len ≤ f.pointer
    · exact .inl ⟨by omega, f.pointer - len, by omega, by rw [if_pos h]; rfl⟩
    · exact .inr ⟨by omega, by rw [if_neg h]⟩
  | next =>
    have hcheck : Word.check (f.pointer + len) = .ok (f.pointer + len) :=
      Word.check_eq_ok_iff.mpr ⟨hw, rfl⟩
    simp only [Lands, target, run, RecordFile.next, hcheck, Except.map, seek_ite]
    by_cases h : f.pointer + len + len ≤ f.size
    · exact .inl ⟨by omega, f.pointer + len, by omega, by rw [if_pos h]; rfl⟩
    · exact .inr ⟨by omega, by rw [if_neg h]⟩
  | top =>
    simp only [Lands, target, run, RecordFile.top, seek_ite]
    by_cases h : len ≤ f.size
    · exact .inl ⟨by omega, 0, rfl, by rw [if_pos h]; rfl⟩
    · exact .inr ⟨by omega, by rw [if_neg h]⟩
  | bottom =>
    simp only [Lands, target, run, RecordFile.bottom, seek_ite]
    by_cases h : len ≤ f.size
    · exact .inl ⟨by omega, f.size - len, by omega, by rw [if_pos h]; rfl⟩
    · exact .inr ⟨by omega, by rw [if_neg h]⟩
  | position index =>
    change index * len + len < Word.limit at hw
    have hcheck : Word.check (index * len + len) = .ok (index * len + len) :=
      Word.check_eq_ok_iff.mpr ⟨hw, rfl⟩
    have hplace : (index : Int) * len = (index * len : Nat) := (Int.natCast_mul index len).symm
    simp only [Lands, target, run, RecordFile.position, Nat.mul_comm len index, hplace]
    rw [if_pos (by omega), hcheck]
    simp only [Except.map, seek_ite]
    by_cases h : index * len + len ≤ f.size
    · exact .inl ⟨by omega, index * len, rfl, by rw [if_pos h]; rfl⟩
    · exact .inr ⟨by omega, by rw [if_neg h]⟩

/-- A movement whose places leave the word overflows or is stuck. -/
theorem Movement.inWord_of_run {r : Bool × RecordFile} (h : move.run f len = .ok r) :
    move.InWord f len ∨ r = (false, f.stuck) := by
  cases move with
  | previous | top | bottom => exact .inl trivial
  | next =>
    refine .inl (Nat.lt_of_not_le fun hle => ?_)
    have hcheck : Word.check (f.pointer + len) = .error .overflow := if_neg (Nat.not_lt.mpr hle)
    rw [run, RecordFile.next, hcheck] at h
    cases h
  | position index =>
    rw [run, RecordFile.position, Nat.mul_comm] at h
    split at h
    · refine .inl (Nat.lt_of_not_le fun hle => ?_)
      have hcheck : Word.check (index * len + len) = .error .overflow := if_neg (Nat.not_lt.mpr hle)
      rw [hcheck] at h
      cases h
    · exact .inr (Except.ok.inj h).symm

/-- A movement keeps the pointer in the file. -/
theorem Movement.pointer_le (hf : f.pointer ≤ f.size) {r : Bool × RecordFile}
    (h : move.run f len = .ok r) : r.2.pointer ≤ r.2.size := by
  rcases move.inWord_of_run h with hw | rfl
  · rcases move.run_eq hf hw with ⟨⟨-, hin⟩, p, hp, hrun⟩ | ⟨-, hrun⟩
    · obtain rfl := Except.ok.inj (hrun.symm.trans h)
      show p ≤ f.size
      omega
    · obtain rfl := Except.ok.inj (hrun.symm.trans h)
      exact hf
  · exact hf

theorem pointer_search_le (hf : f.pointer ≤ f.size) (len : Nat) (fields : List KeyField) (key : Text) :
    (f.search len fields key).2.pointer ≤ (f.search len fields key).2.size := by
  unfold RecordFile.search
  split
  · next i hi =>
    have hle := record_le (searchRange_lt hi)
    rw [Nat.succ_mul] at hle
    exact Nat.le_of_add_right_le hle
  · exact hf

/-- What a program may do to a file. -/
inductive Action where
  /-- Puts another content in place of the whole file. -/
  | replace (content : Text)
  | write (data : Text)
  | append (data : Text)
  | move (movement : Movement) (len : Nat)
  | search (len : Nat) (fields : List KeyField) (key : Text)

def Action.perform (f : RecordFile) : Action → Except Overflow RecordFile
  | .replace content => .ok (.ofText content)
  | .write data => .ok (f.write data)
  | .append data => .ok (f.append data)
  | .move movement len => (movement.run f len).map (·.2)
  | .search len fields key => .ok (f.search len fields key).2

/-- The files that come about from an empty or a loaded one. -/
inductive Reached : RecordFile → Prop where
  | fresh : Reached .fresh
  | loaded (content : Text) : Reached (.ofText content)
  | step {f g : RecordFile} (h : Reached f) (a : Action) (hg : a.perform f = .ok g) : Reached g

/-- Every action keeps the pointer in the file. -/
theorem Action.pointer_le (hf : f.pointer ≤ f.size) {a : Action} (h : a.perform f = .ok g) :
    g.pointer ≤ g.size := by
  cases a with
  | replace content =>
    obtain rfl := Except.ok.inj h
    exact Nat.zero_le _
  | write data =>
    obtain rfl := Except.ok.inj h
    rw [pointer_write, size_write]
    exact Nat.le_trans hf (Nat.le_max_left _ _)
  | append data =>
    obtain rfl := Except.ok.inj h
    rw [pointer_append, size_append]
    exact Nat.le_add_right _ _
  | move movement len =>
    cases hr : movement.run f len with
    | error e =>
      rw [perform, hr] at h
      cases h
    | ok r =>
      rw [perform, hr] at h
      obtain rfl : r.2 = g := Except.ok.inj h
      exact movement.pointer_le hf hr
  | search len fields key =>
    obtain rfl := Except.ok.inj h
    exact pointer_search_le hf len fields key

theorem Reached.pointer_le (h : f.Reached) : f.pointer ≤ f.size := by
  induction h with
  | fresh => exact Nat.le_refl _
  | loaded content => exact Nat.zero_le _
  | step _ a hg ih => exact Action.pointer_le ih hg

/-- The record that a movement found is there. -/
theorem read_sought {p : Nat} (h : p + len ≤ f.size) :
    (f.sought p).read len = .ok (some (f.content.slice p len)) := if_pos h

theorem length_slice {t : Text} {p : Nat} (h : p + len ≤ t.length) : (t.slice p len).length = len := by
  simp only [Text.length, Text.slice, List.length_take, List.length_drop] at h ⊢
  omega

/-- Behind a movement that found no record, everything reads as blanks. -/
theorem read_stuck (f : RecordFile) {n : Nat} (h : n < Text.sizeLimit) :
    f.stuck.read n = .ok (some (.spaces n)) := by
  have hcheck : Text.checkSize n = .ok n := Text.checkSize_eq_ok_iff.mpr ⟨h, rfl⟩
  show (Text.checkSize n).map _ = _
  rw [hcheck]
  rfl

/-- The pointer stands in the file. A movement succeeds exactly if a whole record lies where it goes:
then the pointer stands there, and the record is read. Otherwise the pointer stays, and any length
that a text can have is read as blanks. Appending leaves the pointer on what was appended. -/
theorem moves_or_stays (h : f.Reached) :
    f.pointer ≤ f.size ∧
    (∀ (move : Movement) (len : Nat), move.InWord f len →
      ∃ ok g, move.run f len = .ok (ok, g) ∧ g.content = f.content ∧ (ok = true ↔ move.Lands f len) ∧
        (ok = true → g.pointer = move.target f len ∧ g.eof = false ∧
          g.read len = .ok (some (f.content.slice g.pointer len)) ∧
          (f.content.slice g.pointer len).length = len) ∧
        (ok = false → g.pointer = f.pointer ∧ g.eof = true ∧
          ∀ n < Text.sizeLimit, g.read n = .ok (some (.spaces n)))) ∧
    ∀ data, (f.append data).content = f.content ++ data ∧ (f.append data).pointer = f.size ∧
      (f.append data).eof = false := by
  have hf := h.pointer_le
  refine ⟨hf, fun move len hw => ?_, fun data => ⟨f.content_append data, rfl, rfl⟩⟩
  rcases move.run_eq hf hw with ⟨hlands, p, hp, hrun⟩ | ⟨hlands, hrun⟩
  · have hin : p + len ≤ f.size := by
      have := hlands.2
      omega
    exact ⟨true, f.sought p, hrun, rfl, iff_of_true rfl hlands,
      fun _ => ⟨hp.symm, rfl, read_sought hin, length_slice hin⟩, nofun⟩
  · exact ⟨false, f.stuck, hrun, rfl, iff_of_false nofun hlands, nofun,
      fun _ => ⟨rfl, rfl, fun _ => f.read_stuck⟩⟩

/-- Of ten bytes the third record of four is not whole, while the third of three is. -/
theorem moves_or_stays_partialRecord :
    ∃ f : RecordFile, f.Reached ∧ f = ⟨.ofString "AAAABBBBCC", 4, false⟩ ∧
      (∃ g, Movement.next.run f 4 = .ok (false, g) ∧ g.pointer = 4 ∧
        g.read 2 = .ok (some (.ofString "  "))) ∧
      ∃ g, (Movement.position 2).run f 3 = .ok (true, g) ∧ (g.pointer : Int) = 6 ∧
        g.read 3 = .ok (some (.ofString "BBC")) := by
  have hloaded : Reached (.ofText (.ofString "AAAABBBB")) := .loaded _
  have happended : Reached ⟨.ofString "AAAABBBBCC", 8, false⟩ :=
    hloaded.step (.append (.ofString "CC")) rfl
  have hreached : Reached ⟨.ofString "AAAABBBBCC", 4, false⟩ :=
    happended.step (.move .previous 4) rfl
  obtain ⟨-, hmoves, -⟩ := moves_or_stays hreached
  refine ⟨_, hreached, rfl, ?_, ?_⟩
  · obtain ⟨ok, g, hrun, -, hlands, -, hstays⟩ := hmoves .next 4 (show 4 + 4 < Word.limit by decide)
    obtain rfl : ok = false := Bool.eq_false_iff.mpr fun hok => absurd (hlands.mp hok) (by decide)
    obtain ⟨hpointer, -, hread⟩ := hstays rfl
    exact ⟨g, hrun, hpointer, hread 2 (by decide)⟩
  · obtain ⟨ok, g, hrun, -, hlands, hmoved, -⟩ :=
      hmoves (.position 2) 3 (show 2 * 3 + 3 < Word.limit by decide)
    obtain rfl : ok = true := hlands.mpr (by decide)
    obtain ⟨hpointer, -, hread, -⟩ := hmoved rfl
    obtain hsix : g.pointer = 6 := Int.ofNat_inj.mp hpointer
    rw [hsix] at hread
    exact ⟨g, hrun, hpointer, hread⟩

/-- A length that no text can have overflows instead of reading as blanks. -/
theorem not_every_length_reads_blank :
    ¬ ∀ f : RecordFile, f.Reached → ∀ (move : Movement) (len : Nat), move.InWord f len →
      ∀ g, move.run f len = .ok (false, g) →
        ∀ n < Word.limit, g.read n = .ok (some (.spaces n)) := by
  intro hall
  have hreads := hall .fresh .fresh .top 1 trivial (.stuck .fresh) rfl Text.sizeLimit (by decide)
  have hoverflows : (RecordFile.stuck .fresh).read Text.sizeLimit = .error .overflow := rfl
  cases hoverflows.symm.trans hreads

end Handheld.RecordFile
