import Handheld.Proofs.Record.Pointer

namespace Handheld.RecordFile

/-- The end of a record, which is computed from its place, leaves the word. A record number whose place
itself leaves the word is noticed before. -/
def Movement.Overflows (f : RecordFile) (len : Nat) : Movement → Prop
  | next => Word.limit ≤ f.pointer + len
  | position index => index * len < Word.limit ∧ Word.limit ≤ index * len + len
  | _ => False

variable {f g : RecordFile} {len : Nat} {move : Movement}

namespace Movement

theorem run_eq_error_iff : move.run f len = .error .overflow ↔ move.Overflows f len := by
  cases move with
  | previous | top | bottom => exact iff_of_false (by simp [run]) id
  | next =>
    rw [run, RecordFile.next, Overflows, Word.check]
    split
    · next h => exact iff_of_false (by simp [Except.map]) (Nat.not_le.mpr h)
    · next h => exact iff_of_true rfl (Nat.le_of_not_lt h)
  | position index =>
    rw [run, RecordFile.position, Overflows, Word.check, Nat.mul_comm len index]
    by_cases hplace : index * len < Word.limit
    · rw [if_pos hplace]
      split
      · next h => exact iff_of_false (by simp [Except.map]) (by omega)
      · next h => exact iff_of_true rfl ⟨hplace, Nat.le_of_not_lt h⟩
    · exact iff_of_false (by simp [hplace]) (by omega)

/-- The places of a record that a file holds fit the word. -/
theorem Lands.inWord (h : move.Lands f len) (hsize : f.size < Word.limit) : move.InWord f len := by
  obtain ⟨-, hend⟩ := h
  cases move with
  | previous | top | bottom => trivial
  | next =>
    have hend : (f.pointer : Int) + len + len ≤ f.size := hend
    show f.pointer + len < Word.limit
    omega
  | position index =>
    have hplace : (index : Int) * len = (index * len : Nat) := (Int.natCast_mul index len).symm
    have hend : (index : Int) * len + len ≤ f.size := hend
    show index * len + len < Word.limit
    omega

/-- What a movement answers, it answers about a whole record. -/
theorem run_ok (hf : f.pointer ≤ f.size) {ok : Bool} (h : move.run f len = .ok (ok, g)) :
    (ok = true ∧ move.Lands f len ∧ ∃ p : Nat, move.target f len = p ∧ g = f.sought p) ∨
      (ok = false ∧ (f.size < Word.limit → ¬ move.Lands f len) ∧ g = f.stuck) := by
  rcases move.inWord_of_run h with hw | hstuck
  · rcases move.run_eq hf hw with ⟨hlands, p, hp, hrun⟩ | ⟨hlands, hrun⟩
    · obtain ⟨rfl, rfl⟩ := Prod.mk.inj (Except.ok.inj (h.symm.trans hrun))
      exact .inl ⟨rfl, hlands, p, hp, rfl⟩
    · obtain ⟨rfl, rfl⟩ := Prod.mk.inj (Except.ok.inj (h.symm.trans hrun))
      exact .inr ⟨rfl, fun _ => hlands, rfl⟩
  · obtain ⟨rfl, rfl⟩ := Prod.mk.inj hstuck
    refine .inr ⟨rfl, fun hsize hlands => ?_, rfl⟩
    rcases move.run_eq hf (hlands.inWord hsize) with ⟨-, p, -, hrun⟩ | ⟨hnot, -⟩
    · cases h.symm.trans hrun
    · exact hnot hlands

end Movement

/-- A read of the file itself, not of the blanks behind a failed movement, gives a whole record or
none. -/
theorem read_eq (heof : f.eof = false) (len : Nat) :
    f.read len = .ok (if f.pointer + len ≤ f.size then some (f.content.slice f.pointer len)
      else none) := by
  unfold read
  rw [if_neg (Bool.eq_false_iff.mp heof)]
  split <;> rfl

/-- As many records are counted as there are whole ones. -/
theorem count_spec (f : RecordFile) (hlen : 0 < len) :
    f.count len * len ≤ f.size ∧ f.size < (f.count len + 1) * len := by
  rw [count, if_neg (Nat.ne_of_gt hlen)]
  exact ⟨Nat.div_mul_le_self _ _, Nat.lt_mul_of_div_lt (Nat.lt_succ_self _) hlen⟩

/-- With a record of any length: a movement leaves the word exactly if the end that it computes does.
Otherwise it goes to a whole record, which is there to be read, or the file does not hold the record,
and the pointer stays. A read behind a record gives a whole record or none, and the whole records are
counted. -/
theorem completes_or_overflows (h : f.Reached) :
    (∀ (move : Movement) (len : Nat),
      (move.run f len = .error .overflow ↔ move.Overflows f len) ∧
      ∀ ok g, move.run f len = .ok (ok, g) → g.content = f.content ∧
        (ok = true → move.Lands f len ∧ g.pointer = move.target f len ∧ g.eof = false ∧
          g.read len = .ok (some (f.content.slice g.pointer len))) ∧
        (ok = false → (f.size < Word.limit → ¬ move.Lands f len) ∧
          g.pointer = f.pointer ∧ g.eof = true)) ∧
    (f.eof = false → ∀ len, f.read len =
      .ok (if f.pointer + len ≤ f.size then some (f.content.slice f.pointer len) else none)) ∧
    f.count 0 = 0 ∧
    ∀ len, 0 < len → f.count len * len ≤ f.size ∧ f.size < (f.count len + 1) * len := by
  have hf := h.pointer_le
  refine ⟨fun move len => ⟨move.run_eq_error_iff, fun ok g hrun => ?_⟩, read_eq, rfl,
    fun len hlen => f.count_spec hlen⟩
  rcases move.run_ok hf hrun with ⟨rfl, hlands, p, hp, rfl⟩ | ⟨rfl, hlands, rfl⟩
  · have hin : p + len ≤ f.size := by
      have := hlands.2
      omega
    exact ⟨rfl, fun _ => ⟨hlands, hp.symm, rfl, read_sought hin⟩, nofun⟩
  · exact ⟨rfl, nofun, fun _ => ⟨hlands, rfl, rfl⟩⟩

/-- Behind two records of four there is none of the greatest length: asking for it by a number that
leaves the word finds none, asking for the one after the first overflows. -/
theorem completes_or_overflows_longest :
    let f := RecordFile.ofText (.ofString "AAAABBBB")
    let longest := Word.limit - 1
    (∃ g, (Movement.position 2).run f longest = .ok (false, g) ∧ g.pointer = 0 ∧ g.eof = true) ∧
      (Movement.position 1).run f longest = .error .overflow ∧
      f.read longest = .ok none ∧ f.count longest = 0 := by
  intro f longest
  obtain ⟨hmoves, hread, -, hcount⟩ := completes_or_overflows (Reached.loaded (.ofString "AAAABBBB"))
  obtain ⟨-, hsecond⟩ := hmoves (.position 2) longest
  obtain ⟨hfirst, -⟩ := hmoves (.position 1) longest
  have hnone : (Movement.position 2).run f longest = .ok (false, f.stuck) := by
    have hover : ¬ longest * 2 < Word.limit := by decide
    rw [Movement.run, RecordFile.position, if_neg hover]
    rfl
  obtain ⟨-, -, hstays⟩ := hsecond false f.stuck hnone
  have hplace : 1 * longest < Word.limit := by decide
  have hend : Word.limit ≤ 1 * longest + longest := by decide
  have hsize : f.size < longest := by decide
  refine ⟨⟨f.stuck, hnone, (hstays rfl).2⟩, hfirst.mpr ⟨hplace, hend⟩, ?_, ?_⟩
  · have hpast : ¬ f.pointer + longest ≤ f.size :=
      Nat.not_le.mpr (Nat.lt_of_lt_of_le hsize (Nat.le_add_left _ _))
    rw [hread rfl longest, if_neg hpast]
  · obtain ⟨hle, -⟩ := hcount longest (by decide)
    have hfew : f.count longest * longest < longest := Nat.lt_of_le_of_lt hle hsize
    exact Nat.eq_zero_of_not_pos fun hpos =>
      Nat.not_lt.mpr (Nat.le_mul_of_pos_left longest hpos) hfew

/-- The end of a record may leave the word where its place does not. -/
theorem not_every_length_completes :
    ¬ ∀ f : RecordFile, f.Reached → ∀ (move : Movement) (len : Nat), len < Word.limit →
      (∀ index, move = .position index → index < Word.limit) →
        ∃ ok g, move.run f len = .ok (ok, g) := by
  intro hall
  have hindex : ∀ index, Movement.position 1 = .position index → index < Word.limit := by
    rintro index ⟨⟩
    decide
  obtain ⟨ok, g, hrun⟩ := hall _ (.loaded (.ofString "AAAA")) (.position 1) (Word.limit - 1)
    (by decide) hindex
  have hoverflows : (Movement.position 1).run (.ofText (.ofString "AAAA")) (Word.limit - 1) =
      .error .overflow := rfl
  cases hoverflows.symm.trans hrun

end Handheld.RecordFile
