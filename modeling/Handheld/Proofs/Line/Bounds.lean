import Handheld.Line.Decode
import Handheld.Proofs.Line.Number

namespace Handheld

def Slice.numbers (s : Slice) : List Nat := [s.pos, s.len]

/-- The positions, lengths, rows and columns that an operation computes with. -/
def Operation.numbers : Operation → List Nat
  | .stringConcat _ dstPos first second =>
    dstPos :: first.numbers ++ second.toList.flatMap Slice.numbers
  | .extractCopy _ dstPos src => dstPos :: src.numbers
  | .stringShift _ size _ _ => [size]
  | .recordWrite _ recordLen _ _ _ => [recordLen]
  | .recordRead _ recordLen _ _ => [recordLen]
  | .recordCount _ recordLen _ => [recordLen]
  | .masterSearch _ recordLen key key2 _ _ _ =>
    recordLen :: key.numbers ++ key2.toList.flatMap Slice.numbers
  | .echoedInput row col _ columns _ _ _ _ _ => [row, col, columns]
  | .barcodeInput row col _ columns _ _ _ => [row, col, columns]
  | .displayString row col clear text => [row, col, clear, text.length]
  | .displayPartClear row col len _ => [row, col, len]
  | .displayRegister row col _ start len clear _ _ => [row, col, start, len, clear]
  | _ => []

/-- The numbers of an operation have three digits. -/
def Operation.Bounded (o : Operation) : Prop := ∀ n ∈ o.numbers, n < Decimal.power 3

/-- The numbers of a line fit the fields of the line. -/
def Line.Bounded : Line → Prop
  | .title _ => True
  | .label number offset => number < Word.limit32 ∧ offset < Word.limit32
  | .jump number | .jumpIf _ number => number < Decimal.power 4
  | .op o => o.Bounded

namespace Line

namespace Read

variable {α β : Type} {m : Read α} {f : α → Read β} {P : α → Prop} {Q : β → Prop}

/-- What is read satisfies `P`, and no error speaks of a position out of range. -/
def Yields (m : Read α) (P : α → Prop) : Prop :=
  ∀ bs, match (m bs).1 with
    | .ok a => P a
    | .error e => e ≠ .overflow

namespace Yields

theorem pure {a : α} (h : P a) : Yields (Pure.pure a) P := fun _ => h

theorem fail {e : Flaw} (h : e ≠ .overflow) : Yields (fail e : Read α) P := fun _ => h

theorem bind (h : Yields m P) (hf : ∀ a, P a → Yields (f a) Q) : Yields (m >>= f) Q := by
  intro bs
  have hm := h bs
  rw [run_bind]
  cases hr : m bs with
  | mk r left =>
    rw [hr] at hm
    cases r with
    | error e => exact hm
    | ok a => exact hf a hm left

theorem ofOption {e : Flaw} {o : Option α} (he : e ≠ .overflow) (h : ∀ a, o = some a → P a) :
    Yields (ofOption e o) P := by
  cases o with
  | none => exact fail he
  | some a => exact pure (h a rfl)

/-- Whatever is found. -/
theorem found {e : Flaw} {o : Option α} (he : e ≠ .overflow) : Yields (Read.ofOption e o) fun _ => True :=
  ofOption he fun _ _ => trivial

end Yields

section Fields

theorem take_yields (n : Nat) : Yields (take n) fun bs => bs.length = n := by
  intro bs
  unfold take
  by_cases h : n ≤ bs.length
  · simp only [h, if_true, List.length_take]
    exact Nat.min_eq_left h
  · simp [h]

theorem skip_yields (n : Nat) : Yields (skip n) fun _ => True :=
  (take_yields n).bind fun _ _ => .pure trivial

theorem rest_yields : Yields rest fun _ => True := fun _ => trivial

theorem text_yields (n : Nat) : Yields (text n) fun t => t.length = n :=
  (take_yields n).bind fun _ h => .pure h

/-- A number has no more digits than its field. -/
theorem int_yields (n : Nat) : Yields (int n) (· < Decimal.power n) := by
  refine (take_yields n).bind fun raw hraw => .ofOption (by simp) fun k hk => ?_
  exact hraw ▸ parseInt?_lt hk

theorem flag_yields : Yields flag fun _ => True := (int_yields 1).bind fun _ _ => .pure trivial

theorem position_yields (n : Nat) : Yields (position n) (· < Decimal.power n) := by
  refine (int_yields n).bind fun k hk => ?_
  cases k with
  | zero => exact .fail (by simp)
  | succ pos => exact .pure (Nat.lt_of_succ_lt hk)

theorem optRegister_yields : Yields optRegister fun _ => True := by
  refine (text_yields registerWidth).bind fun name _ => ?_
  dsimp only
  split
  · exact .pure trivial
  · exact (Yields.found (by simp)).bind fun _ _ => .pure trivial

theorem register_yields : Yields register fun _ => True :=
  optRegister_yields.bind fun _ _ => .found (by simp)

theorem key_yields : Yields key fun _ => True := by
  refine (take_yields keyWidth).bind fun raw _ => ?_
  split
  · exact .pure trivial
  · refine (Yields.found (by simp)).bind fun code _ => ?_
    exact (Yields.found (by simp)).bind fun _ _ =>
      .pure trivial

theorem keyPlaces_yields (n : Nat) : Yields (keyPlaces n) fun _ => True := by
  induction n with
  | zero => exact .pure trivial
  | succ n ih => exact key_yields.bind fun _ _ => ih.bind fun _ _ => .pure trivial

theorem keys_yields : Yields keys fun _ => True :=
  (keyPlaces_yields KeySet.special).bind fun _ _ => .pure trivial

theorem comparison_yields : Yields comparison fun _ => True :=
  (text_yields 2).bind fun _ _ => .found (by simp)

theorem fileName_yields : Yields fileName fun _ => True := by
  refine (text_yields fileNameWidth).bind fun name _ => ?_
  dsimp only
  repeat' split
  all_goals exact .pure trivial

theorem filePosition_yields : Yields filePosition fun _ => True :=
  (text_yields 4).bind fun _ _ => .found (by simp)

theorem operand_yields (k : Kind) : Yields (operand k) fun _ => True := by
  refine rest_yields.bind fun raw _ => ?_
  dsimp only
  split
  all_goals exact .pure trivial

theorem finish_yields : Yields finish fun _ => True := by
  intro bs
  unfold finish
  cases bs.isEmpty <;> simp

end Fields

end Read

open Read

section Lines

theorem coded_yields {α : Type} {flaw : Nat → Flaw} {find : Nat → Option α} {width : Nat}
    (h : ∀ n, flaw n ≠ .overflow) : Yields (coded flaw find width) fun _ => True :=
  (int_yields width).bind fun n _ => .found (h n)

theorem readTitle_yields : Yields readTitle fun _ => True := by
  refine (text_yields _).bind fun _ _ => (skip_yields 1).bind fun _ _ => ?_
  refine (text_yields _).bind fun _ _ => (coded_yields (by simp)).bind fun _ _ => ?_
  refine (int_yields 2).bind fun _ _ => flag_yields.bind fun _ _ => (int_yields 4).bind fun _ _ => ?_
  exact (Yields.found (by simp)).bind fun _ _ =>
    .pure trivial

theorem numeral_yields (cs : List Char) : Yields (readLabel.numeral cs) (· < Word.limit32) := by
  intro bs
  unfold readLabel.numeral
  cases h : Decimal.read (Word.limit32 - 1) (cs.flatMap Utf8.encodeChar) with
  | error e => simp
  | ok n => exact Nat.lt_of_le_of_lt (Decimal.read_le h) (by decide)

theorem readLabel_yields : Yields readLabel Line.Bounded := by
  refine rest_yields.bind fun raw _ => ?_
  dsimp only
  split
  · split
    · exact .fail (by simp)
    · exact (numeral_yields _).bind fun n hn => (numeral_yields _).bind fun k hk => .pure ⟨hn, hk⟩
  · exact .fail (by simp)

/-- The numbers of a slice have three digits. -/
def SliceBounded (s : Slice) : Prop := ∀ n ∈ s.numbers, n < Decimal.power 3

theorem slice_bounded (reg : Register) {pos len : Nat} (hpos : pos < Decimal.power 3)
    (hlen : len < Decimal.power 3) : SliceBounded ⟨reg, pos, len⟩ := by
  simp [SliceBounded, Slice.numbers, hpos, hlen]

theorem readSlice_yields : Yields readSlice SliceBounded :=
  register_yields.bind fun _ _ => (position_yields 3).bind fun _ hpos =>
    (int_yields 3).bind fun _ hlen => .pure (slice_bounded _ hpos hlen)

/-- The numbers of a slice that may be absent have three digits. -/
def OptBounded (s : Option Slice) : Prop := ∀ n ∈ s.toList.flatMap Slice.numbers, n < Decimal.power 3

theorem readOptSlice_yields : Yields readOptSlice OptBounded := by
  refine optRegister_yields.bind fun reg _ => ?_
  cases reg with
  | none => exact (skip_yields 6).bind fun _ _ => .pure (by simp [OptBounded])
  | some reg =>
    refine (position_yields 3).bind fun pos hpos => (int_yields 3).bind fun len hlen => .pure ?_
    exact fun n hn => slice_bounded reg hpos hlen n (by simpa using hn)

theorem readRecord_yields : Yields readRecord fun r => r.2 < Decimal.power 3 :=
  fileName_yields.bind fun _ _ => (skip_yields 1).bind fun _ _ => (int_yields 3).bind fun _ h =>
    .pure h

theorem readTransfer_yields : Yields readTransfer fun _ => True :=
  (int_yields 1).bind fun _ _ => (int_yields 1).bind fun _ _ => key_yields.bind fun _ _ =>
    .pure trivial

theorem readSetup_yields : Yields readSetup fun _ => True := by
  refine (int_yields 1).bind fun n _ => ?_
  split
  · exact (skip_yields 2).bind fun _ _ => (int_yields 3).bind fun _ _ => (skip_yields _).bind fun _ _ =>
      .pure trivial
  · refine (int_yields 3).bind fun _ _ => (int_yields 3).bind fun _ _ => (int_yields 3).bind fun _ _ => ?_
    refine (int_yields 3).bind fun _ _ => (int_yields 3).bind fun _ _ => (skip_yields 1).bind fun _ _ => ?_
    refine (int_yields 4).bind fun _ _ => (int_yields 4).bind fun _ _ => (skip_yields 2).bind fun _ _ => ?_
    refine (int_yields 2).bind fun _ _ => (skip_yields 1).bind fun _ _ => (int_yields 1).bind fun _ _ => ?_
    exact (int_yields 4).bind fun _ _ => .pure trivial
  · exact .fail (by simp)

/-- An operation without numbers. -/
theorem bounded_of_numbers_nil {o : Operation} (h : o.numbers = []) : o.Bounded := by
  simp [Operation.Bounded, h]

theorem two_lt_three {n : Nat} (h : n < Decimal.power 2) : n < Decimal.power 3 :=
  Nat.lt_of_lt_of_le h (Decimal.power_mono (by decide))

/-- The fields behind every head yield a line whose numbers fit. -/
theorem readFields_yields (h : Head) : Yields (readFields h) Line.Bounded := by
  cases h with
  | title => exact readTitle_yields.bind fun _ _ => .pure trivial
  | label => exact readLabel_yields
  | jump => exact (int_yields 4).bind fun _ hn => .pure hn
  | jumpIf =>
    exact (int_yields 4).bind fun _ hn => comparison_yields.bind fun _ _ =>
      register_yields.bind fun _ _ => (operand_yields _).bind fun _ _ => .pure hn
  | assign =>
    exact register_yields.bind fun _ _ => (operand_yields _).bind fun _ _ =>
      .pure (bounded_of_numbers_nil rfl)
  | stringConcat =>
    refine readSlice_yields.bind fun first hfirst => readOptSlice_yields.bind fun second hsecond => ?_
    refine register_yields.bind fun dst _ => (position_yields 3).bind fun pos hpos => .pure ?_
    intro n hn
    rcases List.mem_append.mp hn with hn | hn
    · rcases List.mem_cons.mp hn with rfl | hn
      · exact hpos
      · exact hfirst n hn
    · exact hsecond n hn
  | extractCopy =>
    refine readSlice_yields.bind fun src hsrc => register_yields.bind fun dst _ => ?_
    refine (position_yields 3).bind fun pos hpos => .pure ?_
    exact List.forall_mem_cons.mpr ⟨hpos, hsrc⟩
  | stringShift =>
    refine register_yields.bind fun reg _ => (int_yields 3).bind fun size hsize => ?_
    refine (take_yields 1).bind fun _ _ => (take_yields 1).bind fun _ _ => .pure ?_
    exact List.forall_mem_singleton.mpr hsize
  | numberToString =>
    exact register_yields.bind fun _ _ => register_yields.bind fun _ _ =>
      .pure (bounded_of_numbers_nil rfl)
  | variableInit => exact register_yields.bind fun _ _ => .pure (bounded_of_numbers_nil rfl)
  | recordWrite =>
    refine readRecord_yields.bind fun r hr => flag_yields.bind fun _ _ => ?_
    refine register_yields.bind fun _ _ => flag_yields.bind fun _ _ => .pure ?_
    exact List.forall_mem_singleton.mpr hr
  | recordRead =>
    refine readRecord_yields.bind fun r hr => register_yields.bind fun _ _ => ?_
    exact filePosition_yields.bind fun _ _ => .pure (List.forall_mem_singleton.mpr hr)
  | recordCount =>
    refine readRecord_yields.bind fun r hr => register_yields.bind fun _ _ => .pure ?_
    exact List.forall_mem_singleton.mpr hr
  | fileDelete => exact fileName_yields.bind fun _ _ => .pure (bounded_of_numbers_nil rfl)
  | fileExists => exact fileName_yields.bind fun _ _ => .pure (bounded_of_numbers_nil rfl)
  | masterSearch =>
    refine readRecord_yields.bind fun r hr => readSlice_yields.bind fun key hkey => ?_
    refine readOptSlice_yields.bind fun key2 hkey2 => (int_yields 1).bind fun _ _ => ?_
    refine filePosition_yields.bind fun _ _ => register_yields.bind fun _ _ => .pure ?_
    intro n hn
    rcases List.mem_append.mp hn with hn | hn
    · rcases List.mem_cons.mp hn with rfl | hn
      · exact hr
      · exact hkey n hn
    · exact hkey2 n hn
  | echoedInput =>
    refine (int_yields 2).bind fun col hcol => (int_yields 2).bind fun row hrow => ?_
    refine register_yields.bind fun _ _ => (int_yields 3).bind fun columns hcolumns => ?_
    refine flag_yields.bind fun _ _ => (coded_yields (by simp)).bind fun _ _ => ?_
    refine keys_yields.bind fun _ _ => (coded_yields (by simp)).bind fun _ _ => ?_
    refine flag_yields.bind fun _ _ => .pure ?_
    simp [Line.Bounded, Operation.Bounded, Operation.numbers, two_lt_three hcol, two_lt_three hrow,
      hcolumns]
  | barcodeInput =>
    refine (int_yields 2).bind fun col hcol => (int_yields 2).bind fun row hrow => ?_
    refine (coded_yields (by simp)).bind fun _ _ => (int_yields 3).bind fun columns hcolumns => ?_
    refine (skip_yields 11).bind fun _ _ => flag_yields.bind fun _ _ => flag_yields.bind fun _ _ => ?_
    refine flag_yields.bind fun _ _ => flag_yields.bind fun _ _ => flag_yields.bind fun _ _ => ?_
    refine keys_yields.bind fun _ _ => (coded_yields (by simp)).bind fun _ _ => ?_
    refine flag_yields.bind fun _ _ => .pure ?_
    simp [Line.Bounded, Operation.Bounded, Operation.numbers, two_lt_three hcol, two_lt_three hrow,
      hcolumns]
  | barcodeSetup => exact readSetup_yields.bind fun _ _ => .pure (bounded_of_numbers_nil rfl)
  | noEchoInput => exact register_yields.bind fun _ _ => .pure (bounded_of_numbers_nil rfl)
  | displayString =>
    refine (int_yields 2).bind fun col hcol => (int_yields 2).bind fun row hrow => ?_
    refine (skip_yields 2).bind fun _ _ => (int_yields 2).bind fun clear hclear => ?_
    refine (int_yields 2).bind fun size hsize => (text_yields size).bind fun t ht => .pure ?_
    simp [Line.Bounded, Operation.Bounded, Operation.numbers, two_lt_three hcol, two_lt_three hrow,
      two_lt_three hclear, ht, two_lt_three hsize]
  | displayClear => exact .pure (bounded_of_numbers_nil rfl)
  | displayPartClear =>
    refine (int_yields 2).bind fun col hcol => (int_yields 2).bind fun row hrow => ?_
    refine (int_yields 2).bind fun len hlen => flag_yields.bind fun _ _ => .pure ?_
    simp [Line.Bounded, Operation.Bounded, Operation.numbers, two_lt_three hcol, two_lt_three hrow,
      two_lt_three hlen]
  | displayRegister =>
    refine (int_yields 2).bind fun col hcol => (int_yields 2).bind fun row hrow => ?_
    refine flag_yields.bind fun _ _ => flag_yields.bind fun _ _ => (skip_yields 2).bind fun _ _ => ?_
    refine (position_yields 2).bind fun start hstart => (int_yields 2).bind fun len hlen => ?_
    refine register_yields.bind fun _ _ => (int_yields 2).bind fun clear hclear => .pure ?_
    simp [Line.Bounded, Operation.Bounded, Operation.numbers, two_lt_three hcol, two_lt_three hrow,
      two_lt_three hstart, two_lt_three hlen, two_lt_three hclear]
  | upload =>
    exact fileName_yields.bind fun _ _ => readTransfer_yields.bind fun _ _ =>
      .pure (bounded_of_numbers_nil rfl)
  | download =>
    exact (skip_yields _).bind fun _ _ => readTransfer_yields.bind fun _ _ =>
      .pure (bounded_of_numbers_nil rfl)
  | wait => exact (int_yields 4).bind fun _ _ => .pure (bounded_of_numbers_nil rfl)

/-- A payload is read as a line whose numbers fit, or refused as what it is at its line. -/
theorem decode_yields (number : Nat) (payload : List UInt8) :
    match decode number payload with
    | .ok l => l.Bounded
    | .error e => e.line = number ∧ e.flaw ≠ .overflow := by
  unfold decode
  cases Head.split? payload with
  | none => simp
  | some s =>
    obtain ⟨head, bs⟩ := s
    have hline : Yields (do let l ← readFields head; finish; return l) Line.Bounded :=
      (readFields_yields head).bind fun l hl => finish_yields.bind fun _ _ => .pure hl
    have h := hline bs
    dsimp only
    generalize (do let l ← readFields head; finish; return l : Read Line) bs = r at h ⊢
    obtain ⟨a, left⟩ := r
    cases a with
    | error e => exact ⟨rfl, h⟩
    | ok l => exact h

end Lines

end Line

end Handheld
