import Handheld.Proofs.Line.Bounds
import Handheld.Proofs.Line.RoundTrip

namespace Handheld

/-- The numbers of a line, positions counted from one, with the widths of their fields. -/
def Slice.numerals (s : Slice) : List (Nat × Nat) := [(s.pos + 1, 3), (s.len, 3)]

def BarcodeSetup.numerals (s : BarcodeSetup) : List (Nat × Nat) :=
  (s.number, 1) ::
    match s with
    | .symbology map => [(map.toNat, 3)]
    | .reader r =>
      r.digits.toList.map (fun d => (d.toNat, 3)) ++
        [(r.buzzerFrequency.toNat, 4), (r.buzzerLength.toNat, 4), (r.laser.toNat, 2),
          (r.verify.toNat, 1), (r.vibration.toNat, 4)]

def Key.numeral (k : Key) : Nat × Nat := (k.code, Line.keyWidth)

namespace Operation

def numerals : Operation → List (Nat × Nat)
  | assign .. | numberToString .. | variableInit _ | fileDelete _ | fileExists _ | noEchoInput _
  | displayClear => []
  | stringConcat _ dstPos first second =>
    first.numerals ++ (second.elim [(1, 3), (0, 3)] Slice.numerals) ++ [(dstPos + 1, 3)]
  | extractCopy _ dstPos src => src.numerals ++ [(dstPos + 1, 3)]
  | stringShift _ size _ _ => [(size, 3)]
  | recordWrite _ recordLen _ _ _ => [(recordLen, 3)]
  | recordRead _ recordLen _ _ => [(recordLen, 3)]
  | recordCount _ recordLen _ => [(recordLen, 3)]
  | masterSearch _ recordLen key key2 method _ _ =>
    (recordLen, 3) :: key.numerals ++ (key2.elim [] Slice.numerals) ++ [(method.toNat, 1)]
  | echoedInput row col _ columns _ full special cursor _ =>
    [(col, 2), (row, 2), (columns, 3), (full.code, 1)] ++ special.keys.map Key.numeral ++
      [(cursor.code, 1)]
  | barcodeInput row col dst columns special full _ =>
    [(col, 2), (row, 2), (dst.ordinal, 2), (columns, 3)] ++ special.keys.map Key.numeral ++
      [(full.code, 1)]
  | barcodeSetup setup => setup.numerals
  | displayString row col clear text => [(col, 2), (row, 2), (clear, 2), (text.length, 2)]
  | displayPartClear row col len _ => [(col, 2), (row, 2), (len, 2)]
  | displayRegister row col _ start len clear _ _ =>
    [(col, 2), (row, 2), (start + 1, 2), (len, 2), (clear, 2)]
  | upload _ kind line stop => [(kind.toNat, 1), (line.toNat, 1)] ++ stop.toList.map Key.numeral
  | download kind line stop => [(kind.toNat, 1), (line.toNat, 1)] ++ stop.toList.map Key.numeral
  | wait ms => [(ms.toNat, 4)]

/-- The positions that a line counts from one. -/
def positions : Operation → List Nat
  | stringConcat _ dstPos first second => first.pos :: second.toList.map Slice.pos ++ [dstPos]
  | extractCopy _ dstPos src => [src.pos, dstPos]
  | masterSearch _ _ key key2 _ _ _ => key.pos :: key2.toList.map Slice.pos
  | displayRegister _ _ _ start _ _ _ _ => [start]
  | _ => []

end Operation

namespace Line

variable {o : Operation} {f : Field} {fs : List Field} {bs : List UInt8}

namespace Field

/-- The numbers of a field, with its width. -/
def numerals : Field → List (Nat × Nat)
  | int _ value width => [(value, width)]
  | position _ pos width => [(pos + 1, width)]
  | key k => k.toList.map Key.numeral
  | keys s => s.keys.map Key.numeral
  | _ => []

def positions : Field → List Nat
  | position _ pos _ => [pos]
  | _ => []

theorem numerals_lt (h : f.encode = .ok bs) : ∀ n ∈ f.numerals, n.1 < Decimal.power n.2 := by
  have hkeys (ks : List Key) : ∀ n ∈ ks.map Key.numeral, n.1 < Decimal.power n.2 :=
    List.forall_mem_map.mpr fun k _ => (key_known k).1
  cases f with
  | int name value width =>
    obtain ⟨-, hlt, -⟩ := intBytes_ok h
    exact List.forall_mem_singleton.mpr hlt
  | position name pos width =>
    rw [encode] at h
    split at h
    · obtain ⟨-, hlt, -⟩ := intBytes_ok h
      exact List.forall_mem_singleton.mpr hlt
    · cases h
  | key k => exact hkeys k.toList
  | keys s => exact hkeys s.keys
  | _ => exact List.forall_mem_nil _

theorem intBytes_ne_overflow {name : String} {value width : Nat} (hw : width ≤ widthLimit) :
    intBytes name value width ≠ .error .overflow := by
  rw [intBytes, if_neg (Nat.not_lt.mpr hw)]
  split <;> simp

theorem plainBytes_ne_overflow (name : String) (text : List UInt8) :
    plainBytes name text ≠ .error .overflow := by
  unfold plainBytes
  split <;> simp

theorem operandBytes_ne_overflow (o : Operand) (kind : Kind) :
    operandBytes o kind ≠ .error .overflow := by
  unfold operandBytes
  split
  · simp
  · exact plainBytes_ne_overflow _ _
  · split
    · simp
    · exact plainBytes_ne_overflow _ _

/-- Only positions at the end of the word leave it, as far as the widths are those of numbers. -/
theorem encode_overflow_iff (hw : ∀ n ∈ f.numerals, n.2 ≤ widthLimit) :
    f.encode = .error .overflow ↔ ∃ pos ∈ f.positions, Word.limit ≤ pos + 1 := by
  have hfree (hp : f.positions = []) (he : f.encode ≠ .error .overflow) :
      f.encode = .error .overflow ↔ ∃ pos ∈ f.positions, Word.limit ≤ pos + 1 :=
    iff_of_false he (by simp [hp])
  cases f with
  | position name pos width =>
    have hwidth : width ≤ widthLimit := hw _ List.mem_cons_self
    simp only [positions, List.mem_singleton, exists_eq_left]
    rw [encode]
    split
    · next hlt => exact iff_of_false (intBytes_ne_overflow hwidth) (Nat.not_le.mpr hlt)
    · next hge => exact iff_of_true rfl (Nat.le_of_not_lt hge)
  | int name value width => exact hfree rfl (intBytes_ne_overflow (hw _ List.mem_cons_self))
  | bytes name text => exact hfree rfl (plainBytes_ne_overflow name text)
  | operand o kind => exact hfree rfl (operandBytes_ne_overflow o kind)
  | register r => cases r <;> exact hfree rfl (by simp [encode])
  | key k => cases k <;> exact hfree rfl (by simp [encode])
  | keys s =>
    refine hfree rfl ?_
    rw [encode]
    split <;> simp
  | fileName file =>
    refine hfree rfl ?_
    cases file with
    | none => simp [encode]
    | some file =>
      cases file with
      | register r => simp [encode]
      | literal name => exact plainBytes_ne_overflow _ _
  | _ => exact hfree rfl (by simp [encode])

end Field

/-- The fields of an operation hold its numbers. -/
theorem numerals_operationFields (o : Operation) :
    (operationFields o).flatMap Field.numerals = o.numerals := by
  cases o with
  | stringConcat dst dstPos first second => cases second <;> rfl
  | masterSearch file recordLen key key2 method pos result => cases key2 <;> rfl
  | upload file kind line stop => cases stop <;> rfl
  | download kind line stop => cases stop <;> rfl
  | barcodeSetup setup =>
    cases setup with
    | symbology map => rfl
    | reader r =>
      simp [operationFields, setupFields, Operation.numerals, BarcodeSetup.numerals,
        BarcodeSetup.number, zeros, Field.numerals, List.flatMap_map]
      exact List.map_eq_flatMap.symm
  | _ => rfl

theorem positions_operationFields (o : Operation) :
    (operationFields o).flatMap Field.positions = o.positions := by
  cases o with
  | stringConcat dst dstPos first second => cases second <;> rfl
  | masterSearch file recordLen key key2 method pos result => cases key2 <;> rfl
  | barcodeSetup setup =>
    cases setup with
    | symbology map => rfl
    | reader r => simp [operationFields, setupFields, Operation.positions, zeros, Field.positions,
        List.flatMap_map]
  | _ => rfl

theorem numerals_subset (hf : f ∈ operationFields o) : f.numerals ⊆ o.numerals := by
  rw [← numerals_operationFields o]
  exact fun n hn => List.mem_flatMap.mpr ⟨f, hf, hn⟩

/-- No field of an operation has more than four digits. -/
theorem width_le_four (o : Operation) : ∀ n ∈ o.numerals, n.2 ≤ 4 := by
  have hkeys (ks : List Key) : ∀ n ∈ ks.map Key.numeral, n.2 ≤ 4 :=
    List.forall_mem_map.mpr fun _ _ => (by decide : keyWidth ≤ 4)
  have hslice (s : Slice) : ∀ n ∈ s.numerals, n.2 ≤ 4 := by simp [Slice.numerals]
  have hsetup (s : BarcodeSetup) : ∀ n ∈ s.numerals, n.2 ≤ 4 := by
    cases s <;> simp +contextual [BarcodeSetup.numerals, or_imp]
  cases o with
  | stringConcat dst dstPos first second =>
    simp only [Operation.numerals, List.forall_mem_append]
    refine ⟨⟨hslice first, ?_⟩, by simp⟩
    cases second with
    | none => simp
    | some s => exact hslice s
  | extractCopy dst dstPos src =>
    exact List.forall_mem_append.mpr ⟨hslice src, by simp⟩
  | masterSearch file recordLen key key2 method pos result =>
    simp only [Operation.numerals, List.cons_append, List.forall_mem_cons, List.forall_mem_append]
    refine ⟨by decide, ⟨hslice key, ?_⟩, by simp⟩
    cases key2 with
    | none => simp
    | some s => exact hslice s
  | echoedInput row col dst columns noEcho full special cursor minus =>
    simp only [Operation.numerals, List.forall_mem_append]
    exact ⟨⟨by simp, hkeys _⟩, by simp⟩
  | barcodeInput row col dst columns special full flags =>
    simp only [Operation.numerals, List.forall_mem_append]
    exact ⟨⟨by simp, hkeys _⟩, by simp⟩
  | barcodeSetup setup => exact hsetup setup
  | upload file kind line stop =>
    exact List.forall_mem_append.mpr ⟨by simp, hkeys _⟩
  | download kind line stop =>
    exact List.forall_mem_append.mpr ⟨by simp, hkeys _⟩
  | _ => simp [Operation.numerals]

section Refusals

theorem encodeFields_cons_eq_error {e : EncodeError} :
    encodeFields (f :: fs) = .error e ↔
      f.encode = .error e ∨ (∃ bs, f.encode = .ok bs) ∧ encodeFields fs = .error e := by
  rw [encodeFields]
  cases hf : f.encode with
  | error e' => simp
  | ok bs => cases hrest : encodeFields fs <;> simp

/-- The first field that is refused refuses the line. -/
theorem encodeFields_eq_error_iff {e : EncodeError} :
    encodeFields fs = .error e ↔ ∃ front f behind, fs = front ++ f :: behind ∧
      (∃ bs, encodeFields front = .ok bs) ∧ f.encode = .error e := by
  induction fs with
  | nil => simp [encodeFields]
  | cons f rest ih =>
    rw [encodeFields_cons_eq_error, ih]
    constructor
    · rintro (hf | ⟨⟨as, hf⟩, front, g, behind, rfl, ⟨bs, hfront⟩, hg⟩)
      · exact ⟨[], f, rest, rfl, ⟨[], rfl⟩, hf⟩
      · exact ⟨f :: front, g, behind, rfl, ⟨_, encodeFields_cons.mpr ⟨as, bs, hf, hfront, rfl⟩⟩, hg⟩
    · rintro ⟨front, g, behind, hsplit, ⟨bs, hfront⟩, hg⟩
      cases front with
      | nil =>
        obtain ⟨rfl, rfl⟩ := List.cons.inj hsplit
        exact .inl hg
      | cons f' front =>
        obtain ⟨rfl, rfl⟩ := List.cons.inj hsplit
        obtain ⟨as, cs, hf, hcs, -⟩ := encodeFields_cons.mp hfront
        exact .inr ⟨⟨as, hf⟩, front, g, behind, rfl, ⟨cs, hcs⟩, hg⟩

theorem frame_ne_overflow (head payload : List UInt8) : frame head payload ≠ .error .overflow := by
  unfold frame
  dsimp only
  split <;> simp

/-- A line of fields that are written has its room or is refused. -/
theorem encode_eq_overflow {l : Line} :
    l.encode = .error .overflow ↔ encodeFields l.fields = .error .overflow := by
  rw [encode]
  cases encodeFields l.fields with
  | error e => simp
  | ok payload => simp [frame_ne_overflow]

/-- An operation leaves the word exactly at a position that cannot be counted from one, if nothing
before it is refused. -/
theorem encode_eq_overflow_iff :
    (Line.op o).encode = .error .overflow ↔ ∃ front name pos width behind,
      operationFields o = front ++ .position name pos width :: behind ∧
      (∃ bs, encodeFields front = .ok bs) ∧ Word.limit ≤ pos + 1 := by
  rw [encode_eq_overflow, encodeFields_eq_error_iff]
  constructor
  · rintro ⟨front, f, behind, hsplit, hfront, hf⟩
    replace hsplit : operationFields o = front ++ f :: behind := hsplit
    have hmem : f ∈ operationFields o := by simp [hsplit]
    have hwidth : ∀ n ∈ f.numerals, n.2 ≤ widthLimit := fun n hn =>
      Nat.le_trans (width_le_four o n (numerals_subset hmem hn)) (by decide)
    obtain ⟨pos, hpos, hlimit⟩ := (Field.encode_overflow_iff hwidth).mp hf
    cases f with
    | position name pos' width =>
      obtain rfl := List.mem_singleton.mp hpos
      exact ⟨front, name, pos, width, behind, hsplit, hfront, hlimit⟩
    | _ => exact absurd hpos List.not_mem_nil
  · rintro ⟨front, name, pos, width, behind, hsplit, hfront, hlimit⟩
    exact ⟨front, _, behind, hsplit, hfront, if_neg (Nat.not_lt.mpr hlimit)⟩

end Refusals

section Fitting

theorem fields_numerals_lt (h : encodeFields fs = .ok bs) :
    ∀ f ∈ fs, ∀ n ∈ f.numerals, n.1 < Decimal.power n.2 := by
  induction fs generalizing bs with
  | nil => exact List.forall_mem_nil _
  | cons f rest ih =>
    obtain ⟨as, cs, has, hcs, -⟩ := encodeFields_cons.mp h
    exact List.forall_mem_cons.mpr ⟨Field.numerals_lt has, ih hcs⟩

/-- What is written for an operation has room for its numbers. -/
theorem numerals_lt (h : (Line.op o).encode = .ok bs) : ∀ n ∈ o.numerals, n.1 < Decimal.power n.2 := by
  obtain ⟨payload, hpayload, -⟩ := encode_framed h
  intro n hn
  rw [← numerals_operationFields o] at hn
  obtain ⟨f, hf, hn⟩ := List.mem_flatMap.mp hn
  exact fields_numerals_lt hpayload f hf n hn

/-- As long as its positions can be counted from one, an operation makes a line or is refused. It
makes a line only if each of its numbers has no more digits than its field. Nothing but a position at
the end of the word leaves the word, behind fields that are written. -/
theorem operation_fits_or_refused (o : Operation) :
    ((∀ pos ∈ o.positions, pos + 1 < Word.limit) →
      (∃ bs, (Line.op o).encode = .ok bs) ∨
        ∃ e, e ≠ .overflow ∧ (Line.op o).encode = .error e) ∧
    (∀ bs, (Line.op o).encode = .ok bs → ∀ n ∈ o.numerals, n.1 < Decimal.power n.2) ∧
    ((Line.op o).encode = .error .overflow ↔ ∃ front name pos width behind,
      operationFields o = front ++ .position name pos width :: behind ∧
      (∃ bs, encodeFields front = .ok bs) ∧ Word.limit ≤ pos + 1) := by
  refine ⟨fun hpos => ?_, fun bs h => numerals_lt h, encode_eq_overflow_iff⟩
  cases he : (Line.op o).encode with
  | ok bs => exact .inl ⟨bs, rfl⟩
  | error e =>
    refine .inr ⟨e, ?_, rfl⟩
    rintro rfl
    obtain ⟨front, name, pos, width, behind, hsplit, -, hlimit⟩ := encode_eq_overflow_iff.mp he
    have hmem : pos ∈ o.positions := by simp [← positions_operationFields, hsplit, Field.positions]
    exact absurd (hpos pos hmem) (Nat.not_lt.mpr hlimit)

/-- A slice of the greatest length, to the last position that three digits count. -/
theorem operation_fits_or_refused_widest :
    let o := Operation.extractCopy (.dat 0) 998 ⟨.dat 1, 0, 999⟩
    let bs := (Text.ofString "027E03DAT2 001999DAT1 999\x0d\n").bytes
    (∀ pos ∈ o.positions, pos + 1 < Word.limit) ∧ (Line.op o).encode = .ok bs ∧
      (∀ n ∈ o.numerals, n.1 < Decimal.power n.2) ∧
      ((∃ bs, (Line.op o).encode = .ok bs) ∨
        ∃ e, e ≠ .overflow ∧ (Line.op o).encode = .error e) := by
  intro o bs
  have hpos : ∀ pos ∈ o.positions, pos + 1 < Word.limit := by decide
  have hwritten : (Line.op o).encode = .ok bs := Except.toOption_eq_some.mp (by decide +kernel)
  obtain ⟨hfits, hnumerals, -⟩ := operation_fits_or_refused o
  exact ⟨hpos, hwritten, hnumerals bs hwritten, hfits hpos⟩

/-- The last position of a word cannot be counted from one. -/
theorem not_every_operation_fits_or_refused :
    ¬ ∀ o : Operation, (∀ n ∈ o.numbers, n < Word.limit) →
      (∃ bs, (Line.op o).encode = .ok bs) ∨
        ∃ e, e ≠ .overflow ∧ (Line.op o).encode = .error e := by
  intro hall
  let o := Operation.extractCopy (.dat 0) (Word.limit - 1) ⟨.dat 1, 0, 1⟩
  let front : List Field :=
    [.register (some (.dat 1)), .position "position" 0 3, .int "size" 1 3, .register (some (.dat 0))]
  have hfront : encodeFields front = .ok (Text.ofString "DAT2 001001DAT1 ").bytes :=
    Except.toOption_eq_some.mp (by decide +kernel)
  have hoverflow : (Line.op o).encode = .error .overflow :=
    encode_eq_overflow_iff.mpr ⟨front, _, _, _, [], rfl, ⟨_, hfront⟩, Nat.le_refl _⟩
  rcases hall o (by decide) with ⟨bs, hbs⟩ | ⟨e, hne, he⟩
  · cases hoverflow.symm.trans hbs
  · exact hne (Except.error.inj (he.symm.trans hoverflow))

end Fitting

end Line
end Handheld
