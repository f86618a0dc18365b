import Handheld.Proofs.Line.FileNames

namespace Handheld

/-- The file that an operation names. -/
def Operation.file? : Operation → Option FileName
  | .recordWrite file .. | .recordRead file .. | .recordCount file .. | .fileDelete file
  | .fileExists file | .masterSearch file .. | .upload file .. => some file
  | _ => none

/-- The register that a barcode is scanned into. -/
def Operation.scanned? : Operation → Option Register
  | .barcodeInput _ _ dst .. => some dst
  | _ => none

/-- An operation that its fields tell: its file has a plain name, what it assigns is of the kind of
the register, and barcodes go to a register of the text pool. -/
structure Operation.Legible (o : Operation) : Prop where
  file : ∀ f, o.file? = some f → f.Plain
  literal : ∀ dst src, o = .assign dst src → src.Legible dst.kind
  scanned : ∀ r, o.scanned? = some r → ∃ i, r = .dat i

/-- A title whose texts fit, and that has no blanks to lose. -/
structure Title.Legible (t : Title) : Prop where
  title : t.title.length ≤ Title.titleMax ∧ t.title.trim = t.title
  version : t.version.length ≤ Title.versionMax ∧ t.version.trim = t.version

/-- A line that its fields tell. -/
def Line.Legible : Line → Prop
  | .title t => t.Legible
  | .label number offset => number < Word.limit32 ∧ offset < Word.limit32
  | .jump _ => True
  | .jumpIf cond _ => cond.right.Legible cond.left.kind
  | .op o => o.Legible

namespace Line

open Read

variable {bs payload : List UInt8}

section Parts

theorem reads_slice (s : Slice) : Reads readSlice (sliceFields s) s :=
  (reads_register s.reg).cons ((reads_position _ s.pos (by decide)).cons
    (reads_int _ s.len (by decide)).map)

theorem reads_optSlice (s : Slice) : Reads readOptSlice (sliceFields s) (some s) :=
  (reads_optRegister s.reg).cons ((reads_position _ s.pos (by decide)).cons
    (reads_int _ s.len (by decide)).map)

theorem reads_noSlice : Reads readOptSlice noSliceFields none := by
  refine reads_optRegister_none.cons ?_
  have hskip : Reads (skip 6) [.int "position" 1 3, .int "size" 0 3] () := by
    intro bs behind hb
    obtain rfl : Decimal.padded 3 1 ++ (Decimal.padded 3 0 ++ []) = bs := Except.ok.inj hb
    rfl
  exact hskip.map

theorem reads_noKey : Reads readOptSlice [.pad Text.fill 11] none := by
  refine .of_encode fun bs behind hb => ?_
  obtain rfl : blanks registerWidth ++ blanks 6 = bs := Except.ok.inj hb
  rfl

theorem reads_record {file : FileName} (h : file.Plain) (len : Nat) :
    Reads readRecord (recordFields file len) (file, len) :=
  (reads_fileName h).cons ((reads_skip _ 1).cons (reads_int _ len (by decide)).map)

theorem reads_transfer (kind line : UInt8) (stop : Option Key) :
    Reads readTransfer (transferFields kind line stop) (kind, line, stop) := by
  refine (reads_int _ kind.toNat (by decide)).cons ((reads_int _ line.toNat (by decide)).cons ?_)
  have hkind : kind.toNat.toUInt8 = kind := UInt8.ofNat_toNat
  have hline : line.toNat.toUInt8 = line := UInt8.ofNat_toNat
  rw [hkind, hline]
  exact (reads_key stop).map

theorem reads_skipBytes (name : String) {n : Nat} {text : List UInt8} (hn : text.length = n) :
    Reads (skip n) [.bytes name text] () :=
  (reads_take name hn).map

theorem reads_symbology (map : UInt16) :
    Reads readSetup (setupFields (.symbology map)) (.symbology map) := by
  refine (reads_int _ 1 (by decide)).cons ((reads_skip _ 2).cons
    ((reads_int _ map.toNat (by decide)).cons ?_))
  have hmap : map.toNat.toUInt16 = map := UInt16.ofNat_toNat
  rw [hmap]
  exact (reads_skipBytes _ rfl).map

theorem reads_reader (r : ReaderSettings) : Reads readSetup (setupFields (.reader r)) (.reader r) := by
  obtain ⟨⟨⟨digits⟩, hlen⟩, freq, ms, laser, verify, vibration⟩ := r
  match digits, hlen with
  | [a, b, c, d, e], _ =>
    refine (reads_int _ 2 (by decide)).cons ((reads_int _ a.toNat (by decide)).cons
      ((reads_int _ b.toNat (by decide)).cons ((reads_int _ c.toNat (by decide)).cons
      ((reads_int _ d.toNat (by decide)).cons ((reads_int _ e.toNat (by decide)).cons
      ((reads_skip _ 1).cons ((reads_int _ freq.toNat (by decide)).cons
      ((reads_int _ ms.toNat (by decide)).cons ((reads_skip _ 2).cons
      ((reads_int _ laser.toNat (by decide)).cons ((reads_skip _ 1).cons
      ((reads_int _ verify.toNat (by decide)).cons ?_))))))))))))
    have hwide (n : UInt16) : n.toNat.toUInt16 = n := UInt16.ofNat_toNat
    have hbyte (n : UInt8) : n.toNat.toUInt8 = n := UInt8.ofNat_toNat
    have hlast : Reads (int 4) [.int "vibration" vibration.toNat 4] vibration.toNat :=
      reads_int _ _ (by decide)
    have hmade := hlast.map (f := fun n => BarcodeSetup.reader
      ⟨#v[a, b, c, d, e], freq, ms, laser, verify, n.toUInt16⟩)
    rw [hwide] at hmade
    simp only [hwide, hbyte]
    exact hmade

theorem reads_setup (s : BarcodeSetup) : Reads readSetup (setupFields s) s := by
  cases s with
  | symbology map => exact reads_symbology map
  | reader r => exact reads_reader r

theorem reads_side (byte : UInt8) : Reads (take 1) [.pad byte 1] [byte] :=
  .of_encode fun bs behind hb => by
    obtain rfl : [byte] = bs := Except.ok.inj hb
    exact @take_append [byte] 1 rfl behind

theorem startScreen_known (s : StartScreen) : StartScreen.ofCode? s.code = some s := by
  cases s <;> rfl

theorem fullAction_known (a : FullAction) : FullAction.ofCode? a.code = some a := by
  cases a <;> rfl

theorem cursor_known (c : CursorShape) : CursorShape.ofCode? c.code = some c := by
  cases c <;> rfl

theorem profile_known (p : Profile) : Profile.find? p.machine p.fontSize = some p := by
  cases p <;> rfl

theorem textRegister_known (i : Fin 10) : textRegister? (Register.dat i).ordinal = some (.dat i) := by
  revert i
  decide +kernel

theorem reads_title {t : Title} (h : t.Legible) : Reads readTitle (titleFields t) t := by
  refine (reads_text _ (Text.length_forceSize _ _ _)).cons ((reads_skip _ 1).cons
    ((reads_text _ (Text.length_forceSize _ _ _)).cons ?_))
  rw [Text.trim_forceSize h.title.1, h.title.2, Text.trim_forceSize h.version.1, h.version.2]
  refine (reads_coded _ _ (by decide) (startScreen_known _)).cons
    ((reads_int _ _ (by decide)).cons ((reads_flag _).cons ((reads_int _ _ (by decide)).cons ?_)))
  rw [profile_known]
  exact .pure t

end Parts

section Labels

open Unicode Utf8

variable {number offset : List Char}

theorem isDecimalDigit_digit {d : Nat} (h : d < 10) :
    isDecimalDigit (Char.ofNat (Decimal.digit d).toNat) = true := by
  rw [Decimal.toNat_digit h]
  interval_cases d <;> decide

theorem isDecimalDigit_of_mem {n : Nat} {c : Char} (h : c ∈ characters (Decimal.bytes n)) :
    isDecimalDigit c = true := by
  obtain ⟨b, hb, rfl⟩ := List.mem_map.mp h
  obtain ⟨d, hd, rfl⟩ := Decimal.exists_of_mem_padded hb
  exact isDecimalDigit_digit hd

theorem characters_bytes_ne_nil (n : Nat) : characters (Decimal.bytes n) ≠ [] := by
  rw [characters, Ne, List.map_eq_nil_iff]
  exact Decimal.padded_ne_nil (Decimal.width_pos n) n

/-- The comma parts the digits of the number from those of the offset. -/
theorem readLabel_parts (hcs : Text.lossy ⟨bs⟩ = String.ofList (number ++ ',' :: offset))
    (hn : number ≠ []) (hnd : ∀ c ∈ number, isDecimalDigit c = true)
    (ho : offset ≠ []) (hod : ∀ c ∈ offset, isDecimalDigit c = true) :
    readLabel bs =
      (do
        let n ← readLabel.numeral number
        return .label n (← readLabel.numeral offset) : Read Line) [] := by
  have hcomma : isDecimalDigit ',' = false := by decide
  have htake : (number ++ ',' :: offset).takeWhile isDecimalDigit = number := by
    rw [List.takeWhile_append_of_pos hnd, List.takeWhile_cons, hcomma]
    exact List.append_nil number
  have hdrop : (number ++ ',' :: offset).dropWhile isDecimalDigit = ',' :: offset := by
    rw [List.dropWhile_append_of_pos hnd, List.dropWhile_cons, hcomma]
    rfl
  have hall : offset.all isDecimalDigit = true := List.all_eq_true.mpr hod
  have hgood : (number.isEmpty || offset.isEmpty || !offset.all isDecimalDigit) = false := by
    simp [hn, ho, hall]
  rw [readLabel, run_bind]
  simp only [rest, hcs, String.toList_ofList, htake, hdrop, hgood, Bool.false_eq_true, if_false]

/-- A numeral is read from the characters alone. -/
theorem reads_numeral {n : Nat} (h : n < Word.limit32) :
    Reads (readLabel.numeral (characters (Decimal.bytes n))) [] n := by
  intro bs behind hb
  obtain rfl : [] = bs := Except.ok.inj hb
  have hascii : ∀ b ∈ Decimal.bytes n, b < 0x80 := fun b hb => Decimal.padded_lt hb
  have hread : Decimal.read (Word.limit32 - 1) (Decimal.bytes n) = .ok n :=
    Decimal.read_bytes (Nat.le_sub_one_of_lt h)
  rw [readLabel.numeral, encode_characters hascii, hread]
  rfl

theorem readsLast_label {number offset : Nat} (hn : number < Word.limit32)
    (ho : offset < Word.limit32) :
    ReadsLast readLabel (Line.label number offset).fields (.label number offset) := by
  intro bs hb
  obtain ⟨as, cs, has, hcs, rfl⟩ := encodeFields_cons.mp hb
  obtain rfl : [] = cs := Except.ok.inj hcs
  obtain ⟨rfl, -⟩ := plainBytes_ok has
  rw [List.append_nil]
  have hascii : ∀ b ∈ Decimal.bytes number ++ 0x2C :: Decimal.bytes offset, b < 0x80 := by
    intro b hb
    rcases List.mem_append.mp hb with hb | hb
    · exact Decimal.padded_lt hb
    · rcases List.mem_cons.mp hb with rfl | hb
      · decide
      · exact Decimal.padded_lt hb
  have hlossy : Text.lossy ⟨Decimal.bytes number ++ 0x2C :: Decimal.bytes offset⟩ =
      String.ofList
        (characters (Decimal.bytes number) ++ ',' :: characters (Decimal.bytes offset)) := by
    rw [Text.lossy, lossy_ascii hascii, characters, List.map_append]
    rfl
  rw [readLabel_parts hlossy (characters_bytes_ne_nil _) (fun _ => isDecimalDigit_of_mem)
    (characters_bytes_ne_nil _) (fun _ => isDecimalDigit_of_mem)]
  exact ((reads_numeral hn).bind (reads_numeral ho).map).last [] rfl

end Labels

section Operations

variable {o : Operation}

theorem readsLast_operation (h : o.Legible) :
    ReadsLast (readFields (.ofOperation o)) (operationFields o) (.op o) := by
  cases o with
  | assign dst src =>
    exact (reads_register dst).consLast (readsLast_operand (h.literal dst src rfl)).map
  | stringConcat dst dstPos first second =>
    have hdst : Reads (do
        let dst ← register
        return Line.op (.stringConcat dst (← position 3) first second))
        [.register (some dst), .position "position" dstPos 3]
        (.op (.stringConcat dst dstPos first second)) :=
      (reads_register dst).cons (reads_position _ dstPos (by decide)).map
    cases second with
    | none => exact ((reads_slice first).bind (reads_noSlice.bind hdst)).last
    | some s => exact ((reads_slice first).bind ((reads_optSlice s).bind hdst)).last
  | extractCopy dst dstPos src =>
    exact ((reads_slice src).bind ((reads_register dst).cons
      (reads_position _ dstPos (by decide)).map)).last
  | stringShift reg size align fill =>
    refine ((reads_register reg).cons ((reads_int _ size (by decide)).cons ?_)).last
    have hfill (align : Align) : Reads (do
        let fill ← take 1
        return Line.op (.stringShift reg size align (fill.headD Text.fill)))
        [.bytes "fill" [fill]] (.op (.stringShift reg size align fill)) :=
      (reads_take _ rfl).map
    cases align with
    | left => exact (reads_side 0x4C).cons (hfill .left)
    | right => exact (reads_side 0x52).cons (hfill .right)
  | numberToString dst src => exact ((reads_register dst).cons (reads_register src).map).last
  | variableInit reg => exact (reads_register reg).map.last
  | recordWrite file recordLen src overwrite crlf =>
    exact ((reads_record (h.file file rfl) recordLen).bind ((reads_flag crlf).cons
      ((reads_register src).cons (reads_flag overwrite).map))).last
  | recordRead file recordLen dst pos =>
    exact ((reads_record (h.file file rfl) recordLen).bind ((reads_register dst).cons
      (reads_filePosition pos).map)).last
  | recordCount file recordLen dst =>
    exact ((reads_record (h.file file rfl) recordLen).bind (reads_register dst).map).last
  | fileDelete file => exact (reads_fileName (h.file file rfl)).map.last
  | fileExists file => exact (reads_fileName (h.file file rfl)).map.last
  | masterSearch file recordLen key key2 method pos result =>
    have hend : Reads (do
        let method ← int 1
        let pos ← filePosition
        return Line.op (.masterSearch file recordLen key key2 method.toUInt8 pos (← register)))
        [.int "search method" method.toNat 1, .filePosition pos, .register (some result)]
        (.op (.masterSearch file recordLen key key2 method pos result)) := by
      refine (reads_int _ method.toNat (by decide)).cons ((reads_filePosition pos).cons ?_)
      have hmethod : method.toNat.toUInt8 = method := UInt8.ofNat_toNat
      rw [hmethod]
      exact (reads_register result).map
    have hrecord := reads_record (h.file file rfl) recordLen
    cases key2 with
    | none => exact (hrecord.bind ((reads_slice key).bind (reads_noKey.bind hend))).last
    | some k => exact (hrecord.bind ((reads_slice key).bind ((reads_optSlice k).bind hend))).last
  | echoedInput row col dst columns noEcho full special cursor minus =>
    exact ((reads_int _ col (by decide)).cons ((reads_int _ row (by decide)).cons
      ((reads_register dst).cons ((reads_int _ columns (by decide)).cons ((reads_flag noEcho).cons
      ((reads_coded _ _ (by decide) (fullAction_known full)).cons ((reads_keys special).cons
      ((reads_coded _ _ (by decide) (cursor_known cursor)).cons (reads_flag minus).map)))))))).last
  | barcodeInput row col dst columns special full flags =>
    obtain ⟨i, rfl⟩ := h.scanned dst rfl
    exact ((reads_int _ col (by decide)).cons ((reads_int _ row (by decide)).cons
      ((reads_coded _ _ (by decide) (textRegister_known i)).cons
      ((reads_int _ columns (by decide)).cons ((reads_skip _ 11).cons ((reads_flag _).cons
      ((reads_flag _).cons ((reads_flag _).cons ((reads_flag _).cons ((reads_flag _).cons
      ((reads_keys special).cons ((reads_coded _ _ (by decide) (fullAction_known full)).cons
      (reads_flag _).map)))))))))))).last
  | barcodeSetup setup => exact (reads_setup setup).map.last
  | noEchoInput dst => exact (reads_register dst).map.last
  | displayString row col clear text =>
    exact ((reads_int _ col (by decide)).cons ((reads_int _ row (by decide)).cons
      ((reads_skip _ 2).cons ((reads_int _ clear (by decide)).cons
      ((reads_int _ text.length (by decide)).cons (reads_text _ rfl).map))))).last
  | displayClear => exact (Reads.pure _).last
  | displayPartClear row col len quarter =>
    exact ((reads_int _ col (by decide)).cons ((reads_int _ row (by decide)).cons
      ((reads_int _ len (by decide)).cons (reads_flag quarter).map))).last
  | displayRegister row col reg start len clear quarter reverse =>
    exact ((reads_int _ col (by decide)).cons ((reads_int _ row (by decide)).cons
      ((reads_flag quarter).cons ((reads_flag reverse).cons ((reads_skip _ 2).cons
      ((reads_position _ start (by decide)).cons ((reads_int _ len (by decide)).cons
      ((reads_register reg).cons (reads_int _ clear (by decide)).map)))))))).last
  | upload file kind line stop =>
    exact ((reads_fileName (h.file file rfl)).cons (reads_transfer kind line stop).map).last
  | download kind line stop =>
    exact (reads_noFileName.cons (reads_transfer kind line stop).map).last
  | wait ms =>
    have hms : ms.toNat.toUInt32 = ms := UInt32.ofNat_toNat
    have hread : Reads (int 4) [.int "wait" ms.toNat 4] ms.toNat := reads_int _ _ (by decide)
    have hmade := hread.map (f := fun n => Line.op (.wait n.toUInt32))
    rw [hms] at hmade
    exact hmade.last

end Operations

section Lines

variable {l : Line}

/-- Behind its head, a line of any kind reads as what it was written for. -/
theorem readsLast_line (h : l.Legible) : ReadsLast (readFields l.head) l.fields l := by
  cases l with
  | title t => exact (reads_title h).map.last
  | label number offset => exact readsLast_label h.1 h.2
  | jump number => exact (reads_int _ number (by decide)).map.last
  | jumpIf cond number =>
    obtain ⟨left, comparison, right⟩ := cond
    exact (reads_int _ number (by decide)).consLast ((reads_comparison comparison).consLast
      ((reads_register left).consLast (readsLast_operand h).map))
  | op o => exact readsLast_operation h

theorem split?_bytes (h : Head) (bs : List UInt8) : Head.split? (h.bytes ++ bs) = some (h, bs) := by
  cases h <;> rfl

theorem decode_payload (h : l.Legible) (hb : encodeFields l.fields = .ok bs) (number : Nat) :
    decode number (l.head.bytes ++ bs) = .ok l := by
  have hread : (do let l ← readFields l.head; finish; return l : Read Line) bs = (.ok l, []) := by
    rw [run_bind, readsLast_line h bs hb]
    rfl
  simp only [decode, split?_bytes, hread]

/-- What fills up a line is a blank, a zero, or the letter of a side. -/
theorem pad_ne_return (l : Line) : ∀ f ∈ l.fields, ∀ n, f ≠ .pad 0x0D n := by
  intro f hf n hpad
  subst hpad
  cases l with
  | title t => simp [fields, titleFields, Text.fill] at hf
  | label number offset => simp [fields] at hf
  | jump number => simp [fields] at hf
  | jumpIf cond number => simp [fields] at hf
  | op o =>
    rw [fields] at hf
    cases o with
    | stringConcat dst dstPos first second =>
      cases second <;> simp [operationFields, sliceFields, noSliceFields] at hf
    | stringShift reg size align fill => cases align <;> simp [operationFields] at hf
    | masterSearch file recordLen key key2 method pos result =>
      cases key2 <;>
        simp [operationFields, recordFields, sliceFields, zeros, Text.fill] at hf
    | barcodeSetup setup =>
      cases setup <;> simp [operationFields, setupFields, zeros] at hf
    | _ =>
      simp [operationFields, recordFields, sliceFields, placeFields, transferFields, zeros] at hf

/-- A written line: its length, its head and its fields, and the line end. No carriage return comes
before the line end. -/
theorem encode_framed (h : l.encode = .ok bs) :
    ∃ payload, encodeFields l.fields = .ok payload ∧ 0x0D ∉ l.head.bytes ++ payload ∧
      bs.length < Decimal.power prefixWidth ∧
      bs = Decimal.padded prefixWidth bs.length ++ (l.head.bytes ++ payload) ++ crlf := by
  unfold encode at h
  split at h
  · cases h
  · next payload hp =>
    obtain ⟨hlt, hbs⟩ := frame_ok h
    have hhead : 0x0D ∉ l.head.bytes := by cases l.head <;> decide
    refine ⟨payload, hp, ?_, hlt, hbs⟩
    rw [List.mem_append, not_or]
    exact ⟨hhead, return_not_mem_fields l.pad_ne_return hp⟩

end Lines

section Frames

variable {l : Line} {number start : Nat} {fs gs : List Frame} {cs : List UInt8}

/-- The bytes are the lines of the frames, whatever follows them. -/
def Framed (number start : Nat) (bytes : List UInt8) (fs : List Frame) : Prop :=
  ∀ behind, framesFrom number start [] (bytes ++ behind) =
    (framesFrom (number + fs.length) (start + bytes.length) [] behind).map (fs ++ ·)

theorem Framed.nil : Framed number start [] [] := by
  intro behind
  show framesFrom number start [] behind = (framesFrom number start [] behind).map id
  cases framesFrom number start [] behind <;> rfl

theorem Framed.append (h : Framed number start bs fs)
    (h' : Framed (number + fs.length) (start + bs.length) cs gs) :
    Framed number start (bs ++ cs) (fs ++ gs) := by
  intro behind
  rw [List.append_assoc, h, h', List.length_append, List.length_append, Nat.add_assoc,
    Nat.add_assoc]
  cases framesFrom (number + (fs.length + gs.length)) (start + (bs.length + cs.length)) [] behind with
  | error e => rfl
  | ok more => exact congrArg Except.ok (List.append_assoc fs gs more).symm

theorem Framed.frames (h : Framed 1 0 bs fs) : frames bs = .ok fs := by
  have hall := h []
  rw [List.append_nil] at hall
  rw [Line.frames, hall]
  exact congrArg Except.ok (List.append_nil fs)

/-- Without a carriage return no line ends. -/
theorem framesFrom_append {line : List UInt8} (h : 0x0D ∉ bs) (behind : List UInt8) :
    framesFrom number start line (bs ++ behind) =
      framesFrom number start (bs.reverse ++ line) behind := by
  induction bs generalizing line with
  | nil => rfl
  | cons b rest ih =>
    obtain ⟨hb, hrest⟩ := not_or.mp (mt List.mem_cons.mpr h)
    rw [List.cons_append, framesFrom, ih hrest, List.reverse_cons, List.append_assoc]
    · rfl
    · rintro r rfl -
      exact hb rfl

theorem ofLine_padded {text : List UInt8} {n : Nat} (hn : n < Decimal.power prefixWidth)
    (hlen : n = prefixWidth + text.length + crlf.length) :
    Frame.ofLine number start (Decimal.padded prefixWidth n ++ text) = .ok ⟨number, start, text⟩ := by
  have hpad : (Decimal.padded prefixWidth n).length = prefixWidth := Decimal.length_padded _ _
  have hwide : ¬ (Decimal.padded prefixWidth n ++ text).length < prefixWidth := by
    rw [List.length_append, hpad]
    omega
  have htake : (Decimal.padded prefixWidth n ++ text).take prefixWidth = Decimal.padded prefixWidth n :=
    List.take_left' hpad
  have hdrop : (Decimal.padded prefixWidth n ++ text).drop prefixWidth = text :=
    List.drop_left' hpad
  have hread : Decimal.readUnsigned? (Word.limit - 1) (Decimal.padded prefixWidth n) = some n :=
    Decimal.readUnsigned?_padded (by decide) hn
      (Nat.le_of_lt (Nat.lt_of_lt_of_le hn (by decide)))
  have hactual : n = (Decimal.padded prefixWidth n ++ text).length + crlf.length := by
    rw [List.length_append, hpad]
    exact hlen
  rw [Frame.ofLine, if_neg hwide, htake, hread, hdrop]
  dsimp only
  rw [if_pos hactual]

/-- A written line is one frame, with its head and its fields. -/
theorem framed_encode (h : l.encode = .ok bs) (number start : Nat) :
    ∃ payload, encodeFields l.fields = .ok payload ∧
      Framed number start bs [⟨number, start, l.head.bytes ++ payload⟩] := by
  obtain ⟨payload, hp, hreturn, hlt, hbs⟩ := encode_framed h
  refine ⟨payload, hp, fun behind => ?_⟩
  generalize hn : bs.length = n at hlt hbs
  have hlen : n = prefixWidth + (l.head.bytes ++ payload).length + crlf.length := by
    rw [← hn, hbs]
    simp only [List.length_append, Decimal.length_padded]
  have hplain : 0x0D ∉ Decimal.padded prefixWidth n ++ (l.head.bytes ++ payload) := by
    rw [List.mem_append, not_or]
    exact ⟨Decimal.not_mem_padded (by decide) _ _, hreturn⟩
  have hbehind : bs ++ behind =
      (Decimal.padded prefixWidth n ++ (l.head.bytes ++ payload)) ++ 0x0D :: 0x0A :: behind := by
    rw [hbs, List.append_assoc _ crlf behind]
    rfl
  have hnext : start + (Decimal.padded prefixWidth n ++ (l.head.bytes ++ payload)).reverse.length +
      crlf.length = start + n := by
    rw [List.length_reverse, List.length_append, Decimal.length_padded, hlen]
    omega
  rw [hbehind, framesFrom_append hplain, List.append_nil, framesFrom, List.reverse_reverse,
    ofLine_padded hlt hlen]
  dsimp only
  rw [hnext]
  rfl

/-- What is written for a line that its fields tell is one frame, and its payload decodes to the line,
under whatever number. -/
theorem encode_reads_back (h : l.Legible) (hw : l.encode = .ok bs) :
    ∃ payload, frames bs = .ok [⟨1, 0, payload⟩] ∧ ∀ number, decode number payload = .ok l := by
  obtain ⟨payload, hp, hframed⟩ := framed_encode hw 1 0
  exact ⟨l.head.bytes ++ payload, hframed.frames, decode_payload h hp⟩

theorem encode_reads_back_masterSearch :
    let l := Line.op (.masterSearch (.literal (.ofString "MASTER")) 20 ⟨.dat 0, 0, 8⟩
      (some ⟨.usr 0, 4, 2⟩) 1 .top (.int 0))
    let bs := (Text.ofString
      "056F08MASTER      0020DAT1 001008USR1 0050021TOP INT1 \x0d\n").bytes
    l.Legible ∧ l.encode = .ok bs ∧
      ∃ payload, frames bs = .ok [⟨1, 0, payload⟩] ∧ ∀ number, decode number payload = .ok l := by
  intro l bs
  have hlegible : l.Legible := by
    refine ⟨fun f hf => ?_, nofun, nofun⟩
    cases hf
    decide +kernel
  have hwritten : l.encode = .ok bs := Except.toOption_eq_some.mp (by decide +kernel)
  exact ⟨hlegible, hwritten, encode_reads_back hlegible hwritten⟩

end Frames

end Line
end Handheld
