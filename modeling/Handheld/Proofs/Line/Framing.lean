import Handheld.Proofs.Line.RoundTrip
import Handheld.Proofs.Line.Spelling
import Mathlib.Data.List.Forall2

namespace Handheld.Line

variable {number start : Nat} {line payload bs behind bytes rest : List UInt8} {fs : List Frame}

/-- No line ends within the bytes. -/
def Unbroken (bs : List UInt8) : Prop := ¬ crlf <:+: bs

/-- The line holds the payload: three bytes in front spell how long the line is, and the only line
end stands behind. -/
def Holds (line payload : List UInt8) : Prop :=
  ∃ size, size.length = prefixWidth ∧ Decimal.Spells size line.length ∧
    Unbroken (size ++ payload) ∧ line = size ++ payload ++ crlf

/-- The frames are the lines of the bytes one behind the other, the first with the number and at the
place. -/
inductive Tiles : Nat → Nat → List UInt8 → List Frame → Prop where
  | nil (number start : Nat) : Tiles number start [] []
  | cons {number start : Nat} {line payload bytes : List UInt8} {fs : List Frame}
      (h : Holds line payload) (hs : Tiles (number + 1) (start + line.length) bytes fs) :
      Tiles number start (line ++ bytes) (⟨number, start, payload⟩ :: fs)

/-- What is wrong with the first line of the bytes. -/
inductive Broken : List UInt8 → Flaw → Prop where
  | noTerminator {bytes : List UInt8} (hne : bytes ≠ []) (h : Unbroken bytes) :
      Broken bytes .noTerminator
  | noPrefix {line : List UInt8} (h : Unbroken line)
      (hs : ∀ size, size <+: line → size.length = prefixWidth → ∀ n, ¬ Decimal.Spells size n)
      (rest : List UInt8) : Broken (line ++ crlf ++ rest) .noPrefix
  | wrongLength {size payload : List UInt8} {declared : Nat} (h : Unbroken (size ++ payload))
      (hw : size.length = prefixWidth) (hs : Decimal.Spells size declared)
      (hne : declared ≠ (size ++ payload ++ crlf).length) (rest : List UInt8) :
      Broken (size ++ payload ++ crlf ++ rest)
        (.wrongLength declared (size ++ payload ++ crlf).length)

section Ends

theorem unbroken_cons {b : UInt8} :
    Unbroken (b :: bs) ↔ ¬ (b = 0x0D ∧ bs.head? = some 0x0A) ∧ Unbroken bs := by
  have hfront : crlf <+: b :: bs ↔ b = 0x0D ∧ bs.head? = some 0x0A := by
    cases bs with
    | nil => simp [crlf]
    | cons c rest => simp [crlf, List.cons_prefix_cons, eq_comm]
  rw [Unbroken, List.infix_cons_iff, hfront, not_or]
  rfl

/-- Bytes that are broken hold a first line. -/
theorem exists_line (h : ¬ Unbroken bytes) :
    ∃ line rest, Unbroken line ∧ bytes = line ++ crlf ++ rest := by
  induction bytes with
  | nil => exact absurd (by simp [Unbroken, crlf]) h
  | cons b bytes ih =>
    by_cases hb : b = 0x0D ∧ bytes.head? = some 0x0A
    · obtain ⟨rfl, hhead⟩ := hb
      obtain ⟨rest, rfl⟩ := List.head?_eq_some_iff.mp hhead
      exact ⟨[], rest, by simp [Unbroken, crlf], rfl⟩
    · obtain ⟨line, rest, hline, rfl⟩ := ih fun hu => h (unbroken_cons.mpr ⟨hb, hu⟩)
      refine ⟨b :: line, rest, unbroken_cons.mpr ⟨fun hl => hb ⟨hl.1, ?_⟩, hline⟩, rfl⟩
      obtain ⟨more, rfl⟩ := List.head?_eq_some_iff.mp hl.2
      rfl

/-- Without a line end the bytes are put to the line being read. -/
theorem framesFrom_unbroken (h : Unbroken bs) (hb : behind.head? ≠ some 0x0A) {line : List UInt8} :
    framesFrom number start line (bs ++ behind) =
      framesFrom number start (bs.reverse ++ line) behind := by
  induction bs generalizing line with
  | nil => rfl
  | cons b rest ih =>
    obtain ⟨hpair, hrest⟩ := unbroken_cons.mp h
    rw [List.cons_append, framesFrom, ih hrest, List.reverse_cons, List.append_assoc]
    · rfl
    · rintro r rfl hr
      cases rest with
      | nil =>
        obtain rfl : behind = 0x0A :: r := hr
        exact hb rfl
      | cons c rest => exact hpair ⟨rfl, congrArg some (List.cons.inj hr).1⟩

theorem framesFrom_line (h : Unbroken line) (rest : List UInt8) :
    framesFrom number start [] (line ++ crlf ++ rest) =
      match Frame.ofLine number start line with
      | .error e => .error e
      | .ok f => (framesFrom (number + 1) (start + (line ++ crlf).length) [] rest).map (f :: ·) := by
  have hlen : start + line.reverse.length + crlf.length = start + (line ++ crlf).length := by
    rw [List.length_reverse, List.length_append, Nat.add_assoc]
  have hend := framesFrom.eq_2 number start line.reverse rest
  rw [List.reverse_reverse, hlen] at hend
  rw [List.append_assoc, framesFrom_unbroken h (by simp [crlf]), List.append_nil]
  exact hend

theorem framesFrom_end (hne : bytes ≠ []) (h : Unbroken bytes) :
    framesFrom number start [] bytes = .error ⟨number, .noTerminator⟩ := by
  have hread : framesFrom number start [] (bytes ++ []) =
      framesFrom number start (bytes.reverse ++ []) [] := framesFrom_unbroken h (by simp)
  rw [List.append_nil, List.append_nil] at hread
  rw [hread, framesFrom, if_neg (by simpa using hne)]

end Ends

section Prefixes

variable {size : List UInt8} {n : Nat}

/-- The numbers of the prefixes are within a word. -/
theorem readUnsigned?_size (hw : size.length = prefixWidth) :
    Decimal.readUnsigned? (Word.limit - 1) size = some n ↔ Decimal.Spells size n := by
  rw [Decimal.readUnsigned?_eq_some_iff]
  refine and_iff_right_of_imp fun h => ?_
  have hlt := h.lt
  rw [hw] at hlt
  exact Nat.le_of_lt (Nat.lt_of_lt_of_le hlt (by decide))

theorem ofLine_split (hw : size.length = prefixWidth) :
    Frame.ofLine number start (size ++ payload) =
      match Decimal.readUnsigned? (Word.limit - 1) size with
      | none => .error ⟨number, .noPrefix⟩
      | some declared =>
        if declared = (size ++ payload ++ crlf).length then .ok ⟨number, start, payload⟩
        else .error ⟨number, .wrongLength declared (size ++ payload ++ crlf).length⟩ := by
  have hlong : ¬ (size ++ payload).length < prefixWidth := by
    rw [List.length_append]
    omega
  have hlen : (size ++ payload).length + crlf.length = (size ++ payload ++ crlf).length :=
    List.length_append.symm
  have hline := Frame.ofLine.eq_1 number start (size ++ payload)
  rw [if_neg hlong, List.take_left' hw, List.drop_left' hw, hlen] at hline
  exact hline

theorem ofLine_noPrefix
    (h : ∀ size, size <+: line → size.length = prefixWidth → ∀ n, ¬ Decimal.Spells size n) :
    Frame.ofLine number start line = .error ⟨number, .noPrefix⟩ := by
  unfold Frame.ofLine
  split
  · rfl
  · next hlong =>
    have hw : (line.take prefixWidth).length = prefixWidth :=
      List.length_take_of_le (Nat.le_of_not_lt hlong)
    have hread : Decimal.readUnsigned? (Word.limit - 1) (line.take prefixWidth) = none :=
      Option.eq_none_iff_forall_ne_some.mpr fun n hn =>
        h _ (List.take_prefix _ _) hw n ((readUnsigned?_size hw).mp hn)
    rw [hread]

end Prefixes

section Files

/-- The frames that tile the bytes are read from them, whatever follows. -/
theorem Tiles.framed (h : Tiles number start bytes fs) : Framed number start bytes fs := by
  induction h with
  | nil => exact .nil
  | @cons number start line payload bytes fs hline _ ih =>
    obtain ⟨size, hw, hspells, hunbroken, rfl⟩ := hline
    have hread := (readUnsigned?_size hw).mpr hspells
    have hone : Framed number start (size ++ payload ++ crlf) [⟨number, start, payload⟩] := by
      intro behind
      rw [framesFrom_line hunbroken, ofLine_split hw, hread]
      simp only [if_true]
      rfl
    exact hone.append ih

theorem Broken.framesFrom {flaw : Flaw} (h : Broken bytes flaw) (number start : Nat) :
    framesFrom number start [] bytes = .error ⟨number, flaw⟩ := by
  cases h with
  | noTerminator hne hu => exact framesFrom_end hne hu
  | noPrefix hu hs rest => rw [framesFrom_line hu, ofLine_noPrefix hs]
  | wrongLength hu hw hs hne rest =>
    have hread := (readUnsigned?_size hw).mpr hs
    rw [framesFrom_line hu, ofLine_split hw, hread]
    dsimp only
    rw [if_neg hne]

/-- A file is tiled as a whole or up to its first bad line. The induction is on its length: behind a
line that fits there is a shorter file. -/
theorem tiles_or_broken (number start : Nat) (bytes : List UInt8) :
    (∃ fs, Tiles number start bytes fs) ∨
      ∃ front rest fs flaw, bytes = front ++ rest ∧ Tiles number start front fs ∧
        Broken rest flaw := by
  induction hlen : bytes.length using Nat.strong_induction_on generalizing number start bytes with
  | _ len ih =>
    by_cases hne : bytes = []
    · subst hne
      exact .inl ⟨[], .nil number start⟩
    by_cases hu : Unbroken bytes
    · exact .inr ⟨[], bytes, [], _, rfl, .nil number start, .noTerminator hne hu⟩
    obtain ⟨line, rest, hline, rfl⟩ := exists_line hu
    by_cases hs : ∀ size, size <+: line → size.length = prefixWidth → ∀ n, ¬ Decimal.Spells size n
    · exact .inr ⟨[], _, [], _, rfl, .nil number start, .noPrefix hline hs rest⟩
    push Not at hs
    obtain ⟨size, ⟨payload, rfl⟩, hw, declared, hspells⟩ := hs
    by_cases hd : declared = (size ++ payload ++ crlf).length
    · subst hd
      have hholds : Holds (size ++ payload ++ crlf) payload := ⟨size, hw, hspells, hline, rfl⟩
      have hshort : rest.length < len := by
        rw [← hlen, List.length_append, List.length_append]
        have hend : 0 < crlf.length := by decide
        omega
      rcases ih rest.length hshort (number + 1) (start + (size ++ payload ++ crlf).length) rest rfl
        with ⟨fs, hfs⟩ | ⟨front, last, fs, flaw, rfl, hfs, hflaw⟩
      · exact .inl ⟨_, .cons hholds hfs⟩
      · exact .inr ⟨_, last, _, flaw, (List.append_assoc _ front last).symm, .cons hholds hfs, hflaw⟩
    · exact .inr ⟨[], _, [], _, rfl, .nil number start, .wrongLength hline hw hspells hd rest⟩

theorem frames_of_broken {front : List UInt8} {flaw : Flaw} (hfs : Tiles 1 0 front fs)
    (hflaw : Broken rest flaw) : frames (front ++ rest) = .error ⟨fs.length + 1, flaw⟩ := by
  rw [frames, hfs.framed, hflaw.framesFrom, Nat.add_comm 1]
  rfl

theorem frames_eq_ok_iff : frames bytes = .ok fs ↔ Tiles 1 0 bytes fs := by
  refine ⟨fun h => ?_, fun h => h.framed.frames⟩
  rcases tiles_or_broken 1 0 bytes with ⟨gs, hgs⟩ | ⟨front, rest, gs, flaw, rfl, hgs, hflaw⟩
  · obtain rfl := Except.ok.inj (hgs.framed.frames.symm.trans h)
    exact hgs
  · cases (frames_of_broken hgs hflaw).symm.trans h

theorem frames_eq_error_iff {e : DecodeError} :
    frames bytes = .error e ↔ ∃ front rest fs, bytes = front ++ rest ∧ Tiles 1 0 front fs ∧
      e.line = fs.length + 1 ∧ Broken rest e.flaw := by
  constructor
  · intro h
    rcases tiles_or_broken 1 0 bytes with ⟨gs, hgs⟩ | ⟨front, rest, gs, flaw, rfl, hgs, hflaw⟩
    · cases hgs.framed.frames.symm.trans h
    · obtain rfl := Except.error.inj ((frames_of_broken hgs hflaw).symm.trans h)
      exact ⟨front, rest, gs, rfl, hgs, rfl, hflaw⟩
  · rintro ⟨front, rest, gs, rfl, hgs, hnumber, hflaw⟩
    rw [frames_of_broken hgs hflaw, ← hnumber]

end Files

section Written

variable {lines payloads : List (List UInt8)} {head : Head} {fields : List Field} {w w' : Writer}

/-- Appends fields up to the first that is refused. -/
def Writer.puts : List Field → Writer → Except EncodeError Unit × Writer
  | [], w => (.ok (), w)
  | f :: fs, w =>
    match w.put f with
    | (.error e, w) => (.error e, w)
    | (.ok (), w) => puts fs w

/-- The line that a writer makes of the fields, with the head in front. -/
def Writer.compose (head : Head) (fields : List Field) : Except EncodeError (List UInt8) :=
  match Writer.empty.puts fields with
  | (.error e, _) => .error e
  | (.ok (), w) => (w.finish head.bytes).1

/-- What a line with the head and the fields holds. -/
def Content (l : Head × List Field) (payload : List UInt8) : Prop :=
  ∃ bs, encodeFields l.2 = .ok bs ∧ payload = l.1.bytes ++ bs

theorem Writer.put_ok {f : Field} (h : w.put f = (.ok (), w')) :
    ∃ bs, f.encode = .ok bs ∧ w'.buffer = w.buffer ++ bs := by
  rw [w.put_eq] at h
  split at h
  · cases hf : f.encode with
    | error e =>
      rw [hf] at h
      cases h
    | ok bs =>
      rw [hf] at h
      exact ⟨bs, rfl, congrArg Writer.buffer (Prod.mk.inj h).2.symm⟩
  · cases h

theorem Writer.puts_ok (h : w.puts fields = (.ok (), w')) :
    ∃ payload, encodeFields fields = .ok payload ∧ w'.buffer = w.buffer ++ payload := by
  induction fields generalizing w with
  | nil =>
    obtain rfl : w = w' := (Prod.mk.inj h).2
    exact ⟨[], rfl, (List.append_nil _).symm⟩
  | cons f rest ih =>
    rw [Writer.puts] at h
    split at h
    · cases h
    · next w₁ hput =>
      obtain ⟨bs, hbs, hfirst⟩ := Writer.put_ok hput
      obtain ⟨payload, hpayload, hbuffer⟩ := ih h
      refine ⟨bs ++ payload, encodeFields_cons.mpr ⟨bs, payload, hbs, hpayload, rfl⟩, ?_⟩
      rw [hbuffer, hfirst, List.append_assoc]

theorem Writer.compose_ok (h : Writer.compose head fields = .ok line) :
    ∃ payload, encodeFields fields = .ok payload ∧ frame head.bytes payload = .ok line := by
  unfold Writer.compose at h
  split at h
  · cases h
  · next w hput =>
    obtain ⟨payload, hpayload, hbuffer⟩ := Writer.puts_ok hput
    obtain rfl : w.buffer = payload := hbuffer
    refine ⟨w.buffer, hpayload, ?_⟩
    unfold Writer.finish at h
    split at h
    · cases h
    · next line' hf =>
      rw [hf]
      exact h

/-- Bytes without a carriage return hold no line end. -/
theorem unbroken_of_not_mem (h : 0x0D ∉ bs) : Unbroken bs :=
  fun hin => h (hin.subset (by simp [crlf]))

/-- A finished line holds its head and its fields. -/
theorem holds_of_frame (hreturn : 0x0D ∉ payload) (h : frame head.bytes payload = .ok line) :
    Holds line (head.bytes ++ payload) := by
  obtain ⟨hlt, hline⟩ := frame_ok h
  have hw : (Decimal.padded prefixWidth line.length).length = prefixWidth := Decimal.length_padded _ _
  have hread : Decimal.readUnsigned? (Word.limit - 1) (Decimal.padded prefixWidth line.length) =
      some line.length :=
    Decimal.readUnsigned?_padded (by decide) hlt (Nat.le_of_lt (Nat.lt_of_lt_of_le hlt (by decide)))
  have hhead : 0x0D ∉ head.bytes := by cases head <;> decide
  refine ⟨Decimal.padded prefixWidth line.length, hw, (readUnsigned?_size hw).mp hread,
    unbroken_of_not_mem ?_, hline⟩
  simp only [List.mem_append, not_or]
  exact ⟨Decimal.not_mem_padded (by decide) _ _, hhead, hreturn⟩

/-- Lines that hold payloads are tiled by frames with them, each where the lines before it end. -/
theorem exists_tiles (h : List.Forall₂ Holds lines payloads) (number start : Nat) :
    ∃ fs, Tiles number start lines.flatten fs ∧ fs.map Frame.payload = payloads ∧
      ∀ i f, fs[i]? = some f →
        f.number = number + i ∧ f.start = start + (lines.take i).flatten.length := by
  induction h generalizing number start with
  | nil => exact ⟨[], .nil number start, rfl, nofun⟩
  | @cons line payload lines payloads hline _ ih =>
    obtain ⟨fs, hfs, hpayloads, hplaces⟩ := ih (number + 1) (start + line.length)
    refine ⟨⟨number, start, payload⟩ :: fs, .cons hline hfs, by rw [List.map_cons, hpayloads],
      fun i f hf => ?_⟩
    cases i with
    | zero =>
      obtain rfl := Option.some.inj hf
      exact ⟨rfl, rfl⟩
    | succ i =>
      obtain ⟨hnumber, hstart⟩ := hplaces i f hf
      rw [List.take_succ_cons, List.flatten_cons, List.length_append]
      exact ⟨by omega, by omega⟩

/-- The payloads of finished lines. -/
theorem exists_payloads {written : List (Head × List Field)}
    (h : List.Forall₂ (fun l line => Writer.compose l.1 l.2 = .ok line) written lines)
    (hplain : ∀ l ∈ written, ∀ f ∈ l.2, ∀ n, f ≠ .pad 0x0D n) :
    ∃ payloads, List.Forall₂ Holds lines payloads ∧
      List.Forall₂ Content written payloads := by
  induction h with
  | nil => exact ⟨[], .nil, .nil⟩
  | @cons l line written lines hline _ ih =>
    obtain ⟨hfirst, hplain⟩ := List.forall_mem_cons.mp hplain
    obtain ⟨payloads, hholds, hpayloads⟩ := ih hplain
    obtain ⟨payload, hpayload, hframe⟩ := Writer.compose_ok hline
    have hreturn := return_not_mem_fields hfirst hpayload
    exact ⟨(l.1.bytes ++ payload) :: payloads, .cons (holds_of_frame hreturn hframe) hholds,
      .cons ⟨payload, hpayload, rfl⟩ hpayloads⟩

end Written

/-- A file is cut into frames exactly if they are its lines from the first to the last; otherwise the
first line that does not fit is told, behind those that do, and what is wrong with it. And the lines
that writers finish, of fields that fill nothing up with carriage returns, are cut again into what was
written, each where the ones before it end. -/
theorem frames_exact :
    (∀ bytes fs, frames bytes = .ok fs ↔ Tiles 1 0 bytes fs) ∧
    (∀ bytes e, frames bytes = .error e ↔ ∃ front rest fs, bytes = front ++ rest ∧
      Tiles 1 0 front fs ∧ e.line = fs.length + 1 ∧ Broken rest e.flaw) ∧
    ∀ (written : List (Head × List Field)) (lines : List (List UInt8)),
      (∀ l ∈ written, ∀ f ∈ l.2, ∀ n, f ≠ .pad 0x0D n) →
      List.Forall₂ (fun l line => Writer.compose l.1 l.2 = .ok line) written lines →
      ∃ fs, frames lines.flatten = .ok fs ∧
        List.Forall₂ (fun l f => Content l f.payload) written fs ∧
        ∀ i f, fs[i]? = some f → f.number = i + 1 ∧ f.start = (lines.take i).flatten.length := by
  refine ⟨fun bytes fs => frames_eq_ok_iff, fun bytes e => frames_eq_error_iff,
    fun written lines hplain hcomposed => ?_⟩
  obtain ⟨payloads, hholds, hpayloads⟩ := exists_payloads hcomposed hplain
  obtain ⟨fs, hfs, rfl, hplaces⟩ := exists_tiles hholds 1 0
  refine ⟨fs, frames_eq_ok_iff.mpr hfs, List.forall₂_map_right_iff.mp hpayloads, fun i f hf => ?_⟩
  obtain ⟨hnumber, hstart⟩ := hplaces i f hf
  exact ⟨by omega, by omega⟩

/-- The lines of an assignment of an integer register and of a wait, which the fields hold up to the
end of the line. -/
theorem frames_exact_twoLines :
    let written : List (Head × List Field) :=
      [(.assign, [.register (some (.int 1)), .bytes "literal" [0x30]]), (.wait, [.int "wait" 5 4])]
    let lines : List (List UInt8) :=
      [(Text.ofString "014E01INT2 0\x0d\n").bytes, (Text.ofString "012H040005\x0d\n").bytes]
    (∀ l ∈ written, ∀ f ∈ l.2, ∀ n, f ≠ .pad 0x0D n) ∧
      List.Forall₂ (fun l line => Writer.compose l.1 l.2 = .ok line) written lines ∧
      ∃ fs, frames lines.flatten = .ok fs ∧
        List.Forall₂ (fun l f => Content l f.payload) written fs ∧
        ∀ i f, fs[i]? = some f → f.number = i + 1 ∧ f.start = (lines.take i).flatten.length := by
  intro written lines
  have hplain : ∀ l ∈ written, ∀ f ∈ l.2, ∀ n, f ≠ .pad 0x0D n := by simp [written]
  have hcomposed : List.Forall₂ (fun l line => Writer.compose l.1 l.2 = .ok line) written lines :=
    .cons (Except.toOption_eq_some.mp (by decide +kernel))
      (.cons (Except.toOption_eq_some.mp (by decide +kernel)) .nil)
  exact ⟨hplain, hcomposed, frames_exact.2.2 written lines hplain hcomposed⟩

end Handheld.Line
