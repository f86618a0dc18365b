import Handheld.Proofs.Line.RoundTrip
import Handheld.Proofs.Program.Renamed
import Handheld.Proofs.ProgramFile.Decoded
import Handheld.Proofs.ProgramFile.Encoded

namespace Handheld

namespace LabelTable

/-- An attribute of a label that has it, else zero. -/
def value (t : LabelTable) (a : Label.Attribute) (l : Label) : Nat := (t.get a l).toOption.getD 0

theorem value_of_get {t : LabelTable} {a : Label.Attribute} {l : Label} {n : Nat}
    (h : t.get a l = .ok n) : t.value a l = n := by
  rw [value, h]
  rfl

end LabelTable

namespace ProgramFile

open Line

variable {t : LabelTable} {number start : Nat}

section Header

variable {h : Header} {ds es : List (Nat × Nat)} {fs : List Frame}

/-- The numbers and offsets of the labels. -/
def declarations (t : LabelTable) (ls : List Label) : List (Nat × Nat) :=
  ls.map fun l => (t.value .number l, t.value .offset l)

/-- The frame declares a label with the number and the offset. -/
structure Declares (d : Nat × Nat) (f : Frame) : Prop where
  head : IsDeclaration f
  reads : Line.decode f.number f.payload = .ok (.label d.1 d.2)

theorem isPrefixOf_bytes {hd : Head} (bs : List UInt8) :
    Head.label.bytes.isPrefixOf (hd.bytes ++ bs) = decide (hd = .label) := by
  cases hd <;> rfl

/-- The lines of the labels declare their numbers and offsets. -/
theorem framed_labels {ls : List Label} {bytes : List UInt8} (hw : LabelLines t ls bytes)
    (hfit : ∀ d ∈ declarations t ls, d.1 < Word.limit32 ∧ d.2 < Word.limit32) (number start : Nat) :
    ∃ fs, Framed number start bytes fs ∧ List.Forall₂ Declares (declarations t ls) fs := by
  induction hw generalizing number start with
  | nil => exact ⟨[], .nil, .nil⟩
  | @cons l n offset rest bytes more hn ho he _ ih =>
    obtain ⟨hfirst, hfit⟩ := List.forall_mem_cons.mp hfit
    dsimp only at hfirst
    rw [LabelTable.value_of_get hn, LabelTable.value_of_get ho] at hfirst
    obtain ⟨payload, hp, hframed⟩ := framed_encode he number start
    obtain ⟨fs, hmore, hdeclares⟩ := ih hfit (number + 1) (start + bytes.length)
    refine ⟨_, hframed.append hmore, .cons ⟨?_, ?_⟩ hdeclares⟩
    · exact isPrefixOf_bytes payload
    · dsimp only
      rw [LabelTable.value_of_get hn, LabelTable.value_of_get ho]
      exact decode_payload (l := .label n offset) hfirst hp number

theorem Header.Declared.declare_fresh {d : Nat × Nat} (hd : h.Declared ds)
    (hn : d.1 < Word.limit32) (hfresh : d.1 ∉ LabelTable.entryNumber :: ds.map (·.1)) :
    ∃ h', h.declare d.1 d.2 = .ok h' ∧ h'.Declared (ds ++ [d]) := by
  obtain ⟨hentry, hnew⟩ := not_or.mp (mt List.mem_cons.mpr hfresh)
  have hnone : h.labels.byNumber? d.1 = none := by
    cases hl : h.labels.byNumber? d.1 with
    | none => rfl
    | some l =>
      obtain ⟨s, hs, hnumber⟩ := slot?_of_byNumber? hl
      have hget : h.labels.get .number l = .ok d.1 := LabelTable.get_of_slot? hs hnumber
      by_cases he : l = .entry
      · subst he
        exact absurd ((hd.get_entry _).mp hget) hentry
      · obtain ⟨d', hd', hsame⟩ := (hd.get_number he _).mp hget
        exact absurd (hsame ▸ List.mem_map_of_mem (List.mem_of_getElem? hd')) hnew
  refine ⟨_, ?_, hd.append hn hfresh d.2⟩
  rw [Header.declare, if_neg hentry, hnone]

/-- Declarations with new numbers are read up to the body. -/
theorem readHeader_declares (hd : h.Declared ds) (hes : List.Forall₂ Declares es fs)
    (hfit : ∀ d ∈ es, d.1 < Word.limit32)
    (hnew : (LabelTable.entryNumber :: (ds ++ es).map (·.1)).Nodup) :
    ∃ h' : Header, h'.Declared (ds ++ es) ∧
      ∀ body : List Frame, (∀ f ∈ body.head?, ¬ IsDeclaration f) →
        readHeader h (fs ++ body) = .ok (h', body) := by
  induction hes generalizing h ds with
  | nil =>
    rw [List.append_nil]
    refine ⟨h, hd, fun body hbody => ?_⟩
    cases body with
    | nil => rfl
    | cons f body =>
      have hnot : ¬ Head.label.bytes.isPrefixOf f.payload := hbody f rfl
      rw [List.nil_append, readHeader, if_neg hnot]
  | @cons d f es fs hdecl _ ih =>
    obtain ⟨hn, hfit⟩ := List.forall_mem_cons.mp hfit
    have hsplit : ds ++ d :: es = (ds ++ [d]) ++ es := by simp
    rw [hsplit] at hnew ⊢
    have hfresh : d.1 ∉ LabelTable.entryNumber :: ds.map (·.1) := by
      rw [List.map_append, List.map_append, List.map_singleton, List.append_assoc,
        ← List.cons_append] at hnew
      exact fun hmem => List.disjoint_of_nodup_append hnew hmem (by simp)
    obtain ⟨h₁, hde, hd₁⟩ := hd.declare_fresh hn hfresh
    obtain ⟨h', hd', hread⟩ := ih hd₁ hfit hnew
    refine ⟨h', hd', fun body hbody => ?_⟩
    have hhead : Head.label.bytes.isPrefixOf f.payload = true := hdecl.head
    rw [List.cons_append, readHeader, if_pos hhead, hdecl.reads]
    simp only [hde]
    exact hread body hbody

end Header

section Body

variable {n : Nat} {code : List Instruction} {bytes : List UInt8} {f : Label → Label}

/-- The labels of a body have the offsets of the lines behind them. -/
theorem BodyLines.offset_bounds (hw : BodyLines t n code bytes)
    (hlt : n + bytes.length < offsetModulus) :
    ∀ l ∈ placedLabels code, n ≤ t.value .offset l ∧ t.value .offset l < offsetModulus := by
  induction hw with
  | nil => exact fun l hl => nomatch hl
  | @label n l rest bytes ho _ ih =>
    intro l' hl'
    rcases List.mem_cons.mp hl' with rfl | hl'
    · rw [LabelTable.value_of_get ho, Nat.mod_eq_of_lt (by omega)]
      omega
    · exact ih hlt l' hl'
  | @line n i line rest bytes more hi he _ ih =>
    rw [List.length_append, ← Nat.add_assoc] at hlt
    rw [LabelTable.placedLabels_cons_line hi]
    intro l hl
    obtain ⟨hle, hfit⟩ := ih hlt l hl
    exact ⟨Nat.le_trans (Nat.le_add_right n bytes.length) hle, hfit⟩

theorem length_encode_pos {l : Line} (h : l.encode = .ok bytes) : 0 < bytes.length := by
  obtain ⟨payload, -, -, -, hbs⟩ := encode_framed h
  have hlen := congrArg List.length hbs
  simp only [List.length_append, Decimal.length_padded] at hlen
  have hwidth : 0 < prefixWidth := by decide
  omega

/-- The header knows the labels of the body by the numbers that their names in it have. -/
def Header.Knows (h : Header) (t : LabelTable) (f : Label → Label) (code : List Instruction) : Prop :=
  ∀ i ∈ code, ∀ l, i.target? = some l → ∀ k, t.get .number l = .ok k →
    h.labels.byNumber? k = some (f l)

theorem instruction_line {h : Header} {i : Instruction} {line : Line} {fr : Frame}
    (hk : h.Knows t f [i]) (hi : t.line? i = some line)
    (hread : Line.decode fr.number fr.payload = .ok line) :
    instruction h fr = .ok (i.rename f) := by
  have htarget := hk i List.mem_cons_self
  unfold instruction
  rw [hread]
  rcases LabelTable.line?_eq_some hi with ⟨o, rfl, rfl⟩ | ⟨l, k, rfl, hn, rfl⟩ |
    ⟨cond, l, k, rfl, hn, rfl⟩
  · rfl
  · simp only [htarget l rfl k hn]
    rfl
  · simp only [htarget l rfl k hn]
    rfl

theorem head_ne_label {i : Instruction} {line : Line} (hi : t.line? i = some line) :
    line.head ≠ .label := by
  rcases LabelTable.line?_eq_some hi with ⟨o, rfl, rfl⟩ | ⟨l, k, rfl, hn, rfl⟩ |
    ⟨cond, l, k, rfl, hn, rfl⟩
  · cases o <;> nofun
  · nofun
  · nofun

/-- The labels of the list with their offsets and their names in the header. -/
def waiting (t : LabelTable) (f : Label → Label) (ls : List Label) : List (Nat × Label) :=
  ls.map fun l => (t.value .offset l, f l)

theorem filter_waiting {here later : List Label} (hh : ∀ l ∈ here, t.value .offset l = n)
    (hl : ∀ l ∈ later, n < t.value .offset l) :
    (waiting t f (here ++ later)).filter (fun p => p.1 = n) = waiting t f here ∧
      (waiting t f (here ++ later)).filter (fun p => p.1 ≠ n) = waiting t f later := by
  have hnow : ∀ p ∈ waiting t f here, p.1 = n := by
    intro p hp
    obtain ⟨l, hl, rfl⟩ := List.mem_map.mp hp
    exact hh l hl
  have hthen : ∀ p ∈ waiting t f later, p.1 ≠ n := by
    intro p hp
    obtain ⟨l, hl', rfl⟩ := List.mem_map.mp hp
    exact Nat.ne_of_gt (hl l hl')
  have hsplit : waiting t f (here ++ later) = waiting t f here ++ waiting t f later :=
    List.map_append
  rw [hsplit, List.filter_append, List.filter_append]
  constructor
  · rw [List.filter_eq_self.mpr (by simpa using hnow), List.filter_eq_nil_iff.mpr (by simpa using hthen),
      List.append_nil]
  · rw [List.filter_eq_nil_iff.mpr (by simpa using hnow), List.filter_eq_self.mpr (by simpa using hthen),
      List.nil_append]

/-- If no label ends a list, none ends the rest of it. -/
theorem ends_tail {i : Instruction} (h : ∀ l, (i :: code).getLast? ≠ some (.label l)) (l : Label) :
    code.getLast? ≠ some (.label l) := by
  cases code with
  | nil => exact nofun
  | cons j rest =>
    have hl := h l
    rwa [List.getLast?_cons_of_ne_nil (List.cons_ne_nil j rest)] at hl

/-- What the body lines are read as: the labels that already wait for the first line, then the
instructions. -/
theorem readBody_written {labels : LabelTable} (hw : BodyLines t n code bytes)
    (hlt : n + bytes.length < offsetModulus) (hend : ∀ l, code.getLast? ≠ some (.label l))
    (hlegible : ∀ i ∈ code, ∀ line, t.line? i = some line → line.Legible)
    (hknows : Header.Knows ⟨labels, []⟩ t f code) {here : List Label}
    (hhere : ∀ l ∈ here, t.value .offset l = n) (hnone : code = [] → here = [])
    (number start : Nat) :
    ∃ fs, Framed number (start + n) bytes fs ∧
      (∀ fr ∈ fs.head?, fr.start = start + n ∧ ¬ IsDeclaration fr) ∧ (fs = [] → bytes = []) ∧
      ∀ last, readBody ⟨labels, waiting t f (here ++ placedLabels code)⟩ start last fs =
        .ok (here.map (fun l => .label (f l)) ++ code.map (Instruction.rename f)) := by
  induction hw generalizing here number with
  | nil n =>
    obtain rfl := hnone rfl
    exact ⟨[], .nil, nofun, fun _ => rfl, fun _ => rfl⟩
  | @label n l rest bytes ho hr ih =>
    have hrest : rest ≠ [] := by
      rintro rfl
      exact hend l rfl
    have hvalue : t.value .offset l = n := by
      rw [LabelTable.value_of_get ho, Nat.mod_eq_of_lt (by omega)]
    have hhere' : ∀ l' ∈ here ++ [l], t.value .offset l' = n := by
      intro l' hl'
      rcases List.mem_append.mp hl' with hl' | hl'
      · exact hhere l' hl'
      · exact List.mem_singleton.mp hl' ▸ hvalue
    obtain ⟨fs, hframed, hhead, hempty, hread⟩ := ih hlt (ends_tail hend)
      (fun i hi => hlegible i (List.mem_cons_of_mem _ hi))
      (fun i hi => hknows i (List.mem_cons_of_mem _ hi)) hhere' (fun he => absurd he hrest) number
    refine ⟨fs, hframed, hhead, hempty, fun last => ?_⟩
    have hsame : here ++ placedLabels (.label l :: rest) = (here ++ [l]) ++ placedLabels rest := by
      rw [List.append_assoc]
      rfl
    rw [hsame, hread]
    simp [Instruction.rename]
  | @line n i line rest bytes more hi he hr ih =>
    rw [List.length_append, ← Nat.add_assoc] at hlt
    have hplaced := LabelTable.placedLabels_cons_line hi rest
    obtain ⟨payload, hp, hframed⟩ := framed_encode he number (start + n)
    obtain ⟨fs, hmore, -, -, hread⟩ := ih hlt (ends_tail hend)
      (fun i hi => hlegible i (List.mem_cons_of_mem _ hi))
      (fun i hi => hknows i (List.mem_cons_of_mem _ hi)) (fun l hl => absurd hl List.not_mem_nil)
      (fun _ => rfl) (number + 1)
    rw [← Nat.add_assoc] at hmore
    let fr : Frame := ⟨number, start + n, line.head.bytes ++ payload⟩
    have hplace : fr.start - start = n := Nat.add_sub_cancel_left start n
    have hlater : ∀ l ∈ placedLabels rest, n < t.value .offset l := by
      intro l hl
      have hpos := length_encode_pos he
      have hle := (hr.offset_bounds hlt l hl).1
      omega
    obtain ⟨hnow, hthen⟩ := filter_waiting (f := f) hhere hlater
    have hline : instruction ⟨labels, waiting t f (placedLabels rest)⟩ fr = .ok (i.rename f) := by
      refine instruction_line (fun j hj => ?_) hi
        (decode_payload (hlegible i List.mem_cons_self line hi) hp number)
      exact hknows j (List.mem_singleton.mp hj ▸ List.mem_cons_self)
    refine ⟨fr :: fs, hframed.append hmore, fun g hg => ?_, nofun, fun last => ?_⟩
    · obtain rfl : fr = g := Option.some.inj hg
      refine ⟨rfl, fun hdecl => ?_⟩
      have hhead : line.head ≠ .label := head_ne_label hi
      have hnot : Head.label.bytes.isPrefixOf (line.head.bytes ++ payload) = false := by
        rw [isPrefixOf_bytes, decide_eq_false hhead]
      exact Bool.false_ne_true (hnot.symm.trans hdecl)
    · rw [hplaced, readBody]
      simp only [hplace, hnow, hthen, hline]
      have hrest : readBody ⟨labels, waiting t f (placedLabels rest)⟩ start fr.number fs =
          .ok (rest.map (Instruction.rename f)) := hread fr.number
      rw [hrest]
      simp [Except.map, waiting]

end Body

end ProgramFile

/-- The names that the labels of a program get in its file: the entry keeps its own, the placed ones
are counted from one in list order. -/
def Program.renaming (p : Program) (l : Label) : Label :=
  if l = .entry then .entry else ⟨(placedLabels p.code).idxOf l + 1⟩

/-- A program whose labels a file tells apart: they have distinct numbers of 32 bits, jumps lead to
them, and there is an instruction behind each. -/
structure Program.Numbered (p : Program) : Prop where
  closed : Closed p.code
  entry : p.labels.get .number .entry = .ok LabelTable.entryNumber
  numbered : ∀ l ∈ placedLabels p.code, ∃ n, p.labels.get .number l = .ok n
  distinct : (LabelTable.entryNumber :: (placedLabels p.code).map (p.labels.value .number)).Nodup
  fits : ∀ l ∈ placedLabels p.code, p.labels.value .number l < Word.limit32
  ends : ∀ l, p.code.getLast? ≠ some (.label l)

namespace ProgramFile

open Line

section Program

variable {p : Program} {t : LabelTable} {h : Header} {ds : List (Nat × Nat)}

theorem injOn_renaming (p : Program) :
    Set.InjOn p.renaming {l | l = .entry ∨ l ∈ placedLabels p.code} := by
  intro l hl l' hl' heq
  unfold Program.renaming at heq
  split at heq
  · next he =>
    split at heq
    · next he' => exact he.trans he'.symm
    · exact absurd (congrArg Label.id heq) (Nat.succ_ne_zero _).symm
  · next he =>
    split at heq
    · exact absurd (congrArg Label.id heq) (Nat.succ_ne_zero _)
    · have hid := Nat.succ.inj (congrArg Label.id heq)
      exact (List.idxOf_inj (hl.resolve_left he)).mp hid

/-- The table of the header has the labels with their numbers under their new names. -/
theorem Header.Declared.get_renaming (hp : p.Numbered)
    (hd : h.Declared (declarations t (placedLabels p.code)))
    (ht : ∀ l, t.get .number l = p.labels.get .number l) {l : Label}
    (hl : l = .entry ∨ l ∈ placedLabels p.code) :
    h.labels.get .number (p.renaming l) = p.labels.get .number l := by
  by_cases he : l = .entry
  · subst he
    rw [Program.renaming, if_pos rfl, hp.entry]
    exact (hd.get_entry _).mpr rfl
  · have hmem := hl.resolve_left he
    obtain ⟨n, hn⟩ := hp.numbered l hmem
    have hne : p.renaming l ≠ .entry := by
      rw [Program.renaming, if_neg he]
      exact fun heq => Nat.succ_ne_zero _ (congrArg Label.id heq)
    rw [hn, hd.get_number hne]
    refine ⟨(n, t.value .offset l), ?_, rfl⟩
    have hvalue : t.value .number l = n := LabelTable.value_of_get ((ht l).trans hn)
    have hindex : (placedLabels p.code)[(placedLabels p.code).idxOf l]? = some l :=
      List.getElem?_idxOf hmem
    rw [Program.renaming, if_neg he, declarations, Nat.add_sub_cancel, List.getElem?_map, hindex,
      Option.map_some, hvalue]

/-- A number is that of one label. -/
theorem Header.Declared.byNumber?_eq (hd : h.Declared ds) {l : Label} {n : Nat}
    (hl : h.labels.get .number l = .ok n) : h.labels.byNumber? n = some l := by
  cases hfound : h.labels.byNumber? n with
  | none =>
    unfold LabelTable.get at hl
    split at hl
    · cases hl
    · next s hs =>
      split at hl
      · cases hl
      · next m hm =>
        have hmem : s ∈ h.labels.slots := List.mem_of_getElem? hs
        refine absurd ?_ (byNumber?_eq_none hfound s hmem)
        rw [← Except.ok.inj hl]
        exact hm
  | some l' =>
    obtain ⟨s, hs, hnumber⟩ := slot?_of_byNumber? hfound
    have hl' : h.labels.get .number l' = .ok n := LabelTable.get_of_slot? hs hnumber
    rw [hd.get_distinct hl' hl]

/-- The labels of the header wait in list order. -/
theorem Header.Declared.pending_eq (hp : p.Numbered)
    (hd : h.Declared (declarations t (placedLabels p.code))) :
    h.pending = waiting t p.renaming (placedLabels p.code) := by
  rw [hd.pending]
  refine List.ext_getElem (by simp [declarations, waiting]) fun i hi hi' => ?_
  have hlt : i < (placedLabels p.code).length := by simpa [waiting] using hi'
  have hne : (placedLabels p.code)[i] ≠ .entry := fun he =>
    hp.closed.outside (he ▸ List.getElem_mem hlt)
  have hindex : (placedLabels p.code).idxOf (placedLabels p.code)[i] = i :=
    hp.closed.once.idxOf_getElem i hlt
  simp [declarations, waiting, Program.renaming, hne, hindex, Nat.add_comm]

theorem Written.value_number {title header body : List UInt8} (hw : Written p t title header body) :
    t.value .number = p.labels.value .number := by
  funext l
  rw [LabelTable.value, LabelTable.value, hw.numbers]

/-- The header declares numbers and offsets that have their places in it. -/
theorem Written.declarations_fit {title header body : List UInt8}
    (hw : Written p t title header body) (hp : p.Numbered) (hbody : 0 + body.length < offsetModulus) :
    ∀ d ∈ declarations t (placedLabels p.code), d.1 < Word.limit32 ∧ d.2 < Word.limit32 := by
  intro d hd
  obtain ⟨l, hl, rfl⟩ := List.mem_map.mp hd
  exact ⟨hw.value_number ▸ hp.fits l hl, (hw.body.offset_bounds hbody l hl).2⟩

/-- The header declares no number twice. -/
theorem Written.declarations_nodup {title header body : List UInt8}
    (hw : Written p t title header body) (hp : p.Numbered) :
    (LabelTable.entryNumber :: (declarations t (placedLabels p.code)).map Prod.fst).Nodup := by
  rw [declarations, List.map_map]
  exact hw.value_number ▸ hp.distinct

/-- What is written for a program is read as the program under the new names. -/
theorem decode_written {title header body : List UInt8} (hw : Written p t title header body)
    (hp : p.Numbered) (htitle : p.title.Legible)
    (hlegible : ∀ i ∈ p.code, ∀ line, p.labels.line? i = some line → line.Legible)
    (hbody : body.length < Word.limit32) :
    ∃ q, decode (title ++ header ++ body) = .ok q ∧ Program.Renames p.renaming p q ∧
      q.labels.Fits q.code ∧ ∀ l, l = .entry ∨ l ∈ placedLabels p.code →
        ∀ n, p.labels.get .number l = .ok n → q.labels.byNumber? n = some (p.renaming l) := by
  have hmodulus : 0 + body.length < offsetModulus := by
    rw [Nat.zero_add]
    exact hbody
  have hfit := hw.declarations_fit hp hmodulus
  obtain ⟨payload, hpayload, htf⟩ := framed_encode hw.title 1 0
  obtain ⟨lines, hlf, hdecl⟩ := framed_labels hw.header hfit 2 (0 + title.length)
  obtain ⟨h, hd, hheader⟩ := readHeader_declares declared_initial hdecl (fun d hd => (hfit d hd).1)
    (hw.declarations_nodup hp)
  have hknows : Header.Knows ⟨h.labels, []⟩ t p.renaming p.code := by
    intro i hi l hl k hk
    refine hd.byNumber?_eq ?_
    rw [hd.get_renaming hp hw.numbers (hp.closed.placed i hi l hl), ← hw.numbers, hk]
  have hlines : t.line? = p.labels.line? := LabelTable.line?_congr hw.numbers
  obtain ⟨body', hbf, hfirst, hempty, hread⟩ := readBody_written hw.body hmodulus hp.ends
    (fun i hi line hline => hlegible i hi line (hlines ▸ hline)) hknows
    (fun l (hl : l ∈ []) => absurd hl List.not_mem_nil) (fun _ => rfl) (2 + lines.length)
    (0 + (title ++ header).length)
  let first : Frame := ⟨1, 0, (Line.title p.title).head.bytes ++ payload⟩
  have hframes : frames (title ++ header ++ body) = .ok (first :: (lines ++ body')) := by
    refine Framed.frames ((htf.append hlf).append ?_)
    have hcount : 1 + ([first] ++ lines).length = 2 + lines.length := by
      rw [List.length_append, List.length_singleton, ← Nat.add_assoc]
    rw [hcount]
    exact hbf
  have hstart : bodyStart (title ++ header ++ body) body' = 0 + (title ++ header).length := by
    cases body' with
    | nil => rw [bodyStart, hempty rfl, List.append_nil, Nat.zero_add]
    | cons fr rest => exact (hfirst fr rfl).1
  have hpending : h = ⟨h.labels, waiting t p.renaming ([] ++ placedLabels p.code)⟩ := by
    rw [List.nil_append, ← hd.pending_eq hp]
  have hcode : readBody h (bodyStart (title ++ header ++ body) body') first.number body' =
      .ok (p.code.map (Instruction.rename p.renaming)) := by
    rw [hstart, hpending]
    exact hread first.number
  have hfits : h.labels.Fits (p.code.map (Instruction.rename p.renaming)) := by
    refine hd.fits_code fun l' hl' => ?_
    rw [placedLabels_rename] at hl'
    obtain ⟨l, hl, rfl⟩ := List.mem_map.mp hl'
    rw [hd.pending_eq hp]
    exact ⟨t.value .offset l, List.mem_map_of_mem hl⟩
  refine ⟨⟨p.title, p.code.map (Instruction.rename p.renaming), h.labels⟩, ?_,
    ⟨rfl, rfl, if_pos rfl, injOn_renaming p⟩, hfits,
    fun l hl n hn => hd.byNumber?_eq ((hd.get_renaming hp hw.numbers hl).trans hn)⟩
  rw [decode_of_lines hframes (decode_payload (l := .title p.title) htitle hpayload 1)
    (hheader body' fun fr hfr => (hfirst fr hfr).2), hcode]
  rfl

end Program

end ProgramFile
end Handheld
