import Handheld.ProgramFile
import Handheld.Proofs.Compiler.Compile

namespace Handheld

namespace LabelTable

/-- The line of an instruction, unless it is a label or its target has no number. -/
def line? (t : LabelTable) : Instruction → Option Line
  | .label _ => none
  | .jump l => (t.get .number l).toOption.map .jump
  | .jumpIf cond l => (t.get .number l).toOption.map (.jumpIf cond)
  | .op o => some (.op o)

theorem line?_congr {t t' : LabelTable} (h : ∀ l, t.get .number l = t'.get .number l) :
    t.line? = t'.line? := by
  funext i
  cases i <;> simp only [line?, h]

/-- A jump has a line if its target has a number. -/
theorem line?_eq_some {t : LabelTable} {i : Instruction} {line : Line} (h : t.line? i = some line) :
    (∃ o, i = .op o ∧ line = .op o) ∨
      (∃ l n, i = .jump l ∧ t.get .number l = .ok n ∧ line = .jump n) ∨
      ∃ cond l n, i = .jumpIf cond l ∧ t.get .number l = .ok n ∧ line = .jumpIf cond n := by
  cases i with
  | label l => cases h
  | op o => exact .inl ⟨o, rfl, (Option.some.inj h).symm⟩
  | jump l =>
    obtain ⟨n, hn, rfl⟩ := Option.map_eq_some_iff.mp h
    exact .inr (.inl ⟨l, n, rfl, Except.toOption_eq_some.mp hn, rfl⟩)
  | jumpIf cond l =>
    obtain ⟨n, hn, rfl⟩ := Option.map_eq_some_iff.mp h
    exact .inr (.inr ⟨cond, l, n, rfl, Except.toOption_eq_some.mp hn, rfl⟩)

/-- Only labels have no line. -/
theorem placedLabels_cons_line {t : LabelTable} {i : Instruction} {line : Line}
    (h : t.line? i = some line) (rest : List Instruction) :
    placedLabels (i :: rest) = placedLabels rest := by
  cases i with
  | label l => cases h
  | _ => rfl

end LabelTable

namespace ProgramFile

/-- The bytes are the lines of the instructions from the offset on, and the table has the offset of
every label. -/
inductive BodyLines (t : LabelTable) : Nat → List Instruction → List UInt8 → Prop
  | nil (n : Nat) : BodyLines t n [] []
  | label {n : Nat} {l : Label} {rest : List Instruction} {bytes : List UInt8}
    (ho : t.get .offset l = .ok (n % offsetModulus)) (hr : BodyLines t n rest bytes) :
    BodyLines t n (.label l :: rest) bytes
  | line {n : Nat} {i : Instruction} {line : Line} {rest : List Instruction}
    {bytes more : List UInt8} (hi : t.line? i = some line) (he : line.encode = .ok bytes)
    (hr : BodyLines t (n + bytes.length) rest more) : BodyLines t n (i :: rest) (bytes ++ more)

/-- The bytes are the lines of the labels. -/
inductive LabelLines (t : LabelTable) : List Label → List UInt8 → Prop
  | nil : LabelLines t [] []
  | cons {l : Label} {n offset : Nat} {rest : List Label} {bytes more : List UInt8}
    (hn : t.get .number l = .ok n) (ho : t.get .offset l = .ok offset)
    (he : (Line.label n offset).encode = .ok bytes) (hr : LabelLines t rest more) :
    LabelLines t (l :: rest) (bytes ++ more)

/-- The table has a slot without an offset for every label of the list, which are placed once, and
a number for every target. -/
structure Writable (t : LabelTable) (code : List Instruction) : Prop where
  once : (placedLabels code).Nodup
  blank : ∀ l ∈ placedLabels code, ∃ s, t.slot? l = some s ∧ s.offset = none
  targets : ∀ i ∈ code, ∀ l, i.target? = some l → ∃ n, t.get .number l = .ok n

variable {t : LabelTable} {code : List Instruction}

theorem Writable.tail {i : Instruction} (h : Writable t (i :: code)) : Writable t code := by
  have hsub : (placedLabels code).Sublist (placedLabels (i :: code)) :=
    (List.sublist_cons_self i code).filterMap _
  exact ⟨h.once.sublist hsub, fun l hl => h.blank l (hsub.subset hl),
    fun j hj => h.targets j (List.mem_cons_of_mem i hj)⟩

/-- Writing the offset of the label at the head leaves what the rest needs. -/
theorem Writable.put {l : Label} {s : LabelTable.Slot} (h : Writable t (.label l :: code))
    (hs : t.slot? l = some s) (n : Nat) :
    Writable (t.put l (s.set .offset n)) code ∧
      ∀ l', (t.put l (s.set .offset n)).get .number l' = t.get .number l' := by
  have hput := LabelTable.slot?_put hs (s.set .offset n)
  have hnumber (l' : Label) :
      (t.put l (s.set .offset n)).get .number l' = t.get .number l' := by
    unfold LabelTable.get
    rw [hput]
    by_cases he : l' = l
    · subst he
      rw [if_pos rfl, hs]
      rfl
    · rw [if_neg he]
  obtain ⟨hnot, -⟩ := List.nodup_cons.mp h.once
  refine ⟨⟨h.tail.once, fun l' hl' => ?_, fun i hi l' hl' => ?_⟩, hnumber⟩
  · have hne : l' ≠ l := fun he => hnot (he ▸ hl')
    rw [hput, if_neg hne]
    exact h.tail.blank l' hl'
  · rw [hnumber]
    exact h.tail.targets i hi l' hl'

/-- An instruction with a line is written as it. -/
theorem encodeBody_line {i : Instruction} {line : Line} (hi : t.line? i = some line)
    (body : List UInt8) :
    encodeBody t body (i :: code) =
      (liftEncode line.encode).bind fun bs => encodeBody t (body ++ bs) code := by
  rcases LabelTable.line?_eq_some hi with ⟨o, rfl, rfl⟩ | ⟨l, n, rfl, hn, rfl⟩ |
    ⟨cond, l, n, rfl, hn, rfl⟩
  · rfl
  · simp only [encodeBody, hn]
    rfl
  · simp only [encodeBody, hn]
    rfl

/-- The body is written unless an instruction does not fit; the numbers of the labels stay. -/
theorem encodeBody_written (h : Writable t code) (body : List UInt8) :
    (∃ e, encodeBody t body code = .error (.encode e)) ∨
      ∃ bytes t', encodeBody t body code = .ok (body ++ bytes, t') ∧
        BodyLines t' body.length code bytes ∧ (∀ l, t'.get .number l = t.get .number l) ∧
        ∀ l ∉ placedLabels code, t'.slot? l = t.slot? l := by
  induction code generalizing t body with
  | nil => exact .inr ⟨[], t, by rw [encodeBody, List.append_nil], .nil _, fun _ => rfl, fun _ _ => rfl⟩
  | cons i rest ih =>
    cases hi : t.line? i with
    | some line =>
      have hplaced := LabelTable.placedLabels_cons_line hi rest
      rw [encodeBody_line hi]
      cases he : line.encode with
      | error e => exact .inl ⟨e, rfl⟩
      | ok bs =>
        rcases ih h.tail (body ++ bs) with ⟨e, hw⟩ | ⟨bytes, t', hw, hlines, hnumber, hkeep⟩
        · exact .inl ⟨e, hw⟩
        · refine .inr ⟨bs ++ bytes, t', ?_, ?_, hnumber, hplaced ▸ hkeep⟩
          · rw [← List.append_assoc]
            exact hw
          · rw [List.length_append] at hlines
            exact .line (LabelTable.line?_congr hnumber ▸ hi) he hlines
    | none =>
      cases i with
      | op o => cases hi
      | jump l =>
        obtain ⟨n, hn⟩ := h.targets _ List.mem_cons_self l rfl
        simp [LabelTable.line?, hn, Except.toOption] at hi
      | jumpIf cond l =>
        obtain ⟨n, hn⟩ := h.targets _ List.mem_cons_self l rfl
        simp [LabelTable.line?, hn, Except.toOption] at hi
      | label l =>
        obtain ⟨s, hs, hblank⟩ := h.blank l List.mem_cons_self
        let n := body.length % offsetModulus
        obtain ⟨htail, hput⟩ := h.put hs n
        obtain ⟨hnot, -⟩ := List.nodup_cons.mp h.once
        have hset : t.set .offset l n = .ok (t.put l (s.set .offset n)) :=
          LabelTable.set_blank (a := .offset) hs hblank n
        have hstep : encodeBody t body (.label l :: rest) =
            encodeBody (t.put l (s.set .offset n)) body rest := by
          simp only [encodeBody]
          rw [hset]
          rfl
        rw [hstep]
        rcases ih htail body with ⟨e, hw⟩ | ⟨bytes, t', hw, hlines, hnumber, hkeep⟩
        · exact .inl ⟨e, hw⟩
        · have hslot : t'.slot? l = some (s.set .offset n) := by
            rw [hkeep l hnot, LabelTable.slot?_put hs, if_pos rfl]
          refine .inr ⟨bytes, t', hw, .label (LabelTable.get_of_slot? hslot rfl) hlines,
            fun l' => (hnumber l').trans (hput l'), fun l' hl' => ?_⟩
          obtain ⟨hne, hl'⟩ := not_or.mp (mt List.mem_cons.mpr hl')
          rw [hkeep l' hl', LabelTable.slot?_put hs, if_neg hne]

/-- The labels of a written body have the offsets that it gives them. -/
theorem BodyLines.exists_offset {n : Nat} {bytes : List UInt8} (h : BodyLines t n code bytes)
    {l : Label} (hl : l ∈ placedLabels code) : ∃ offset, t.get .offset l = .ok offset := by
  induction h with
  | nil => cases hl
  | label ho _ ih =>
    rcases List.mem_cons.mp hl with rfl | hl
    · exact ⟨_, ho⟩
    · exact ih hl
  | line hi _ _ ih =>
    rw [LabelTable.placedLabels_cons_line hi] at hl
    exact ih hl

/-- The label lines are written unless one is too long. -/
theorem encodeLabels_written {ls : List Label}
    (h : ∀ l ∈ ls, ∃ n offset, t.get .number l = .ok n ∧ t.get .offset l = .ok offset) :
    (∃ e, encodeLabels t ls = .error (.encode e)) ∨
      ∃ bytes, encodeLabels t ls = .ok bytes ∧ LabelLines t ls bytes := by
  induction ls with
  | nil => exact .inr ⟨[], rfl, .nil⟩
  | cons l rest ih =>
    obtain ⟨⟨n, offset, hn, ho⟩, hrest⟩ := List.forall_mem_cons.mp h
    have hstep : encodeLabels t (l :: rest) = (liftEncode (Line.label n offset).encode).bind
        fun bs => (encodeLabels t rest).bind fun more => .ok (bs ++ more) := by
      simp only [encodeLabels, hn, ho]
      rfl
    rw [hstep]
    cases he : (Line.label n offset).encode with
    | error e => exact .inl ⟨e, rfl⟩
    | ok bs =>
      rcases ih hrest with ⟨e, hw⟩ | ⟨more, hw, hlines⟩
      · exact .inl ⟨e, by rw [hw]; rfl⟩
      · exact .inr ⟨bs ++ more, by rw [hw]; rfl, .cons hn ho he hlines⟩

/-- The bytes are the lines of the program, and the table is its own with the offsets written. -/
structure Written (p : Program) (t : LabelTable) (title header body : List UInt8) : Prop where
  title : (Line.title p.title).encode = .ok title
  header : LabelLines t (placedLabels p.code) header
  body : BodyLines t 0 p.code body
  numbers : ∀ l, t.get .number l = p.labels.get .number l

/-- Writing a program fails only for a line that the file cannot hold. -/
theorem encodeParts_written {p : Program} (h : Writable p.labels p.code)
    (hn : ∀ l ∈ placedLabels p.code, ∃ n, p.labels.get .number l = .ok n) :
    (∃ e, encodeParts p = .error (.encode e)) ∨
      ∃ t title header body, encodeParts p = .ok (title ++ header, body) ∧
        Written p t title header body := by
  have hparts : encodeParts p = (encodeBody p.labels [] p.code).bind fun r =>
      (liftEncode (Line.title p.title).encode).bind fun title =>
        (encodeLabels r.2 (placedLabels p.code)).bind fun more => .ok (title ++ more, r.1) := rfl
  rw [hparts]
  rcases encodeBody_written h [] with ⟨e, hw⟩ | ⟨body, t, hw, hlines, hnumber, -⟩
  · exact .inl ⟨e, by rw [hw]; rfl⟩
  · rw [hw]
    cases htitle : (Line.title p.title).encode with
    | error e => exact .inl ⟨e, rfl⟩
    | ok title =>
      have hlabels : ∀ l ∈ placedLabels p.code, ∃ n offset,
          t.get .number l = .ok n ∧ t.get .offset l = .ok offset := by
        intro l hl
        obtain ⟨n, hget⟩ := hn l hl
        obtain ⟨offset, ho⟩ := hlines.exists_offset hl
        exact ⟨n, offset, (hnumber l).trans hget, ho⟩
      rcases encodeLabels_written hlabels with ⟨e, hl⟩ | ⟨header, hl, hheader⟩
      · exact .inl ⟨e, by simp only [Except.bind, hl]; rfl⟩
      · exact .inr ⟨t, title, header, body, by simp only [Except.bind, hl]; rfl,
          htitle, hheader, hlines, hnumber⟩

end ProgramFile

namespace Compiler

open ProgramFile

/-- The table of a compiled program is as its file needs it: the entry has its reserved number, and
the labels have one each and no offset yet. -/
theorem compile_writable {s : Source} {optimize : Bool} {p : Program}
    (h : (compile s optimize).1 = .ok p) :
    Writable p.labels p.code ∧ p.labels.get .number .entry = .ok LabelTable.entryNumber ∧
      ∀ l ∈ placedLabels p.code, ∃ k, p.labels.slot? l = some (numbered k) := by
  obtain ⟨c, t, he, ht, rfl⟩ := compile_ok h
  obtain ⟨n, hs⟩ := expand_sound he
  obtain ⟨t', hok, hslot, hslots, -⟩ := numberLabels_tidy optimize hs
  obtain rfl : t = t' := Except.ok.inj (ht.symm.trans hok)
  have hentry : t.get .number .entry = .ok LabelTable.entryNumber :=
    LabelTable.get_of_slot? hslot rfl
  have hclosed := Program.closed_append_jump (keeps_tidy optimize hs.closed).closed
  have hplaced : placedLabels ((tidy optimize c.code).1 ++ [.jump .entry]) =
      placedLabels (tidy optimize c.code).1 := by
    rw [placedLabels_append]
    exact List.append_nil _
  refine ⟨⟨hclosed.once, fun l hl => ?_, fun i hi l hl => ?_⟩, hentry, fun l hl => ?_⟩
  · obtain ⟨k, hk⟩ := hslots l (hplaced ▸ hl)
    exact ⟨numbered k, hk, rfl⟩
  · rcases hclosed.placed i hi l hl with rfl | hl
    · exact ⟨_, hentry⟩
    · obtain ⟨k, hk⟩ := hslots l (hplaced ▸ hl)
      exact ⟨k, LabelTable.get_of_slot? hk rfl⟩
  · exact hslots l (hplaced ▸ hl)

end Compiler
end Handheld
