import Handheld.Proofs.Machine.Sane
import Handheld.Proofs.Machine.Trace

namespace Handheld.Machine

variable {q : Program} {n spare k : Nat} {m : Machine}

namespace Act

section Operations

theorem keeps_showTitle (t : Title) : Keeps q n k (Act.showTitle t) fun _ => True := by
  have hcentered (row : Nat) (t : Text) : Keeps q n k (Act.drawCentered row t) fun _ => True :=
    Keeps.bind (Keeps.readAny _) fun _ _ => Keeps.draw rfl
  unfold Act.showTitle
  split
  · refine Keeps.bind (Keeps.draw rfl) fun _ _ => Keeps.bind (hcentered _ _) fun _ _ => ?_
    refine Keeps.bind (hcentered _ _) fun _ _ => ?_
    split
    · exact Keeps.bind (Keeps.sleep _) fun _ _ => Keeps.pure trivial
    · exact Safe.bind safe_nextCode fun _ _ => Safe.pure trivial (Nat.le_add_right _ _)
    · exact Keeps.pure trivial
  · exact Keeps.pure trivial

/-- An operation that writes no record keeps the machine sane. -/
theorem keeps_execute {reply : LinkReply} (hr : reply.Fits) {o : Operation} (ho : o.Bounded)
    (hw : ∀ name len src replacing crlf, o ≠ .recordWrite name len src replacing crlf) :
    Keeps q n k (Act.execute reply o) fun _ => True := by
  have hnum {i : Nat} (hi : i ∈ o.numbers) : i < 1000 := ho i hi
  cases o with
  | assign dst src => exact Keeps.bind (Keeps.valueOf src) fun _ _ => Keeps.set dst _
  | stringConcat dst pos first second =>
    refine Keeps.stringConcat dst (hnum ?_) (hnum ?_) fun s hs => hnum ?_
    · simp [Operation.numbers]
    · simp [Operation.numbers, Slice.numbers]
    · cases hs
      simp [Operation.numbers, Slice.numbers]
  | extractCopy dst pos src =>
    have hsrc : Line.SliceBounded src := fun i hi => hnum (List.mem_cons_of_mem pos hi)
    have hpos : pos < 1000 := hnum List.mem_cons_self
    have hlen : src.len < 1000 := hsrc src.len (by simp [Slice.numbers])
    exact Keeps.bind (Keeps.padded hsrc) fun t ht => Keeps.overwrite dst (by omega)
  | stringShift reg size align fill => exact Keeps.stringShift reg (hnum List.mem_cons_self) align fill
  | numberToString dst src => exact Keeps.numberToString dst src
  | variableInit reg => exact Keeps.reset reg
  | recordWrite name len src replacing crlf => exact absurd rfl (hw name len src replacing crlf)
  | recordRead name len dst pos => exact Keeps.recordRead name (hnum List.mem_cons_self) dst pos
  | recordCount name len dst => exact Keeps.recordCount name len dst
  | fileDelete name => exact Keeps.fileDelete name
  | fileExists name => exact Keeps.fileExists name
  | masterSearch name len key key2 method pos result =>
    have hfirst : key.len < 1000 := hnum (by simp [Operation.numbers, Slice.numbers])
    have hsecond : ∀ s ∈ key2, s.len < 1000 := by
      intro s hs
      cases hs
      exact hnum (by simp [Operation.numbers, Slice.numbers])
    refine Keeps.masterSearch name len ?_ result
    cases key2 with
    | none =>
      show key.len + 0 < 10000
      omega
    | some s =>
      have hs := hsecond s rfl
      show key.len + (s.len + 0) < 10000
      omega
  | echoedInput row col dst columns noEcho full special cursor minus =>
    exact keeps_lineInput ⟨hnum (by simp [Operation.numbers]), hnum (by simp [Operation.numbers])⟩
  | barcodeInput row col dst columns special full flags =>
    exact keeps_lineInput ⟨hnum (by simp [Operation.numbers]), hnum (by simp [Operation.numbers])⟩
  | barcodeSetup setup => exact Keeps.pure trivial
  | noEchoInput dst => exact keeps_noEchoInput dst
  | displayString row col clear t => exact Keeps.displayString row col clear t
  | displayClear => exact Keeps.draw (rfl : Screen.Drawing.clearAll.beeps = 0)
  | displayPartClear row col len quarter =>
    exact Keeps.draw (rfl : (Screen.Drawing.clearRegion row col len).beeps = 0)
  | displayRegister row col reg start len clear quarter reverse =>
    refine Keeps.displayRegister row col clear (Line.slice_bounded reg (hnum ?_) (hnum ?_))
    · simp [Operation.numbers]
    · simp [Operation.numbers]
  | upload name kind line stop => exact Keeps.upload reply name
  | download kind line stop => exact Keeps.download hr
  | wait ms => exact Keeps.bind (Keeps.sleep _) fun _ _ => Keeps.pure trivial

end Operations

end Act

section Writing

/-- The name that a file name stands for. -/
def fileNamed (m : Machine) : FileName → Text
  | .literal name => name
  | .register r => m.registers.text r

/-- A record as it is written. -/
def recordOf (m : Machine) (len : Nat) (src : Register) (crlf : Bool) : Text :=
  (m.registers.text src).forceSize len Text.fill ++ if crlf then Act.recordEnd else .empty

/-- The file behind the writing of a record. -/
def written (m : Machine) (name : FileName) (len : Nat) (src : Register) (replacing crlf : Bool) :
    RecordFile :=
  let f := m.files.ensure (m.fileNamed name)
  if replacing then f.write (m.recordOf len src crlf) else f.append (m.recordOf len src crlf)

/-- Where a record is written. -/
def placeOf (m : Machine) (name : FileName) (replacing : Bool) : Nat :=
  let f := m.files.ensure (m.fileNamed name)
  if replacing then f.pointer else f.size

theorem nameOf_eq (m : Machine) (name : FileName) : Act.nameOf name m = (.ok (m.fileNamed name), m) := by
  cases name <;> rfl

/-- The writing of a record overflows if the record would end where no text can. -/
theorem recordWrite_eq (m : Machine) (name : FileName) (len : Nat) (src : Register)
    (replacing crlf : Bool) :
    Act.recordWrite name len src replacing crlf m =
      if m.placeOf name replacing + (m.recordOf len src crlf).length < Text.sizeLimit then
        (.ok (), { m with
          files := m.files.put (m.fileNamed name) (m.written name len src replacing crlf) })
      else (.error .overflow, m) := by
  have hlen : (m.recordOf len src crlf).length =
      len + (if crlf then Act.recordEnd else Text.empty).length := by
    have hforced := (m.registers.text src).length_forceSize len Text.fill
    calc (m.recordOf len src crlf).length
      _ = ((m.registers.text src).forceSize len Text.fill).length +
          (if crlf then Act.recordEnd else Text.empty).length := List.length_append
      _ = len + (if crlf then Act.recordEnd else Text.empty).length := by rw [hforced]
  have hsum : (if replacing then (m.files.ensure (m.fileNamed name)).pointer
      else (m.files.ensure (m.fileNamed name)).size) + len +
        (if crlf then Act.recordEnd else Text.empty).length =
      m.placeOf name replacing + (m.recordOf len src crlf).length := by
    rw [hlen, placeOf, Nat.add_assoc]
  simp only [Act.recordWrite, Act.run_bind, nameOf_eq, Act.read]
  rw [hsum]
  by_cases hlt : m.placeOf name replacing + (m.recordOf len src crlf).length < Text.sizeLimit
  · rw [if_pos hlt, Text.checkSize_eq_ok_iff.mpr ⟨hlt, rfl⟩]
    cases replacing <;> rfl
  · rw [if_neg hlt, Text.checkSize, if_neg hlt]
    rfl

/-- The file becomes longer than a text can be exactly if the record ends where no text can. -/
theorem Sane.size_written (h : m.Sane q n spare) (name : FileName) (len : Nat) (src : Register)
    (replacing crlf : Bool) :
    (m.written name len src replacing crlf).size < Text.sizeLimit ↔
      m.placeOf name replacing + (m.recordOf len src crlf).length < Text.sizeLimit := by
  have hwhole := h.ensure (m.fileNamed name)
  have hsize := hwhole.size
  unfold written placeOf
  cases replacing with
  | false => simp
  | true =>
    simp only [if_true, RecordFile.size_write]
    omega

theorem Sane.whole_written (h : m.Sane q n spare) {name : FileName} {len : Nat} {src : Register}
    {replacing crlf : Bool} (hlt : (m.written name len src replacing crlf).size < Text.sizeLimit) :
    (m.written name len src replacing crlf).Whole := by
  have hplace := (h.size_written name len src replacing crlf).mp hlt
  have hwhole := h.ensure (m.fileNamed name)
  cases replacing with
  | false => exact RecordFile.whole_append hplace
  | true => exact hwhole.write hplace

/-- Writing a record keeps the machine sane unless the file becomes longer than a text can be, in
which case it overflows. -/
theorem Sane.recordWrite (h : m.Sane q n spare) (name : FileName) (len : Nat) (src : Register)
    (replacing crlf : Bool) :
    if (m.written name len src replacing crlf).size < Text.sizeLimit then
      Act.Post q n (fun _ => spare) (fun _ => True) (Act.recordWrite name len src replacing crlf m)
    else Act.recordWrite name len src replacing crlf m = (.error .overflow, m) := by
  rw [recordWrite_eq]
  simp only [h.size_written]
  split
  · next hlt =>
    have hw := h.whole_written ((h.size_written name len src replacing crlf).mpr hlt)
    exact ⟨trivial, h.put _ hw⟩
  · rfl

end Writing

section Steps

/-- The instruction in turn writes a record that makes its file longer than a text can be. -/
def Overfills (m : Machine) : Prop :=
  m.view.Ready ∧ ∃ name len src replacing crlf,
    m.program.code[m.pc]? = some (.op (.recordWrite name len src replacing crlf)) ∧
      Text.sizeLimit ≤ (m.written name len src replacing crlf).size

/-- A step that ends without overflow and leaves the machine sane. -/
def Unharmed (q : Program) (n : Nat) (r : Except Stop Step × Machine) : Prop :=
  r.1 ≠ .error .overflow ∧ r.2.Sane q n 0

theorem Sane.settled (h : m.Sane q n 0) {r : Except Stop Step × Machine}
    (hr : Act.Post q n (fun _ => 0) (fun _ => True) r) : Unharmed q n (m.settled r) := by
  rcases r with ⟨(_ | _ | _) | _, m'⟩
  · exact ⟨by simp [Machine.settled], hr.2⟩
  · exact absurd rfl hr.1
  · exact ⟨by simp [Machine.settled], h⟩
  · exact ⟨by simp [Machine.settled], hr.2⟩

theorem Sane.moved (h : m.Sane q n spare) (i : Instruction) : (m.moved i).Sane q n spare :=
  h.congr rfl rfl rfl rfl rfl

theorem step_end (m : Machine) (reply : LinkReply) (h : m.view.Ready)
    (hi : m.program.code[m.pc]? = none) :
    m.step reply = (.error (.fault (.endOfProgram m.pc)), m) := by
  have hs : m.started = true := h.started
  have hc : m.keys.cancelled = false := h.listening
  simp only [step, Act.step, Act.run_bind, Act.read, hs, hc, Act.fetch, hi, Act.stop,
    Bool.false_eq_true, if_false, if_true]

theorem keeps_run {reply : LinkReply} (hr : reply.Fits) {i : Instruction}
    (hi : ∀ o, i = .op o → o.Bounded ∧
      ∀ name len src replacing crlf, o ≠ .recordWrite name len src replacing crlf) :
    Act.Keeps q n 0 (Act.run reply i) fun _ => True := by
  cases i with
  | label l => exact Act.Keeps.pure trivial
  | jump t => exact Act.Keeps.jump t
  | jumpIf c t =>
    refine Act.Keeps.bind (Act.Keeps.holds c) fun taken _ => ?_
    cases taken with
    | false => exact Act.Keeps.pure trivial
    | true => exact Act.Keeps.jump t
  | op o =>
    obtain ⟨ho, hw⟩ := hi o rfl
    exact Act.Keeps.bind (Act.keeps_execute hr ho hw) fun _ _ => Act.Keeps.pure trivial

/-- A step that writes a record. -/
theorem Sane.step_recordWrite (h : m.Sane q n 0) (reply : LinkReply) (hready : m.view.Ready)
    {name : FileName} {len : Nat} {src : Register} {replacing crlf : Bool}
    (hi : m.program.code[m.pc]? = some (.op (.recordWrite name len src replacing crlf))) :
    if (m.written name len src replacing crlf).size < Text.sizeLimit then
      Unharmed q n (m.step reply)
    else (m.step reply).1 = .error .overflow ∧ (m.step reply).2.Sane q n 0 := by
  have hmoved := h.moved (.op (.recordWrite name len src replacing crlf))
  have hwrite := hmoved.recordWrite name len src replacing crlf
  rw [m.step_eq reply hready hi]
  change if (m.written name len src replacing crlf).size < Text.sizeLimit then _ else _ at hwrite
  simp only [Act.run, Act.run_bind, Act.execute]
  split
  · next hlt =>
    rw [if_pos hlt] at hwrite
    rcases hr : Act.recordWrite name len src replacing crlf
      (m.moved (.op (.recordWrite name len src replacing crlf))) with ⟨e | _, m'⟩
    · rw [hr] at hwrite
      exact h.settled hwrite
    · rw [hr] at hwrite
      exact h.settled ⟨trivial, hwrite.2⟩
  · next hge =>
    rw [if_neg hge] at hwrite
    rw [hwrite]
    exact ⟨rfl, hmoved⟩

/-- A step overflows only by writing a record that makes its file too long, and leaves the machine
sane. -/
theorem Sane.step (h : m.Sane q n 0) (hq : ∀ o, .op o ∈ q.code → o.Bounded) {reply : LinkReply}
    (hr : reply.Fits) :
    ((m.step reply).1 = .error .overflow ↔ m.Overfills) ∧ (m.step reply).2.Sane q n 0 := by
  -- where nothing is overfilled, the step has to be unharmed
  have quiet (hnot : ¬ m.Overfills) (hu : Unharmed q n (m.step reply)) :
      ((m.step reply).1 = .error .overflow ↔ m.Overfills) ∧ (m.step reply).2.Sane q n 0 :=
    ⟨⟨fun ho => absurd ho hu.1, fun ho => absurd ho hnot⟩, hu.2⟩
  cases hc : m.keys.cancelled with
  | true =>
    refine quiet (fun ho => ?_) ?_
    · have hl : m.keys.cancelled = false := ho.1.listening
      simp [hc] at hl
    · rw [m.step_cancelled reply hc]
      exact ⟨by simp, h⟩
  | false =>
    cases hs : m.started with
    | false =>
      refine quiet (fun ho => ?_) ?_
      · have hl : m.started = true := ho.1.started
        simp [hs] at hl
      · have hopen : m.opened.Sane q n 0 := h.congr rfl rfl rfl rfl rfl
        have hkeeps : Act.Keeps q n 0 (opening m.program.title) fun _ => True :=
          Act.Keeps.bind (Act.keeps_showTitle _) fun _ _ => Act.Keeps.pure trivial
        rw [m.step_start reply hs hc]
        exact h.settled (hkeeps m.opened hopen)
    | true =>
      have hready : m.view.Ready := ⟨hs, hc⟩
      cases hi : m.program.code[m.pc]? with
      | none =>
        refine quiet (fun ⟨_, name, len, src, replacing, crlf, hcode, _⟩ => ?_) ?_
        · simp [hi] at hcode
        · rw [m.step_end reply hready hi]
          exact ⟨by simp, h⟩
      | some i =>
        have hmem : i ∈ q.code := h.program ▸ List.mem_of_getElem? hi
        by_cases hw : ∃ name len src replacing crlf, i = .op (.recordWrite name len src replacing crlf)
        · obtain ⟨name, len, src, replacing, crlf, rfl⟩ := hw
          have hwrite := h.step_recordWrite reply hready hi
          have hfull : m.Overfills ↔ Text.sizeLimit ≤ (m.written name len src replacing crlf).size := by
            constructor
            · rintro ⟨-, _, _, _, _, _, hcode, hsize⟩
              cases Option.some.inj (hi.symm.trans hcode)
              exact hsize
            · exact fun hsize => ⟨hready, _, _, _, _, _, hi, hsize⟩
          split at hwrite
          · next hlt => exact quiet (fun ho => absurd (hfull.mp ho) (Nat.not_le.mpr hlt)) hwrite
          · next hge => exact ⟨⟨fun _ => hfull.mpr (Nat.not_lt.mp hge), fun _ => hwrite.1⟩, hwrite.2⟩
        · refine quiet (fun ⟨_, name, len, src, replacing, crlf, hcode, _⟩ => ?_) ?_
          · exact hw ⟨name, len, src, replacing, crlf, Option.some.inj (hi.symm.trans hcode)⟩
          · have hkeeps : Act.Keeps q n 0 (Act.run reply i) fun _ => True := by
              refine keeps_run hr fun o ho => ⟨hq o (ho ▸ hmem), ?_⟩
              rintro name len src replacing crlf rfl
              exact hw ⟨name, len, src, replacing, crlf, ho⟩
            rw [m.step_eq reply hready hi]
            exact h.settled (hkeeps _ (h.moved i))

end Steps

end Handheld.Machine
