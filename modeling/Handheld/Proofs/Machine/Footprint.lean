import Handheld.Proofs.Machine.Safe

namespace Handheld

namespace Operation

/-- The file whose content the operation changes. -/
def rewritten : Operation → Option FileName
  | recordWrite file .. | fileDelete file => some file
  | _ => none

/-- The file whose record pointer the operation moves, with the mark of a failed movement. -/
def walked : Operation → Option FileName
  | recordRead file .. | masterSearch file .. => some file
  | _ => none

/-- The names of the files that the operation receives. -/
def received (reply : LinkReply) : Operation → List Text
  | download .. => reply.transfer.files.map (·.name)
  | _ => []

/-- The operation shows something on the screen, or clears a part of it. -/
def draws : Operation → Bool
  | echoedInput .. | barcodeInput .. | displayString .. | displayClear | displayPartClear ..
  | displayRegister .. => true
  | _ => false

end Operation

namespace RecordFile

/-- No movement changes the content. -/
theorem content_moved {f : RecordFile} {len : Nat} {pos : FilePosition} {r : Bool × RecordFile}
    (h : Machine.Act.moved f len pos = .ok r) : r.2.content = f.content := by
  have hseek (place : Option Nat) : (f.seek place).2.content = f.content := by cases place <;> rfl
  cases pos with
  | previous => exact Except.ok.inj h ▸ hseek _
  | next =>
    simp only [Machine.Act.moved, RecordFile.next] at h
    cases hcheck : Word.check (f.pointer + len) with
    | error e => simp [hcheck, Except.map] at h
    | ok p =>
      simp only [hcheck, Except.map, Except.ok.injEq] at h
      exact h ▸ hseek _
  | top => exact Except.ok.inj h ▸ hseek _
  | bottom => exact Except.ok.inj h ▸ hseek _
  | current => exact Except.ok.inj h ▸ rfl

theorem content_search (f : RecordFile) (len : Nat) (fields : List KeyField) (key : Text) :
    (f.search len fields key).2.content = f.content := by
  unfold search
  split <;> rfl

end RecordFile

namespace Machine

/-- The parts of a machine that may change. -/
structure Footprint where
  registers : List Register
  /-- The names of the files that may be written, created or removed. -/
  contents : List Text
  /-- The names of the files in which the record pointer may move. -/
  pointers : List Text
  /-- Cells of the screen may change. -/
  cells : Bool

/-- The register that the operation declares, the registers of its outcome, and the files that it
names or receives. -/
def footprint (m : Machine) (reply : LinkReply) (o : Operation) : Footprint where
  registers := o.written.toList ++ [.rslt, .endky, .numbr]
  contents := (o.rewritten.map m.fileNamed).toList ++ o.received reply
  pointers := (o.walked.map m.fileNamed).toList
  cells := o.draws

/-- The second machine differs from the first one at most within the footprint. -/
structure Within (fp : Footprint) (m m' : Machine) : Prop where
  stored : ∀ r ∉ fp.registers, m'.registers.stored? r = m.registers.stored? r
  get : ∀ r ∉ fp.registers, m'.registers.get r = m.registers.get r
  content : ∀ name ∉ fp.contents,
    (m'.files.get? name).map (·.content) = (m.files.get? name).map (·.content)
  file : ∀ name ∉ fp.contents, name ∉ fp.pointers → m'.files.get? name = m.files.get? name
  rows : fp.cells = false → m'.screen.rows = m.screen.rows

variable {fp : Footprint} {m m' m'' : Machine}

namespace Within

/-- What keeps registers, files and cells keeps within every footprint. -/
theorem of_eq (hr : m'.registers = m.registers) (hf : m'.files = m.files)
    (hs : m'.screen.rows = m.screen.rows) : Within fp m m' :=
  ⟨fun _ _ => by rw [hr], fun _ _ => by rw [hr], fun _ _ => by rw [hf], fun _ _ _ => by rw [hf],
    fun _ => hs⟩

theorem refl (m : Machine) : Within fp m m := of_eq rfl rfl rfl

theorem trans (h : Within fp m m') (h' : Within fp m' m'') : Within fp m m'' where
  stored r hr := (h'.stored r hr).trans (h.stored r hr)
  get r hr := (h'.get r hr).trans (h.get r hr)
  content name hn := (h'.content name hn).trans (h.content name hn)
  file name hn hp := (h'.file name hn hp).trans (h.file name hn hp)
  rows hc := (h'.rows hc).trans (h.rows hc)

/-- A change of registers that may change. -/
theorem registers {s : RegisterStore}
    (h : ∀ q ∉ fp.registers, s.stored? q = m.registers.stored? q ∧ s.get q = m.registers.get q) :
    Within fp m { m with registers := s } :=
  ⟨fun q hq => (h q hq).1, fun q hq => (h q hq).2, fun _ _ => rfl, fun _ _ _ => rfl, fun _ => rfl⟩

theorem store {r : Register} (hr : r ∈ fp.registers) (v : Value) :
    Within fp m { m with registers := m.registers.store r v } := by
  apply registers
  intro q hq
  have hother : r ≠ q := fun e => hq (e ▸ hr)
  rw [RegisterStore.stored?_store, RegisterStore.get_store, if_neg hother, if_neg hother]
  exact ⟨rfl, rfl⟩

theorem clear {r : Register} (hr : r ∈ fp.registers) :
    Within fp m { m with registers := m.registers.clear r } := by
  apply registers
  intro q hq
  have hother : r ≠ q := fun e => hq (e ▸ hr)
  rw [RegisterStore.stored?_clear, RegisterStore.get_clear, if_neg hother, if_neg hother]
  exact ⟨rfl, rfl⟩

/-- A change of files that may change. -/
theorem contents {files : FileArea}
    (h : ∀ name ∉ fp.contents, files.get? name = m.files.get? name) : Within fp m { m with files } :=
  ⟨fun _ _ => rfl, fun _ _ => rfl, fun name hn => congrArg (Option.map (·.content)) (h name hn),
    fun name hn _ => h name hn, fun _ => rfl⟩

theorem put {name : Text} (hn : name ∈ fp.contents) (f : RecordFile) :
    Within fp m { m with files := m.files.put name f } := by
  apply contents
  intro other ho
  have hother : name ≠ other := fun e => ho (e ▸ hn)
  rw [FileArea.get?_put, if_neg hother]

theorem delete {name : Text} (hn : name ∈ fp.contents) :
    Within fp m { m with files := m.files.delete name } := by
  apply contents
  intro other ho
  have hother : name ≠ other := fun e => ho (e ▸ hn)
  rw [FileArea.get?_delete, if_neg hother]

/-- A file of which only the record pointer has moved. -/
theorem walk {name : Text} (hn : name ∈ fp.pointers) {f g : RecordFile}
    (hf : m.files.get? name = some f) (hg : g.content = f.content) :
    Within fp m { m with files := m.files.put name g } := by
  refine ⟨fun _ _ => rfl, fun _ _ => rfl, fun other _ => ?_, fun other _ ho => ?_, fun _ => rfl⟩
  · rw [FileArea.get?_put]
    split
    · next e => rw [← e, hf, Option.map_some, Option.map_some, hg]
    · rfl
  · rw [FileArea.get?_put, if_neg fun e : name = other => ho (e ▸ hn)]

end Within

namespace Act

variable {α β : Type} {act : Act α} {next : α → Act β} {a : α}

/-- The action changes nothing outside the footprint. -/
def Confined (fp : Footprint) (act : Act α) : Prop := ∀ m, Within fp m (act m).2

/-- An action that only finds something out leaves the footprint to what follows. -/
theorem within_after (h : act m = (.ok a, m)) (hn : Within fp m (next a m).2) :
    Within fp m ((act >>= next) m).2 := by
  rw [run_bind, h]
  exact hn

theorem within_bind (h : Within fp m (act m).2) (hn : ∀ a, Confined fp (next a)) :
    Within fp m ((act >>= next) m).2 := by
  rw [run_bind]
  rcases hm : act m with ⟨s | a, m₁⟩
  · rw [hm] at h
    exact h
  · rw [hm] at h
    exact h.trans (hn a m₁)

theorem within_checked {r : Except Overflow α} (h : ∀ a, r = .ok a → Within fp m (next a m).2) :
    Within fp m ((checked r >>= next) m).2 := by
  cases r with
  | error e => exact Within.refl m
  | ok a => exact h a rfl

theorem within_named (name : FileName) {next : Text → Act β}
    (h : Within fp m (next (m.fileNamed name) m).2) : Within fp m ((nameOf name >>= next) m).2 :=
  within_after (nameOf_eq m name) h

theorem within_found (name : Text) {next : Option RecordFile → Act β}
    (h : Within fp m (next (m.files.get? name) m).2) : Within fp m ((file? name >>= next) m).2 := h

namespace Confined

theorem pure (a : α) : Confined fp (Pure.pure a : Act α) := Within.refl

theorem bind (h : Confined fp act) (hn : ∀ a, Confined fp (next a)) : Confined fp (act >>= next) :=
  fun m => within_bind (h m) hn

theorem stop (s : Stop) : Confined fp (Act.stop s : Act α) := Within.refl

theorem read (g : Machine → α) : Confined fp (Act.read g) := Within.refl

theorem checked (r : Except Overflow α) : Confined fp (Act.checked r) := by
  cases r with
  | error e => exact stop _
  | ok a => exact pure a

/-- A change of what no footprint is about. -/
theorem quiet {g : Machine → Machine} (hr : ∀ m, (g m).registers = m.registers)
    (hf : ∀ m, (g m).files = m.files) (hs : ∀ m, (g m).screen.rows = m.screen.rows) :
    Confined fp (Act.update g) := fun m => Within.of_eq (hr m) (hf m) (hs m)

theorem note (n : Note) : Confined fp (Act.note n) := quiet (fun _ => rfl) (fun _ => rfl) fun _ => rfl

/-- A change of the registers that is made or refused. -/
theorem change (check : Except Fault Unit) {f : RegisterStore → RegisterStore}
    (h : ∀ m : Machine, Within fp m { m with registers := f m.registers }) :
    Confined fp (Act.change fun s => check.map fun _ => f s) := by
  cases check with
  | error e => exact Within.refl
  | ok u => exact h

theorem set {r : Register} (h : r ∈ fp.registers) (v : Value) : Confined fp (Act.set r v) :=
  change _ fun _ => Within.store h v

theorem setSystem {r : Register} (h : r ∈ fp.registers) (v : Value) :
    Confined fp (Act.setSystem r v) := change _ fun _ => Within.store h v

theorem reset {r : Register} (h : r ∈ fp.registers) : Confined fp (Act.reset r) :=
  change _ fun _ => Within.clear h

theorem drawing {d : Screen.Drawing}
    (h : ∀ s : Screen, fp.cells = false → (s.apply d).rows = s.rows) : Confined fp (Act.draw d) := by
  have hwatched (m : Machine) : (watched m).registers = m.registers ∧ (watched m).files = m.files ∧
      (watched m).screen = m.screen := by
    rcases m with ⟨_, _, _, _, _, _, _, _ | _ | _, _⟩ <;> exact ⟨rfl, rfl, rfl⟩
  intro m
  have hpainted : Within fp m { m with
      screen := m.screen.apply d
      journal := { m.journal with damage := (m.screen.damage d).reverse ++ m.journal.damage } } :=
    ⟨fun _ _ => rfl, fun _ _ => rfl, fun _ _ => rfl, fun _ _ _ => rfl, h m.screen⟩
  cases d with
  | text row col t =>
    obtain ⟨hr, hf, hs⟩ := hwatched { m with
      screen := m.screen.apply (.text row col t)
      journal := { m.journal with
        damage := (m.screen.damage (.text row col t)).reverse ++ m.journal.damage } }
    exact hpainted.trans (Within.of_eq hr hf (congrArg Screen.rows hs))
  | _ => exact hpainted

/-- Any drawing, where cells may change. -/
theorem draw (h : fp.cells = true) (d : Screen.Drawing) : Confined fp (Act.draw d) :=
  drawing fun _ hf => nomatch h.symm.trans hf

/-- What the footprint permits keeps within it. -/
theorem laws (fp : Footprint) :
    Laws ⟨(· ∈ fp.registers), ∀ r ∈ [Register.rslt, .endky, .numbr], r ∈ fp.registers,
      (· ∈ fp.contents), fp.cells = true⟩ (Confined fp) where
  pure := pure
  bind := bind
  waiting := stop _
  checked := checked
  read _ := read _
  note := note
  keys _ := quiet (fun _ => rfl) (fun _ => rfl) fun _ => rfl
  slept _ _ := quiet (fun _ => rfl) (fun _ => rfl) fun _ => rfl
  set h v := set h v
  reset h := reset h
  setSystem h r hr v := setSystem (h r hr) v
  putFile h f := fun _ => Within.put h f
  delete h := fun _ => Within.delete h
  beep := drawing fun _ _ => rfl
  draw h d := draw h d

end Confined

/-- Joining the fields of a key changes nothing. -/
theorem joinFields_eq (keys : List Slice) (key : Text) (m : Machine) :
    ∃ r, keys.foldlM Act.joinField key m = Act.checked r m := by
  induction keys generalizing key with
  | nil => exact ⟨.ok key, rfl⟩
  | cons s rest ih =>
    have hfield : Act.joinField key s m =
        Act.checked (((m.registers.text s.reg).forced s.len).bind key.joined) m := by
      simp only [Act.joinField, Act.textOf, Act.read, run_bind]
      cases (m.registers.text s.reg).forced s.len with
      | error e => rfl
      | ok field => rfl
    rw [List.foldlM_cons, run_bind, hfield]
    cases ((m.registers.text s.reg).forced s.len).bind key.joined with
    | error e => exact ⟨.error e, rfl⟩
    | ok next => exact ih next

theorem within_searchKey (keys : List Slice) {next : Text → Act β}
    (h : ∀ key, Within fp m (next key m).2) : Within fp m ((Act.searchKey keys >>= next) m).2 := by
  obtain ⟨r, hr⟩ := joinFields_eq keys .empty m
  rw [run_bind, Act.searchKey, hr]
  cases r with
  | error e => exact Within.refl m
  | ok key => exact h key

section Files

-- Operations on the file that they name depend on the machine for its name.
variable {name : FileName}

theorem within_recordWrite (hn : m.fileNamed name ∈ fp.contents) (len : Nat) (src : Register)
    (replacing crlf : Bool) : Within fp m (Act.recordWrite name len src replacing crlf m).2 := by
  rw [recordWrite_eq]
  split
  · exact Within.put hn _
  · exact Within.refl m

variable (h : ∀ r ∈ [Register.rslt, .endky, .numbr], r ∈ fp.registers)

include h

theorem within_fileDelete (hn : m.fileNamed name ∈ fp.contents) :
    Within fp m (Act.fileDelete name m).2 := by
  have L := Confined.laws fp
  refine within_named name (within_found _ ?_)
  cases m.files.get? (m.fileNamed name) with
  | none => exact L.status h _ m
  | some f =>
    have hdeleted : Within fp m
        (Act.update (fun m' => { m' with files := m'.files.delete (m.fileNamed name) }) m).2 :=
      Within.delete hn
    exact within_bind hdeleted fun _ => L.status h _

variable {dst : Register} (hd : dst ∈ fp.registers) (hn : m.fileNamed name ∈ fp.pointers)

include hd hn

theorem within_recordRead (len : Nat) (pos : FilePosition) :
    Within fp m (Act.recordRead name len dst pos m).2 := by
  have L := Confined.laws fp
  refine within_named name (within_found _ ?_)
  cases hf : m.files.get? (m.fileNamed name) with
  | none => exact L.status h _ m
  | some f =>
    refine within_checked fun moved hmoved => ?_
    refine within_bind (Within.walk hn hf (RecordFile.content_moved hmoved)) fun _ => ?_
    refine L.bind (L.checked _) fun record => ?_
    cases record with
    | none => exact L.status h _
    | some record => exact L.bind (L.set hd _) fun _ => L.statusIf h _

theorem within_masterSearch (len : Nat) (keys : List Slice) :
    Within fp m (Act.masterSearch name len keys dst m).2 := by
  have L := Confined.laws fp
  have hmissed (code : Int32) : Confined fp (do Act.reset dst; Act.status code) :=
    L.bind (L.reset hd) fun _ => L.status h _
  refine within_named name (within_searchKey keys fun key => within_found _ ?_)
  cases hf : m.files.get? (m.fileNamed name) with
  | none => exact hmissed _ m
  | some f =>
    have hcontent := f.content_search len (keys.map fun s => ⟨s.pos, s.len⟩) key
    rcases hsearch : f.search len (keys.map fun s => ⟨s.pos, s.len⟩) key with ⟨_ | record, g⟩
    · simp only [hsearch]
      exact hmissed _ m
    · rw [hsearch] at hcontent
      have hput : Within fp m (Act.putFile (m.fileNamed name) g m).2 := Within.walk hn hf hcontent
      simp only [hsearch]
      exact within_bind hput fun _ => L.bind (L.set hd _) fun _ => L.status h _

end Files

/-- Whether it was there or not. -/
theorem get?_fileDelete (name : FileName) (m : Machine) :
    (Act.fileDelete name m).2.files.get? (m.fileNamed name) = none := by
  simp only [Act.fileDelete, run_bind, nameOf_eq, Act.file?, Act.read]
  cases hf : m.files.get? (m.fileNamed name) with
  | none => exact hf
  | some f =>
    show (m.files.delete (m.fileNamed name)).get? (m.fileNamed name) = none
    rw [FileArea.get?_delete, if_pos rfl]

/-- An operation touches only what it declares, also where it fails or waits for a key; a deleted file
is gone. -/
theorem execute_within_footprint (reply : LinkReply) (o : Operation) (m : Machine) :
    Within (m.footprint reply o) m (Act.execute reply o m).2 ∧
      ∀ name, (Act.execute reply (.fileDelete name) m).2.files.get? (m.fileNamed name) = none := by
  have hsystem : ∀ r ∈ [Register.rslt, .endky, .numbr], r ∈ (m.footprint reply o).registers :=
    fun r hr => List.mem_append_right _ hr
  have hwritten {r : Register} (h : o.written = some r) : r ∈ (m.footprint reply o).registers :=
    List.mem_append_left _ (Option.mem_toList.mpr h)
  have hrewritten {name : FileName} (h : o.rewritten = some name) :
      m.fileNamed name ∈ (m.footprint reply o).contents :=
    List.mem_append_left _ (Option.mem_toList.mpr (by rw [h]; rfl))
  have hwalked {name : FileName} (h : o.walked = some name) :
      m.fileNamed name ∈ (m.footprint reply o).pointers :=
    Option.mem_toList.mpr (by rw [h]; rfl)
  have L := Confined.laws (m.footprint reply o)
  refine ⟨?_, fun name => get?_fileDelete name m⟩
  cases o with
  | assign dst src => exact L.bind (L.valueOf src) (fun _ => L.set (hwritten rfl) _) m
  | stringConcat dst pos first second => exact L.stringConcat (hwritten rfl) pos first second m
  | extractCopy dst pos src =>
    exact L.bind (L.padded src) (fun _ => L.overwrite (hwritten rfl) _ _) m
  | stringShift reg size align fill => exact L.stringShift (hwritten rfl) size align fill m
  | numberToString dst src => exact L.numberToString hsystem (hwritten rfl) src m
  | variableInit reg => exact L.reset (hwritten rfl) m
  | recordWrite name len src replacing crlf =>
    exact within_recordWrite (hrewritten rfl) len src replacing crlf
  | recordRead name len dst pos => exact within_recordRead hsystem (hwritten rfl) (hwalked rfl) len pos
  | recordCount name len dst => exact L.recordCount hsystem (hwritten rfl) name len m
  | fileDelete name => exact within_fileDelete hsystem (hrewritten rfl)
  | fileExists name => exact L.fileExists hsystem name m
  | masterSearch name len key key2 method pos result =>
    exact within_masterSearch hsystem (hwritten rfl) (hwalked rfl) len _
  | echoedInput row col dst => exact L.lineInput hsystem rfl (hwritten rfl) m
  | barcodeInput row col dst => exact L.lineInput hsystem rfl (hwritten rfl) m
  | barcodeSetup setup => exact Within.refl m
  | noEchoInput dst => exact L.noEchoInput (hwritten rfl) m
  | displayString row col clear t => exact L.displayString rfl row col clear t m
  | displayClear => exact L.draw rfl _ m
  | displayPartClear row col len quarter => exact L.draw rfl _ m
  | displayRegister row col reg start len clear quarter reverse =>
    exact L.displayRegister rfl row col clear _ m
  | upload name kind line stop => exact L.upload hsystem reply name m
  | download kind line stop =>
    exact L.download hsystem (fun f hf => List.mem_append_right _ (List.mem_map_of_mem hf)) m
  | wait ms => exact L.bind (L.sleep _) (fun _ => L.pure _) m

end Act
end Machine
end Handheld
