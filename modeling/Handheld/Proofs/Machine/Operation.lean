import Handheld.Machine.Step

namespace Handheld.Machine.Act

/-- What an action may do besides reading the machine, taking keys, sleeping and beeping. -/
structure Permit where
  /-- The registers that it may store into for the program. -/
  stores : Register → Prop
  /-- It may tell its outcome in the registers of the terminal. -/
  reports : Prop
  /-- The names of the files that it may put or delete. -/
  files : Text → Prop
  /-- It may show something on the screen. -/
  draws : Prop

/-- The property is one of the elementary actions that are permitted, and of sequences of actions that
have it. What is read is neither the program nor the place in it. -/
structure Laws (p : Permit) (P : ∀ {α : Type}, Act α → Prop) : Prop where
  pure : ∀ {α : Type} (a : α), P (Pure.pure a : Act α)
  bind : ∀ {α β : Type} {act : Act α} {next : α → Act β}, P act → (∀ a, P (next a)) →
    P (act >>= next)
  waiting : ∀ {α : Type}, P (Act.stop .waiting : Act α)
  checked : ∀ {α : Type} (r : Except Overflow α), P (Act.checked r)
  read : ∀ {α : Type} (g : RegisterStore → FileArea → Screen → KeyQueue → α),
    P (Act.read fun m => g m.registers m.files m.screen m.keys)
  note : ∀ n : Note, P (Act.note n)
  keys : ∀ keys : KeyQueue, P (Act.update fun m => { m with keys })
  slept : ∀ (keys : KeyQueue) (ms : Nat),
    P (Act.update fun m =>
      { m with keys, journal := { m.journal with slept := m.journal.slept + ms } })
  set : ∀ {r : Register}, p.stores r → ∀ v, P (Act.set r v)
  reset : ∀ {r : Register}, p.stores r → P (Act.reset r)
  setSystem : p.reports → ∀ r ∈ [Register.rslt, .endky, .numbr], ∀ v, P (Act.setSystem r v)
  putFile : ∀ {name : Text}, p.files name → ∀ f, P (Act.putFile name f)
  delete : ∀ {name : Text}, p.files name →
    P (Act.update fun m => { m with files := m.files.delete name })
  beep : P (Act.draw .beep)
  draw : p.draws → ∀ d, P (Act.draw d)

namespace Laws

variable {p : Permit} {P : ∀ {α : Type}, Act α → Prop} (L : Laws p P)

include L

theorem notes (ns : List Note) : P (Act.notes ns) := by
  induction ns with
  | nil => exact L.pure ()
  | cons n rest ih => exact L.bind (L.note n) fun _ => ih

theorem putFiles {fs : List TransferFile} (hfs : ∀ f ∈ fs, p.files f.name) : P (Act.putFiles fs) := by
  induction fs with
  | nil => exact L.pure _
  | cons f rest ih =>
    obtain ⟨hf, hrest⟩ := List.forall_mem_cons.mp hfs
    exact L.bind (L.putFile hf _) fun _ => ih hrest

section Input

theorem adopt (keys : KeyQueue) : P (Act.adopt keys) := by
  refine L.bind (L.read fun _ _ _ keys => keys) fun old => L.bind (L.keys keys) fun _ => ?_
  split
  · exact L.note _
  · exact L.pure ()

theorem nextCode : P Act.nextCode := by
  refine L.bind (L.read fun _ _ _ keys => keys) fun keys => L.bind (L.adopt _) fun _ => ?_
  split
  · exact L.pure _
  · exact L.pure _
  · exact L.waiting

theorem sleep (ms : Nat) : P (Act.sleep ms) :=
  L.bind (L.read fun _ _ _ keys => keys) fun keys => L.bind (L.slept (keys.sleep ms).2 ms) fun _ =>
    L.pure _

theorem knownKeyAmong (beep : Bool) (n : Nat) : P (Act.knownKeyAmong beep n) := by
  induction n with
  | zero => exact L.waiting
  | succ n ih =>
    refine L.bind L.nextCode fun code => ?_
    cases code with
    | none => exact L.pure _
    | some code =>
      dsimp only
      cases Key.ofCode32? code with
      | some k => exact L.pure _
      | none =>
        refine L.bind (L.note _) fun _ => ?_
        cases beep with
        | false => exact ih
        | true => exact L.bind L.beep fun _ => ih

theorem knownKey (beep : Bool) : P (Act.knownKey beep) :=
  L.bind (L.read fun _ _ _ keys => keys) fun _ => L.knownKeyAmong beep _

end Input

section Reading

theorem textOf (r : Register) : P (Act.textOf r) := L.read fun registers _ _ _ => registers.text r

theorem valueOf (o : Operand) : P (Act.valueOf o) := by
  cases o with
  | register r => exact L.read fun registers _ _ _ => registers.get r
  | key k => exact L.pure _
  | value v => exact L.pure _

theorem nameOf (f : FileName) : P (Act.nameOf f) := by
  cases f with
  | register r => exact L.textOf r
  | literal name => exact L.pure _

theorem file? (name : Text) : P (Act.file? name) := L.read fun _ files _ _ => files.get? name

theorem available (s : Slice) : P (Act.available s) := L.bind (L.textOf _) fun _ => L.pure _

theorem availableAll (ss : List Slice) : P (Act.availableAll ss) := by
  induction ss with
  | nil => exact L.pure _
  | cons s rest ih => exact L.bind (L.available s) fun _ => L.bind ih fun _ => L.pure _

theorem padded (s : Slice) : P (Act.padded s) :=
  L.bind (L.textOf _) fun _ => L.bind (L.checked _) fun _ => L.pure _

theorem joinField (key : Text) (s : Slice) : P (Act.joinField key s) :=
  L.bind (L.textOf _) fun _ => L.bind (L.checked _) fun _ => L.checked _

theorem searchKey (keys : List Slice) : P (Act.searchKey keys) := by
  rw [Act.searchKey]
  generalize Text.empty = key
  induction keys generalizing key with
  | nil => exact L.pure _
  | cons s rest ih => exact L.bind (L.joinField key s) fun key => ih key

end Reading

section Stores

variable {dst : Register} (hdst : p.stores dst)

include hdst

theorem overwrite (pos : Nat) (piece : Text) : P (Act.overwrite dst pos piece) :=
  L.bind (L.textOf dst) fun _ => L.bind (L.checked _) fun _ => L.set hdst _

theorem stringConcat (pos : Nat) (first : Slice) (second : Option Slice) :
    P (Act.stringConcat dst pos first second) :=
  L.bind (L.availableAll _) fun _ => L.bind (L.textOf dst) fun _ => L.bind (L.checked _) fun _ =>
    L.bind (L.checked _) fun _ => L.set hdst _

theorem stringShift (size : Nat) (align : Align) (fill : UInt8) :
    P (Act.stringShift dst size align fill) :=
  L.bind (L.checked _) fun _ => L.bind (L.textOf dst) fun _ => L.set hdst _

theorem noEchoInput : P (Act.noEchoInput dst) := by
  refine L.bind (L.knownKey true) fun k => ?_
  cases k with
  | none => exact L.pure _
  | some k => exact L.set hdst _

end Stores

section Display

variable (hdraws : p.draws)

include hdraws

theorem drawAll (ds : List Screen.Drawing) : P (Act.drawAll ds) := by
  induction ds with
  | nil => exact L.pure ()
  | cons d rest ih => exact L.bind (L.draw hdraws d) fun _ => ih

theorem showCursor (f : InputField) (typed : List UInt8) : P (Act.showCursor f typed) := by
  unfold Act.showCursor
  split
  · exact L.bind (L.checked _) fun _ => L.draw hdraws _
  · exact L.pure _

theorem clearBefore (row col clear : Nat) : P (Act.clearBefore row col clear) := by
  unfold Act.clearBefore
  split
  · exact L.draw hdraws _
  · exact L.pure _

theorem displayString (row col clear : Nat) (t : Text) : P (Act.displayString row col clear t) :=
  L.bind (L.clearBefore hdraws row col clear) fun _ => L.draw hdraws _

theorem displayRegister (row col clear : Nat) (s : Slice) : P (Act.displayRegister row col clear s) :=
  L.bind (L.clearBefore hdraws row col clear) fun _ => L.bind (L.padded s) fun _ => L.draw hdraws _

theorem drawCentered (row : Nat) (t : Text) : P (Act.drawCentered row t) :=
  L.bind (L.read fun _ _ screen _ => screen) fun _ => L.draw hdraws _

theorem showTitle (t : Title) : P (Act.showTitle t) := by
  unfold Act.showTitle
  split
  · refine L.bind (L.draw hdraws _) fun _ => L.bind (L.drawCentered hdraws _ _) fun _ => ?_
    refine L.bind (L.drawCentered hdraws _ _) fun _ => ?_
    split
    · exact L.bind (L.sleep _) fun _ => L.pure _
    · exact L.bind L.nextCode fun _ => L.pure _
    · exact L.pure _
  · exact L.pure _

end Display

section Outcome

variable (hreports : p.reports)

include hreports

theorem status (code : Int32) : P (Act.status code) := L.setSystem hreports _ (by simp) _

theorem statusIf (ok : Bool) : P (Act.statusIf ok) := L.status hreports _

theorem fileExists (name : FileName) : P (Act.fileExists name) :=
  L.bind (L.nameOf name) fun n => L.bind (L.file? n) fun _ => L.status hreports _

theorem upload (reply : LinkReply) (name : FileName) : P (Act.upload reply name) := by
  refine L.bind (L.nameOf name) fun n => L.bind (L.file? n) fun f => ?_
  cases f with
  | none => exact L.status hreports _
  | some f => exact L.bind (L.notes _) fun _ => L.statusIf hreports _

theorem download {reply : LinkReply} (hfs : ∀ f ∈ reply.transfer.files, p.files f.name) :
    P (Act.download reply) :=
  L.bind (L.notes _) fun _ => L.bind (L.putFiles hfs) fun _ => L.statusIf hreports _

section Destination

variable {dst : Register} (hdst : p.stores dst)

include hdst

theorem numberToString (src : Register) : P (Act.numberToString dst src) :=
  L.bind (L.textOf src) fun _ => L.bind (L.set hdst _) fun _ => L.status hreports _

theorem recordCount (name : FileName) (len : Nat) : P (Act.recordCount name len dst) := by
  refine L.bind (L.nameOf name) fun n => L.bind (L.file? n) fun f => ?_
  cases f with
  | none => exact L.status hreports _
  | some f =>
    show P (if len = 0 then _ else _)
    split
    · exact L.status hreports _
    · exact L.bind (L.set hdst _) fun _ => L.status hreports _

end Destination

section Typing

variable (hdraws : p.draws)

include hdraws

theorem endSpecial (k : Key) : P (Act.endSpecial k) := by
  refine L.bind (L.setSystem hreports _ (by simp) _) fun _ => ?_
  refine L.bind (L.setSystem hreports _ (by simp) _) fun _ => ?_
  exact L.bind (L.setSystem hreports _ (by simp) _) fun _ => L.draw hdraws _

variable {f : InputField} (hdst : p.stores f.dst)

include hdst

theorem commitLine (typed : List UInt8) : P (Act.commitLine f typed) := by
  refine L.bind (L.set hdst _) fun _ => L.bind (L.setSystem hreports _ (by simp) _) fun _ => ?_
  refine L.bind (L.setSystem hreports _ (by simp) _) fun _ => ?_
  exact L.bind (L.setSystem hreports _ (by simp) _) fun _ => L.draw hdraws _

/-- However the typing ends: with Enter, with a special key, in a full field, or with the input. -/
theorem typeLine (n : Nat) (typed : List UInt8) : P (Act.typeLine f n typed) := by
  have habandon : P Act.abandon := L.draw hdraws _
  induction n generalizing typed with
  | zero => exact L.waiting
  | succ n ih =>
    refine L.bind (L.showCursor hdraws f typed) fun _ => L.bind (L.knownKey _) fun k => ?_
    cases k with
    | none => exact habandon
    | some k =>
      refine L.bind (L.checked _) fun r => ?_
      cases r with
      | special => exact L.endSpecial hreports hdraws k
      | commit => exact L.commitLine hreports hdraws hdst typed
      | edit typed drawings => exact L.bind (L.drawAll hdraws drawings) fun _ => ih typed
      | type typed drawings =>
        refine L.bind (L.drawAll hdraws drawings) fun _ => ?_
        split
        · exact ih typed
        · split
          · exact L.commitLine hreports hdraws hdst typed
          · refine L.bind (L.sleep _) fun done => ?_
            cases done with
            | false => exact habandon
            | true => exact L.commitLine hreports hdraws hdst typed
          · exact ih typed

theorem lineInput : P (Act.lineInput f) :=
  L.bind (L.read fun _ _ _ keys => keys) fun _ => L.typeLine hreports hdraws hdst _ _

end Typing

end Outcome

section Files

-- The file that an operation names may be any one: the name can stand in a register.
variable (hfiles : ∀ name, p.files name)

include hfiles

theorem recordWrite (name : FileName) (len : Nat) (src : Register) (replacing crlf : Bool) :
    P (Act.recordWrite name len src replacing crlf) :=
  L.bind (L.nameOf name) fun n => L.bind (L.read fun _ files _ _ => files.ensure n) fun _ =>
    L.bind (L.checked _) fun _ => L.bind (L.textOf src) fun _ => L.putFile (hfiles n) _

variable (hreports : p.reports)

include hreports

theorem fileDelete (name : FileName) : P (Act.fileDelete name) := by
  refine L.bind (L.nameOf name) fun n => L.bind (L.file? n) fun f => ?_
  cases f with
  | none => exact L.status hreports _
  | some f => exact L.bind (L.delete (hfiles n)) fun _ => L.status hreports _

variable {dst : Register} (hdst : p.stores dst)

include hdst

theorem recordRead (name : FileName) (len : Nat) (pos : FilePosition) :
    P (Act.recordRead name len dst pos) := by
  refine L.bind (L.nameOf name) fun n => L.bind (L.file? n) fun f => ?_
  cases f with
  | none => exact L.status hreports _
  | some f =>
    refine L.bind (L.checked _) fun moved => L.bind (L.putFile (hfiles n) _) fun _ => ?_
    refine L.bind (L.checked _) fun r => ?_
    cases r with
    | none => exact L.status hreports _
    | some record => exact L.bind (L.set hdst _) fun _ => L.statusIf hreports _

theorem masterSearch (name : FileName) (len : Nat) (keys : List Slice) :
    P (Act.masterSearch name len keys dst) := by
  refine L.bind (L.nameOf name) fun n => L.bind (L.searchKey keys) fun key => L.bind (L.file? n) fun f => ?_
  cases f with
  | none => exact L.bind (L.reset hdst) fun _ => L.status hreports _
  | some f =>
    dsimp only
    split
    · exact L.bind (L.putFile (hfiles n) _) fun _ => L.bind (L.set hdst _) fun _ => L.status hreports _
    · exact L.bind (L.reset hdst) fun _ => L.status hreports _

end Files

/-- An operation stores into the register that it declares only; the outcome of an operation, files and
the screen have to be permitted as they are. -/
theorem execute (hreports : p.reports) (hfiles : ∀ name, p.files name) (hdraws : p.draws)
    (reply : LinkReply) {o : Operation} (hstores : ∀ r, o.written = some r → p.stores r) :
    P (Act.execute reply o) := by
  cases o with
  | assign dst src => exact L.bind (L.valueOf src) fun _ => L.set (hstores dst rfl) _
  | stringConcat dst pos first second => exact L.stringConcat (hstores dst rfl) pos first second
  | extractCopy dst pos src => exact L.bind (L.padded src) fun _ => L.overwrite (hstores dst rfl) _ _
  | stringShift reg size align fill => exact L.stringShift (hstores reg rfl) size align fill
  | numberToString dst src => exact L.numberToString hreports (hstores dst rfl) src
  | variableInit reg => exact L.reset (hstores reg rfl)
  | recordWrite file len src replacing crlf => exact L.recordWrite hfiles file len src replacing crlf
  | recordRead file len dst pos => exact L.recordRead hfiles hreports (hstores dst rfl) file len pos
  | recordCount file len dst => exact L.recordCount hreports (hstores dst rfl) file len
  | fileDelete file => exact L.fileDelete hfiles hreports file
  | fileExists file => exact L.fileExists hreports file
  | masterSearch file len key key2 _ _ result =>
    exact L.masterSearch hfiles hreports (hstores result rfl) file len _
  | echoedInput row col dst => exact L.lineInput hreports hdraws (hstores dst rfl)
  | barcodeInput row col dst => exact L.lineInput hreports hdraws (hstores dst rfl)
  | barcodeSetup => exact L.pure _
  | noEchoInput dst => exact L.noEchoInput (hstores dst rfl)
  | displayString row col clear t => exact L.displayString hdraws row col clear t
  | displayClear => exact L.draw hdraws .clearAll
  | displayPartClear row col len _ => exact L.draw hdraws (.clearRegion row col len)
  | displayRegister => exact L.displayRegister hdraws _ _ _ _
  | upload file => exact L.upload hreports reply file
  | download => exact L.download hreports fun f _ => hfiles f.name
  | wait ms => exact L.bind (L.sleep _) fun _ => L.pure _

end Laws
end Handheld.Machine.Act
