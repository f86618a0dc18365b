import Handheld.Machine.Step
import Handheld.Proofs.Keys.Delivery
import Handheld.Proofs.Machine.Range
import Handheld.Proofs.Text.Splice

namespace Handheld

namespace KeyQueue

/-- Reading a code takes it from those that have not been read. -/
theorem unread_next (q : KeyQueue) :
    match q.next with
    | (.key _, q') => q'.unread.length + 1 = q.unread.length
    | (_, q') => q'.unread.length = q.unread.length := by
  obtain ⟨channel, pending, cancelled, keypads, listening⟩ := q
  cases cancelled with
  | true => rfl
  | false =>
    cases pending with
    | cons code rest => simp [next, unread]
    | nil =>
      cases channel with
      | nil => by_cases hk : keypads = 0 <;> simp [next, hk, unread]
      | cons e rest => cases e <;> simp [next, unread, codes]

theorem unread_receive (q : KeyQueue) (n : Nat) : (q.receive n).2.unread = q.unread := by
  induction n generalizing q with
  | zero => rfl
  | succ n ih =>
    obtain ⟨channel, pending, cancelled, keypads, listening⟩ := q
    cases channel with
    | nil => rfl
    | cons e rest =>
      cases e with
      | key code =>
        have hrest := ih ⟨rest, pending ++ [code], cancelled, keypads, listening⟩
        simpa [receive, unread, codes] using hrest
      | terminate => rfl

theorem unread_sleep (q : KeyQueue) (ms : Nat) : (q.sleep ms).2.unread = q.unread := by
  unfold sleep sleepThrough
  cases q.cancelled with
  | true => rfl
  | false => exact q.unread_receive _

theorem unread_terminate (q : KeyQueue) : q.terminate.unread = q.unread := by
  unfold terminate unread
  cases q.listening <;> simp [codes]

theorem unread_exhausted (q : KeyQueue) : q.exhausted.2.unread = q.unread := by
  obtain ⟨channel, pending, cancelled, keypads, listening⟩ := q
  cases cancelled with
  | true => rfl
  | false =>
    cases pending with
    | cons code rest => rfl
    | nil =>
      cases channel with
      | nil => by_cases hk : keypads = 0 <;> simp [exhausted, hk, unread]
      | cons e rest => cases e <;> simp [exhausted, unread, codes]

end KeyQueue

namespace InputField

variable {f : InputField} {typed : List UInt8}

/-- The field lies where columns and lengths of three digits can put it. -/
structure Fits (f : InputField) : Prop where
  col : f.col < Decimal.power 3
  columns : f.columns < Decimal.power 3

/-- What is left in the field fits it, and is shown with one beep at most. -/
def Response.Fits (f : InputField) : Response → Prop
  | .special | .commit => True
  | .edit typed ds | .type typed ds =>
    typed.length ≤ f.columns ∧ (ds.map Screen.Drawing.beeps).sum ≤ 1

theorem check_ok {n : Nat} (h : n < 10000) : Word.check n = .ok n :=
  Word.check_eq_ok_iff.mpr ⟨Nat.lt_trans h (by decide), rfl⟩

theorem Fits.respond (hf : f.Fits) (ht : typed.length ≤ f.columns) (k : Key) :
    ∃ r, f.respond typed k = .ok r ∧ r.Fits f := by
  obtain ⟨hcol, hcolumns⟩ := hf
  change f.col < 1000 at hcol
  change f.columns < 1000 at hcolumns
  have hlast : typed.dropLast.length ≤ typed.length := typed.dropLast_sublist.length_le
  unfold InputField.respond
  split
  · exact ⟨_, rfl, trivial⟩
  · split
    · exact ⟨_, rfl, trivial⟩
    · split
      · exact ⟨_, rfl, ht, by simp⟩
      · rw [check_ok (by omega)]
        exact ⟨_, rfl, by omega, by simp [Screen.Drawing.beeps]⟩
    · split
      · exact ⟨_, rfl, ht, by simp⟩
      · exact ⟨_, rfl, Nat.zero_le _, by simp [Screen.Drawing.beeps]⟩
    · split
      · next hroom =>
        have hlen : (typed ++ [keyByte k]).length ≤ f.columns := by
          rw [List.length_append, List.length_singleton]
          exact hroom.1
        split
        · rw [check_ok (by omega)]
          exact ⟨_, rfl, hlen, by simp [Screen.Drawing.beeps]⟩
        · exact ⟨_, rfl, hlen, by simp⟩
      · exact ⟨_, rfl, ht, by simp [Screen.Drawing.beeps]⟩

theorem Fits.cursorColumn (hf : f.Fits) (typed : List UInt8) :
    f.cursorColumn typed = .ok (f.col + min typed.length (f.columns - 1)) := by
  obtain ⟨hcol, hcolumns⟩ := hf
  change f.col < 1000 at hcol
  change f.columns < 1000 at hcolumns
  exact check_ok (by omega)

end InputField

/-- The link hands over no file that is longer than a text can be. -/
def LinkReply.Fits (reply : LinkReply) : Prop :=
  ∀ f ∈ reply.transfer.files, f.content.length < Text.sizeLimit

namespace Machine

/-- The machine runs `q`, its files and its screen are as they have to be, all drawings were on the
screen, and it has beeped so rarely that a beep for every code that has not been read and `spare` more
make `n` at most. -/
structure Sane (q : Program) (n spare : Nat) (m : Machine) : Prop where
  program : m.program = q
  files : ∀ name f, m.files.get? name = some f → f.Whole
  screen : m.screen.Exact
  damage : ∀ d ∈ m.journal.damage, d.Within m.screen
  beeps : m.screen.beeps + m.keys.unread.length + spare ≤ n

variable {q : Program} {n spare : Nat} {m : Machine}

theorem Sane.mono (h : m.Sane q n spare) {k : Nat} (hk : k ≤ spare) : m.Sane q n k := by
  obtain ⟨hp, hf, hs, hd, hb⟩ := h
  exact ⟨hp, hf, hs, hd, by omega⟩

/-- What keeps program, files, screen, damage and the codes keeps a machine sane. -/
theorem Sane.congr (h : m.Sane q n spare) {m' : Machine} (hp : m'.program = m.program)
    (hf : m'.files = m.files) (hs : m'.screen = m.screen)
    (hd : m'.journal.damage = m.journal.damage) (hk : m'.keys.unread.length = m.keys.unread.length) :
    m'.Sane q n spare := by
  obtain ⟨program, files, screen, damage, beeps⟩ := h
  exact ⟨hp.trans program, hf ▸ files, hs ▸ screen, hd ▸ hs ▸ damage, by rw [hs, hk]; exact beeps⟩

theorem Sane.put (h : m.Sane q n spare) (name : Text) {f : RecordFile} (hf : f.Whole) :
    ({ m with files := m.files.put name f } : Machine).Sane q n spare := by
  refine ⟨h.program, fun other g hg => ?_, h.screen, h.damage, h.beeps⟩
  rw [FileArea.get?_put] at hg
  split at hg
  · exact Option.some.inj hg ▸ hf
  · exact h.files other g hg

theorem Sane.delete (h : m.Sane q n spare) (name : Text) :
    ({ m with files := m.files.delete name } : Machine).Sane q n spare := by
  refine ⟨h.program, fun other g hg => ?_, h.screen, h.damage, h.beeps⟩
  rw [FileArea.get?_delete] at hg
  split at hg
  · cases hg
  · exact h.files other g hg

theorem Sane.ensure (h : m.Sane q n spare) (name : Text) : (m.files.ensure name).Whole := by
  unfold FileArea.ensure
  cases hf : m.files.get? name with
  | none => exact RecordFile.whole_fresh
  | some f => exact h.files name f hf

/-- A drawing spends its beeps. -/
theorem Sane.draw {d : Screen.Drawing} (h : m.Sane q n (spare + d.beeps)) :
    ({ m with
      screen := m.screen.apply d
      journal := { m.journal with damage := (m.screen.damage d).reverse ++ m.journal.damage } } :
      Machine).Sane q n spare := by
  obtain ⟨hcolumns, hrows⟩ := m.screen.size_apply d
  refine ⟨h.program, h.files, h.screen.apply d, fun e he => ?_, ?_⟩
  · have hin : e.Within m.screen := by
      rcases List.mem_append.mp he with he | he
      · exact Screen.damage_within (List.mem_reverse.mp he)
      · exact h.damage e he
    exact ⟨hrows ▸ hin.1, hcolumns ▸ hin.2⟩
  · have hbeeps := h.beeps
    have happly := m.screen.beeps_apply d
    dsimp only
    omega

theorem Sane.watched (h : m.Sane q n spare) : (Act.watched m).Sane q n spare := by
  unfold Act.watched
  split
  · exact h
  · exact h.congr rfl rfl rfl rfl (congrArg List.length m.keys.unread_terminate)
  · exact h.congr rfl rfl rfl rfl rfl

namespace Act

variable {α β : Type}

/-- A result that is no overflow, of a machine that has been left sane. -/
def Post (q : Program) (n : Nat) (spare : α → Nat) (P : α → Prop) : Except Stop α × Machine → Prop
  | (.ok a, m) => P a ∧ m.Sane q n (spare a)
  | (.error s, m) => s ≠ .overflow ∧ m.Sane q n 0

/-- The action never overflows on a sane machine and leaves it sane. -/
def Safe (q : Program) (n k : Nat) (act : Act α) (spare : α → Nat) (P : α → Prop) : Prop :=
  ∀ m : Machine, m.Sane q n k → Post q n spare P (act m)

/-- The action also saves its spare beeps. -/
def Keeps (q : Program) (n k : Nat) (act : Act α) (P : α → Prop) : Prop := Safe q n k act (fun _ => k) P

variable {k : Nat} {act : Act α} {next : α → Act β} {s : α → Nat} {s' : β → Nat} {P : α → Prop}
  {Q : β → Prop}

namespace Safe

theorem pure {a : α} (h : P a) (hs : s a ≤ k) : Safe q n k (Pure.pure a) s P :=
  fun _ hm => ⟨h, hm.mono hs⟩

theorem bind (h : Safe q n k act s P) (hn : ∀ a, P a → Safe q n (s a) (next a) s' Q) :
    Safe q n k (act >>= next) s' Q := by
  intro m hm
  have hact := h m hm
  rw [run_bind]
  rcases hr : act m with ⟨e | a, m'⟩
  · rw [hr] at hact
    exact hact
  · rw [hr] at hact
    exact hn a hact.1 m' hact.2

theorem weaken {t : α → Nat} (h : Safe q n k act s P) (ht : ∀ a, t a ≤ s a) : Safe q n k act t P := by
  intro m hm
  have hact := h m hm
  rcases hr : act m with ⟨e | a, m'⟩
  · rw [hr] at hact
    exact hact
  · rw [hr] at hact
    exact ⟨hact.1, hact.2.mono (ht a)⟩

/-- More spare beeps than needed. -/
theorem of_le {j : Nat} (h : Safe q n k act s P) (hj : k ≤ j) : Safe q n j act s P :=
  fun m hm => h m (hm.mono hj)

theorem stop {e : Stop} (h : e ≠ .overflow) : Safe q n k (Act.stop e) s P :=
  fun _ hm => ⟨h, hm.mono (Nat.zero_le k)⟩

/-- A drawing, which may be a beep. -/
theorem draw (d : Screen.Drawing) : Safe q n (k + d.beeps) (Act.draw d) (fun _ => k) fun _ => True := by
  intro m hm
  cases d with
  | text r c t => exact ⟨trivial, hm.draw.watched⟩
  | _ => exact ⟨trivial, hm.draw⟩

end Safe

namespace Keeps

theorem pure {a : α} (h : P a) : Keeps q n k (Pure.pure a) P := Safe.pure h (Nat.le_refl k)

theorem bind (h : Keeps q n k act P) (hn : ∀ a, P a → Keeps q n k (next a) Q) :
    Keeps q n k (act >>= next) Q := Safe.bind h hn

theorem read {g : Machine → α} (h : ∀ m : Machine, m.Sane q n k → P (g m)) :
    Keeps q n k (Act.read g) P := fun m hm => ⟨h m hm, hm⟩

/-- Whatever is read. -/
theorem readAny (g : Machine → α) : Keeps q n k (Act.read g) fun _ => True := read fun _ _ => trivial

theorem update {g : Machine → Machine} (h : ∀ m : Machine, m.Sane q n k → (g m).Sane q n k) :
    Keeps q n k (Act.update g) fun _ => True := fun m hm => ⟨trivial, h m hm⟩

theorem checked {r : Except Overflow α} (h : ∃ a, r = .ok a ∧ P a) : Keeps q n k (Act.checked r) P := by
  obtain ⟨a, rfl, ha⟩ := h
  exact pure ha

theorem note (e : Note) : Keeps q n k (Act.note e) fun _ => True :=
  update fun _ hm => hm.congr rfl rfl rfl rfl rfl

theorem notes (es : List Note) : Keeps q n k (Act.notes es) fun _ => True := by
  induction es with
  | nil => exact pure trivial
  | cons e rest ih => exact bind (note e) fun _ _ => ih

theorem lift (r : Except Fault α) : Keeps q n k (Act.lift r) fun _ => True := by
  cases r with
  | ok a => exact pure trivial
  | error f => exact Safe.stop (by simp)

theorem change (g : RegisterStore → Except Fault RegisterStore) :
    Keeps q n k (Act.change g) fun _ => True :=
  bind (readAny _) fun s _ => bind (lift (g s)) fun _ _ =>
    update fun _ hm => hm.congr rfl rfl rfl rfl rfl

theorem set (r : Register) (v : Value) : Keeps q n k (Act.set r v) fun _ => True := change _

theorem reset (r : Register) : Keeps q n k (Act.reset r) fun _ => True := change _

theorem setSystem (r : Register) (v : Value) : Keeps q n k (Act.setSystem r v) fun _ => True :=
  change _

theorem status (code : Int32) : Keeps q n k (Act.status code) fun _ => True := setSystem _ _

theorem statusIf (ok : Bool) : Keeps q n k (Act.statusIf ok) fun _ => True := status _

theorem putFile (name : Text) {f : RecordFile} (h : f.Whole) :
    Keeps q n k (Act.putFile name f) fun _ => True := update fun _ hm => hm.put name h

/-- A drawing that is no beep. -/
theorem draw {d : Screen.Drawing} (h : d.beeps = 0) : Keeps q n k (Act.draw d) fun _ => True := by
  have hdraw := Safe.draw (q := q) (n := n) (k := k) d
  rwa [h] at hdraw

theorem textOf (r : Register) : Keeps q n k (Act.textOf r) fun _ => True := readAny _

theorem valueOf (o : Operand) : Keeps q n k (Act.valueOf o) fun _ => True := by
  cases o with
  | register r => exact readAny _
  | key c => exact pure trivial
  | value v => exact pure trivial

theorem nameOf (f : FileName) : Keeps q n k (Act.nameOf f) fun _ => True := by
  cases f with
  | register r => exact textOf r
  | literal name => exact pure trivial

theorem file? (name : Text) : Keeps q n k (Act.file? name) fun f => ∀ g ∈ f, g.Whole :=
  read fun _ hm g hg => hm.files name g hg

theorem available (s : Slice) : Keeps q n k (Act.available s) fun t => t.length ≤ s.len :=
  bind (textOf s.reg) fun t _ => pure (t.slice_min s.pos s.len ▸ Screen.length_slice_le t s.pos s.len)

/-- A text that is short enough to exist. -/
theorem checkSize {len : Nat} (h : len < 10000) :
    Keeps q n k (Act.checked (Text.checkSize len)) fun r => r = len :=
  checked ⟨len, Text.checkSize_eq_ok_iff.mpr ⟨Nat.lt_trans h (by decide), rfl⟩, rfl⟩

theorem availableAll {ss : List Slice} (h : ∀ s ∈ ss, s.len < 1000) :
    Keeps q n k (Act.availableAll ss) fun ts => (Text.join ts).length ≤ ss.length * 1000 := by
  induction ss with
  | nil => exact pure (Nat.le_refl 0)
  | cons s rest ih =>
    obtain ⟨hs, hrest⟩ := List.forall_mem_cons.mp h
    refine bind (available s) fun t ht => bind (ih hrest) fun ts hts => pure ?_
    rw [Text.length_join_cons, List.length_cons]
    omega

/-- A text that there is. -/
theorem checkedText {r : Except Overflow Text} {t : Text} (h : r = .ok t) :
    Keeps q n k (Act.checked r) fun u => u = t := checked ⟨t, h, rfl⟩

theorem forced (t : Text) {size : Nat} (h : size < 10000) :
    Keeps q n k (Act.checked (t.forced size)) fun u => u.length = size :=
  checked ⟨_, Text.forced_eq (Nat.lt_trans h (by decide)), t.length_forceSize size Text.fill⟩

theorem padded {s : Slice} (h : Line.SliceBounded s) :
    Keeps q n k (Act.padded s) fun t => t.length ≤ s.len := by
  have hpos : s.pos < 1000 := h s.pos (by simp [Slice.numbers])
  have hlen : s.len < 1000 := h s.len (by simp [Slice.numbers])
  exact bind (textOf s.reg) fun t _ => bind (forced t (by omega)) fun u _ =>
    pure (Screen.length_slice_le u s.pos s.len)

theorem overwrite (dst : Register) {pos : Nat} {piece : Text} (h : pos + piece.length < 10000) :
    Keeps q n k (Act.overwrite dst pos piece) fun _ => True := by
  have hlimit : pos + piece.length < Text.sizeLimit := Nat.lt_trans h (by decide)
  exact bind (textOf dst) fun t _ => bind (checkedText (Text.overwrite_eq hlimit)) fun _ _ => set dst _

theorem stringConcat (dst : Register) {pos : Nat} {first : Slice} {second : Option Slice}
    (hpos : pos < 1000) (hfirst : first.len < 1000) (hsecond : ∀ s ∈ second, s.len < 1000) :
    Keeps q n k (Act.stringConcat dst pos first second) fun _ => True := by
  have hall : ∀ s ∈ first :: second.toList, s.len < 1000 := by
    intro s hs
    rcases List.mem_cons.mp hs with rfl | hs
    · exact hfirst
    · exact hsecond s (Option.mem_toList.mp hs)
  have hcount : (first :: second.toList).length ≤ 2 := by
    cases second <;> simp
  refine bind (availableAll hall) fun pieces hpieces => bind (textOf dst) fun t _ => ?_
  have hlimit : pos + (Text.join pieces).length < Text.sizeLimit := by
    have hshort : pos + (Text.join pieces).length < 10000 := by omega
    exact Nat.lt_trans hshort (by decide)
  refine bind (checkedText (t.grow_pieces hlimit)) fun u hu => ?_
  subst hu
  exact bind (checkedText (Text.overwriteEach_grown t pos pieces hlimit)) fun _ _ => set dst _

theorem stringShift (reg : Register) {size : Nat} (h : size < 1000) (align : Align) (fill : UInt8) :
    Keeps q n k (Act.stringShift reg size align fill) fun _ => True :=
  bind (checkSize (by omega)) fun _ _ => bind (textOf reg) fun _ _ => set reg _

theorem numberToString (dst src : Register) :
    Keeps q n k (Act.numberToString dst src) fun _ => True :=
  bind (textOf src) fun _ _ => bind (set dst _) fun _ _ => status _

theorem recordRead (name : FileName) {len : Nat} (h : len < 1000) (dst : Register)
    (pos : FilePosition) : Keeps q n k (Act.recordRead name len dst pos) fun _ => True := by
  refine bind (nameOf name) fun name _ => bind (file? name) fun f hf => ?_
  cases f with
  | none => exact status _
  | some f =>
    have hmoved := (hf f rfl).moved h pos
    refine bind (checked hmoved) fun moved hw => bind (putFile name hw) fun _ _ => ?_
    refine bind (checked (moved.2.read_ok h)) fun record _ => ?_
    cases record with
    | none => exact status _
    | some record => exact bind (set dst _) fun _ _ => statusIf _

theorem recordCount (name : FileName) (len : Nat) (dst : Register) :
    Keeps q n k (Act.recordCount name len dst) fun _ => True := by
  refine bind (nameOf name) fun name _ => bind (file? name) fun f _ => ?_
  cases f with
  | none => exact status _
  | some f =>
    show Keeps q n k (if len = 0 then _ else _) _
    split
    · exact status _
    · exact bind (set dst _) fun _ _ => status _

theorem fileDelete (name : FileName) : Keeps q n k (Act.fileDelete name) fun _ => True := by
  refine bind (nameOf name) fun name _ => bind (file? name) fun f _ => ?_
  cases f with
  | none => exact status _
  | some f => exact bind (update fun _ hm => hm.delete name) fun _ _ => status _

theorem fileExists (name : FileName) : Keeps q n k (Act.fileExists name) fun _ => True :=
  bind (nameOf name) fun name _ => bind (file? name) fun _ _ => status _

theorem joinField {key : Text} {s : Slice} {size : Nat} (hkey : key.length ≤ size)
    (h : size + s.len < 10000) :
    Keeps q n k (Act.joinField key s) fun key => key.length ≤ size + s.len := by
  refine bind (textOf s.reg) fun t _ => bind (forced t (by omega)) fun field hfield => ?_
  have hsum : (key ++ field).length = key.length + field.length := List.length_append
  have hlimit : key.length + field.length < Text.sizeLimit := by
    have hshort : key.length + field.length < 10000 := by omega
    exact Nat.lt_trans hshort (by decide)
  exact checked ⟨_, Text.joined_eq hlimit, by omega⟩

theorem joinFields {keys : List Slice} {key : Text} {size : Nat} (hkey : key.length ≤ size)
    (h : size + (keys.map Slice.len).sum < 10000) :
    Keeps q n k (keys.foldlM Act.joinField key) fun _ => True := by
  induction keys generalizing key size with
  | nil => exact pure trivial
  | cons s rest ih =>
    rw [List.map_cons, List.sum_cons] at h
    rw [List.foldlM_cons]
    exact bind (joinField hkey (by omega)) fun key' hkey' => ih hkey' (by omega)

theorem searchKey {keys : List Slice} (h : (keys.map Slice.len).sum < 10000) :
    Keeps q n k (Act.searchKey keys) fun _ => True :=
  joinFields (Nat.le_refl Text.empty.length) (by rwa [show Text.empty.length = 0 from rfl, Nat.zero_add])

theorem masterSearch (name : FileName) (len : Nat) {keys : List Slice}
    (h : (keys.map Slice.len).sum < 10000) (result : Register) :
    Keeps q n k (Act.masterSearch name len keys result) fun _ => True := by
  refine bind (nameOf name) fun name _ => bind (searchKey h) fun key _ => ?_
  refine bind (file? name) fun f hf => ?_
  cases f with
  | none => exact bind (reset result) fun _ _ => status _
  | some f =>
    dsimp only
    split
    · next record g hsearch =>
      exact bind (putFile name ((hf f rfl).search hsearch)) fun _ _ => bind (set result _) fun _ _ =>
        status _
    · exact bind (reset result) fun _ _ => status _

theorem clearBefore (row col clear : Nat) : Keeps q n k (Act.clearBefore row col clear) fun _ => True := by
  unfold Act.clearBefore
  split
  · exact draw rfl
  · exact pure trivial

theorem displayString (row col clear : Nat) (t : Text) :
    Keeps q n k (Act.displayString row col clear t) fun _ => True :=
  bind (clearBefore row col clear) fun _ _ => draw rfl

theorem displayRegister (row col clear : Nat) {s : Slice} (h : Line.SliceBounded s) :
    Keeps q n k (Act.displayRegister row col clear s) fun _ => True :=
  bind (clearBefore row col clear) fun _ _ => bind (padded h) fun _ _ => draw rfl

theorem upload (reply : LinkReply) (name : FileName) :
    Keeps q n k (Act.upload reply name) fun _ => True := by
  refine bind (nameOf name) fun name _ => bind (file? name) fun f _ => ?_
  cases f with
  | none => exact status _
  | some f => exact bind (notes _) fun _ _ => statusIf _

theorem putFiles {fs : List TransferFile} (h : ∀ f ∈ fs, f.content.length < Text.sizeLimit) :
    Keeps q n k (Act.putFiles fs) fun _ => True := by
  induction fs with
  | nil => exact pure trivial
  | cons f rest ih =>
    obtain ⟨hf, hrest⟩ := List.forall_mem_cons.mp h
    have hwhole : (RecordFile.ofText f.content).Whole := ⟨Nat.zero_le _, hf⟩
    exact bind (putFile f.name hwhole) fun _ _ => ih hrest

theorem download {reply : LinkReply} (h : reply.Fits) : Keeps q n k (Act.download reply) fun _ => True :=
  bind (notes _) fun _ _ => bind (putFiles h) fun _ _ => statusIf _

theorem sleep (ms : Nat) : Keeps q n k (Act.sleep ms) fun _ => True :=
  fun m hm => ⟨trivial, hm.congr rfl rfl rfl rfl (congrArg List.length (m.keys.unread_sleep ms))⟩

theorem abandon : Keeps q n k Act.abandon fun _ => True := draw rfl

theorem endSpecial (c : Key) : Keeps q n k (Act.endSpecial c) fun _ => True :=
  bind (setSystem _ _) fun _ _ => bind (setSystem _ _) fun _ _ => bind (setSystem _ _) fun _ _ => draw rfl

theorem commitLine (f : InputField) (typed : List UInt8) :
    Keeps q n k (Act.commitLine f typed) fun _ => True :=
  bind (set _ _) fun _ _ => bind (setSystem _ _) fun _ _ => bind (setSystem _ _) fun _ _ =>
    bind (setSystem _ _) fun _ _ => draw rfl

theorem showCursor {f : InputField} (h : f.Fits) (typed : List UInt8) :
    Keeps q n k (Act.showCursor f typed) fun _ => True := by
  unfold Act.showCursor
  split
  · exact bind (checked (P := fun _ => True) ⟨_, h.cursorColumn typed, trivial⟩) fun _ _ => draw rfl
  · exact pure trivial

theorem jump (t : Label) : Keeps q n k (Act.jump t) fun _ => True :=
  bind (readAny _) fun _ _ => bind (lift _) fun _ _ =>
    bind (update fun _ hm => hm.congr rfl rfl rfl rfl rfl) fun _ _ => pure trivial

theorem holds (c : Condition) : Keeps q n k (Act.holds c) fun _ => True :=
  bind (readAny _) fun _ _ => bind (valueOf c.right) fun _ _ => pure trivial

end Keeps

section Keys

/-- What has become of the keys is told, and nothing else changes. -/
theorem adopt_eq (keys : KeyQueue) (m : Machine) :
    ∃ m', Act.adopt keys m = (.ok (), m') ∧ m'.program = m.program ∧ m'.files = m.files ∧
      m'.screen = m.screen ∧ m'.journal.damage = m.journal.damage ∧ m'.keys = keys := by
  simp only [Act.adopt, run_bind, Act.read, Act.update]
  split
  · exact ⟨_, rfl, rfl, rfl, rfl, rfl, rfl⟩
  · exact ⟨_, rfl, rfl, rfl, rfl, rfl, rfl⟩

/-- One beep may follow for a code that has been read. -/
def afterKey {γ : Type} (k : Nat) (code : Option γ) : Nat := k + code.toList.length

theorem safe_nextCode : Safe q n k Act.nextCode (afterKey k) fun _ => True := by
  intro m hm
  have hunread := m.keys.unread_next
  have hbeeps := hm.beeps
  simp only [Act.nextCode, run_bind, Act.read]
  rcases hnext : m.keys.next with ⟨r, keys⟩
  rw [hnext] at hunread
  obtain ⟨m', hadopt, hp, hf, hs, hd, hk⟩ := adopt_eq keys m
  -- whatever is read, only the codes have changed
  have hsane {j : Nat} (h : m.screen.beeps + keys.unread.length + j ≤ n) : m'.Sane q n j := by
    refine ⟨hp.trans hm.program, hf ▸ hm.files, hs ▸ hm.screen, hd ▸ hs ▸ hm.damage, ?_⟩
    rw [hs, hk]
    exact h
  simp only [hadopt]
  cases r with
  | key code => exact ⟨trivial, hsane (by simp only [afterKey, Option.toList, List.length_singleton]; omega)⟩
  | ended => exact ⟨trivial, hsane (by simp only [afterKey, Option.toList, List.length_nil]; omega)⟩
  | waiting => exact ⟨by simp, hsane (by omega)⟩

theorem safe_drawAll (ds : List Screen.Drawing) :
    Safe q n (k + (ds.map Screen.Drawing.beeps).sum) (Act.drawAll ds) (fun _ => k) fun _ => True := by
  induction ds with
  | nil => exact .pure trivial (Nat.le_add_right _ _)
  | cons d rest ih =>
    have hsum : k + ((d :: rest).map Screen.Drawing.beeps).sum =
        k + (rest.map Screen.Drawing.beeps).sum + d.beeps := by
      simp only [List.map_cons, List.sum_cons]
      omega
    rw [hsum]
    exact .bind (.draw d) fun _ _ => ih

theorem safe_knownKeyAmong (beep : Bool) (fuel : Nat) :
    Safe q n k (Act.knownKeyAmong beep fuel) (afterKey k) fun _ => True := by
  induction fuel with
  | zero => exact .stop (by simp)
  | succ fuel ih =>
    refine .bind safe_nextCode fun code _ => ?_
    cases code with
    | none => exact .pure trivial (Nat.le_refl _)
    | some code =>
      dsimp only
      cases Key.ofCode32? code with
      | some c => exact .pure trivial (Nat.le_refl _)
      | none =>
        -- the code that was no key pays for the beep
        refine .bind (Keeps.note _) fun _ _ => ?_
        cases beep with
        | false => exact (ih.of_le (Nat.le_succ k))
        | true => exact .bind (.draw .beep) fun _ _ => ih

theorem safe_knownKey (beep : Bool) : Safe q n k (Act.knownKey beep) (afterKey k) fun _ => True :=
  .bind (Keeps.readAny _) fun _ _ => safe_knownKeyAmong beep _

theorem keeps_noEchoInput (dst : Register) : Keeps q n k (Act.noEchoInput dst) fun _ => True := by
  refine Safe.bind (safe_knownKey true) fun c _ => ?_
  cases c with
  | none => exact Keeps.pure trivial
  | some c => exact (Keeps.set dst _).weaken fun _ => Nat.le_succ k

/-- Typing a line, as long as what has been typed fits the field. -/
theorem keeps_typeLine {f : InputField} (h : f.Fits) (fuel : Nat) {typed : List UInt8}
    (ht : typed.length ≤ f.columns) : Keeps q n k (Act.typeLine f fuel typed) fun _ => True := by
  induction fuel generalizing typed with
  | zero => exact Safe.stop (by simp)
  | succ fuel ih =>
    refine Safe.bind (Keeps.showCursor h typed) fun _ _ => Safe.bind (safe_knownKey false) fun c _ => ?_
    cases c with
    | none => exact Keeps.abandon
    | some c =>
      have hresponse := h.respond ht c
      refine Safe.bind (Keeps.checked hresponse) fun r hr => ?_
      cases r with
      | special => exact (Keeps.endSpecial c).weaken fun _ => Nat.le_succ k
      | commit => exact (Keeps.commitLine f typed).weaken fun _ => Nat.le_succ k
      | edit typed ds =>
        have hdraw : Safe q n (k + 1) (Act.drawAll ds) (fun _ => k) fun _ => True :=
          (safe_drawAll ds).of_le (Nat.add_le_add_left hr.2 k)
        exact .bind hdraw fun _ _ => ih hr.1
      | type typed ds =>
        have hdraw : Safe q n (k + 1) (Act.drawAll ds) (fun _ => k) fun _ => True :=
          (safe_drawAll ds).of_le (Nat.add_le_add_left hr.2 k)
        refine .bind hdraw fun _ _ => ?_
        split
        · exact ih hr.1
        · split
          · exact Keeps.commitLine f typed
          · refine .bind (Keeps.sleep _) fun done _ => ?_
            cases done with
            | false => exact Keeps.abandon
            | true => exact Keeps.commitLine f typed
          · exact ih hr.1

theorem keeps_lineInput {f : InputField} (h : f.Fits) : Keeps q n k (Act.lineInput f) fun _ => True :=
  Safe.bind (Keeps.readAny _) fun _ _ => keeps_typeLine h _ (Nat.zero_le _)

end Keys

end Act

end Machine

end Handheld
