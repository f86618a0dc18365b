import Handheld.Proofs.Line.Fields

namespace Handheld.Line

/-- A field that can be told from its bytes by its kind and its width. -/
inductive Item where
  | int (value width : Nat)
  | flag (b : Bool)
  | register (reg : Option Register)
  | key (k : Option Key)
  | keys (s : KeySet)
  | comparison (c : Comparison)
  | filePosition (p : FilePosition)
  | bytes (bs : List UInt8)
  deriving DecidableEq

/-- What a reader has to know of an item. -/
inductive Slot where
  | int (width : Nat)
  | flag
  | register
  | key
  | keys
  | comparison
  | filePosition
  | bytes (n : Nat)

namespace Item

/-- The field of the item; the name is for the message in case it is refused. -/
def field (name : String) : Item → Field
  | int value width => .int name value width
  | flag b => .flag b
  | register reg => .register reg
  | key k => .key k
  | keys s => .keys s
  | comparison c => .comparison c
  | filePosition p => .filePosition p
  | bytes bs => .bytes name bs

def slot : Item → Slot
  | int _ width => .int width
  | flag _ => .flag
  | register _ => .register
  | key _ => .key
  | keys _ => .keys
  | comparison _ => .comparison
  | filePosition _ => .filePosition
  | bytes bs => .bytes bs.length

/-- Its number is within 64 bits. -/
def InWord : Item → Prop
  | int value _ => value < Word.limit
  | _ => True

/-- The item can be written: a number that has as many digits as its field or fewer, a key set that has a
place for each key, and bytes that do not end the line. -/
def Fits : Item → Prop
  | int value width => 0 < width ∧ width ≤ widthLimit ∧ value < Decimal.power width
  | keys s => s.size ≤ KeySet.special
  | bytes bs => ∀ b ∈ bs, b ≠ 0x0D ∧ b ≠ 0x0A
  | _ => True

instance : DecidablePred InWord
  | int _ _ => inferInstanceAs (Decidable (_ < _))
  | flag _ | register _ | key _ | keys _ | comparison _ | filePosition _ | bytes _ => .isTrue trivial

instance : DecidablePred Fits
  | int _ _ => inferInstanceAs (Decidable (_ ∧ _))
  | keys _ => inferInstanceAs (Decidable (_ ≤ _))
  | bytes bs => inferInstanceAs (Decidable (∀ b ∈ bs, b ≠ 0x0D ∧ b ≠ 0x0A))
  | flag _ | register _ | key _ | comparison _ | filePosition _ => .isTrue trivial

end Item

namespace Writer

/-- The answers to fields one after the other, and the writer behind them. -/
def putAll : List Field → Writer → List (Except EncodeError Unit) × Writer
  | [], w => ([], w)
  | f :: fs, w =>
    let (a, w) := w.put f
    let (as, w) := putAll fs w
    (a :: as, w)

/-- The length of the line that would be finished. -/
def total (w : Writer) (head : List UInt8) : Nat :=
  prefixWidth + head.length + w.buffer.length + crlf.length

/-- The item is written as a whole, or it is refused and nothing is. -/
def Takes (w : Writer) (name : String) (i : Item) : Prop :=
  (i.Fits ∧ ∃ bs, (i.field name).encode = .ok bs ∧
    w.put (i.field name) = (.ok (), ⟨w.buffer ++ bs⟩)) ∨
  (¬ i.Fits ∧ ∃ e, w.put (i.field name) = (.error e, w))

/-- The line is finished and the writer empty, or the line is too long and stays. -/
def Closes (w : Writer) (head : List UInt8) : Prop :=
  (w.total head ≤ 999 ∧ ∃ line, line.length = w.total head ∧ w.finish head = (.ok line, empty)) ∨
    (999 < w.total head ∧ w.finish head = (.error (.tooLong (w.total head)), w))

end Writer

namespace Slot

/-- Reads what is in the slot. -/
def next (r : Reader) : Slot → Except Flaw Item × Reader
  | int width => r.field width fun n => return .int (← Read.int n) n
  | flag => r.run do return .flag (← Read.flag)
  | register => r.run do return .register (← Read.optRegister)
  | key => r.run do return .key (← Read.key)
  | keys => r.run do return .keys (← Read.keys)
  | comparison => r.run do return .comparison (← Read.comparison)
  | filePosition => r.run do return .filePosition (← Read.filePosition)
  | bytes n => r.field n fun n => return .bytes (← Read.take n)

/-- Reads slots in order up to the first flaw. -/
def nextAll : List Slot → Reader → Except Flaw (List Item) × Reader
  | [], r => (.ok [], r)
  | s :: ss, r =>
    match s.next r with
    | (.error e, r) => (.error e, r)
    | (.ok i, r) =>
      match nextAll ss r with
      | (.error e, r) => (.error e, r)
      | (.ok is, r) => (.ok (i :: is), r)

end Slot

/-- The bytes of a line between its head and its end. -/
def behindHead (head line : List UInt8) : List UInt8 :=
  (line.take (line.length - crlf.length)).drop (prefixWidth + head.length)

/-- A reader that takes the slots of the items gets the items and ends at the end of the bytes. -/
def Restores (bs : List UInt8) (is : List Item) : Prop :=
  Slot.nextAll (is.map Item.slot) (.ofBytes bs) = (.ok is, ⟨bs.length, []⟩) ∧
    Reader.run ⟨bs.length, []⟩ Read.finish = (.ok (), ⟨bs.length, []⟩)

/-- The fields of a schedule of named items. -/
def scheduled (schedule : List (String × Item)) : List Field := schedule.map fun i => i.2.field i.1

/-- The items of a schedule that can be written. -/
def fitting (schedule : List (String × Item)) : List (String × Item) :=
  schedule.filter fun i => i.2.Fits

section Writing

variable {w : Writer} {bs head line : List UInt8} {name : String} {i : Item}

theorem put_item (w : Writer) (name : String) (i : Item) :
    w.put (i.field name) = match (i.field name).encode with
      | .error e => (.error e, w)
      | .ok bs => (.ok (), ⟨w.buffer ++ bs⟩) := by
  have hroom : w.hasRoom (i.field name) = true := by
    cases i <;> rfl
  cases hi : (i.field name).encode with
  | error e => rw [w.put_eq, if_pos hroom, hi]
  | ok bs => rw [w.put_eq, if_pos hroom, hi]

theorem exists_plainBytes_iff (name : String) (bs : List UInt8) :
    (∃ as, plainBytes name bs = .ok as) ↔ ∀ b ∈ bs, b ≠ 0x0D ∧ b ≠ 0x0A := by
  unfold plainBytes
  split
  · next h =>
    obtain ⟨b, hb, hbreak⟩ := List.any_eq_true.mp h
    refine iff_of_false nofun fun hplain => ?_
    simp [hplain b hb] at hbreak
  · next h =>
    refine iff_of_true ⟨bs, rfl⟩ fun b hb => ?_
    simpa using fun hbreak => h (List.any_eq_true.mpr ⟨b, hb, hbreak⟩)

/-- Exactly the items that fit are not refused. -/
theorem exists_encode_iff (name : String) (i : Item) :
    (∃ bs, (i.field name).encode = .ok bs) ↔ i.Fits := by
  have hrefused (e : EncodeError) : ¬ ∃ bs : List UInt8, Except.error e = Except.ok bs := by simp
  cases i with
  | int value width =>
    rw [Item.field, Field.encode, intBytes, Item.Fits]
    split
    · next h => exact iff_of_false (hrefused _) fun hfits => Nat.not_lt_of_le hfits.2.1 h
    · next h =>
      split
      · next hv => exact iff_of_true ⟨_, rfl⟩ ⟨hv.1, Nat.le_of_not_lt h, hv.2⟩
      · next hv => exact iff_of_false (hrefused _) fun hfits => hv ⟨hfits.1, hfits.2.2⟩
  | keys s =>
    rw [Item.field, Field.encode, Item.Fits]
    split
    · next h => exact iff_of_false (hrefused _) (Nat.not_le_of_lt h)
    · next h => exact iff_of_true ⟨_, rfl⟩ (Nat.le_of_not_lt h)
  | bytes bs => exact exists_plainBytes_iff name bs
  | register reg => cases reg <;> exact iff_of_true ⟨_, rfl⟩ trivial
  | key k => cases k <;> exact iff_of_true ⟨_, rfl⟩ trivial
  | flag b => exact iff_of_true ⟨_, rfl⟩ trivial
  | comparison c => exact iff_of_true ⟨_, rfl⟩ trivial
  | filePosition p => exact iff_of_true ⟨_, rfl⟩ trivial

theorem takes (w : Writer) (name : String) (i : Item) : w.Takes name i := by
  have hfits := exists_encode_iff name i
  have hput := put_item w name i
  cases hi : (i.field name).encode with
  | error e =>
    rw [hi] at hfits hput
    have hnot : ¬ i.Fits := fun h => by simpa using hfits.mpr h
    exact .inr ⟨hnot, e, hput⟩
  | ok bs =>
    rw [hi] at hfits hput
    exact .inl ⟨hfits.mp ⟨bs, rfl⟩, bs, hi, hput⟩

/-- Behind a schedule the writer holds the items that fit and nothing of the others. -/
theorem putAll_scheduled (w : Writer) (schedule : List (String × Item)) :
    ∃ bs, encodeFields (scheduled (fitting schedule)) = .ok bs ∧
      (w.putAll (scheduled schedule)).2.buffer = w.buffer ++ bs := by
  induction schedule generalizing w with
  | nil => exact ⟨[], rfl, (List.append_nil _).symm⟩
  | cons i schedule ih =>
    obtain ⟨name, i⟩ := i
    have hall : (w.putAll (scheduled ((name, i) :: schedule))).2 =
        ((w.put (i.field name)).2.putAll (scheduled schedule)).2 := rfl
    rw [hall]
    rcases takes w name i with ⟨hfits, bs, hi, hput⟩ | ⟨hnot, e, hput⟩
    · obtain ⟨rest, hrest, hbuffer⟩ := ih ⟨w.buffer ++ bs⟩
      have hkept : fitting ((name, i) :: schedule) = (name, i) :: fitting schedule :=
        List.filter_cons_of_pos (decide_eq_true hfits)
      rw [hput, hbuffer, hkept]
      exact ⟨bs ++ rest, encodeFields_cons.mpr ⟨bs, rest, hi, hrest, rfl⟩, List.append_assoc _ _ _⟩
    · have hkept : fitting ((name, i) :: schedule) = fitting schedule :=
        List.filter_cons_of_neg (by simpa using hnot)
      rw [hput, hkept]
      exact ih w

theorem putAll_ok_iff (w : Writer) (schedule : List (String × Item)) :
    (∀ a ∈ (w.putAll (scheduled schedule)).1, a = .ok ()) ↔ ∀ i ∈ schedule, i.2.Fits := by
  induction schedule generalizing w with
  | nil => exact iff_of_true nofun nofun
  | cons i schedule ih =>
    obtain ⟨name, i⟩ := i
    have hall : (w.putAll (scheduled ((name, i) :: schedule))).1 = (w.put (i.field name)).1 ::
        ((w.put (i.field name)).2.putAll (scheduled schedule)).1 := rfl
    have hfirst : (w.put (i.field name)).1 = .ok () ↔ i.Fits := by
      rcases takes w name i with ⟨hfits, bs, -, hput⟩ | ⟨hnot, e, hput⟩
      · exact iff_of_true (congrArg Prod.fst hput) hfits
      · exact iff_of_false (by rw [hput]; nofun) hnot
    rw [hall, List.forall_mem_cons, List.forall_mem_cons, ih, hfirst]

theorem finish_eq (w : Writer) (head : List UInt8) :
    w.finish head =
      if w.total head < Decimal.power prefixWidth then
        (.ok (Decimal.padded prefixWidth (w.total head) ++ head ++ w.buffer ++ crlf), .empty)
      else (.error (.tooLong (w.total head)), w) := by
  have hframe : frame head w.buffer =
      if w.total head < Decimal.power prefixWidth then
        .ok (Decimal.padded prefixWidth (w.total head) ++ head ++ w.buffer ++ crlf)
      else .error (.tooLong (w.total head)) := rfl
  rw [Writer.finish, hframe]
  by_cases h : w.total head < Decimal.power prefixWidth
  · simp only [if_pos h]
  · simp only [if_neg h]

theorem closes (w : Writer) (head : List UInt8) : w.Closes head := by
  have hlimit : Decimal.power prefixWidth = 1000 := rfl
  have hfinish := finish_eq w head
  by_cases h : w.total head < Decimal.power prefixWidth
  · rw [if_pos h] at hfinish
    refine .inl ⟨by omega, _, ?_, hfinish⟩
    simp only [List.length_append, Decimal.length_padded, Writer.total]
  · rw [if_neg h] at hfinish
    exact .inr ⟨by omega, hfinish⟩

/-- The line is no longer than its length can say, and holds what has been written. -/
theorem finish_ok (h : (w.finish head).1 = .ok line) :
    behindHead head line = w.buffer ∧ w.buffer.length < Word.limit := by
  rw [finish_eq] at h
  split at h
  · next hlt =>
    obtain rfl := Except.ok.inj h
    have hsize : (Decimal.padded prefixWidth (w.total head) ++ head).length =
        prefixWidth + head.length := by
      rw [List.length_append, Decimal.length_padded]
    constructor
    · rw [behindHead, List.length_append, Nat.add_sub_cancel, List.take_left, List.drop_left' hsize]
    · have hlimit : Decimal.power prefixWidth ≤ Word.limit := by decide
      have hle : w.buffer.length ≤ w.total head := by
        unfold Writer.total
        omega
      omega
  · cases h

end Writing

section Reading

variable {α : Type} {fs : List Field} {bs : List UInt8} {position : Nat}

theorem run_reads {m : Read α} {a : α} (h : Reads m fs a) (hbs : encodeFields fs = .ok bs)
    (position : Nat) (behind : List UInt8) :
    Reader.run ⟨position, bs ++ behind⟩ m = (.ok a, ⟨position + bs.length, behind⟩) := by
  rw [Reader.run, h bs behind hbs]
  simp

theorem field_reads {m : Nat → Read α} {a : α} (h : Reads (m bs.length) fs a)
    (hbs : encodeFields fs = .ok bs) (hroom : position + bs.length < Word.limit)
    (behind : List UInt8) :
    Reader.field ⟨position, bs ++ behind⟩ bs.length m = (.ok a, ⟨position + bs.length, behind⟩) := by
  rw [Reader.field, if_pos hroom, run_reads h hbs]

/-- What is in its slot is read as the item. -/
theorem next_item {name : String} {i : Item} (hword : i.InWord) (hi : (i.field name).encode = .ok bs)
    (hroom : position + bs.length < Word.limit) (behind : List UInt8) :
    i.slot.next ⟨position, bs ++ behind⟩ = (.ok i, ⟨position + bs.length, behind⟩) := by
  have hbs : encodeFields [i.field name] = .ok bs :=
    encodeFields_cons.mpr ⟨bs, [], hi, rfl, (List.append_nil bs).symm⟩
  cases i with
  | int value width =>
    have hlen : bs.length = width := by
      obtain ⟨-, -, rfl⟩ := intBytes_ok hi
      exact Decimal.length_padded _ _
    subst hlen
    rw [Item.slot, Slot.next]
    exact field_reads (reads_word name _ hword).map hbs hroom behind
  | flag b => exact run_reads (reads_flag b).map hbs position behind
  | register reg =>
    cases reg with
    | none => exact run_reads reads_optRegister_none.map hbs position behind
    | some r => exact run_reads (reads_optRegister r).map hbs position behind
  | key k => exact run_reads (reads_key k).map hbs position behind
  | keys s => exact run_reads (reads_keys s).map hbs position behind
  | comparison c => exact run_reads (reads_comparison c).map hbs position behind
  | filePosition p => exact run_reads (reads_filePosition p).map hbs position behind
  | bytes text =>
    obtain ⟨rfl, -⟩ := plainBytes_ok hi
    rw [Item.slot, Slot.next]
    exact field_reads (reads_take name rfl).map hbs hroom behind

/-- The items are read one by one, and the reader is where the writer was behind each of them. -/
theorem nextAll_scheduled {schedule : List (String × Item)} (hword : ∀ i ∈ schedule, i.2.InWord)
    (hbs : encodeFields (scheduled schedule) = .ok bs)
    (hroom : position + bs.length < Word.limit) (behind : List UInt8) :
    Slot.nextAll (schedule.map (·.2.slot)) ⟨position, bs ++ behind⟩ =
      (.ok (schedule.map (·.2)), ⟨position + bs.length, behind⟩) := by
  induction schedule generalizing position bs with
  | nil =>
    obtain rfl : [] = bs := Except.ok.inj hbs
    rfl
  | cons i schedule ih =>
    obtain ⟨hfirst, hrest⟩ := List.forall_mem_cons.mp hword
    obtain ⟨as, cs, has, hcs, rfl⟩ := encodeFields_cons.mp hbs
    rw [List.length_append, ← Nat.add_assoc] at hroom
    have hnext := next_item hfirst has (Nat.lt_of_le_of_lt (Nat.le_add_right _ _) hroom) (cs ++ behind)
    have hothers := ih hrest hcs hroom
    simp only [List.map_cons, Slot.nextAll, List.append_assoc, hnext, hothers, List.length_append,
      Nat.add_assoc]

end Reading

/-- Packing is all or nothing at each step and can be undone. Whatever a writer holds, an item that fits
is appended as a whole and any other one is refused without a trace, and a line that is too long stays
while a finished one leaves the writer empty. From the line of a schedule a reader takes the items that
fit, in their order and up to the end of the line; these are all of them if no step was refused. -/
theorem packing_invertible (schedule : List (String × Item)) (head : List UInt8)
    (hword : ∀ i ∈ schedule, i.2.InWord) :
    (∀ (w : Writer) (name : String) (i : Item), w.Takes name i) ∧ (∀ w : Writer, w.Closes head) ∧
      ∀ line, ((Writer.empty.putAll (scheduled schedule)).2.finish head).1 = .ok line →
        Restores (behindHead head line) ((fitting schedule).map (·.2)) ∧
        ((∀ a ∈ (Writer.empty.putAll (scheduled schedule)).1, a = .ok ()) →
          Restores (behindHead head line) (schedule.map (·.2))) := by
  refine ⟨takes, fun w => closes w head, fun line hline => ?_⟩
  obtain ⟨bs, hbs, hbuffer⟩ := putAll_scheduled .empty schedule
  obtain ⟨hbehind, hlong⟩ := finish_ok hline
  have hbytes : behindHead head line = bs := hbehind.trans hbuffer
  have hroom : 0 + bs.length < Word.limit := by
    rw [Nat.zero_add, ← hbytes, hbehind]
    exact hlong
  have hfitting : Restores (behindHead head line) ((fitting schedule).map (·.2)) := by
    have hread := nextAll_scheduled (fun i hi => hword i ((List.mem_filter.mp hi).1)) hbs hroom []
    rw [List.append_nil, Nat.zero_add] at hread
    rw [hbytes, Restores, List.map_map]
    exact ⟨hread, rfl⟩
  refine ⟨hfitting, fun hok => ?_⟩
  have hall : fitting schedule = schedule :=
    List.filter_eq_self.mpr fun i hi => decide_eq_true ((putAll_ok_iff .empty schedule).mp hok i hi)
  rwa [hall] at hfitting

/-- A line with an item of every kind: absent and present ones, a full key set and one with blank places,
and bytes with blanks at their ends. -/
theorem packing_invertible_everyKind :
    let schedule : List (String × Item) := [("serial", .int 42 6), ("", .flag true),
      ("", .register none), ("", .register (some (.dat 9))), ("", .key none),
      ("", .key (some .backspace)), ("", .keys (.ofList ((List.finRange 10).map .num))),
      ("", .keys (.ofList [.enter, .function 0])), ("", .comparison .lt), ("", .filePosition .top),
      ("note", .bytes (Text.ofString " A ").bytes), ("count", .int 7 1)]
    let head := (Text.ofString "E01").bytes
    let line := (Text.ofString ("101E010000421     DAT10   008" ++ "048049050051052053054055056057" ++
      "013241                        < TOP  A 7\x0d\n")).bytes
    (∀ i ∈ schedule, i.2.InWord) ∧
      ((Writer.empty.putAll (scheduled schedule)).2.finish head).1 = .ok line ∧
      (∀ a ∈ (Writer.empty.putAll (scheduled schedule)).1, a = .ok ()) ∧
      Restores (behindHead head line) (schedule.map (·.2)) := by
  intro schedule head line
  have hword : ∀ i ∈ schedule, i.2.InWord := by decide
  have hline : ((Writer.empty.putAll (scheduled schedule)).2.finish head).1 = .ok line :=
    Except.toOption_eq_some.mp (by decide +kernel)
  have hok : ∀ a ∈ (Writer.empty.putAll (scheduled schedule)).1, a = .ok () :=
    (putAll_ok_iff .empty schedule).mpr (by decide +kernel)
  exact ⟨hword, hline, hok, ((packing_invertible schedule head hword).2.2 line hline).2 hok⟩

end Handheld.Line
