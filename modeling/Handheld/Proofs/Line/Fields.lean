import Handheld.Line.Decode
import Handheld.Proofs.Line.Number

namespace Handheld

namespace Text

/-- Blanks put behind a list do not change it without the blanks at its ends. -/
theorem trim_append_fill (bs : List UInt8) (n : Nat) :
    trim ⟨bs ++ List.replicate n fill⟩ = trim ⟨bs⟩ := by
  have hfill (n : Nat) : (List.replicate n fill).dropWhile (· == fill) = [] := by
    rw [List.dropWhile_replicate, if_pos (by decide)]
  unfold trim
  rw [List.dropWhile_append]
  split
  · next h =>
    rw [List.isEmpty_iff.mp h, hfill]
  · rw [List.reverse_append, List.reverse_replicate, List.dropWhile_append, hfill]
    rfl

theorem trim_forceSize {t : Text} {n : Nat} (h : t.length ≤ n) :
    (t.forceSize n fill).trim = t.trim := by
  rw [forceSize, List.take_of_length_le h, trim_append_fill]

/-- Without blanks there is nothing to take away. -/
theorem trim_of_not_mem {bs : List UInt8} (h : fill ∉ bs) : trim ⟨bs⟩ = ⟨bs⟩ := by
  have hstay (xs : List UInt8) (hx : fill ∉ xs) : xs.dropWhile (· == fill) = xs := by
    cases xs with
    | nil => rfl
    | cons x rest =>
      have hne : x ≠ fill := fun he => hx (he ▸ List.mem_cons_self)
      rw [List.dropWhile_cons, if_neg (by simpa using hne)]
  unfold trim
  rw [hstay bs h, hstay bs.reverse fun hm => h (List.mem_reverse.mp hm), List.reverse_reverse]

end Text

namespace Decimal

theorem not_mem_padded {b : UInt8} (hb : b < 0x30) (width n : Nat) : b ∉ padded width n := by
  intro hmem
  obtain ⟨d, hd, rfl⟩ := exists_of_mem_padded hmem
  rw [UInt8.lt_iff_toNat_lt, toNat_digit hd] at hb
  exact absurd hb (Nat.not_lt_of_le (Nat.le_add_right 48 d))

theorem not_mem_signedBytes {b : UInt8} (hb : b < 0x2D) (n : Int) : b ∉ signedBytes n := by
  have hdigits : b ∉ bytes n.natAbs := not_mem_padded (UInt8.lt_trans hb (by decide)) _ _
  unfold signedBytes
  split
  · rw [List.mem_cons, not_or]
    exact ⟨UInt8.ne_of_lt hb, hdigits⟩
  · exact hdigits

/-- What is written for a number of 32 bits reads back. -/
theorem readInt32?_signedBytes (n : Int32) : readInt32? (signedBytes n.toInt) = some n := by
  have hle : n.toInt ≤ 0x7FFFFFFF := Int32.toInt_le n
  have hge : -0x80000000 ≤ n.toInt := Int32.le_toInt n
  unfold signedBytes
  split
  · next hneg =>
    have habs : (n.toInt.natAbs : Int) = -n.toInt := Int.ofNat_natAbs_of_nonpos (Int.le_of_lt hneg)
    have hread : read 0x80000000 (bytes n.toInt.natAbs) = .ok n.toInt.natAbs := read_bytes (by omega)
    rw [readInt32?, hread]
    show some (Int32.ofInt (-(n.toInt.natAbs : Int))) = some n
    rw [habs, Int.neg_neg, Int32.ofInt_toInt]
  · next hnonneg =>
    have habs : (n.toInt.natAbs : Int) = n.toInt := Int.natAbs_of_nonneg (Int.not_lt.mp hnonneg)
    have hread : readUnsigned? 0x7FFFFFFF (bytes n.toInt.natAbs) = some n.toInt.natAbs :=
      readUnsigned?_padded (width_pos _) (lt_power_width _) (by omega)
    unfold readInt32?
    split
    · next ds he =>
      -- the first byte is a digit
      have hmem : 0x2D ∈ bytes n.toInt.natAbs := by
        rw [he]
        exact List.mem_cons_self
      exact absurd hmem (not_mem_padded (by decide) _ _)
    · rw [hread]
      show some (Int32.ofInt n.toInt.natAbs) = some n
      rw [habs, Int32.ofInt_toInt]

end Decimal

/-- No literal fraction. -/
def Operand.Exact (o : Operand) : Prop := ∀ x, o ≠ .value (.float x)

instance : DecidablePred Operand.Exact
  | .value (.float x) => isFalse fun h => h x rfl
  | .value (.int _) | .value (.text _) | .key _ | .register _ => isTrue nofun

/-- A register, or a literal of the kind that is no fraction. -/
def Operand.Legible (o : Operand) (k : Kind) : Prop := o.normalize k = o ∧ o.Exact

namespace Line

open Read

variable {α β : Type} {fs gs : List Field} {bs cs : List UInt8}

theorem encodeFields_cons {f : Field} :
    encodeFields (f :: fs) = .ok bs ↔
      ∃ as cs, f.encode = .ok as ∧ encodeFields fs = .ok cs ∧ bs = as ++ cs := by
  rw [encodeFields]
  cases f.encode with
  | error e => simp
  | ok as =>
    cases encodeFields fs with
    | error e => simp
    | ok cs => simp [eq_comm]

theorem encodeFields_append :
    encodeFields (fs ++ gs) = .ok bs ↔
      ∃ as cs, encodeFields fs = .ok as ∧ encodeFields gs = .ok cs ∧ bs = as ++ cs := by
  induction fs generalizing bs with
  | nil => simp [encodeFields, eq_comm]
  | cons f rest ih =>
    rw [List.cons_append, encodeFields_cons]
    constructor
    · rintro ⟨as, cs, hf, hrest, rfl⟩
      obtain ⟨as', cs', has, hcs, rfl⟩ := ih.mp hrest
      exact ⟨as ++ as', cs', encodeFields_cons.mpr ⟨as, as', hf, has, rfl⟩, hcs, by simp⟩
    · rintro ⟨as, cs, has, hcs, rfl⟩
      obtain ⟨as₁, as₂, hf, hrest, rfl⟩ := encodeFields_cons.mp has
      exact ⟨as₁, as₂ ++ cs, hf, ih.mpr ⟨as₂, cs, hrest, hcs, rfl⟩, by simp⟩

/-- A finished line is within what three digits can say, and they say how long it is. -/
theorem frame_ok {head payload line : List UInt8} (h : frame head payload = .ok line) :
    line.length < Decimal.power prefixWidth ∧
      line = Decimal.padded prefixWidth line.length ++ (head ++ payload) ++ crlf := by
  unfold frame at h
  dsimp only at h
  split at h
  · next hlt =>
    have hline := Except.ok.inj h
    have hlen : line.length = prefixWidth + head.length + payload.length + crlf.length := by
      rw [← hline]
      simp only [List.length_append, Decimal.length_padded]
    rw [← hlen] at hlt hline
    refine ⟨hlt, ?_⟩
    rw [← List.append_assoc]
    exact hline.symm
  · cases h

/-- From what the fields are written as, the reading yields `a` and leaves the bytes behind. -/
def Reads (m : Read α) (fs : List Field) (a : α) : Prop :=
  ∀ bs behind, encodeFields fs = .ok bs → m (bs ++ behind) = (.ok a, behind)

/-- The same for fields at the end of a line. -/
def ReadsLast (m : Read α) (fs : List Field) (a : α) : Prop :=
  ∀ bs, encodeFields fs = .ok bs → m bs = (.ok a, [])

namespace Reads

theorem pure (a : α) : Reads (Pure.pure a) [] a := by
  intro bs behind h
  obtain rfl : [] = bs := Except.ok.inj h
  rfl

theorem bind {m : Read α} {next : α → Read β} {a : α} {b : β} (h : Reads m fs a)
    (hn : Reads (next a) gs b) : Reads (m >>= next) (fs ++ gs) b := by
  intro bs behind hb
  obtain ⟨as, cs, has, hcs, rfl⟩ := encodeFields_append.mp hb
  rw [run_bind, List.append_assoc, h as _ has]
  exact hn cs behind hcs

theorem last {m : Read α} {a : α} (h : Reads m fs a) : ReadsLast m fs a := by
  intro bs hb
  have hr := h bs [] hb
  rwa [List.append_nil] at hr

theorem bindLast {m : Read α} {next : α → Read β} {a : α} {b : β} (h : Reads m fs a)
    (hn : ReadsLast (next a) gs b) : ReadsLast (m >>= next) (fs ++ gs) b := by
  intro bs hb
  obtain ⟨as, cs, has, hcs, rfl⟩ := encodeFields_append.mp hb
  rw [run_bind, h as _ has]
  exact hn cs hcs

/-- A field and the fields behind it. -/
theorem cons {m : Read α} {next : α → Read β} {f : Field} {a : α} {b : β} (h : Reads m [f] a)
    (hn : Reads (next a) fs b) : Reads (m >>= next) (f :: fs) b :=
  h.bind hn

theorem consLast {m : Read α} {next : α → Read β} {f : Field} {a : α} {b : β} (h : Reads m [f] a)
    (hn : ReadsLast (next a) fs b) : ReadsLast (m >>= next) (f :: fs) b :=
  h.bindLast hn

/-- The last field that is read, with what is made of it. -/
theorem map {m : Read α} {f : α → β} {a : α} (h : Reads m fs a) :
    Reads (do return f (← m)) fs (f a) := by
  have hb : Reads (m >>= fun a => Pure.pure (f a)) (fs ++ []) (f a) := h.bind (Reads.pure (f a))
  rwa [List.append_nil] at hb

/-- One field, by its bytes. -/
theorem of_encode {m : Read α} {f : Field} {a : α}
    (h : ∀ bs behind, f.encode = .ok bs → m (bs ++ behind) = (.ok a, behind)) : Reads m [f] a := by
  intro bs behind hb
  obtain ⟨as, cs, has, hcs, rfl⟩ := encodeFields_cons.mp hb
  obtain rfl : [] = cs := Except.ok.inj hcs
  rw [List.append_nil]
  exact h as behind has

end Reads

theorem ReadsLast.map {m : Read α} {f : α → β} {a : α} (h : ReadsLast m fs a) :
    ReadsLast (do return f (← m)) fs (f a) := by
  intro bs hb
  rw [run_bind, h bs hb]
  rfl

theorem take_append {n : Nat} (h : bs.length = n) (behind : List UInt8) :
    take n (bs ++ behind) = (.ok bs, behind) := by
  subst h
  rw [take, if_pos (by simp), List.take_left, List.drop_left]

theorem text_append {n : Nat} (h : bs.length = n) (behind : List UInt8) :
    text n (bs ++ behind) = (.ok ⟨bs⟩, behind) := by
  rw [text, run_bind, take_append h]
  rfl

theorem intBytes_ok {name : String} {value width : Nat} (h : intBytes name value width = .ok bs) :
    0 < width ∧ value < Decimal.power width ∧ bs = Decimal.padded width value := by
  unfold intBytes at h
  split at h
  · cases h
  · split at h
    · next hv => exact ⟨hv.1, hv.2, (Except.ok.inj h).symm⟩
    · cases h

theorem int_digits {width value : Nat} (hpos : 0 < width) (hv : value < Decimal.power width)
    (hlt : value < Word.limit) (behind : List UInt8) :
    int width (Decimal.padded width value ++ behind) = (.ok value, behind) := by
  rw [int, run_bind, take_append (Decimal.length_padded width value)]
  simp only [parseInt?_padded hpos hv hlt]
  rfl

/-- A number of one word, in a field of any width. -/
theorem reads_word (name : String) (width : Nat) {value : Nat} (hlt : value < Word.limit) :
    Reads (int width) [.int name value width] value := by
  refine .of_encode fun bs behind h => ?_
  obtain ⟨hpos, hv, rfl⟩ := intBytes_ok h
  exact int_digits hpos hv hlt behind

/-- The width of the widest number in a line. -/
def maxWidth : Nat := 4

theorem int_padded {width value : Nat} (hw : width ≤ maxWidth) (hpos : 0 < width)
    (hv : value < Decimal.power width) (behind : List UInt8) :
    int width (Decimal.padded width value ++ behind) = (.ok value, behind) := by
  have hlt : value < Word.limit :=
    Nat.lt_of_lt_of_le hv (Nat.le_trans (Decimal.power_mono hw) (by decide))
  exact int_digits hpos hv hlt behind

theorem reads_int (name : String) (value : Nat) {width : Nat} (hw : width ≤ maxWidth) :
    Reads (int width) [.int name value width] value := by
  refine .of_encode fun bs behind h => ?_
  obtain ⟨hpos, hv, rfl⟩ := intBytes_ok h
  exact int_padded hw hpos hv behind

theorem reads_position (name : String) (pos : Nat) {width : Nat} (hw : width ≤ maxWidth) :
    Reads (position width) [.position name pos width] pos := by
  refine .of_encode fun bs behind h => ?_
  rw [Field.encode] at h
  split at h
  · obtain ⟨hpos, hv, rfl⟩ := intBytes_ok h
    rw [position, run_bind, int_padded hw hpos hv]
    rfl
  · cases h

theorem reads_flag (b : Bool) : Reads flag [.flag b] b := by
  refine .of_encode fun bs behind h => ?_
  obtain rfl : [if b then 0x31 else 0x30] = bs := Except.ok.inj h
  have hdigit : [if b then 0x31 else 0x30] = Decimal.padded 1 b.toNat := by cases b <;> rfl
  have hlt : b.toNat < Decimal.power 1 := by cases b <;> decide
  rw [hdigit, flag, run_bind, int_padded (by decide) (by decide) hlt]
  cases b <;> rfl

theorem reads_skip (byte : UInt8) (n : Nat) : Reads (skip n) [.pad byte n] () := by
  refine .of_encode fun bs behind h => ?_
  obtain rfl : List.replicate n byte = bs := Except.ok.inj h
  rw [skip, run_bind, take_append List.length_replicate]
  rfl

theorem plainBytes_ok {name : String} {text : List UInt8} (h : plainBytes name text = .ok bs) :
    bs = text ∧ 0x0D ∉ text := by
  unfold plainBytes at h
  split at h
  · cases h
  · next hplain =>
    refine ⟨(Except.ok.inj h).symm, fun hmem => hplain ?_⟩
    exact List.any_eq_true.mpr ⟨0x0D, hmem, rfl⟩

theorem reads_take (name : String) {n : Nat} {text : List UInt8} (hn : text.length = n) :
    Reads (take n) [.bytes name text] text := by
  refine .of_encode fun bs behind h => ?_
  obtain ⟨rfl, -⟩ := plainBytes_ok h
  exact take_append hn behind

theorem reads_text (name : String) {n : Nat} {t : Text} (hn : t.length = n) :
    Reads (text n) [.bytes name t.bytes] t :=
  (reads_take name hn).map

section Names

variable {find : String → Option α} {width : Nat} {name : String} {a : α}

/-- A name of the catalogs: it fits its field, it is known by what is left of it without blanks, and
it holds no line end. -/
structure Named (find : String → Option α) (width : Nat) (name : String) (a : α) : Prop where
  fits : (Text.ofString name).length ≤ width
  known : find (Text.ofString name).trim.lossy = some a
  whole : 0x0D ∉ (Text.ofString name).bytes

instance [DecidableEq α] : Decidable (Named find width name a) :=
  decidable_of_iff
    ((Text.ofString name).length ≤ width ∧ find (Text.ofString name).trim.lossy = some a ∧
      0x0D ∉ (Text.ofString name).bytes)
    ⟨fun ⟨hf, hk, hw⟩ => ⟨hf, hk, hw⟩, fun h => ⟨h.fits, h.known, h.whole⟩⟩

theorem register_named (r : Register) : Named Register.ofName? registerWidth r.name r := by
  have hall : ∀ r ∈ Register.all, Named Register.ofName? registerWidth r.name r := by
    decide +kernel
  exact hall r r.mem_all

theorem comparison_named (c : Comparison) : Named Comparison.ofSymbol? 2 c.symbol c := by
  cases c <;> decide +kernel

theorem filePosition_named (p : FilePosition) : Named FilePosition.ofName? 4 p.name p := by
  cases p <;> decide +kernel

theorem text_left (width : Nat) (s : String) (behind : List UInt8) :
    text width (left width s ++ behind) =
      (.ok ((Text.ofString s).forceSize width Text.fill), behind) :=
  text_append (Text.length_forceSize _ _ _) behind

theorem Named.trim (h : Named find width name a) :
    ((Text.ofString name).forceSize width Text.fill).trim = (Text.ofString name).trim :=
  Text.trim_forceSize h.fits

theorem Named.reads (h : Named find width name a) (flaw : Text → Flaw) {f : Field}
    (hf : f.encode = .ok (left width name)) :
    Reads (do
      let raw := (← text width).trim
      ofOption (flaw raw) (find raw.lossy)) [f] a := by
  refine .of_encode fun bs behind hb => ?_
  obtain rfl : left width name = bs := Except.ok.inj (hf.symm.trans hb)
  rw [run_bind, text_left]
  dsimp only
  rw [h.trim, h.known]
  rfl

theorem reads_comparison (c : Comparison) : Reads comparison [.comparison c] c :=
  (comparison_named c).reads _ rfl

theorem reads_filePosition (p : FilePosition) : Reads filePosition [.filePosition p] p :=
  (filePosition_named p).reads _ rfl

theorem reads_optRegister (r : Register) : Reads optRegister [.register (some r)] (some r) := by
  refine .of_encode fun bs behind hb => ?_
  obtain rfl : left registerWidth r.name = bs := Except.ok.inj hb
  have hnamed := register_named r
  -- no register has an empty name, which would stand for none
  have hsome : (Text.ofString r.name).trim.isEmpty = false := by
    cases he : (Text.ofString r.name).trim.isEmpty with
    | false => rfl
    | true =>
      have hnil : (Text.ofString r.name).trim = .empty := Text.ext (List.isEmpty_iff.mp he)
      have hnone : Register.ofName? Text.empty.lossy = none := by decide
      rw [← hnil, hnamed.known] at hnone
      cases hnone
  rw [optRegister, run_bind, text_left]
  dsimp only
  rw [hnamed.trim, hsome, hnamed.known]
  rfl

theorem length_blanks (n : Nat) : (blanks n).length = n := List.length_replicate

theorem reads_optRegister_none : Reads optRegister [.register none] none := by
  refine .of_encode fun bs behind hb => ?_
  obtain rfl : blanks registerWidth = bs := Except.ok.inj hb
  rw [optRegister, run_bind, text_append (length_blanks _)]
  rfl

theorem reads_register (r : Register) : Reads register [.register (some r)] r :=
  (reads_optRegister r).bind (.pure r)

theorem reads_coded {find : Nat → Option α} {n : Nat} (flaw : Nat → Flaw) (name : String)
    (hw : width ≤ maxWidth) (h : find n = some a) :
    Reads (coded flaw find width) [.int name n width] a := by
  have hfound : Reads (ofOption (flaw n) (find n)) [] a := by
    rw [h]
    exact .pure a
  exact (reads_int name n hw).bind hfound

end Names

section Operands

theorem operand_rest (kind : Kind) (bs : List UInt8) :
    operand kind bs =
      ((match Register.ofName? (Text.trim ⟨bs⟩).lossy with
        | some r => pure (.register r)
        | none => pure (.value ((Value.text ⟨bs⟩).coerce kind)) : Read Operand) []) := rfl

/-- A literal is read again from its text. -/
theorem coerce_toText {v : Value} {kind : Kind} (hv : v.coerce kind = v)
    (hx : ∀ x, v ≠ .float x) : (Value.text v.toText).coerce kind = v := by
  have hkind : v.kind = kind := by rw [← hv, Value.kind_coerce]
  subst hkind
  cases v with
  | text t => rfl
  | float x => exact absurd rfl (hx x)
  | int n =>
    have hblank : Text.fill ∉ Decimal.signedBytes n.toInt := Decimal.not_mem_signedBytes (by decide) _
    show Value.int ((Decimal.readInt32? (Text.trim ⟨Decimal.signedBytes n.toInt⟩).bytes).getD 0) = _
    rw [Text.trim_of_not_mem hblank, Decimal.readInt32?_signedBytes]
    rfl

theorem readsLast_operand {o : Operand} {kind : Kind} (h : o.Legible kind) :
    ReadsLast (operand kind) [.operand o kind] o := by
  obtain ⟨hnormal, hx⟩ := h
  intro bs hb
  obtain ⟨as, cs, has, hcs, rfl⟩ := encodeFields_cons.mp hb
  obtain rfl : [] = cs := Except.ok.inj hcs
  rw [List.append_nil, operand_rest]
  rw [Field.encode, operandBytes, hnormal] at has
  cases o with
  | register r =>
    obtain rfl : left registerWidth r.name = as := Except.ok.inj has
    have hnamed := register_named r
    have htrim : Text.trim ⟨left registerWidth r.name⟩ = (Text.ofString r.name).trim := hnamed.trim
    rw [htrim, hnamed.known]
    rfl
  | key k => cases hnormal
  | value v =>
    have hv : v.coerce kind = v := Operand.value.inj hnormal
    dsimp only at has
    split at has
    · cases has
    · next hnone =>
      obtain ⟨rfl, -⟩ := plainBytes_ok has
      rw [hnone]
      show (Except.ok (Operand.value ((Value.text v.toText).coerce kind)), _) = _
      rw [coerce_toText hv fun x he => hx x (congrArg Operand.value he)]

end Operands

section Returns

-- A carriage return ends a line, so that no field may hold one.
theorem return_not_mem_blanks (n : Nat) : 0x0D ∉ blanks n :=
  fun h => absurd (List.eq_of_mem_replicate h) (by decide)

theorem return_not_mem_left {find : String → Option α} {width : Nat} {name : String} {a : α}
    (h : Named find width name a) (n : Nat) : 0x0D ∉ left n name := by
  intro hmem
  rcases List.mem_append.mp hmem with hmem | hmem
  · exact h.whole (List.mem_of_mem_take hmem)
  · exact return_not_mem_blanks _ hmem

theorem return_not_mem_int {name : String} {value width : Nat}
    (h : intBytes name value width = .ok bs) : 0x0D ∉ bs := by
  obtain ⟨-, -, rfl⟩ := intBytes_ok h
  exact Decimal.not_mem_padded (by decide) _ _

theorem return_not_mem_operand {o : Operand} {kind : Kind} (h : operandBytes o kind = .ok bs) :
    0x0D ∉ bs := by
  unfold operandBytes at h
  split at h
  · next r _ =>
    obtain rfl := Except.ok.inj h
    exact return_not_mem_left (register_named r) _
  · obtain ⟨rfl, hplain⟩ := plainBytes_ok h
    exact hplain
  · split at h
    · cases h
    · obtain ⟨rfl, hplain⟩ := plainBytes_ok h
      exact hplain

theorem return_not_mem_keyBytes (k : Key) : 0x0D ∉ keyBytes k :=
  Decimal.not_mem_padded (by decide) _ _

theorem return_not_mem_keys {s : KeySet} (h : (Field.keys s).encode = .ok bs) : 0x0D ∉ bs := by
  rw [Field.encode] at h
  split at h
  · cases h
  · obtain rfl := Except.ok.inj h
    intro hmem
    rcases List.mem_append.mp hmem with hmem | hmem
    · obtain ⟨k, -, hmem⟩ := List.mem_flatMap.mp hmem
      exact return_not_mem_keyBytes k hmem
    · exact return_not_mem_blanks _ hmem

theorem return_not_mem_fileName {file : Option FileName}
    (h : (Field.fileName file).encode = .ok bs) : 0x0D ∉ bs := by
  match file with
  | none =>
    obtain rfl := Except.ok.inj h
    exact return_not_mem_blanks _
  | some (.literal name) =>
    obtain ⟨rfl, hplain⟩ := plainBytes_ok h
    exact hplain
  | some (.register r) =>
    obtain rfl := Except.ok.inj h
    exact return_not_mem_left (register_named r) _

/-- Only padding can put a carriage return into a line. -/
theorem return_not_mem_field {f : Field} (hf : ∀ n, f ≠ .pad 0x0D n) (h : f.encode = .ok bs) :
    0x0D ∉ bs := by
  cases f with
  | int name value width => exact return_not_mem_int h
  | position name pos width =>
    rw [Field.encode] at h
    split at h
    · exact return_not_mem_int h
    · cases h
  | flag b =>
    obtain rfl := Except.ok.inj h
    cases b <;> decide
  | pad byte n =>
    obtain rfl := Except.ok.inj h
    intro hmem
    obtain rfl := List.eq_of_mem_replicate hmem
    exact hf n rfl
  | bytes name text =>
    obtain ⟨rfl, hplain⟩ := plainBytes_ok h
    exact hplain
  | register reg =>
    cases reg with
    | none =>
      obtain rfl := Except.ok.inj h
      exact return_not_mem_blanks _
    | some r =>
      obtain rfl := Except.ok.inj h
      exact return_not_mem_left (register_named r) _
  | key k =>
    cases k with
    | none =>
      obtain rfl := Except.ok.inj h
      exact return_not_mem_blanks _
    | some k =>
      obtain rfl := Except.ok.inj h
      exact return_not_mem_keyBytes k
  | keys s => exact return_not_mem_keys h
  | comparison c =>
    obtain rfl := Except.ok.inj h
    exact return_not_mem_left (comparison_named c) _
  | fileName file => exact return_not_mem_fileName h
  | filePosition p =>
    obtain rfl := Except.ok.inj h
    exact return_not_mem_left (filePosition_named p) _
  | operand o kind => exact return_not_mem_operand h

theorem return_not_mem_fields (hf : ∀ f ∈ fs, ∀ n, f ≠ .pad 0x0D n)
    (h : encodeFields fs = .ok bs) : 0x0D ∉ bs := by
  induction fs generalizing bs with
  | nil =>
    obtain rfl := Except.ok.inj h
    exact List.not_mem_nil
  | cons f rest ih =>
    obtain ⟨hfirst, hrest⟩ := List.forall_mem_cons.mp hf
    obtain ⟨as, cs, has, hcs, rfl⟩ := encodeFields_cons.mp h
    rw [List.mem_append, not_or]
    exact ⟨return_not_mem_field hfirst has, ih hrest hcs⟩

end Returns

section Keys

theorem key_known (k : Key) : k.code < Decimal.power keyWidth ∧ Key.ofCode? k.code = some k := by
  have hall : ∀ k ∈ Key.all, k.code < Decimal.power keyWidth ∧ Key.ofCode? k.code = some k := by
    decide +kernel
  exact hall k k.mem_all

theorem key_append (k : Key) (behind : List UInt8) :
    key (keyBytes k ++ behind) = (.ok (some k), behind) := by
  obtain ⟨hlt, hk⟩ := key_known k
  have hdigits : (keyBytes k).all (· == Text.fill) = false := by
    have hall : ∀ k ∈ Key.all, (keyBytes k).all (· == Text.fill) = false := by decide +kernel
    exact hall k k.mem_all
  have hcode : parseInt? (keyBytes k) = some k.code :=
    parseInt?_padded (by decide) hlt (Nat.lt_trans hlt (by decide))
  have hlen : (keyBytes k).length = keyWidth := Decimal.length_padded keyWidth k.code
  rw [key, run_bind, take_append hlen]
  dsimp only
  rw [hdigits, hcode, if_neg Bool.false_ne_true]
  show ((do return some (← ofOption (.unknownKey k.code) (Key.ofCode? k.code))) : Read _) behind = _
  rw [hk]
  rfl

theorem key_blanks (behind : List UInt8) : key (blanks keyWidth ++ behind) = (.ok none, behind) := by
  rw [key, run_bind, take_append (length_blanks _)]
  rfl

theorem reads_key (k : Option Key) : Reads key [.key k] k := by
  refine .of_encode fun bs behind hb => ?_
  cases k with
  | none =>
    obtain rfl : blanks keyWidth = bs := Except.ok.inj hb
    exact key_blanks behind
  | some k =>
    obtain rfl : keyBytes k = bs := Except.ok.inj hb
    exact key_append k behind

/-- The keys fill the first places and leave the others blank. -/
theorem keyPlaces_append {n : Nat} {ks : List Key} (h : ks.length ≤ n) (behind : List UInt8) :
    keyPlaces n (ks.flatMap keyBytes ++ blanks (keyWidth * (n - ks.length)) ++ behind) =
      (.ok ks, behind) := by
  induction n generalizing ks with
  | zero =>
    obtain rfl : ks = [] := List.length_eq_zero_iff.mp (Nat.le_zero.mp h)
    rfl
  | succ n ih =>
    cases ks with
    | nil =>
      have hblank : blanks (keyWidth * (n + 1)) = blanks keyWidth ++ blanks (keyWidth * n) := by
        rw [blanks, blanks, blanks, List.replicate_append_replicate, Nat.mul_succ, Nat.add_comm]
      have hrest := @ih [] (Nat.zero_le n)
      rw [keyPlaces, run_bind]
      simp only [List.flatMap_nil, List.nil_append, List.length_nil, Nat.sub_zero] at hrest ⊢
      rw [hblank, List.append_assoc, key_blanks]
      dsimp only
      rw [run_bind, hrest]
      rfl
    | cons k ks =>
      have hrest := @ih ks (Nat.le_of_succ_le_succ h)
      rw [keyPlaces, run_bind]
      simp only [List.flatMap_cons, List.length_cons, Nat.add_sub_add_right, List.append_assoc]
        at hrest ⊢
      rw [key_append]
      dsimp only
      rw [run_bind, hrest]
      rfl

theorem ofList_keys (s : KeySet) : KeySet.ofList s.keys = s := by
  have hnodup (ks : List Key) (h : ks.Pairwise (fun a b => a.rank < b.rank)) : ks.Nodup :=
    h.imp fun hlt he => Nat.ne_of_lt hlt (congrArg Key.rank he)
  have hperm : (KeySet.ofList s.keys).keys.Perm s.keys := by
    rw [List.perm_ext_iff_of_nodup (hnodup _ (KeySet.ofList s.keys).ascending) (hnodup _ s.ascending)]
    intro k
    simp [KeySet.ofList, k.mem_all]
  refine KeySet.ext (hperm.eq_of_pairwise ?_ (KeySet.ofList s.keys).ascending s.ascending)
  intro a b _ _ hab hba
  exact absurd hab (Nat.not_lt_of_gt hba)

theorem reads_keys (s : KeySet) : Reads keys [.keys s] s := by
  refine .of_encode fun bs behind hb => ?_
  rw [Field.encode] at hb
  split at hb
  · cases hb
  · next hsize =>
    obtain rfl := Except.ok.inj hb
    have hplaces := keyPlaces_append (Nat.le_of_not_lt hsize) behind
    rw [keys, run_bind]
    rw [KeySet.size, hplaces]
    dsimp only
    rw [ofList_keys]
    rfl

end Keys

section Writing

theorem intBytes_key (k : Key) : intBytes "key" k.code keyWidth = .ok (keyBytes k) := by
  have hwidth : ¬ widthLimit < keyWidth := by decide
  rw [intBytes, if_neg hwidth, if_pos ⟨by decide, (key_known k).1⟩]
  rfl

namespace Writer

/-- No key is refused. -/
theorem putKeys_eq (ks : List Key) (w : Writer) :
    w.putKeys ks = (.ok (), ⟨w.buffer ++ ks.flatMap keyBytes⟩) := by
  induction ks generalizing w with
  | nil => rw [putKeys, List.flatMap_nil, List.append_nil]
  | cons k ks ih =>
    have hrest := ih ⟨w.buffer ++ keyBytes k⟩
    rw [List.append_assoc] at hrest
    rw [putKeys, intBytes_key]
    exact hrest

/-- A field is appended as a whole, also a set whose keys are appended one by one. -/
theorem put_eq (w : Writer) (f : Field) :
    w.put f =
      if w.hasRoom f then
        match f.encode with
        | .error e => (.error e, w)
        | .ok bs => (.ok (), ⟨w.buffer ++ bs⟩)
      else (.error .overflow, w) := by
  unfold put
  cases f with
  | keys s =>
    have hroom : w.hasRoom (.keys s) = true := rfl
    rw [if_pos hroom, if_pos hroom, Field.encode]
    by_cases hsize : KeySet.special < s.size
    · simp only [if_pos hsize]
    · simp only [if_neg hsize, putKeys_eq, List.append_assoc]
  | _ => rfl

end Writer

end Writing

end Line
end Handheld
