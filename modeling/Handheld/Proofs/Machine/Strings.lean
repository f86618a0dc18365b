import Handheld.Proofs.Machine.Records
import Handheld.Proofs.Text.Splice

namespace Handheld.Machine

variable {m m' : Machine} {dst : Register} {pos : Nat} {piece : Text} {first : Slice}
  {second : Option Slice}

/-- The part of a slice that its register holds. -/
def part (m : Machine) (s : Slice) : Text := (m.registers.text s.reg).slice s.pos s.len

/-- The parts of one or two slices. -/
def parts (m : Machine) (first : Slice) (second : Option Slice) : List Text :=
  (first :: second.toList).map m.part

/-- A slice with blanks for what its register does not hold. -/
def paddedPart (m : Machine) (s : Slice) : Text := (m.part s).forceSize s.len Text.fill

/-- Padding the whole text of the register first makes no difference. -/
theorem paddedPart_eq (m : Machine) (s : Slice) :
    m.paddedPart s = ((m.registers.text s.reg).forceSize (s.pos + s.len) Text.fill).slice s.pos s.len :=
  (Text.slice_forceSize _ s.pos s.len Text.fill).symm

/-- What writing a piece over a text register does to a machine. -/
structure Splices (m : Machine) (dst : Register) (pos : Nat) (piece : Text) (m' : Machine) : Prop where
  stored : m'.registers.stored? dst = some (.text (m'.registers.text dst))
  spliced : (m.registers.text dst).Spliced pos piece (m'.registers.text dst)
  others : ∀ r, r ≠ dst →
    m'.registers.get r = m.registers.get r ∧ m'.registers.stored? r = m.registers.stored? r
  rest : m' = { m with registers := m'.registers }

section Operations

theorem available_run (m : Machine) (s : Slice) : Act.available s m = (.ok (m.part s), m) := by
  rw [part, ← Text.slice_min]
  rfl

theorem availableAll_run (m : Machine) (ss : List Slice) :
    Act.availableAll ss m = (.ok (ss.map m.part), m) := by
  induction ss with
  | nil => rfl
  | cons s rest ih =>
    rw [Act.availableAll, Act.run_bind, available_run]
    simp only [Act.run_bind, ih]
    rfl

/-- The register is padded up to the end of the slice, and the slice is cut out of that. -/
theorem padded_run (m : Machine) (s : Slice) (h : s.pos + s.len < Text.sizeLimit) :
    Act.padded s m = (.ok (m.paddedPart s), m) := by
  have hforced : (m.registers.text s.reg).forced (s.pos + s.len) = _ := Text.forced_eq h
  rw [Act.padded, Act.run_bind, paddedPart_eq]
  simp only [Act.textOf, Act.read, hforced]
  rfl

theorem padded_overflow (m : Machine) (s : Slice) (h : Text.sizeLimit ≤ s.pos + s.len) :
    Act.padded s m = (.error .overflow, m) := by
  have hforced : (m.registers.text s.reg).forced (s.pos + s.len) = _ := Text.forced_overflow h
  rw [Act.padded, Act.run_bind]
  simp only [Act.textOf, Act.read, hforced]
  rfl

theorem overwrite_run (m : Machine) (dst : Register) {pos : Nat} {piece : Text}
    (h : pos + piece.length < Text.sizeLimit) :
    Act.overwrite dst pos piece m = Act.set dst (.text ((m.registers.text dst).replace pos piece)) m := by
  have hwritten : (m.registers.text dst).overwrite pos piece = _ := Text.overwrite_eq h
  rw [Act.overwrite, Act.run_bind]
  simp only [Act.textOf, Act.read, hwritten]
  rfl

/-- Growing first and writing the parts one behind the other leaves what writing all of them at once
would leave. -/
theorem stringConcat_run (m : Machine) (dst : Register) {pos : Nat} {first : Slice} {second : Option Slice}
    (h : pos + (Text.join (m.parts first second)).length < Text.sizeLimit) :
    Act.stringConcat dst pos first second m =
      Act.set dst (.text ((m.registers.text dst).replace pos (.join (m.parts first second)))) m := by
  have hgrown := (m.registers.text dst).grow_pieces h
  have hwritten := Text.overwriteEach_grown (m.registers.text dst) pos (m.parts first second) h
  rw [Act.stringConcat, Act.run_bind, availableAll_run, ← parts]
  simp only [Act.run_bind, Act.textOf, Act.read, hgrown, Act.checked, Act.run_pure, hwritten]

theorem stringConcat_overflow (m : Machine) (dst : Register) {pos : Nat} {first : Slice}
    {second : Option Slice} (hheld : (m.registers.text dst).length < Text.sizeLimit)
    (h : Text.sizeLimit ≤ pos + (Text.join (m.parts first second)).length) :
    Act.stringConcat dst pos first second m = (.error .overflow, m) := by
  have hgrown : (m.registers.text dst).grow (pos + (Text.join (m.parts first second)).length) = _ :=
    Text.grow_overflow hheld h
  rw [Act.stringConcat, Act.run_bind, availableAll_run, ← parts]
  simp only [Act.run_bind, Act.textOf, Act.read, Text.lengths_eq, hgrown]
  rfl

theorem splices_store (hkind : dst.kind = .text) :
    m.Splices dst pos piece { m with
      registers := m.registers.store dst (.text ((m.registers.text dst).replace pos piece)) } := by
  have hnow : (m.registers.store dst (.text ((m.registers.text dst).replace pos piece))).text dst =
      (m.registers.text dst).replace pos piece := by
    rw [RegisterStore.text, RegisterStore.get_store, if_pos rfl, hkind]
    rfl
  refine ⟨?_, ?_, fun r hr => ⟨?_, ?_⟩, rfl⟩
  · dsimp only
    rw [hnow, RegisterStore.stored?_store, if_pos rfl, hkind]
    rfl
  · dsimp only
    rw [hnow]
    exact Text.spliced_replace _ pos piece
  · exact (m.registers.get_store dst r _).trans (if_neg hr.symm)
  · exact (m.registers.stored?_store dst r _).trans (if_neg hr.symm)

end Operations

/-- What the destination holds is settled by what was there. -/
theorem Splices.text_eq (h : m.Splices dst pos piece m') :
    m'.registers.text dst = (m.registers.text dst).replace pos piece :=
  h.spliced.unique (Text.spliced_replace _ pos piece)

theorem Splices.get_eq (h : m.Splices dst pos piece m') :
    m'.registers.get dst = .text ((m.registers.text dst).replace pos piece) := by
  rw [RegisterStore.get, h.stored, h.text_eq]
  rfl

/-- What is put together is spliced into the destination: the parts that two registers hold, or one part
padded to its length. The destination may be one of the sources. -/
theorem execute_splices (reply : LinkReply) (m : Machine) (dst : Register) (hkind : dst.kind = .text)
    (huser : dst.isSystem = false) (pos : Nat) :
    (∀ first second, pos + (Text.join (m.parts first second)).length < Text.sizeLimit →
      ∃ m', Act.execute reply (.stringConcat dst pos first second) m = (.ok (), m') ∧
        m.Splices dst pos (.join (m.parts first second)) m') ∧
    ∀ src : Slice, src.pos + src.len < Text.sizeLimit → pos + src.len < Text.sizeLimit →
      ∃ m', Act.execute reply (.extractCopy dst pos src) m = (.ok (), m') ∧
        (m.paddedPart src).length = src.len ∧ m.Splices dst pos (m.paddedPart src) m' := by
  constructor
  · intro first second hfits
    have hrun : Act.execute reply (.stringConcat dst pos first second) m = _ := stringConcat_run m dst hfits
    rw [set_eq huser] at hrun
    exact ⟨_, hrun, splices_store hkind⟩
  · intro src hread hfits
    have hlength : (m.paddedPart src).length = src.len := Text.length_forceSize ..
    have hrun : Act.execute reply (.extractCopy dst pos src) m =
        Act.overwrite dst pos (m.paddedPart src) m := by
      rw [Act.execute, Act.run_bind, padded_run m src hread]
    rw [overwrite_run m dst (by rwa [hlength]), set_eq huser] at hrun
    exact ⟨_, hrun, hlength, splices_store hkind⟩

/-- A machine with texts in two registers. -/
def spelled : Machine :=
  { idle with
    registers := (idle.registers.store (.dat (Fin.last 9)) (.text (.ofString "abc"))).store
      (.usr (Fin.last 2)) (.text (.ofString "xy")) }

/-- The destination is also a source, it ends before the place of the piece, and the slices reach past
what their registers hold. -/
theorem execute_splices_overlapping :
    (∃ m', Act.execute ⟨.empty, []⟩ (.stringConcat (.dat (Fin.last 9)) 5 ⟨.dat (Fin.last 9), 1, 9⟩
        (some ⟨.usr (Fin.last 2), 0, 4⟩)) spelled = (.ok (), m') ∧
      m'.registers.get (.dat (Fin.last 9)) = .text (.ofString "abc  bcxy") ∧
      m'.registers.get (.usr (Fin.last 2)) = .text (.ofString "xy")) ∧
    ∃ m', Act.execute ⟨.empty, []⟩ (.extractCopy (.dat (Fin.last 9)) 1 ⟨.dat (Fin.last 9), 2, 3⟩)
        spelled = (.ok (), m') ∧
      m'.registers.get (.dat (Fin.last 9)) = .text (.ofString "ac  ") := by
  have huser : (Register.dat (Fin.last 9)).isSystem = false := rfl
  constructor
  · obtain ⟨hconcat, -⟩ := execute_splices ⟨.empty, []⟩ spelled (.dat (Fin.last 9)) rfl huser 5
    obtain ⟨m', hrun, hsplices⟩ := hconcat ⟨.dat (Fin.last 9), 1, 9⟩ (some ⟨.usr (Fin.last 2), 0, 4⟩)
      (by decide)
    refine ⟨m', hrun, ?_, (hsplices.others _ (by decide)).1⟩
    rw [hsplices.get_eq]
    decide
  · obtain ⟨-, hextract⟩ := execute_splices ⟨.empty, []⟩ spelled (.dat (Fin.last 9)) rfl huser 1
    obtain ⟨m', hrun, -, hsplices⟩ := hextract ⟨.dat (Fin.last 9), 2, 3⟩ (by decide) (by decide)
    refine ⟨m', hrun, ?_⟩
    rw [hsplices.get_eq]
    decide

/-- No text has the length that a slice or a place far out asks for, also if nothing is to be written
there; and only the terminal writes some of the text registers. -/
theorem not_every_string_splices :
    (¬ ∀ (reply : LinkReply) (m : Machine) (dst : Register) (pos : Nat) (src : Slice), dst.kind = .text →
      dst.isSystem = false → src.pos + src.len < Word.limit → pos + src.len < Word.limit →
      ∃ m', Act.execute reply (.extractCopy dst pos src) m = (.ok (), m')) ∧
    (¬ ∀ (reply : LinkReply) (m : Machine) (dst : Register) (pos : Nat) (first : Slice)
      (second : Option Slice), dst.kind = .text → dst.isSystem = false →
      pos + (Text.join (m.parts first second)).length < Word.limit →
      ∃ m', Act.execute reply (.stringConcat dst pos first second) m = (.ok (), m')) ∧
    ¬ ∀ (reply : LinkReply) (m : Machine) (dst : Register) (pos : Nat) (first : Slice)
      (second : Option Slice), dst.kind = .text →
      pos + (Text.join (m.parts first second)).length < Text.sizeLimit →
      ∃ m', Act.execute reply (.stringConcat dst pos first second) m = (.ok (), m') := by
  refine ⟨fun h => ?_, fun h => ?_, fun h => ?_⟩
  · obtain ⟨m', hrun⟩ := h ⟨.empty, []⟩ spelled (.dat (Fin.last 9)) 0
      ⟨.usr (Fin.last 2), Text.sizeLimit, 0⟩ rfl rfl (by decide) (by decide)
    rw [Act.execute, Act.run_bind, padded_overflow spelled _ (by decide)] at hrun
    cases hrun
  · obtain ⟨m', hrun⟩ := h ⟨.empty, []⟩ spelled (.dat (Fin.last 9)) Text.sizeLimit
      ⟨.usr (Fin.last 2), 2, 0⟩ none rfl rfl (by decide)
    rw [Act.execute, stringConcat_overflow spelled _ (by decide) (by decide)] at hrun
    cases hrun
  · obtain ⟨m', hrun⟩ := h ⟨.empty, []⟩ spelled .htid 0 ⟨.usr (Fin.last 2), 0, 2⟩ none rfl (by decide)
    rw [Act.execute, stringConcat_run spelled _ (by decide)] at hrun
    cases hrun

end Handheld.Machine
