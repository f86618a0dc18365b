import Handheld.Proofs.Machine.Safe
import Handheld.Proofs.ProgramFile.Decoded

namespace Handheld.Machine

/-- A machine that runs a program comes to be like this. `n` counts the beeps of its screen and the key
codes that have come since the program was loaded. -/
inductive Visited (p : Program) : Nat → Machine → Prop where
  | start {clock : Clock} {screen : Screen} {m : Machine} (load : Machine.load p clock screen = .ok m)
      (registers : RegisterStore) (files : FileArea) (keys : KeyQueue) (watcher : Nat)
      (whole : ∀ name f, files.get? name = some f → f.Whole) (exact : screen.Exact) :
      Visited p (screen.beeps + keys.unread.length) { m with registers, files, keys, watcher }
  | step {n : Nat} {m : Machine} (h : Visited p n m) {reply : LinkReply} (fits : reply.Fits) :
      Visited p n (m.step reply).2
  | exhausted {n : Nat} {m : Machine} (h : Visited p n m) : Visited p n (Machine.exhausted m).2
  /-- Keypads press keys or ask to terminate. -/
  | keys {n : Nat} {m : Machine} (h : Visited p n m) (keys : KeyQueue) :
      Visited p (n + (keys.unread.length - m.keys.unread.length)) { m with keys }

/-- All that the operations take from the parts of the machine is there: records that are searched,
cells that are drawn and have been drawn, and the number of beeps; and only values of one kind are
compared. -/
structure InRange (n : Nat) (m : Machine) : Prop where
  files : ∀ name f, m.files.get? name = some f → f.Whole ∧
    ∀ len fields key, f.search? len fields key = .ok (f.search len fields key)
  drawings : ∀ d, m.screen.applied? d = .ok (m.screen.apply d)
  damage : ∀ d ∈ m.journal.damage, d.Within m.screen
  beeps : m.screen.beeps + m.keys.unread.length ≤ n
  comparisons : ∀ a b : Value, a.matched? (b.coerce a.kind) = some (a.order b)

variable {p q : Program} {n : Nat} {m : Machine}

theorem Sane.inRange (h : m.Sane q n 0) : m.InRange n where
  files name f hf := ⟨h.files name f hf, (h.files name f hf).size |> RecordFile.search?_eq⟩
  drawings d := h.screen.applied?_eq d
  damage := h.damage
  beeps := h.beeps
  comparisons a b := a.matched?_coerce b

theorem Sane.exhausted (h : m.Sane q n 0) : (Machine.exhausted m).2.Sane q n 0 := by
  have hunread := congrArg List.length m.keys.unread_exhausted
  simp only [Machine.exhausted, Act.run_bind, Act.read]
  rcases hex : m.keys.exhausted with ⟨ended, keys⟩
  rw [hex] at hunread
  obtain ⟨m', hadopt, hp, hf, hs, hd, hk⟩ := Act.adopt_eq keys m
  have hsane : m'.Sane q n 0 := h.congr hp hf hs hd (hk ▸ hunread)
  simp only [hadopt]
  cases ended with
  | false => exact hsane
  | true => exact hsane.congr rfl rfl rfl rfl rfl

/-- Every machine that a run comes to runs the linked program and is sane. -/
theorem Visited.sane (hq : p.link = .ok q) (hb : ∀ o, .op o ∈ q.code → o.Bounded)
    (h : Visited p n m) : m.Sane q n 0 := by
  induction h with
  | @start clock screen m load registers files keys watcher whole exact =>
    rw [Machine.load, hq] at load
    cases load
    exact ⟨rfl, whole, exact, by simp [Journal.empty], Nat.le_refl _⟩
  | step _ fits ih => exact (ih.step hb fits).2
  | exhausted _ ih => exact ih.exhausted
  | keys _ keys ih =>
    have hbeeps := ih.beeps
    refine ⟨ih.program, ih.files, ih.screen, ih.damage, ?_⟩
    dsimp only
    omega

/-- Whatever has been read from a file runs in range, and a step overflows only by writing a record
that makes its file longer than a text can be. -/
theorem decoded_in_range {bytes : List UInt8} (hp : ProgramFile.decode bytes = .ok p)
    (hm : Visited p n m) {reply : LinkReply} (hr : reply.Fits) :
    m.InRange n ∧ ((m.step reply).1 = .error .overflow ↔ m.Overfills) := by
  obtain ⟨q, hlink, hcode⟩ := (ProgramFile.linkable_of_decode hp).links
  have hb : ∀ o, .op o ∈ q.code → o.Bounded := by
    intro o ho
    exact ProgramFile.bounded_of_decode hp (hcode ▸ ho)
  have hsane := hm.sane hlink hb
  exact ⟨hsane.inRange, (hsane.step hb hr).1⟩

/-- A program that appends a record to a log. -/
def logging : Program :=
  ⟨⟨.empty, .empty, .none, false, .small12⟩,
    [.op (.recordWrite (.literal (.ofString "LOG")) 10 .htid false true)], .initial⟩

/-- The file of the program that appends a record to a log. -/
def loggingFile : List UInt8 :=
  Utf8.encode "041A                           21201600\r\n031F01LOG         00101HTID 0\r\n"

/-- The second step appends a record to a log that is there. -/
theorem decoded_in_range_logging :
    ∃ m, Visited logging 0 m ∧ m.InRange 0 ∧
      ((m.step ⟨.empty, []⟩).1 = .error .overflow ↔ m.Overfills) := by
  have hdecode : ProgramFile.decode loggingFile = .ok logging := by rfl
  obtain ⟨q, hlink, -⟩ := (ProgramFile.linkable_of_decode hdecode).links
  have hload : Machine.load logging ⟨2020, 1, 1, 0, 0, 0⟩ (.blank 8 16) =
      .ok ⟨q, .initial ⟨2020, 1, 1, 0, 0, 0⟩, .empty, .blank 8 16, .initial, 0, false, 0, .empty⟩ := by
    rw [Machine.load, hlink]
    rfl
  have hwhole : ∀ name f, (FileArea.empty.put (.ofString "LOG") (.ofText (.ofString "a"))).get? name =
      some f → f.Whole := by
    intro name f hf
    rw [FileArea.get?_put] at hf
    split at hf
    · cases hf
      exact ⟨Nat.zero_le _, by decide⟩
    · cases hf
  have hstart := Visited.start hload (.initial ⟨2020, 1, 1, 0, 0, 0⟩) _ .initial 0 hwhole
    (Screen.exact_blank 8 16)
  have hfits : LinkReply.Fits ⟨.empty, []⟩ := by simp [LinkReply.Fits, Transfer.empty]
  exact ⟨_, hstart.step hfits, decoded_in_range hdecode (hstart.step hfits) hfits⟩

end Handheld.Machine
