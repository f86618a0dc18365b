import Handheld.Proofs.Machine.View
import Handheld.Proofs.Program.Renamed

namespace Handheld.Machine

open Program

variable {f : Label → Label} {p q : Program}

/-- The machines run the two programs, look the same, and stand in the same place. -/
structure Beside (p q : Program) (m m' : Machine) : Prop where
  program : m.program = p
  program' : m'.program = q
  view : m.view = m'.view
  pc : m.pc = m'.pc

/-- On machines beside each other the actions yield the same and leave the machines beside each
other. -/
def Act.Mirror {α : Type} (p q : Program) (act act' : Act α) : Prop :=
  ∀ m m', Beside p q m m' → (act m).1 = (act' m').1 ∧ Beside p q (act m).2 (act' m').2

namespace Act.Mirror

variable {α β : Type}

theorem placeless {act : Act α} (h : act.Placeless) : Mirror p q act act := by
  intro m m' hb
  exact ⟨h.result m m' hb.view, (h.program m).trans hb.program, (h.program m').trans hb.program',
    h.view m m' hb.view, (h.pc m).trans (hb.pc.trans (h.pc m').symm)⟩

theorem bind {act act' : Act α} {next next' : α → Act β} (h : Mirror p q act act')
    (hn : ∀ a, Mirror p q (next a) (next' a)) : Mirror p q (act >>= next) (act' >>= next') := by
  intro m m' hb
  obtain ⟨hr, hb'⟩ := h m m' hb
  rw [run_bind, run_bind]
  rcases hm : act m with ⟨r, m₁⟩
  rcases hm' : act' m' with ⟨r', m₁'⟩
  rw [hm, hm'] at hr hb'
  obtain rfl : r = r' := hr
  cases r with
  | error s => exact ⟨rfl, hb'⟩
  | ok a => exact hn a m₁ m₁' hb'

/-- Each action works with its own program. -/
theorem readProgram {next next' : Program → Act α} (h : Mirror p q (next p) (next' q)) :
    Mirror p q (Act.read Machine.program >>= next) (Act.read Machine.program >>= next') := by
  intro m m' hb
  obtain ⟨hp, hq⟩ := And.intro hb.program hb.program'
  have hread : (Act.read Machine.program >>= next) m = next p m := by rw [← hp]; rfl
  have hread' : (Act.read Machine.program >>= next') m' = next' q m' := by rw [← hq]; rfl
  rw [hread, hread']
  exact h m m' hb

theorem readPc {next next' : Nat → Act α} (h : ∀ pc, Mirror p q (next pc) (next' pc)) :
    Mirror p q (Act.read Machine.pc >>= next) (Act.read Machine.pc >>= next') := by
  intro m m' hb
  have hread : (Act.read Machine.pc >>= next') m' = next' m.pc m' := by rw [hb.pc]; rfl
  rw [hread]
  exact h m.pc m m' hb

theorem setPc (pc : Nat) :
    Mirror p q (Act.update fun m => { m with pc }) (Act.update fun m => { m with pc }) :=
  fun _ _ hb => ⟨rfl, hb.program, hb.program', hb.view, rfl⟩

/-- Notes that tell places are not seen. -/
theorem note {n n' : Note} (hn : n.ofPlace = true) (hn' : n'.ofPlace = true) :
    Mirror p q (Act.note n) (Act.note n') := by
  intro m m' hb
  refine ⟨rfl, hb.program, hb.program', ?_, hb.pc⟩
  have hseen (m : Machine) {n : Note} (hn : n.ofPlace = true) : (Act.note n m).2.view = m.view := by
    simp [Act.note, Act.update, Machine.view, hn]
  rw [hseen m hn, hseen m' hn']
  exact hb.view

theorem jump {t : Label} (hindex : q.labels.get .index (f t) = p.labels.get .index t)
    (hentry : f t = .entry ↔ t = .entry) : Mirror p q (Act.jump t) (Act.jump (f t)) := by
  refine readProgram ?_
  rw [hindex]
  refine bind (placeless (.lift _)) fun pc => bind (setPc pc) fun _ => ?_
  have hstep : (if t = .entry then Step.returned else .running) =
      if f t = .entry then .returned else .running := by
    simp only [hentry]
  rw [hstep]
  exact placeless (.pure _)

theorem holds (c : Condition) : Act.Placeless (Act.holds c) :=
  .bind (.read (·.registers.get c.left)) fun _ => .bind (.valueOf c.right) fun _ => .pure _

/-- An instruction of the program and the renamed one. -/
theorem run (h : Mirrors f p q) (reply : LinkReply) {i : Instruction} (hi : i ∈ p.code) :
    Mirror p q (Act.run reply i) (Act.run reply (i.rename f)) := by
  cases i with
  | label l => exact placeless (.pure _)
  | jump t => exact jump (h.index _ hi t rfl) (h.entry _ hi t rfl)
  | jumpIf c t =>
    refine bind (placeless (holds c)) fun b => ?_
    cases b with
    | false => exact placeless (.pure _)
    | true => exact jump (h.index _ hi t rfl) (h.entry _ hi t rfl)
  | op o => exact bind (placeless (.execute reply o)) fun _ => placeless (.pure _)

theorem fetch (h : Mirrors f p q) (reply : LinkReply) :
    Mirror p q (Act.fetch reply) (Act.fetch reply) := by
  refine readPc fun pc => readProgram ?_
  have hcode : q.code[pc]? = p.code[pc]?.map (.rename f) := by rw [h.code, List.getElem?_map]
  rw [hcode]
  cases hi : p.code[pc]? with
  | none => exact placeless (.stop _)
  | some i =>
    exact bind (setPc (pc + 1)) fun _ => bind (note rfl rfl) fun _ =>
      run h reply (List.mem_of_getElem? hi)

theorem start (h : Mirrors f p q) : Mirror p q Act.start Act.start := by
  refine readProgram ?_
  rw [h.title]
  refine bind (fun m m' hb => ?_) fun _ => bind (note rfl rfl) fun _ =>
    bind (placeless (.showTitle _)) fun _ => placeless (.pure _)
  have hview (m : Machine) : ({ m with started := true } : Machine).view =
      { m.view with started := true } := rfl
  refine ⟨rfl, hb.program, hb.program', ?_, hb.pc⟩
  show ({ m with started := true } : Machine).view = ({ m' with started := true } : Machine).view
  rw [hview, hview, hb.view]

theorem step (h : Mirrors f p q) (reply : LinkReply) :
    Mirror p q (Act.step reply) (Act.step reply) := by
  refine bind (placeless (.read (·.keys))) fun keys => ?_
  cases keys.cancelled with
  | true => exact placeless (.pure _)
  | false =>
    have hlast (s : Step) : Act.Placeless (do
        return if (← Act.read Machine.keys).cancelled then Step.terminated else s) :=
      .bind (.read (·.keys)) fun _ => .pure _
    refine bind (placeless (.read (·.started))) fun started => ?_
    cases started with
    | true => exact bind (fetch h reply) fun s => placeless (hlast s)
    | false => exact bind (start h) fun s => placeless (hlast s)

end Act.Mirror

variable {σ : Type} {m m' : Machine}

/-- One step. -/
theorem Beside.step (hb : Beside p q m m') (h : Mirrors f p q) (reply : LinkReply) :
    (m.step reply).1 = (m'.step reply).1 ∧ Beside p q (m.step reply).2 (m'.step reply).2 := by
  obtain ⟨hr, hb'⟩ := Act.Mirror.step h reply m m' hb
  unfold Machine.step
  rcases hm : Act.step reply m with ⟨r, m₁⟩
  rcases hm' : Act.step reply m' with ⟨r', m₁'⟩
  rw [hm, hm'] at hr hb'
  obtain rfl : r = r' := hr
  -- a step that waits is taken back on both sides
  match r with
  | .error .waiting => exact ⟨rfl, hb⟩
  | .error (.fault _) | .error .overflow | .ok _ => exact ⟨rfl, hb'⟩

theorem Beside.request? (hb : Beside p q m m') (h : Mirrors f p q) : m.request? = m'.request? := by
  have hcode : m'.program.code[m'.pc]? = m.program.code[m.pc]?.map (.rename f) := by
    rw [hb.program', hb.program, ← hb.pc, h.code, List.getElem?_map]
  have hkeys : m.keys = m'.keys := congrArg View.keys hb.view
  have hstarted : m.started = m'.started := congrArg View.started hb.view
  have hfiles : m.files = m'.files := congrArg View.files hb.view
  have hregisters : m.registers = m'.registers := congrArg View.registers hb.view
  unfold Machine.request?
  rw [hcode, hkeys, hstarted, hfiles, hregisters]
  cases m.program.code[m.pc]? with
  | none => rfl
  | some i => cases i <;> rfl

/-- One step with a link at hand, which is asked the same. -/
theorem Beside.stepWith (hb : Beside p q m m') (h : Mirrors f p q) (link : Link σ) (s : σ) :
    (m.stepWith link s).1 = (m'.stepWith link s).1 ∧
      (m.stepWith link s).2.2 = (m'.stepWith link s).2.2 ∧
      Beside p q (m.stepWith link s).2.1 (m'.stepWith link s).2.1 := by
  unfold Machine.stepWith
  rw [hb.request? h]
  cases m'.request? with
  | none =>
    obtain ⟨hr, hb'⟩ := hb.step h ⟨.empty, []⟩
    exact ⟨hr, rfl, hb'⟩
  | some request =>
    obtain ⟨hr, hb'⟩ := hb.step h (link request s).1
    exact ⟨hr, rfl, hb'⟩

/-- What each of the first `n` steps answers, and how the terminal looks, where it stands and what
the link is like behind the step. -/
def steps (link : Link σ) : Nat → Machine → σ → List (Except Stop Step × View × Nat × σ)
  | 0, _, _ => []
  | n + 1, m, s =>
    let (r, m, s) := m.stepWith link s
    (r, m.view, m.pc, s) :: steps link n m s

/-- Any number of steps. -/
theorem Beside.steps (hb : Beside p q m m') (h : Mirrors f p q) (link : Link σ) (n : Nat) (s : σ) :
    Machine.steps link n m s = Machine.steps link n m' s := by
  induction n generalizing m m' s with
  | zero => rfl
  | succ n ih =>
    obtain ⟨hr, hs, hb'⟩ := hb.stepWith h link s
    simp only [Machine.steps]
    rw [hr, hs, hb'.view, hb'.pc, ih hb']

end Handheld.Machine
