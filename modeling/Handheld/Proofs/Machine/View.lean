import Handheld.Proofs.Machine.Operation

namespace Handheld.Machine

/-- Notes that tell where the program stands. -/
def Note.ofPlace : Note → Bool
  | .starting .. | .executing .. | .terminated _ => true
  | _ => false

@[ext] structure View where
  registers : RegisterStore
  files : FileArea
  screen : Screen
  keys : KeyQueue
  started : Bool
  watcher : Nat
  notes : List Note
  damage : List Screen.Damage
  slept : Nat

def view (m : Machine) : View :=
  ⟨m.registers, m.files, m.screen, m.keys, m.started, m.watcher,
    m.journal.notes.filter (!·.ofPlace), m.journal.damage, m.journal.slept⟩

/-- The action depends on what can be seen only, keeps program and place, and starts nothing. -/
structure Act.Placeless {α : Type} (act : Act α) : Prop where
  result : ∀ m m' : Machine, m.view = m'.view → (act m).1 = (act m').1
  view : ∀ m m' : Machine, m.view = m'.view → (act m).2.view = (act m').2.view
  program : ∀ m, (act m).2.program = m.program
  pc : ∀ m, (act m).2.pc = m.pc
  started : ∀ m, (act m).2.started = m.started

namespace Act.Placeless

variable {α β : Type}

theorem pure (a : α) : Placeless (Pure.pure a : Act α) :=
  ⟨fun _ _ _ => rfl, fun _ _ h => h, fun _ => rfl, fun _ => rfl, fun _ => rfl⟩

theorem stop (s : Stop) : Placeless (Act.stop s : Act α) :=
  ⟨fun _ _ _ => rfl, fun _ _ h => h, fun _ => rfl, fun _ => rfl, fun _ => rfl⟩

theorem bind {act : Act α} {next : α → Act β} (h : Placeless act)
    (hn : ∀ a, Placeless (next a)) : Placeless (act >>= next) := by
  -- a failed action ends the whole, a successful one hands over its machine
  have split (m : Machine) : (∃ s, act m = (.error s, (act m).2)) ∨
      ∃ a, act m = (.ok a, (act m).2) := by
    rcases hr : act m with ⟨s | a, m₁⟩
    · exact .inl ⟨s, rfl⟩
    · exact .inr ⟨a, rfl⟩
  have same (m m' : Machine) (hv : m.view = m'.view) :
      ((act >>= next) m).1 = ((act >>= next) m').1 ∧
        ((act >>= next) m).2.view = ((act >>= next) m').2.view := by
    have hr := h.result m m' hv
    have hw := h.view m m' hv
    rw [run_bind, run_bind]
    rcases hm : act m with ⟨r, m₁⟩
    rcases hm' : act m' with ⟨r', m₁'⟩
    rw [hm, hm'] at hr hw
    obtain rfl : r = r' := hr
    cases r with
    | error s => exact ⟨rfl, hw⟩
    | ok a => exact ⟨(hn a).result _ _ hw, (hn a).view _ _ hw⟩
  refine ⟨fun m m' hv => (same m m' hv).1, fun m m' hv => (same m m' hv).2, ?_, ?_, ?_⟩
  all_goals
    intro m
    rw [run_bind]
    rcases split m with ⟨s, hs⟩ | ⟨a, ha⟩
  · rw [hs]; exact h.program m
  · rw [ha]; exact ((hn a).program _).trans (h.program m)
  · rw [hs]; exact h.pc m
  · rw [ha]; exact ((hn a).pc _).trans (h.pc m)
  · rw [hs]; exact h.started m
  · rw [ha]; exact ((hn a).started _).trans (h.started m)

/-- Reading something that can be seen. -/
theorem read (g : View → α) : Placeless (Act.read fun m => g m.view) := by
  refine ⟨fun m m' hv => ?_, fun _ _ hv => hv, fun _ => rfl, fun _ => rfl, fun _ => rfl⟩
  show Except.ok (g m.view) = .ok (g m'.view)
  rw [hv]

/-- Changing something that can be seen. -/
theorem update {f : Machine → Machine} (g : View → View) (h : ∀ m, (f m).view = g m.view)
    (hk : ∀ m, (f m).program = m.program ∧ (f m).pc = m.pc ∧ (f m).started = m.started) :
    Placeless (Act.update f) := by
  refine ⟨fun _ _ _ => rfl, fun m m' hv => ?_, fun m => (hk m).1, fun m => (hk m).2.1,
    fun m => (hk m).2.2⟩
  show (f m).view = (f m').view
  rw [h, h, hv]

theorem checked (r : Except Overflow α) : Placeless (Act.checked r) := by
  cases r with
  | error e => exact stop _
  | ok a => exact pure a

theorem lift (r : Except Fault α) : Placeless (Act.lift r) := by
  cases r with
  | error f => exact stop _
  | ok a => exact pure a

theorem note (n : Note) : Placeless (Act.note n) := by
  refine update (fun v => { v with notes := if n.ofPlace then v.notes else n :: v.notes }) (fun m => ?_)
    fun _ => ⟨rfl, rfl, rfl⟩
  cases h : n.ofPlace <;> simp [Machine.view, h]

theorem change (f : RegisterStore → Except Fault RegisterStore) : Placeless (Act.change f) :=
  bind (read (·.registers)) fun s =>
    bind (lift (f s)) fun t =>
      update (fun v => { v with registers := t }) (fun _ => rfl) fun _ => ⟨rfl, rfl, rfl⟩

theorem set (r : Register) (v : Value) : Placeless (Act.set r v) := change _

theorem setSystem (r : Register) (v : Value) : Placeless (Act.setSystem r v) := change _

theorem reset (r : Register) : Placeless (Act.reset r) := change _

theorem putFile (name : Text) (f : RecordFile) : Placeless (Act.putFile name f) :=
  update (fun v => { v with files := v.files.put name f }) (fun _ => rfl) fun _ => ⟨rfl, rfl, rfl⟩

def paint (v : View) (d : Screen.Drawing) : View :=
  { v with screen := v.screen.apply d, damage := (v.screen.damage d).reverse ++ v.damage }

/-- The watcher's share in drawing a text. -/
def countDown (v : View) : View :=
  match v.watcher with
  | 0 => v
  | 1 => { v with watcher := 0, keys := v.keys.terminate }
  | n + 2 => { v with watcher := n + 1 }

theorem view_watched (m : Machine) : (watched m).view = countDown m.view := by
  rcases m with ⟨_, _, _, _, _, _, _, _ | _ | _, _⟩ <;> rfl

/-- A drawing, together with the watcher that a text wakes. -/
def drawn (v : View) : Screen.Drawing → View
  | .text row col t => countDown (paint v (.text row col t))
  | d => paint v d

theorem draw (d : Screen.Drawing) : Placeless (Act.draw d) := by
  refine update (drawn · d) ?_ ?_
  · intro m
    cases d <;> first | exact view_watched _ | rfl
  · rintro ⟨_, _, _, _, _, _, _, _ | _ | _, _⟩
    all_goals cases d <;> exact ⟨rfl, rfl, rfl⟩

/-- What operations are made of goes by what can be seen, whatever they do. -/
theorem laws : Laws ⟨fun _ => True, True, fun _ => True, True⟩ Placeless where
  pure := pure
  bind := bind
  waiting := stop _
  checked := checked
  read g := read fun v => g v.registers v.files v.screen v.keys
  note := note
  keys keys := update (fun v => { v with keys }) (fun _ => rfl) fun _ => ⟨rfl, rfl, rfl⟩
  slept keys ms :=
    update (fun v => { v with keys, slept := v.slept + ms }) (fun _ => rfl) fun _ => ⟨rfl, rfl, rfl⟩
  set _ v := set _ v
  reset _ := reset _
  setSystem _ r _ v := setSystem r v
  putFile _ f := putFile _ f
  delete _ :=
    update (fun v => { v with files := v.files.delete _ }) (fun _ => rfl) fun _ => ⟨rfl, rfl, rfl⟩
  beep := draw _
  draw _ d := draw d

theorem valueOf (o : Operand) : Placeless (Act.valueOf o) := laws.valueOf o

/-- No operation depends on the program that it stands in or on its place there. -/
theorem execute (reply : LinkReply) (o : Operation) : Placeless (Act.execute reply o) :=
  laws.execute trivial (fun _ => trivial) trivial reply fun _ _ => trivial

theorem showTitle (t : Title) : Placeless (Act.showTitle t) := laws.showTitle trivial t

end Act.Placeless
end Handheld.Machine
