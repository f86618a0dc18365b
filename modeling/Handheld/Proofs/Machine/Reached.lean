import Handheld.Proofs.Flow.Linked
import Handheld.Proofs.Machine.Faultless

namespace Handheld.Machine

/-- A machine that runs a program from its beginning comes to be like this: by a step with any reply
of the link, or because something else than program and place changes in between, such as the keys
that have been pressed. -/
inductive Reached (p : Program) : Machine → Prop where
  | start {m : Machine} (program : m.program = p) (place : m.pc = 0) : Reached p m
  | step {m : Machine} (h : Reached p m) (reply : LinkReply) : Reached p (m.step reply).2
  | change {m m' : Machine} (h : Reached p m) (program : m'.program = m.program)
      (place : m'.pc = m.pc) : Reached p m'

variable {body : List Instruction} {m : Machine}

/-- The machine stands in a linked program whose operations write user registers only. -/
structure Inside (m : Machine) (body : List Instruction) : Prop where
  linked : m.program.Linked body
  proper : ∀ o, .op o ∈ body → ∀ r, o.written = some r → r.isSystem = false
  place : m.pc ≤ body.length

/-- A result without a fault, of a machine that stands in the same program. -/
structure Stays (m : Machine) (body : List Instruction) (r : Except Stop Step × Machine) : Prop where
  faultless : ∀ f, r.1 ≠ .error (.fault f)
  program : r.2.program = m.program
  place : r.2.pc ≤ body.length

theorem Stays.settled {r : Except Stop Step × Machine} (h : m.Stays body r)
    (hm : m.pc ≤ body.length) : m.Stays body (m.settled r) := by
  rcases r with ⟨(_ | _ | _) | _, m'⟩
  · exact absurd rfl (h.faultless _)
  · exact ⟨nofun, h.program, h.place⟩
  · exact ⟨nofun, rfl, hm⟩
  · exact ⟨nofun, h.program, h.place⟩

theorem Stays.of_ok {s : Step} {m' : Machine} (hprogram : m'.program = m.program)
    (hplace : m'.pc ≤ body.length) : m.Stays body (.ok s, m') := by
  refine ⟨?_, hprogram, hplace⟩
  simp

/-- An action that goes nowhere stays where it is. -/
theorem Stays.of_placeless {act : Act Step} {m' : Machine} (hp : act.Placeless)
    (hf : act.Faultless) (hprogram : m'.program = m.program) (hplace : m'.pc ≤ body.length) :
    m.Stays body (act m') :=
  ⟨hf m', (hp.program m').trans hprogram, (hp.pc m').symm ▸ hplace⟩

theorem Inside.stays_jump (h : m.Inside body) {i : Instruction} (hi : i ∈ body) {t : Label}
    (ht : i.target? = some t) (j : Instruction) : m.Stays body (Act.jump t (m.moved j)) := by
  obtain ⟨k, hk, hle⟩ : ∃ k, m.program.labels.get .index t = .ok k ∧ k ≤ body.length := by
    rcases h.linked.follow hi ht with ⟨-, -, hk⟩ | ⟨-, k, hk, -, hle⟩
    · exact ⟨0, hk, Nat.zero_le _⟩
    · exact ⟨k, hk, hle⟩
  rw [jump_eq (m.moved j) hk]
  exact .of_ok rfl hle

/-- Running the instruction in turn. -/
theorem Inside.stays_run (h : m.Inside body) (reply : LinkReply) {i : Instruction}
    (hi : m.program.code[m.pc]? = some i) : m.Stays body (Act.run reply i (m.moved i)) := by
  rcases hd : body.drop m.pc with _ | ⟨j, rest⟩
  · have hj := h.linked.code_length (Nat.le_antisymm h.place (List.drop_eq_nil_iff.mp hd))
    obtain rfl : .jump .entry = i := Option.some.inj (hj.symm.trans hi)
    have hrun : Act.run reply (.jump .entry) (m.moved (.jump .entry)) = _ :=
      jump_eq (m.moved (.jump .entry)) h.linked.entry
    rw [hrun]
    exact .of_ok rfl (Nat.zero_le _)
  · obtain ⟨hj, hmem, -, hle⟩ := h.linked.code_drop hd
    obtain rfl : j = i := Option.some.inj (hj.symm.trans hi)
    cases j with
    | label l => exact .of_ok rfl hle
    | jump t => exact h.stays_jump hmem rfl _
    | jumpIf c t =>
      simp only [Act.run, Act.run_bind, holds_eq, view_moved]
      split
      · exact h.stays_jump hmem rfl _
      · exact .of_ok rfl hle
    | op o =>
      exact .of_placeless (.bind (.execute reply o) fun _ => .pure _)
        (.bind (.execute reply (h.proper o hmem)) fun _ => .pure _) rfl hle

theorem Inside.stays_step (h : m.Inside body) (reply : LinkReply) :
    m.Stays body (m.step reply) := by
  cases hc : m.keys.cancelled with
  | true =>
    rw [m.step_cancelled reply hc]
    exact .of_ok rfl h.place
  | false =>
    cases hs : m.started with
    | false =>
      rw [m.step_start reply hs hc]
      have hp := placeless_opening m.program.title
      have hf : (opening m.program.title).Faultless := .bind (.showTitle _) fun _ => .pure _
      exact Stays.settled (.of_placeless hp hf rfl h.place) h.place
    | true =>
      have hlt : m.pc < m.program.code.length := by
        have hle := h.place
        rw [h.linked.code, List.length_append, List.length_singleton]
        omega
      have hi := List.getElem?_eq_getElem hlt
      rw [m.step_eq reply ⟨hs, hc⟩ hi]
      exact Stays.settled (h.stays_run reply hi) h.place

/-- Every machine that a run can come to stands inside the program. -/
theorem Reached.inside {p : Program} (hl : p.Linked body)
    (hp : ∀ o, .op o ∈ body → ∀ r, o.written = some r → r.isSystem = false) (h : Reached p m) :
    m.Inside body ∧ m.program = p := by
  induction h with
  | start program place => exact ⟨⟨program ▸ hl, hp, place ▸ Nat.zero_le _⟩, program⟩
  | step _ reply ih =>
    obtain ⟨hin, hprog⟩ := ih
    have hstay := hin.stays_step reply
    have heq := hstay.program.trans hprog
    exact ⟨⟨heq ▸ hl, hp, hstay.place⟩, heq⟩
  | change _ program place ih =>
    obtain ⟨hin, hprog⟩ := ih
    have heq := program.trans hprog
    exact ⟨⟨heq ▸ hl, hp, place ▸ hin.place⟩, heq⟩

end Handheld.Machine
