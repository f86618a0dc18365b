import Handheld.Proofs.Compiler.Emitted
import Handheld.Proofs.Machine.Footprint

namespace Handheld

namespace Machine

variable {m : Machine} {fp : Footprint} {r : Register}

/-- Showing the title changes cells of the screen only. -/
theorem Act.Confined.opening (hc : fp.cells = true) (t : Title) : Confined fp (opening t) := by
  have L := laws fp
  exact L.bind (L.showTitle hc t) fun _ => L.pure _

theorem get_settled {a : Except Stop Step × Machine} (h : a.2.registers.get r = m.registers.get r) :
    (m.settled a).2.registers.get r = m.registers.get r := by
  rcases a with ⟨(_ | _ | _) | _, m'⟩ <;> first | exact h | rfl

theorem get_jump (t : Label) (m : Machine) : (Act.jump t m).2.registers = m.registers := by
  simp only [Act.jump, Act.run_bind, Act.read]
  cases m.program.labels.get .index t <;> rfl

/-- Only an operation changes registers: the one that it declares and those of its outcome. -/
theorem step_changes {reply : LinkReply} (h : (m.step reply).2.registers.get r ≠ m.registers.get r) :
    ∃ o, m.program.code[m.pc]? = some (.op o) ∧
      (o.written = some r ∨ r ∈ [.rslt, .endky, .numbr]) := by
  cases hc : m.keys.cancelled with
  | true =>
    rw [m.step_cancelled reply hc] at h
    exact absurd rfl h
  | false =>
    cases hs : m.started with
    | false =>
      have hopen : Act.Confined ⟨[], [], [], true⟩ (opening m.program.title) := .opening rfl _
      have hkept : (opening m.program.title m.opened).2.registers.get r = m.registers.get r :=
        (hopen m.opened).get r List.not_mem_nil
      rw [m.step_start reply hs hc] at h
      exact absurd (get_settled hkept) h
    | true =>
      cases hi : m.program.code[m.pc]? with
      | none =>
        rw [m.step_end reply ⟨hs, hc⟩ hi] at h
        exact absurd rfl h
      | some i =>
        rw [m.step_eq reply ⟨hs, hc⟩ hi] at h
        have hkept (hr : (Act.run reply i (m.moved i)).2.registers.get r = m.registers.get r) : False :=
          h (get_settled hr)
        cases i with
        | label l => exact (hkept rfl).elim
        | jump t => exact (hkept (by rw [Act.run, get_jump]; rfl)).elim
        | jumpIf cond t =>
          refine (hkept ?_).elim
          simp only [Act.run, Act.run_bind, holds_eq]
          split
          · rw [get_jump]
            rfl
          · rfl
        | op o =>
          refine ⟨o, rfl, ?_⟩
          by_contra hout
          obtain ⟨hwritten, houtcome⟩ := not_or.mp hout
          have hoff : r ∉ ((m.moved (.op o)).footprint reply o).registers := by
            simpa only [footprint, List.mem_append, Option.mem_toList, not_or] using ⟨hwritten, houtcome⟩
          have hexecute := (Act.execute_within_footprint reply o (m.moved (.op o))).1.get r hoff
          refine hkept ?_
          simp only [Act.run, Act.run_bind]
          rcases hrun : Act.execute reply o (m.moved (.op o)) with ⟨_ | _, m'⟩ <;>
            rwa [hrun] at hexecute

/-- A machine at the start of a program, with codes that have been sent to it. -/
def start (p : Program) (codes : List Int32) : Machine :=
  ⟨p, .initial ⟨2020, 1, 1, 0, 0, 0⟩, .empty, .blank 8 16,
    { KeyQueue.initial with channel := codes.map .key }, 0, false, 0, .empty⟩

/-- The machine so many steps later, if nothing answers. -/
def after (m : Machine) : Nat → Machine
  | 0 => m
  | n + 1 => ((m.after n).step ⟨.empty, []⟩).2

theorem Reached.after {p : Program} (h : Reached p m) : ∀ n, Reached p (m.after n)
  | 0 => h
  | n + 1 => (h.after n).step _

end Machine

theorem Emitted.written {ops : List Operation} {temps : List Register} {o : Operation} {r : Register}
    (h : Emitted ops temps (.op o)) (hr : o.written = some r) :
    (∃ w ∈ ops, o = w.normalize ∧ w.written = some r) ∨ (r ∈ temps ∧ o = .noEchoInput r) := by
  cases h with
  | operation ho hcheck =>
    obtain ⟨rfl, -⟩ := Build.check_ok hcheck
    exact .inl ⟨_, ho, rfl, by rwa [Operation.written_normalize] at hr⟩
  | line row l => cases l <;> cases hr
  | key hkey =>
    obtain rfl := Option.some.inj hr
    exact .inr ⟨hkey, rfl⟩
  | _ => cases hr

namespace Compiler

variable {s : Source} {optimize : Bool} {p : Program}

/-- What changes a register of a compiled program, in whatever state a machine runs it: an operation
that the source has that register as the destination of, copies of the status included, the outcome of
an operation, or the key read of a menu. Key reads change no more of the integer pool than its first
registers, as many as menus stand inside one another. -/
theorem compile_changes (h : (compile s optimize).1 = .ok p) :
    ∃ q, p.link = .ok q ∧ ∀ m : Machine, m.program = q → ∀ reply r,
      (m.step reply).2.registers.get r ≠ m.registers.get r →
        ∃ o, q.code[m.pc]? = some (.op o) ∧
          ((∃ w ∈ operationsAll s.body, o = w.normalize ∧ w.written = some r) ∨
            r ∈ [.rslt, .endky, .numbr] ∨ (r ∈ s.temporaries ∧ o = .noEchoInput r)) := by
  obtain ⟨c, -, hp⟩ := compile_compiled h
  obtain ⟨q, hlink, -, hq⟩ := hp.link
  refine ⟨q, hlink, fun m hm reply r hchange => ?_⟩
  obtain ⟨o, ho, hr⟩ := Machine.step_changes hchange
  rw [hm] at ho
  refine ⟨o, ho, ?_⟩
  rcases hr with hwritten | houtcome
  · have hcode : .op o ∈ p.code := by
      rw [hp.code, ← hq.code]
      exact List.mem_of_getElem? ho
    rcases (compile_emitted h _ hcode).written hwritten with ⟨w, hw, rfl, hdst⟩ | hkey
    · rcases List.mem_append.mp hw with hbarcode | hbody
      · obtain ⟨b, -, rfl⟩ := List.mem_map.mp hbarcode
        cases hdst
      · exact .inl ⟨w, hbody, rfl, hdst⟩
    · exact .inr (.inr hkey)
  · exact .inr (.inl houtcome)

/-- A source that keeps a number in the register that its menu reads a key into. -/
def remembered : Source where
  title := ⟨.empty, .empty, .none, false, .small12⟩
  barcode := []
  body := [.op (.assign keyRegister (.value (.int 5))), .menuLoop [.mk .empty none] none none]

/-- The menu's key takes the place of the number. -/
theorem remembered_forgets :
    ∃ p q, ∃ m : Machine, (compile remembered true).1 = .ok p ∧ p.link = .ok q ∧ m.program = q ∧
      Machine.Reached q m ∧ q.code[m.pc]? = some (.op (.noEchoInput keyRegister)) ∧
      m.registers.get keyRegister = .int 5 ∧
      (m.step ⟨.empty, []⟩).2.registers.get keyRegister = .int 48 := by
  have hok : (compile remembered true).1.isOk = true := by decide +kernel
  have hrun : ∀ p ∈ (compile remembered true).1.toOption, ∀ q ∈ p.link.toOption,
      q.code[((Machine.start q [48]).after 5).pc]? = some (.op (.noEchoInput keyRegister)) ∧
        ((Machine.start q [48]).after 5).registers.get keyRegister = .int 5 ∧
        ((Machine.start q [48]).after 6).registers.get keyRegister = .int 48 := by decide +kernel
  cases hp : (compile remembered true).1 with
  | error e =>
    rw [hp] at hok
    cases hok
  | ok p =>
    obtain ⟨c, -, hcompiled⟩ := compile_compiled hp
    obtain ⟨q, hlink, -, hq⟩ := hcompiled.link
    have hreached : Machine.Reached q (Machine.start q [48]) := .start rfl rfl
    have hprogram := ((hreached.after 5).inside hq hcompiled.proper).2
    obtain ⟨hcode, hbefore, hafter⟩ := hrun p (by rw [hp]; rfl) q (by rw [hlink]; rfl)
    exact ⟨p, q, _, rfl, hlink, hprogram, hreached.after 5, hcode, hbefore, hafter⟩

theorem compile_changes_remembered :
    ∃ p q, ∃ m : Machine, (compile remembered true).1 = .ok p ∧ p.link = .ok q ∧ m.program = q ∧
      (m.step ⟨.empty, []⟩).2.registers.get keyRegister ≠ m.registers.get keyRegister ∧
        ∃ o, q.code[m.pc]? = some (.op o) ∧
          ((∃ w ∈ operationsAll remembered.body, o = w.normalize ∧ w.written = some keyRegister) ∨
            keyRegister ∈ [.rslt, .endky, .numbr] ∨
            (keyRegister ∈ remembered.temporaries ∧ o = .noEchoInput keyRegister)) := by
  obtain ⟨p, q, m, hp, hlink, hprogram, -, -, hbefore, hafter⟩ := remembered_forgets
  obtain ⟨q', hlink', hchanges⟩ := compile_changes hp
  obtain rfl : q = q' := Except.ok.inj (hlink.symm.trans hlink')
  have hchange : (m.step ⟨.empty, []⟩).2.registers.get keyRegister ≠ m.registers.get keyRegister := by
    rw [hbefore, hafter]
    decide
  exact ⟨p, q, m, hp, hlink, hprogram, hchange, hchanges m hprogram _ _ hchange⟩

/-- A register that the source assigns to can change without an operation that is written in it. -/
theorem not_every_register_kept :
    ¬ ∀ (s : Source) (optimize : Bool) (p q : Program), (compile s optimize).1 = .ok p →
      p.link = .ok q → ∀ m, Machine.Reached q m → ∀ reply r,
        (∃ w ∈ operationsAll s.body, w.written = some r) →
        (m.step reply).2.registers.get r ≠ m.registers.get r →
          ∃ w ∈ operationsAll s.body, q.code[m.pc]? = some (.op w.normalize) ∧ w.written = some r := by
  intro hkept
  obtain ⟨p, q, m, hp, hlink, -, hreached, hcode, hbefore, hafter⟩ := remembered_forgets
  have hchange : (m.step ⟨.empty, []⟩).2.registers.get keyRegister ≠ m.registers.get keyRegister := by
    rw [hbefore, hafter]
    decide
  obtain ⟨w, hw, hturn, -⟩ := hkept remembered true p q hp hlink m hreached _ keyRegister
    ⟨_, List.mem_cons_self, rfl⟩ hchange
  obtain rfl : w = .assign keyRegister (.value (.int 5)) := List.mem_singleton.mp hw
  rw [hcode] at hturn
  cases hturn

end Compiler
end Handheld
