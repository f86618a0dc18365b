import Handheld.Proofs.Machine.Operation

namespace Handheld.Machine

/-- The action never ends with a fault. It may overflow, or wait for a key. -/
def Act.Faultless {α : Type} (act : Act α) : Prop := ∀ m f, (act m).1 ≠ .error (.fault f)

theorem set_eq {dst : Register} (h : dst.isSystem = false) (v : Value) (m : Machine) :
    Act.set dst v m = (.ok (), { m with registers := m.registers.store dst v }) := by
  have hset : m.registers.set dst v = .ok (m.registers.store dst v) := by
    rw [RegisterStore.set, RegisterStore.checkUser, h]
    rfl
  show ((Act.lift (m.registers.set dst v) >>= _ : Act Unit) m) = _
  rw [hset]
  rfl

namespace Act.Faultless

variable {α β : Type}

theorem pure (a : α) : Faultless (Pure.pure a : Act α) := fun _ _ h => nomatch h

theorem bind {act : Act α} {next : α → Act β} (h : Faultless act) (hn : ∀ a, Faultless (next a)) :
    Faultless (act >>= next) := by
  intro m f
  rw [run_bind]
  rcases hm : act m with ⟨s | a, m₁⟩
  · intro hs
    refine h m f ?_
    rw [hm]
    exact congrArg Except.error (Except.error.inj hs)
  · exact hn a m₁ f

theorem waiting : Faultless (Act.stop .waiting : Act α) := fun _ _ h => nomatch h

theorem read (g : Machine → α) : Faultless (Act.read g) := fun _ _ h => nomatch h

theorem update (g : Machine → Machine) : Faultless (Act.update g) := fun _ _ h => nomatch h

theorem checked (r : Except Overflow α) : Faultless (Act.checked r) := by
  cases r with
  | error e => exact fun _ _ h => nomatch h
  | ok a => exact pure a

theorem change {g : RegisterStore → Except Fault RegisterStore} (h : ∀ s, ∃ t, g s = .ok t) :
    Faultless (Act.change g) := by
  refine bind (read _) fun s => ?_
  obtain ⟨t, ht⟩ := h s
  rw [ht]
  exact bind (pure t) fun _ => update _

theorem set {r : Register} (h : r.isSystem = false) (v : Value) : Faultless (Act.set r v) :=
  change fun s => ⟨s.store r v, by simp [RegisterStore.set, RegisterStore.checkUser, h, Except.map]⟩

theorem reset {r : Register} (h : r.isSystem = false) : Faultless (Act.reset r) :=
  change fun s => ⟨s.clear r, by
    simp [RegisterStore.initUser, RegisterStore.checkUser, h, Except.map]⟩

theorem setSystem {r : Register} (h : r.isSystem = true) (v : Value) :
    Faultless (Act.setSystem r v) :=
  change fun s => ⟨s.store r v, by
    simp [RegisterStore.setSystem, RegisterStore.checkSystem, h, Except.map]⟩

theorem laws : Laws ⟨fun r => r.isSystem = false, True, fun _ => True, True⟩ Faultless where
  pure := pure
  bind := bind
  waiting := waiting
  checked := checked
  read _ := read _
  note _ := update _
  keys _ := update _
  slept _ _ := update _
  set h v := set h v
  reset h := reset h
  setSystem _ r hr v := by
    have hsystem : ∀ r ∈ [Register.rslt, .endky, .numbr], r.isSystem = true := by decide
    exact setSystem (hsystem r hr) v
  putFile _ _ := update _
  delete _ := update _
  beep := update _
  draw _ _ := update _

/-- The compile-time check of the register that an operation stores into covers every store that
the operation makes. -/
theorem execute (reply : LinkReply) {o : Operation}
    (h : ∀ r, o.written = some r → r.isSystem = false) : Faultless (Act.execute reply o) :=
  laws.execute trivial (fun _ => trivial) trivial reply h

theorem showTitle (t : Title) : Faultless (Act.showTitle t) := laws.showTitle trivial t

end Act.Faultless
end Handheld.Machine
