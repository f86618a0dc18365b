import Handheld.Proofs.Compiler.Compile
import Handheld.Proofs.Evaluation.Nesting
import Handheld.Proofs.Evaluation.Realized

namespace Handheld

open Machine Handheld.Flow

namespace Machine

variable {σ : Type} {link : Link σ} {m : Machine} {s : σ} {body : List Instruction} {title : Title}
  {src : Source}

/-- A terminal that has not started shows the title as it can be seen. -/
theorem stepWith_opening (hs : m.started = false) (hc : m.keys.cancelled = false) :
    m.view.opening m.program.title = ((m.stepWith link s).1, (m.stepWith link s).2.1.view) := by
  have hv : m.view = (m.view.titled m.program.title).view := m.view_machine_view.symm
  obtain ⟨hr, hw⟩ := stepWith_start_congr link s hv rfl hs hc
  rw [hr, hw, stepWith_start link (m.view.titled m.program.title) s hs hc]
  rfl

/-- A terminal about to run a body that is told realizes the evaluation, whether it has started or
not. -/
theorem Loaded.whole (h : m.Loaded body) (htitle : m.program.title = title) {e : Nat → Evaluation σ}
    (ht : ∀ n v, Told body link n v s (e n v s).tale) :
    m.Realizes link s fun n => (e n).whole title m.view s := by
  unfold Evaluation.whole
  cases hc : m.view.keys.cancelled with
  | true =>
    have hst := m.stepWith_cancelled link s hc
    have hi : m.intent = [] := if_pos hc
    exact .of_end hst (by simp [hi]) rfl fun n => rfl
  | false =>
    cases hs : m.view.started with
    | true => exact h.realizes ⟨hs, hc⟩ fun n => ht n _
    | false =>
      obtain ⟨r, a, hst, hp, hpc, hnot, hready⟩ := m.stepWith_start_spec link s hs hc
      have hopen := @stepWith_opening _ link m s hs hc
      have hi : m.intent = [.title] := by
        have hs : m.started = false := hs
        have hc : m.keys.cancelled = false := hc
        simp [intent, hs, hc]
      rw [htitle, hst] at hopen
      simp only [hopen]
      rcases r with stop | _ | _ | _
      · exact .of_end hst (by simp [hi]) rfl fun n => rfl
      · have ha : a.Loaded body := ⟨hp ▸ h.linked, hpc.trans h.place⟩
        exact .of_start hst hi (ha.realizes (hready rfl) fun n => ht n _)
      · exact absurd rfl hnot
      · exact .of_end hst (by simp [hi]) rfl fun n => rfl

theorem Loaded.evaluate (h : m.Loaded body) (htitle : m.program.title = src.title)
    (ht : ∀ n v, Told body link n v s (src.evaluateBody link n v s).tale) :
    m.Realizes link s fun n => src.evaluate link n m.view s := h.whole htitle ht

end Machine

namespace Compiler

open Build Context

variable {src : Source} {p : Program}

/-- An expanded source does what its evaluation with menus tells. -/
theorem expand_plays {c : Context} (h : expand src = (c, .ok ())) {σ : Type} (link : Link σ) (n : Nat)
    (v : View) (s : σ) : Told c.code link n v s (src.playBody link n v s).tale := by
  obtain ⟨k, hs⟩ := expand_sound h
  have hok := expand_ok h
  rw [← List.foldl_map] at hok
  have hsetup := ((balanced_seq (balanced_expandAll src.body)).of_eq hok).code
  have hframed := framed_ops (src.barcode.map .barcodeSetup) Framed.initial
  obtain ⟨-, hrun⟩ := means_all link n hs.closed src.body _ none hok (List.prefix_refl _) hframed
  have hbefore := @fate_ops _ c.code link n _ [] _ hsetup v s
  have hstart : Context.initial.here c.code = .before c.code := rfl
  have hend : c.here c.code = .before [] := by simp [here]
  rw [hstart] at hbefore
  rw [hend] at hrun
  exact (hbefore.andThen hrun).told

theorem expand_told {c : Context} (h : expand src = (c, .ok ())) (hfree : menuFreeAll src.body = true)
    {σ : Type} (link : Link σ) (n : Nat) (v : View) (s : σ) :
    Told c.code link n v s (src.evaluateBody link n v s).tale := by
  rw [← src.playBody_menuFree hfree]
  exact expand_plays h link n v s

/-- The compiled program of a source without menus over pages, left as it is expanded, runs like the
source on every terminal in whatever state: it performs the operations that the evaluation of the
constructs performs, in the same order and with the same to be seen after each, and it returns or
ends otherwise exactly where the evaluation does. -/
theorem compile_realizes (h : (compile src false).1 = .ok p) (hfree : menuFreeAll src.body = true) :
    ∃ q, p.link = .ok q ∧ ∀ {σ : Type} (link : Link σ) (m : Machine) (s : σ),
      m.program = q → m.pc = 0 → m.Realizes link s fun n => src.evaluate link n m.view s := by
  obtain ⟨c, hexpand, hp⟩ := compile_compiled h
  obtain ⟨q, hlink, htitle, hq⟩ := hp.link
  refine ⟨q, hlink, fun link m s hm hpc => ?_⟩
  have hl : m.Loaded c.code := ⟨hm ▸ hq, hpc⟩
  refine hl.evaluate ?_ fun n v => expand_told hexpand hfree link n v s
  rw [hm, htitle, compile_title h]

/-- Reads keys until one of them is zero; the inner loop leaves or repeats the outer one by its name. -/
def nestedLoops : Source where
  title := ⟨.empty, .empty, .none, false, .small12⟩
  barcode := []
  body :=
    [.label "keys",
      .loop
        [.op (.noEchoInput keyRegister),
          .loop
            [.ifElse ⟨keyRegister, .eq, .value (.int 48)⟩ [.leave (some "keys")] [],
              .againIf ⟨keyRegister, .gt, .value (.int 57)⟩ (some "keys"),
              .op .displayClear,
              .leave none]],
      .switch keyRegister [.mk (.value (.int 48)) [.getResult keyRegister]] []]

theorem compile_realizes_nestedLoops :
    ∃ p, (compile nestedLoops false).1 = .ok p ∧ menuFreeAll nestedLoops.body = true ∧
      ∃ q, p.link = .ok q ∧ ∀ {σ : Type} (link : Link σ) (m : Machine) (s : σ), m.program = q →
        m.pc = 0 → m.Realizes link s fun n => nestedLoops.evaluate link n m.view s := by
  have hok : (compile nestedLoops false).1.isOk = true := by decide +kernel
  have hfree : menuFreeAll nestedLoops.body = true := rfl
  cases hp : (compile nestedLoops false).1 with
  | error e =>
    rw [hp] at hok
    cases hok
  | ok p => exact ⟨p, rfl, hfree, compile_realizes hp hfree⟩

end Compiler
end Handheld
