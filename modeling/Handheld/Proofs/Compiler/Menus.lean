import Handheld.Proofs.Compiler.Meaning
import Handheld.Proofs.Input.Keys

namespace Handheld

open Machine Handheld.Flow

variable {σ : Type}

namespace Machine

section SameRuns

variable {link : Link σ} {a b : Machine} {s : σ} {tale : Nat → Tale σ}

theorem performed_covered (h : ∀ n, ∃ k, a.trace link n s <+: b.trace link k s) (n : Nat) :
    ∃ k, a.performed link n s <+: b.performed link k s := by
  obtain ⟨k, hk⟩ := h n
  exact ⟨k, performed_mono hk⟩

/-- A run that ends is one of every machine that shows the same. -/
theorem ends_covered (h : ∀ n, ∃ k, a.trace link n s <+: b.trace link k s)
    {es : List (Operation × View × σ)} {e : Ending} {v : View} {t : σ} (he : e ≠ .unfinished)
    (hends : ∃ k m, runUntilReturn link k a s = (e, m, t) ∧ m.view = v ∧ a.performed link k s = es) :
    ∃ k m, runUntilReturn link k b s = (e, m, t) ∧ m.view = v ∧ b.performed link k s = es := by
  obtain ⟨n, m, hrun, rfl, rfl⟩ := hends
  have hend := ending?_of_run hrun he
  obtain ⟨k, hk⟩ := h n
  obtain ⟨-, m', hrun', hview⟩ := run_of_ending? (hk.findSome?_eq_some hend)
  exact ⟨k, m', hrun', hview, performed_of_ending hk hend⟩

/-- Machines that run in the same way realize the same tales. -/
theorem Realizes.of_same (h : a.Realizes link s tale) (hsame : SameRuns link s a b) :
    b.Realizes link s tale := by
  refine ⟨fun k => ?_, fun n => ?_, fun es e v t he => (h.ends es e v t he).trans ?_⟩
  · obtain ⟨j, hj⟩ := performed_covered hsame.back k
    obtain ⟨n, hn⟩ := h.told j
    exact ⟨n, hj.trans hn⟩
  · obtain ⟨k, hk⟩ := h.done n
    obtain ⟨j, hj⟩ := performed_covered hsame.there k
    exact ⟨j, hk.trans hj⟩
  · exact ⟨ends_covered hsame.there he, ends_covered hsame.back he⟩

end SameRuns

/-- Asked for a key, the machine takes the first known one among those that come, and changes nothing but the
register for its code that the program could tell. Where none comes, the run ends or waits. -/
def View.ReadsKey (v : View) (link : Link σ) (s : σ) (key : Register) : Prop :=
  match Key.firstKnown? v.keys.coming with
  | some (k, rest) => ∃ v', v.perform link (.noEchoInput key) s = (none, v', s) ∧
      Key.ofCode32? (v'.registers.int key) = some k ∧ v'.keys.coming = rest ∧
      (∀ r ≠ key, v'.registers.get r = v.registers.get r) ∧ v'.files = v.files ∧
      v'.screen.rows = v.screen.rows
  | none => (.terminate ∈ v.keys.channel → v.keys.cancelled = true) →
      ∃ e v', v.perform link (.noEchoInput key) s = (some e, v', s) ∧
        (e = .step .terminated ∨ e = .stop .waiting)

/-- Keys can be read into each of the registers for integer temporaries. -/
theorem View.readsKey (v : View) (link : Link σ) (s : σ) {key : Register}
    (hkey : key ∈ Register.pool .int) : v.ReadsKey link s key := by
  have hkind : key.kind = .int := Context.kind_pool hkey
  have hhears := hears_knownKey true v.machine
  unfold View.ReadsKey View.perform Machine.perform
  simp only [View.request?, Link.answer, Act.execute, Act.noEchoInput, Act.run_bind]
  generalize Act.knownKey true v.machine = heard at hhears ⊢
  cases hhears with
  | @key m k hfirst hcloses hheard hopen =>
    have hfirst : Key.firstKnown? v.keys.coming = some (k, m.keys.coming) := hfirst
    simp only [hfirst, set_eq (Context.isSystem_pool hkey), hopen]
    refine ⟨_, rfl, ?_, rfl, fun r hr => ?_, hheard.files, hheard.rows⟩
    · have hcode : (m.registers.store key (.ofKey k)).int key = k.code32 := by
        rw [RegisterStore.int, RegisterStore.get_store, if_pos rfl, hkind]
        rfl
      rw [← k.ofCode32?_code32, ← hcode]
      rfl
    · show (m.registers.store key (.ofKey k)).get r = v.registers.get r
      rw [RegisterStore.get_store, if_neg hr.symm, hheard.registers]
      rfl
  | @ended m hfirst hcloses hheard hflag =>
    have hfirst : Key.firstKnown? v.keys.coming = none := hfirst
    simp only [hfirst]
    intro hheeded
    have hdown : m.keys.cancelled = true :=
      hflag.elim id fun hmem => hheard.cancelled (hheeded hmem)
    refine ⟨.step .terminated, m.view, ?_, .inl rfl⟩
    show (if m.keys.cancelled then some (Ending.step .terminated) else none, m.view, s) = _
    rw [if_pos hdown]
  | @waits m hfirst hcloses hheard =>
    have hfirst : Key.firstKnown? v.keys.coming = none := hfirst
    simp only [hfirst]
    exact fun _ => ⟨.stop .waiting, v.machine.view, rfl, .inr rfl⟩

end Machine

namespace Compiler

variable {src : Source} {optimize : Bool} {p : Program}

/-- The compiled program of a source, tidied or not, runs on every terminal in whatever state like the source
with its menus over pages: it performs the operations that the evaluation performs, in the same order and
with the same to be seen after each, and ends exactly where the evaluation does. A menu asks for the known
keys that come, and no exit that is one from the menu gets out of it. -/
theorem compile_plays (h : (compile src optimize).1 = .ok p) :
    ∃ q, p.link = .ok q ∧
      (∀ {σ : Type} (link : Link σ) (m : Machine) (s : σ), m.program = q → m.pc = 0 →
        m.Realizes link s fun n => src.play link n m.view s) ∧
      (∀ {σ : Type} (link : Link σ) (v : View) (s : σ), ∀ key ∈ Register.pool .int,
        v.ReadsKey link s key) ∧
      ∀ {σ : Type} (link : Link σ) (name : Option String) (key : Register) (menu : Menu (Evaluation σ))
        (n page : Nat), (Evaluation.menu link name key menu n page).Contained name := by
  obtain ⟨c, hexpand, hp⟩ := compile_compiled h
  obtain ⟨q, hlink, htitle, hq⟩ := hp.link
  obtain ⟨k, hs⟩ := expand_sound hexpand
  -- the same source left as it is expanded
  obtain ⟨p', h'⟩ := (compile_of_expand (s := src) false).2 (by rw [hexpand])
  obtain ⟨c', hexpand', hp'⟩ := compile_compiled h'
  obtain rfl : c = c' := congrArg Prod.fst (hexpand.symm.trans hexpand')
  obtain ⟨q', -, htitle', hq'⟩ := hp'.link
  refine ⟨q, hlink, fun link m s hm hpc => ?_, fun link v s key hkey => v.readsKey link s hkey,
    fun link name key menu n page => .menu link key menu n page⟩
  have hl : m.Loaded (tidy optimize c.code).1 := ⟨hm ▸ hq, hpc⟩
  have hl' : (m.running q').Loaded c.code := ⟨hq', rfl⟩
  have hplain : (m.running q').Realizes link s fun n => src.play link n m.view s :=
    hl'.whole (htitle'.trans (compile_title h')) fun n v => expand_plays hexpand link n v s
  have ht : q'.title = m.program.title := by
    rw [htitle', compile_title h', hm, htitle, compile_title h]
  exact hplain.of_same
    (.of_alike hl' hl ((keeps_tidy optimize hs.closed).alike link) rfl ht s)

/-- A menu of two pages with a menu in one of its actions. The inner one leaves the outer one by its name, or
starts the loop around both again. -/
def pagedMenus : Source where
  title := ⟨.empty, .empty, .none, false, .small12⟩
  barcode := []
  body :=
    [.label "day",
      .loop
        [.label "main",
          .menuLoop
            [.mk .empty none,
              .mk .empty (some
                [.menuLoop
                  [.mk .empty (some [.leave (some "main")]), .mk .empty (some [.again (some "day")]),
                    .mk .empty (some [.leave none])]
                  none none]),
              .mk .empty (some [.op .displayClear]), .mk .empty none,
              .mk .empty (some [.again none])]
            (some .enter) (some .backspace),
          .leave none]]

theorem compile_plays_pagedMenus :
    ∃ p, (compile pagedMenus true).1 = .ok p ∧ ∃ q, p.link = .ok q ∧
      (∀ {σ : Type} (link : Link σ) (m : Machine) (s : σ), m.program = q → m.pc = 0 →
        m.Realizes link s fun n => pagedMenus.play link n m.view s) ∧
      (∀ {σ : Type} (link : Link σ) (v : View) (s : σ), ∀ key ∈ Register.pool .int,
        v.ReadsKey link s key) ∧
      ∀ {σ : Type} (link : Link σ) (name : Option String) (key : Register) (menu : Menu (Evaluation σ))
        (n page : Nat), (Evaluation.menu link name key menu n page).Contained name := by
  have hok : (compile pagedMenus true).1.isOk = true := by decide +kernel
  cases hp : (compile pagedMenus true).1 with
  | error e =>
    rw [hp] at hok
    cases hok
  | ok p => exact ⟨p, rfl, compile_plays hp⟩

end Compiler
end Handheld
