import Handheld.Proofs.Flow.Run

namespace Handheld

open Machine Handheld.Flow

/-- The program is a body with a jump back to the entry, and its labels have their places in it. -/
structure Program.Linked (p : Program) (body : List Instruction) : Prop where
  code : p.code = body ++ [.jump .entry]
  entry : p.labels.get .index .entry = .ok 0
  placed : ∀ i ∈ body, ∀ t, i.target? = some t → t ≠ .entry →
    ∃ k, p.labels.get .index t = .ok k ∧ follow body t = .before (body.drop k) ∧ k ≤ body.length

namespace Program.Linked

variable {p : Program} {body : List Instruction} {k : Nat}

theorem code_length (h : p.Linked body) (hk : k = body.length) : p.code[k]? = some (.jump .entry) := by
  rw [h.code, hk, List.getElem?_append_right (Nat.le_refl _)]
  simp

theorem code_drop (h : p.Linked body) {i : Instruction} {rest : List Instruction}
    (hk : body.drop k = i :: rest) :
    p.code[k]? = some i ∧ i ∈ body ∧ body.drop (k + 1) = rest ∧ k + 1 ≤ body.length := by
  have hlt : k < body.length := by
    rcases Nat.lt_or_ge k body.length with hlt | hge
    · exact hlt
    · rw [List.drop_eq_nil_of_le hge] at hk
      cases hk
  rw [List.drop_eq_getElem_cons hlt] at hk
  obtain ⟨hi, hr⟩ := List.cons.inj hk
  refine ⟨?_, ?_, hr, hlt⟩
  · rw [h.code, List.getElem?_append_left hlt, ← hi]
    exact List.getElem?_eq_getElem hlt
  · rw [← hi]
    exact List.getElem_mem hlt

/-- Where a jump of the body leads in the program, and where in the body. -/
theorem follow (h : p.Linked body) {i : Instruction} {t : Label} (hi : i ∈ body)
    (ht : i.target? = some t) :
    (t = .entry ∧ Flow.follow body t = .entry ∧ p.labels.get .index t = .ok 0) ∨
      t ≠ .entry ∧ ∃ k, p.labels.get .index t = .ok k ∧
        Flow.follow body t = .before (body.drop k) ∧ k ≤ body.length := by
  by_cases he : t = .entry
  · refine .inl ⟨he, ?_, ?_⟩
    · rw [he]; rfl
    · rw [he]; exact h.entry
  · exact .inr ⟨he, h.placed i hi t ht he⟩

end Program.Linked

namespace Machine

variable {σ : Type} {link : Link σ} {body : List Instruction} {m : Machine} {s : σ}

/-- The machine runs the body and has started. -/
structure Runs (m : Machine) (body : List Instruction) : Prop where
  linked : m.program.Linked body
  ready : m.view.Ready
  inside : m.pc ≤ body.length

/-- The place of the machine in the body. -/
def spot (m : Machine) (body : List Instruction) : Spot := .before (body.drop m.pc)

/-- How a step of the machine is a part of the flow: it goes on in the body after what it shows, or
what it shows is the end. -/
inductive Follows (link : Link σ) (body : List Instruction) (m : Machine) (s : σ) : Prop where
  | goes (step : Step) (m' : Machine) (s' : σ) (steps : m.stepWith link s = (.ok step, m', s'))
      (on : step ≠ .terminated) (runs : m'.Runs body) (j : Nat)
      (flow : ∀ n, flow body link (n + 1 + j) (m.spot body) m.view s =
        m.shown (.ok step) m'.view s' ++ flow body link n (m'.spot body) m'.view s')
  | ends (r : Except Stop Step) (m' : Machine) (s' : σ) (steps : m.stepWith link s = (r, m', s'))
      (off : r ≠ .ok .running ∧ r ≠ .ok .returned)
      (flow : ∀ n, flow body link (n + 1) (m.spot body) m.view s = m.shown r m'.view s')

theorem Runs.of_place {m' : Machine} (h : m.Runs body) (hp : m'.program = m.program)
    (hv : m'.view = m.view) (hi : m'.pc ≤ body.length) : m'.Runs body :=
  ⟨hp ▸ h.linked, hv ▸ h.ready, hi⟩

theorem Runs.moved (h : m.Runs body) (i : Instruction) (hi : m.pc + 1 ≤ body.length) :
    (m.moved i).Runs body := h.of_place rfl (m.view_moved i) hi

theorem Runs.jumped (h : m.Runs body) (i : Instruction) {k : Nat} (hk : k ≤ body.length) :
    (m.jumped i k).Runs body := h.of_place rfl (m.view_jumped i k) hk

/-- A jump that is taken, where the flow goes on at its target. -/
theorem Runs.follows_target (h : m.Runs body) {i : Instruction} (hi : i ∈ body) {t : Label}
    (ht : i.target? = some t)
    (hstep : ∀ k, m.program.labels.get .index t = .ok k →
      m.stepWith link s = (.ok (if t = .entry then .returned else .running), m.jumped i k, s))
    (hflow : ∀ n, flow body link (n + 1) (m.spot body) m.view s =
      m.intent.map (fun e => (e, m.view, s)) ++ flow body link n (follow body t) m.view s) :
    Follows link body m s := by
  rcases h.linked.follow hi ht with ⟨rfl, hf, hk⟩ | ⟨he, k, hk, hf, hle⟩
  · refine .goes .returned _ s (hstep 0 hk) (by simp) (h.jumped _ (Nat.zero_le _)) 1 fun n => ?_
    rw [hflow, hf]
    simp [spot, flow, shown, Ending.ofStep?]
  · have hst := hstep k hk
    rw [if_neg he] at hst
    refine .goes .running _ s hst (by simp) (h.jumped _ hle) 0 fun n => ?_
    rw [Nat.add_zero, hflow, hf]
    simp [spot, shown, Ending.ofStep?]

theorem Runs.follows (h : m.Runs body) (link : Link σ) (s : σ) : Follows link body m s := by
  rcases hd : body.drop m.pc with _ | ⟨i, rest⟩
  · -- the final jump
    have hi := h.linked.code_length (Nat.le_antisymm h.inside (List.drop_eq_nil_iff.mp hd))
    refine .goes .returned _ s (stepWith_jump link m s h.ready hi h.linked.entry) (by simp)
      (h.jumped _ (Nat.zero_le _)) 1 fun n => ?_
    simp [spot, hd, flow, shown, m.intent_eq h.ready hi, View.intent, Ending.ofStep?]
  obtain ⟨hi, hmem, hr, hle⟩ := h.linked.code_drop hd
  have hint := m.intent_eq h.ready hi
  cases i with
  | label l =>
    refine .goes .running _ s (stepWith_label link m s h.ready hi) (by simp) (h.moved _ hle) 0
      fun n => ?_
    simp [spot, hd, hr, flow, shown, hint, View.intent, Ending.ofStep?]
  | jump t =>
    refine h.follows_target hmem rfl (fun k hk => stepWith_jump link m s h.ready hi hk) fun n => ?_
    simp [spot, hd, flow, hint, View.intent]
  | jumpIf c t =>
    cases hc : m.view.holds c with
    | false =>
      obtain ⟨k, hk⟩ : ∃ k, m.program.labels.get .index t = .ok k := by
        rcases h.linked.follow hmem rfl with ⟨-, -, hk⟩ | ⟨-, k, hk, -⟩
        · exact ⟨0, hk⟩
        · exact ⟨k, hk⟩
      have hst := stepWith_jumpIf link m s h.ready hi hk
      rw [hc] at hst
      refine .goes .running _ s hst (by simp) (h.moved _ hle) 0 fun n => ?_
      simp [spot, hd, hr, flow, shown, hint, View.intent, Ending.ofStep?, hc]
    | true =>
      refine h.follows_target hmem rfl (fun k hk => ?_) fun n => ?_
      · rw [stepWith_jumpIf link m s h.ready hi hk, if_pos hc]
      · simp [spot, hd, flow, hint, View.intent, hc]
  | op o =>
    obtain ⟨m', hst, hv, hp, hgo⟩ := stepWith_op link m s h.ready hi
    have hview := perform_view link o m s
    rw [← hv] at hview
    cases he : (perform link o m s).1 with
    | none =>
      obtain ⟨hpc, hready⟩ := hgo he
      rw [he] at hst hview
      refine .goes .running m' _ hst (by simp)
        ⟨hp ▸ h.linked, hready, by rw [hpc]; exact hle⟩ 0 fun n => ?_
      simp [spot, hd, hr, hpc, flow, shown, hint, View.intent, Ending.ofStep?, hview]
    | some e =>
      have hend := perform_ending link o m s he
      rw [he] at hst hview
      refine .ends _ m' _ hst ?_ fun n => ?_
      · rcases hend with rfl | ⟨stop, rfl⟩ <;> simp [Ending.result]
      · rcases hend with rfl | ⟨stop, rfl⟩ <;>
          simp [spot, hd, flow, shown, hint, View.intent, Ending.result, Ending.ofStep?, hview]

/-- A run shows what the flow shows from the place of the machine on. -/
theorem Runs.trace (h : m.Runs body) (link : Link σ) (n : Nat) (s : σ) :
    ∃ k, n ≤ k ∧ m.trace link n s = flow body link k (m.spot body) m.view s := by
  induction n generalizing m s with
  | zero => exact ⟨0, Nat.le_refl _, rfl⟩
  | succ n ih =>
    cases h.follows link s with
    | goes step m' s' hst hon hruns j hflow =>
      obtain ⟨k, hk, ht⟩ := ih hruns s'
      refine ⟨k + 1 + j, by omega, ?_⟩
      rw [hflow, ← ht]
      cases step with
      | running => simp only [Machine.trace, hst]
      | returned => simp only [Machine.trace, hst]
      | terminated => exact absurd rfl hon
    | ends r m' s' hst hoff hflow =>
      refine ⟨n + 1, Nat.le_refl _, ?_⟩
      rw [hflow]
      rcases r with _ | _ | _ | _
      · simp only [Machine.trace, hst]
      · exact absurd rfl hoff.1
      · exact absurd rfl hoff.2
      · simp only [Machine.trace, hst]

/-- The machine is about to run the body from its beginning. -/
structure Loaded (m : Machine) (body : List Instruction) : Prop where
  linked : m.program.Linked body
  place : m.pc = 0

variable {body' : List Instruction} {m' : Machine}

theorem Loaded.spot (h : m.Loaded body) : m.spot body = .before body := by
  rw [Machine.spot, h.place, List.drop_zero]

theorem Loaded.runs (h : m.Loaded body) (hr : m.view.Ready) : m.Runs body :=
  ⟨h.linked, hr, by rw [h.place]; exact Nat.zero_le _⟩

/-- Machines that look the same and run bodies that show the same show the same. -/
theorem Loaded.ready_covered (h : m.Loaded body) (h' : m'.Loaded body') (hc : Covers link body body')
    (hv : m.view = m'.view) (hr : m.view.Ready) (n : Nat) (s : σ) :
    ∃ k, m.trace link n s <+: m'.trace link k s := by
  obtain ⟨j, -, hj⟩ := (h.runs hr).trace link n s
  obtain ⟨k, hk⟩ := hc j m.view s
  obtain ⟨i, hki, hi⟩ := (h'.runs (hv ▸ hr)).trace link k s
  refine ⟨k, ?_⟩
  rw [hj, hi, h.spot, h'.spot, ← hv]
  exact hk.trans (flow_mono link hki _ _ _)

/-- The same of machines that have not started yet, if they show the same title. -/
theorem Loaded.trace_covered (h : m.Loaded body) (h' : m'.Loaded body') (hc : Covers link body body')
    (hv : m.view = m'.view) (ht : m.program.title = m'.program.title) (n : Nat) (s : σ) :
    ∃ k, m.trace link n s <+: m'.trace link k s := by
  cases n with
  | zero => exact ⟨0, List.nil_prefix⟩
  | succ n =>
    have hkeys : m.keys = m'.keys := congrArg (·.keys) hv
    have hstarted : m.started = m'.started := congrArg (·.started) hv
    cases hk : m.keys.cancelled with
    | true =>
      refine ⟨1, ?_⟩
      simp only [Machine.trace, m.stepWith_cancelled link s hk,
        m'.stepWith_cancelled link s (hkeys ▸ hk), shown, intent, hk, ← hkeys, hv]
      exact List.prefix_refl _
    | false =>
      cases hs : m.started with
      | true => exact h.ready_covered h' hc hv ⟨hs, hk⟩ (n + 1) s
      | false =>
        obtain ⟨r, a, hst, hp, hi, hnot, hready⟩ := m.stepWith_start_spec link s hs hk
        obtain ⟨r', a', hst', hp', hi', -⟩ :=
          m'.stepWith_start_spec link s (hstarted ▸ hs) (hkeys ▸ hk)
        obtain ⟨hr, hw⟩ := stepWith_start_congr link s hv ht hs hk
        rw [hst, hst'] at hr hw
        obtain rfl : r = r' := hr
        have hw : a.view = a'.view := hw
        have hshow : m.shown r a.view s = m'.shown r a'.view s := by
          simp only [shown, intent, hk, hs, ← hkeys, ← hstarted, hw, Bool.not_false, if_true]
        rcases r with _ | _ | _ | _
        · refine ⟨1, ?_⟩
          simp only [Machine.trace, hst, hst', hshow]
          exact List.prefix_refl _
        · have hl : a.Loaded body := ⟨hp ▸ h.linked, hi.trans h.place⟩
          have hl' : a'.Loaded body' := ⟨hp' ▸ h'.linked, hi'.trans h'.place⟩
          obtain ⟨k, hk⟩ := hl.ready_covered hl' hc hw (hready rfl) n s
          refine ⟨k + 1, ?_⟩
          simp only [Machine.trace, hst, hst', hshow]
          exact (List.prefix_append_right_inj _).mpr hk
        · exact absurd rfl hnot
        · refine ⟨1, ?_⟩
          simp only [Machine.trace, hst, hst', hshow]
          exact List.prefix_refl _

end Machine
end Handheld
