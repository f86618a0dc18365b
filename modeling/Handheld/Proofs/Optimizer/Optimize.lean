import Handheld.Proofs.Optimizer.Removal
import Handheld.Proofs.Optimizer.Retarget

namespace Handheld

namespace Optimizer

open Handheld.Flow

/-- What a pass keeps of a closed body. -/
structure Keeps (body body' : List Instruction) : Prop where
  alike : ∀ {σ : Type} (link : Machine.Link σ), Alike link body body'
  closed : Closed body'
  labels : ∀ l ∈ placedLabels body', l ∈ placedLabels body
  ops : ∀ o, .op o ∈ body' → .op o ∈ body

namespace Keeps

variable {body body' body'' : List Instruction}

theorem refl (hc : Closed body) : Keeps body body :=
  ⟨fun _ => .refl body, hc, fun _ h => h, fun _ h => h⟩

theorem trans (h : Keeps body body') (h' : Keeps body' body'') : Keeps body body'' :=
  ⟨fun link => (h.alike link).trans (h'.alike link), h'.closed,
    fun l hl => h.labels l (h'.labels l hl), fun o ho => h.ops o (h'.ops o ho)⟩

theorem removal {f : List Instruction → List Instruction} (h : Removal f body) (hc : Closed body) :
    Keeps body (f body) :=
  ⟨fun _ => h.alike, h.closed hc, fun _ hl => mem_placedLabels.mpr
    ((h.sub body).subset (mem_placedLabels.mp hl)), fun _ ho => (h.sub body).subset ho⟩

theorem retarget {before rest : List Instruction} {i : Instruction} {t u : Label}
    (hc : Closed (before ++ i :: rest)) (ht : i.target? = some t)
    (hr : resolve (before ++ i :: rest) t = .final u) :
    Keeps (before ++ i :: rest) (before ++ i.retarget u :: rest) := by
  have hmem : i ∈ before ++ i :: rest := List.mem_append_right _ List.mem_cons_self
  obtain ⟨hu, hl⟩ := resolveFrom_lead hc (hc.placed i hmem t ht) hr
  have hsame {j : Instruction} (hj : j.target? = none) (h : j ∈ before ++ i.retarget u :: rest) :
      j ∈ before ++ i :: rest := by
    rcases List.mem_append.mp h with h | h
    · exact List.mem_append_left _ h
    · rcases List.mem_cons.mp h with rfl | h
      · rw [target?_retarget i t u ht] at hj
        cases hj
      · exact List.mem_append_right _ (List.mem_cons_of_mem _ h)
  exact ⟨fun _ => Redirect.alike (forall₂_retarget ht hl), closed_retarget hc ht hu,
    fun l h => mem_placedLabels.mpr (hsame rfl (mem_placedLabels.mp h)), fun o h => hsame rfl h⟩

theorem correctFrom (before rest : List Instruction) (hc : Closed (before ++ rest)) :
    Keeps (before ++ rest) (Optimizer.correctFrom before rest).code := by
  induction rest generalizing before with
  | nil =>
    rw [List.append_nil] at hc ⊢
    exact .refl hc
  | cons i rest ih =>
    have hstay : Keeps (before ++ i :: rest) (Optimizer.correctFrom (before ++ [i]) rest).code := by
      have h := ih (before ++ [i])
      rw [List.append_assoc] at h
      exact h hc
    rw [Optimizer.correctFrom]
    split
    · exact hstay
    · next t ht =>
      split
      · exact hstay
      · next u hr =>
        have hone := retarget hc ht hr
        have h := ih (before ++ [i.retarget u])
        rw [List.append_assoc] at h
        exact hone.trans (h hone.closed)

theorem round (hc : Closed body) : Keeps body (Optimizer.round body).code := by
  have h1 := correctFrom [] body hc
  have h2 := h1.trans (removal (removal_unusedLabels _) h1.closed)
  have h3 := h2.trans (removal (removal_deadJumps _) h2.closed)
  exact h3.trans (removal (removal_fallthroughJumps h3.closed) h3.closed)

theorem roundsFrom (fuel n : Nat) (hc : Closed body) :
    Keeps body (Optimizer.roundsFrom fuel n body).code := by
  induction fuel generalizing n body with
  | zero => exact .refl hc
  | succ fuel ih =>
    have hround := round hc
    rw [Optimizer.roundsFrom]
    split
    · exact hround.trans (ih (n + 1) hround.closed)
    · exact hround

theorem optimize (hc : Closed body) : Keeps body (Optimizer.optimize body).code :=
  roundsFrom _ 0 hc

end Keeps
end Optimizer

namespace Machine

/-- The machine with another program, about to run it from its beginning. -/
def running (m : Machine) (p : Program) : Machine := { m with program := p, pc := 0 }

/-- Two machines show the same, event by event, and end their runs up to the return in the same way. -/
structure SameRuns {σ : Type} (link : Link σ) (s : σ) (a b : Machine) : Prop where
  there : ∀ n, ∃ k, a.trace link n s <+: b.trace link k s
  back : ∀ n, ∃ k, b.trace link n s <+: a.trace link k s
  ends : ∀ e v t, a.Ends link s e v t ↔ b.Ends link s e v t

theorem SameRuns.of_alike {σ : Type} {link : Link σ} {body body' : List Instruction} {a b : Machine}
    (ha : a.Loaded body) (hb : b.Loaded body') (h : Flow.Alike link body body')
    (hv : a.view = b.view) (ht : a.program.title = b.program.title) (s : σ) :
    SameRuns link s a b := by
  have hthere n := ha.trace_covered hb h.there hv ht n s
  have hback n := hb.trace_covered ha h.back hv.symm ht.symm n s
  exact ⟨hthere, hback, fun e v t => ⟨fun he => he.of_traces hthere, fun he => he.of_traces hback⟩⟩

end Machine

namespace Optimizer

/-- A closed body with a jump back to the entry links before and after the clean-up, and whatever
state a terminal is in, it runs both in the same way. -/
theorem optimize_same_runs {body : List Instruction} (hc : Closed body) {ta tb : LabelTable}
    (ha : ta.Fits body) (hb : tb.Fits body) (title : Title) :
    ∃ a b, Program.link ⟨title, body ++ [.jump .entry], ta⟩ = .ok a ∧
      Program.link ⟨title, (optimize body).code ++ [.jump .entry], tb⟩ = .ok b ∧
      ∀ (m : Machine) {σ : Type} (link : Machine.Link σ) (s : σ),
        Machine.SameRuns link s (m.running a) (m.running b) := by
  have hk := Keeps.optimize hc
  obtain ⟨a, hla, hta, ha⟩ := Program.link_ok hc ha title
  obtain ⟨b, hlb, htb, hb⟩ := Program.link_ok hk.closed
    (LabelTable.Fits.mk hb.entry fun l hl => hb.blank l (hk.labels l hl)) title
  refine ⟨a, b, hla, hlb, fun m σ link s => ?_⟩
  exact Machine.SameRuns.of_alike (a := m.running a) (b := m.running b) ⟨ha, rfl⟩ ⟨hb, rfl⟩
    (hk.alike link) rfl (hta.trans htb.symm) s

/-- A jump through a run of labels and another jump, an unused label, and a jump behind a jump. -/
def detour : List Instruction :=
  [.label ⟨1⟩, .op .displayClear, .jump ⟨2⟩, .jump ⟨1⟩, .label ⟨2⟩, .label ⟨3⟩, .jump ⟨1⟩, .label ⟨4⟩]

theorem optimize_same_runs_detour :
    ∃ a b, Program.link ⟨⟨.empty, .empty, .none, false, .small12⟩, detour ++ [.jump .entry],
        ⟨LabelTable.initial.slots ++ List.replicate 4 .blank⟩⟩ = .ok a ∧
      Program.link ⟨⟨.empty, .empty, .none, false, .small12⟩, (optimize detour).code ++ [.jump .entry],
        ⟨LabelTable.initial.slots ++ List.replicate 4 .blank⟩⟩ = .ok b ∧
      ∀ (m : Machine) {σ : Type} (link : Machine.Link σ) (s : σ),
        Machine.SameRuns link s (m.running a) (m.running b) := by
  have hc : Closed detour := by
    refine ⟨by decide, by decide, fun i hi t ht => ?_⟩
    have hall : ∀ i ∈ detour, ∀ t ∈ i.target?, t = .entry ∨ t ∈ placedLabels detour := by decide
    exact hall i hi t ht
  have hf : LabelTable.Fits ⟨LabelTable.initial.slots ++ List.replicate 4 .blank⟩ detour := by
    refine ⟨rfl, fun l hl => ⟨.blank, ?_, rfl⟩⟩
    revert l
    decide
  exact optimize_same_runs hc hf hf _

example : (optimize detour).code = [.label ⟨1⟩, .op .displayClear, .jump ⟨1⟩] := by decide

end Optimizer
end Handheld
