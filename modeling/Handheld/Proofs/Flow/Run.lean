import Handheld.Optimizer
import Handheld.Proofs.Machine.Trace
import Mathlib.Logic.Relation

namespace Handheld

namespace Machine

/-- A machine without a program that looks as given. -/
def View.machine (v : View) : Machine :=
  ⟨⟨⟨.empty, .empty, .none, false, .small12⟩, [], .initial⟩, v.registers, v.files, v.screen, v.keys, 0,
    v.started, v.watcher, ⟨v.notes, v.damage, v.slept⟩⟩

theorem view_machine_view (m : Machine) : m.view.machine.view = m.view := by
  simp [View.machine, view]

/-- An operation, as it can be seen. -/
def View.perform {σ : Type} (link : Link σ) (o : Operation) (v : View) (s : σ) :
    Option Ending × View × σ :=
  let (e, m, s) := Machine.perform link o v.machine s
  (e, m.view, s)

theorem perform_view {σ : Type} (link : Link σ) (o : Operation) (m : Machine) (s : σ) :
    m.view.perform link o s =
      ((perform link o m s).1, (perform link o m s).2.1.view, (perform link o m s).2.2) := by
  obtain ⟨h1, h2, h3⟩ := perform_congr link o s m.view_machine_view
  unfold View.perform
  simp only [h1, h2, h3]

theorem View.perform_ending {σ : Type} {link : Link σ} {o : Operation} {v : View} {s : σ} {e : Ending}
    (h : (v.perform link o s).1 = some e) : e = .step .terminated ∨ ∃ stop, e = .stop stop :=
  Machine.perform_ending link o v.machine s h

end Machine

namespace Flow

open Machine

/-- A place in a body. -/
inductive Spot where
  /-- Where the program returns. -/
  | entry
  | before (rest : List Instruction)
  deriving DecidableEq

section Body

variable (body : List Instruction)

/-- Where a jump leads. -/
def follow (t : Label) : Spot :=
  if t = .entry then .entry
  else
    match Optimizer.after? t body with
    | some rest => .before (.label t :: rest)
    | none => .entry

/-- The next place, if going there does not show. -/
def next? : Spot → Option Spot
  | .before [] => some .entry
  | .before (.label _ :: rest) => some (.before rest)
  | .before (.jump t :: _) => some (follow body t)
  | _ => none

/-- Labels and plain jumps lead from one place to another. -/
def Leads : Spot → Spot → Prop := Relation.ReflTransGen fun x y => next? body x = some y

/-- What a run shows from a place on; the number bounds the places passed. -/
def flow {σ : Type} (link : Link σ) : Nat → Spot → View → σ → List (Event × View × σ)
  | 0, _, _, _ => []
  | n + 1, .entry, v, s => (.ending (.step .returned), v, s) :: flow link n (.before body) v s
  | n + 1, .before (.op o :: rest), v, s =>
    match v.perform link o s with
    | (none, v, s) => (.operation o, v, s) :: flow link n (.before rest) v s
    | (some e, v, s) => [(.operation o, v, s), (.ending e, v, s)]
  | n + 1, .before (.jumpIf c t :: rest), v, s =>
    (.decision c (v.holds c), v, s) ::
      flow link n (if v.holds c then follow body t else .before rest) v s
  | n + 1, .before [], v, s => flow link n .entry v s
  | n + 1, .before (.label _ :: rest), v, s => flow link n (.before rest) v s
  | n + 1, .before (.jump t :: _), v, s => flow link n (follow body t) v s

end Body

section Leads

variable {body : List Instruction} {x y z : Spot}

theorem Leads.refl (x : Spot) : Leads body x x := Relation.ReflTransGen.refl

theorem Leads.trans (h : Leads body x y) (h' : Leads body y z) : Leads body x z :=
  Relation.ReflTransGen.trans h h'

theorem Leads.step (h : next? body x = some y) : Leads body x y := Relation.ReflTransGen.single h

theorem Leads.head (h : next? body x = some y) (h' : Leads body y z) : Leads body x z :=
  Relation.ReflTransGen.head h h'

theorem Leads.label (l : Label) (rest : List Instruction) :
    Leads body (.before (.label l :: rest)) (.before rest) := .step rfl

theorem Leads.jump (t : Label) (rest : List Instruction) :
    Leads body (.before (.jump t :: rest)) (follow body t) := .step rfl

/-- The way from a place is unique. -/
theorem Leads.cases (h : Leads body x z) (hy : next? body x = some y) :
    z = x ∨ Leads body y z := by
  rcases Relation.ReflTransGen.cases_head h with rfl | ⟨w, hw, hz⟩
  · exact .inl rfl
  · obtain rfl : y = w := Option.some.inj (hy.symm.trans hw)
    exact .inr hz

theorem Leads.eq_of_none (h : Leads body x z) (hx : next? body x = none) : z = x := by
  rcases Relation.ReflTransGen.cases_head h with rfl | ⟨w, hw, hz⟩
  · rfl
  · rw [hx] at hw
    cases hw

variable {σ : Type} (link : Link σ)

theorem flow_next (h : next? body x = some y) (n : Nat) (v : View) (s : σ) :
    flow body link (n + 1) x v s = flow body link n y v s := by
  rcases x with _ | _ | ⟨_ | _ | _ | _, rest⟩
  all_goals cases h
  all_goals rfl

/-- Passing places that do not show costs steps only. -/
theorem flow_leads (h : Leads body x y) :
    ∃ j, ∀ n v s, flow body link (j + n) x v s = flow body link n y v s := by
  induction h using Relation.ReflTransGen.head_induction_on with
  | refl => exact ⟨0, fun n v s => by rw [Nat.zero_add]⟩
  | @head x y h _ ih =>
    obtain ⟨j, hj⟩ := ih
    refine ⟨j + 1, fun n v s => ?_⟩
    rw [Nat.succ_add_eq_add_succ, ← hj n v s, ← flow_next link h (j + n) v s]
    rfl

/-- A longer run shows what a shorter one shows, and goes on. -/
theorem flow_mono {n k : Nat} (h : n ≤ k) (x : Spot) (v : View) (s : σ) :
    flow body link n x v s <+: flow body link k x v s := by
  induction n generalizing k x v s with
  | zero => exact List.nil_prefix
  | succ n ih =>
    obtain ⟨k, rfl⟩ := Nat.exists_eq_succ_of_ne_zero (Nat.ne_of_gt (Nat.lt_of_lt_of_le n.succ_pos h))
    have ih := @ih k (Nat.le_of_succ_le_succ h)
    rcases x with _ | _ | ⟨_ | _ | _ | o, rest⟩
    · exact (List.prefix_cons_inj _).mpr (ih _ v s)
    · exact ih _ v s
    · exact ih _ v s
    · exact ih _ v s
    · exact (List.prefix_cons_inj _).mpr (ih _ v s)
    · rcases hp : v.perform link o s with ⟨_ | e, v', s'⟩
      · simp only [flow, hp]
        exact (List.prefix_cons_inj _).mpr (ih _ v' s')
      · simp only [flow, hp]
        exact List.prefix_refl _

/-- A run that shows something first gets to a place that shows. -/
theorem flow_shows (n : Nat) (x : Spot) (v : View) (s : σ) :
    flow body link n x v s = [] ∨
      ∃ m y, m + 1 ≤ n ∧ next? body y = none ∧ Leads body x y ∧
        flow body link n x v s = flow body link (m + 1) y v s := by
  induction n generalizing x with
  | zero => exact .inl rfl
  | succ n ih =>
    cases hx : next? body x with
    | none => exact .inr ⟨n, x, Nat.le_refl _, hx, .refl x, rfl⟩
    | some y =>
      rw [flow_next link hx]
      rcases ih y with h | ⟨m, z, hm, hz, hl, h⟩
      · exact .inl h
      · exact .inr ⟨m, z, Nat.le_succ_of_le hm, hz, .head hx hl, h⟩

end Leads

section Simulation

variable {body body' : List Instruction} {R : Spot → Spot → Prop}

/-- The second place leads to where the same shows as at the first, and on to related places. -/
def Matches (body body' : List Instruction) (R : Spot → Spot → Prop) : Spot → Spot → Prop
  | .entry, x' => Leads body' x' .entry
  | .before (.op o :: rest), x' =>
    ∃ rest', Leads body' x' (.before (.op o :: rest')) ∧ R (.before rest) (.before rest')
  | .before (.jumpIf c t :: rest), x' =>
    ∃ t' rest', Leads body' x' (.before (.jumpIf c t' :: rest')) ∧
      R (.before rest) (.before rest') ∧ R (follow body t) (follow body' t')
  | _, _ => True

/-- A relation of places that keeps what shows. Going on from the first of two related places, one
comes to related places again. -/
structure Simulation (body body' : List Instruction) (R : Spot → Spot → Prop) : Prop where
  start : R (.before body) (.before body')
  shown : ∀ {x x'}, R x x' → Matches body body' R x x'
  quiet : ∀ {x x' y}, R x x' → next? body x = some y →
    ∃ z z', Leads body y z ∧ Leads body' x' z' ∧ R z z'

theorem Matches.lead {y x' z' : Spot} (h : Matches body body' R y z') (hl : Leads body' x' z') :
    Matches body body' R y x' := by
  rcases y with _ | _ | ⟨_ | _ | _ | _, rest⟩
  · exact hl.trans h
  · trivial
  · trivial
  · trivial
  · obtain ⟨t', rest', h, hr, ht⟩ := h
    exact ⟨t', rest', hl.trans h, hr, ht⟩
  · obtain ⟨rest', h, hr⟩ := h
    exact ⟨rest', hl.trans h, hr⟩

theorem Matches.of_next {y x' : Spot} (h : next? body y ≠ none) : Matches body body' R y x' := by
  rcases y with _ | _ | ⟨_ | _ | _ | _, rest⟩
  all_goals trivial

theorem Simulation.leads (h : Simulation body body' R) {x y x' : Spot} (hl : Leads body x y)
    (hr : R x x') : Matches body body' R y x' := by
  -- from any place on the way the end of the way is matched
  suffices ∀ z, Leads body x z → ∀ z', R z z' → Matches body body' R y z' from this x (.refl x) x' hr
  clear hr x'
  induction hl using Relation.ReflTransGen.head_induction_on with
  | refl =>
    intro z hz z' hr
    by_cases hy : next? body y = none
    · obtain rfl := hz.eq_of_none hy
      exact h.shown hr
    · exact .of_next hy
  | head hx _ ih =>
    intro z hz z' hr
    rcases hz.cases hx with rfl | hz
    · obtain ⟨w, w', hw, hw', hr⟩ := h.quiet hr hx
      exact (ih w hw w' hr).lead hw'
    · exact ih z hz z' hr

variable {σ : Type} (link : Link σ)

/-- What the one body shows from a place on, the other shows from a related place on. -/
theorem Simulation.flow (h : Simulation body body' R) (n : Nat) {x x' : Spot} (hr : R x x')
    (v : View) (s : σ) : ∃ k, Flow.flow body link n x v s <+: Flow.flow body' link k x' v s := by
  induction n using Nat.strongRecOn generalizing x x' v s with
  | _ n ih =>
    rcases @flow_shows body σ link n x v s with hn | ⟨m, y, hm, hy, hl, hn⟩
    · exact ⟨0, by rw [hn]; exact List.nil_prefix⟩
    · have hmatch := h.leads hl hr
      rw [hn]
      rcases y with _ | _ | ⟨_ | _ | ⟨c, t⟩ | o, rest⟩
      · obtain ⟨j, hj⟩ := flow_leads link hmatch
        obtain ⟨k, hk⟩ := ih m hm h.start v s
        refine ⟨j + (k + 1), ?_⟩
        rw [hj]
        exact (List.prefix_cons_inj _).mpr hk
      · cases hy
      · cases hy
      · cases hy
      · obtain ⟨t', rest', hl', hr, ht⟩ := hmatch
        obtain ⟨j, hj⟩ := flow_leads link hl'
        have hgo : R (if v.holds c then follow body t else .before rest)
            (if v.holds c then follow body' t' else .before rest') := by
          split
          · exact ht
          · exact hr
        obtain ⟨k, hk⟩ := ih m hm hgo v s
        refine ⟨j + (k + 1), ?_⟩
        rw [hj]
        exact (List.prefix_cons_inj _).mpr hk
      · obtain ⟨rest', hl', hr⟩ := hmatch
        obtain ⟨j, hj⟩ := flow_leads link hl'
        rcases hp : v.perform link o s with ⟨_ | e, v', s'⟩
        · obtain ⟨k, hk⟩ := ih m hm hr v' s'
          refine ⟨j + (k + 1), ?_⟩
          rw [hj]
          simp only [Flow.flow, hp]
          exact (List.prefix_cons_inj _).mpr hk
        · refine ⟨j + 1, ?_⟩
          rw [hj]
          simp only [Flow.flow, hp]
          exact List.prefix_refl _

/-- Whatever the one body shows, the other shows too. -/
def Covers (body body' : List Instruction) : Prop :=
  ∀ n v s, ∃ k, flow body link n (.before body) v s <+: flow body' link k (.before body') v s

variable {link}

theorem Covers.refl (body : List Instruction) : Covers link body body :=
  fun n _ _ => ⟨n, List.prefix_refl _⟩

theorem Covers.trans {body'' : List Instruction} (h : Covers link body body')
    (h' : Covers link body' body'') : Covers link body body'' := by
  intro n v s
  obtain ⟨k, hk⟩ := h n v s
  obtain ⟨j, hj⟩ := h' k v s
  exact ⟨j, hk.trans hj⟩

theorem Simulation.covers (h : Simulation body body' R) : Covers link body body' :=
  fun n v s => h.flow link n h.start v s

/-- The bodies show the same. -/
structure Alike (link : Link σ) (body body' : List Instruction) : Prop where
  there : Covers link body body'
  back : Covers link body' body

theorem Alike.refl (body : List Instruction) : Alike link body body := ⟨.refl body, .refl body⟩

theorem Alike.trans {body'' : List Instruction} (h : Alike link body body')
    (h' : Alike link body' body'') : Alike link body body'' :=
  ⟨h.there.trans h'.there, h'.back.trans h.back⟩

end Simulation

end Flow
end Handheld
