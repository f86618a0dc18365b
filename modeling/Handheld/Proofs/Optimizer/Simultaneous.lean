import Handheld.Proofs.Optimizer.NormalForm

namespace Handheld.Optimizer

variable {code code' : List Instruction} {l m t u : Label}

/-- The target that a jump gets in a list: where its way ends, or the old one if that is nowhere. -/
def destination (code : List Instruction) (t : Label) : Label :=
  match resolve code t with
  | .final u => u
  | .cycle _ => t

/-- Every jump with the target that it gets in the list as it is. -/
def sentOn (code : List Instruction) : List Instruction :=
  code.map fun i =>
    match i.target? with
    | some t => i.retarget (destination code t)
    | none => i

/-- Where labels and unconditional jumps lead in the end: the place of another instruction, or the end
of the list, counted from its beginning, or a label that has no place. -/
inductive Goal where
  | place (index : Nat)
  | unplaced (l : Label)
  deriving DecidableEq

/-- The place behind a label. -/
def goal (code : List Instruction) (l : Label) : Goal :=
  match after? l code with
  | some rest => .place (code.length - rest.length)
  | none => .unplaced l

/-- From a label on, labels and unconditional jumps lead to a place where neither stands. -/
inductive Reaches (code : List Instruction) : Label → Goal → Prop where
  | arrive {l : Label} (h : onward? code l = none) : Reaches code l (goal code l)
  | onward {l m : Label} {g : Goal} (h : Onward code l m) (hm : Reaches code m g) : Reaches code l g

theorem Reaches.unique {g g' : Goal} (h : Reaches code l g) (h' : Reaches code l g') : g = g' := by
  induction h with
  | arrive hnone =>
    cases h' with
    | arrive => rfl
    | onward hstep _ => exact nomatch hnone.symm.trans hstep
  | onward hstep _ ih =>
    cases h' with
    | arrive hnone => exact nomatch hnone.symm.trans hstep
    | onward hstep' hm' =>
      obtain rfl := Option.some.inj (hstep.symm.trans hstep')
      exact ih hm'

/-- What leads into a circle goes on, and still leads there. -/
theorem Circles.onward (h : Circles code l) : ∃ m, Onward code l m ∧ Circles code m := by
  obtain ⟨u, hu, hcircle⟩ := h
  rcases Relation.ReflTransGen.cases_head hu with rfl | ⟨m, hstep, hrest⟩
  · obtain ⟨m, hstep, hback⟩ := Relation.TransGen.head'_iff.mp hcircle
    exact ⟨m, hstep, l, hback, hcircle⟩
  · exact ⟨m, hstep, u, hrest, hcircle⟩

/-- What comes to a place does not go round in a circle. -/
theorem Reaches.not_circles {g : Goal} (h : Reaches code l g) : ¬ Circles code l := by
  induction h with
  | arrive hnone =>
    intro hcircles
    obtain ⟨m, hstep, -⟩ := hcircles.onward
    exact nomatch hnone.symm.trans hstep
  | onward hstep _ ih =>
    intro hcircles
    obtain ⟨m', hstep', hrest⟩ := hcircles.onward
    obtain rfl := Option.some.inj (hstep.symm.trans hstep')
    exact ih hrest

theorem Reaches.of_onward {g : Goal} (h : Relation.ReflTransGen (Onward code) l m)
    (hm : Reaches code m g) : Reaches code l g := by
  induction h using Relation.ReflTransGen.head_induction_on with
  | refl => exact hm
  | head hstep _ ih => exact .onward hstep ih

/-- The way of a jump comes to the place behind the label that it ends with. -/
theorem Ends.reaches (hn : (placedLabels code).Nodup) (h : Ends code l u) :
    Reaches code l (goal code u) := by
  have hstop : onward? code u = none := onward?_of_stop hn (h.way_eq (straight_of_nodup hn))
  induction h with
  | @stop l last h =>
    cases ha : after? l code with
    | none =>
      rw [way, ha] at h
      obtain rfl := Way.stop.inj h
      exact .arrive hstop
    | some rest =>
      obtain ⟨behind, hrun⟩ := endOfRun_of_stop h ha
      exact .of_onward (onward_endOfRun hn ha hrun).1 (.arrive hstop)
  | hop hhop _ ih => exact .of_onward (hhop.onward hn).to_reflTransGen (ih hstop)

/-- Other targets leave every label in its place. -/
theorem goal_retargeted (h : List.Forall₂ Retargeted code code') (l : Label) :
    goal code' l = goal code l := by
  rcases after?_forall₂ (fun _ _ hi => hi.label_iff) h l with ⟨ha, ha'⟩ | ⟨q, q', ha, ha', hq⟩
  · rw [goal, goal, ha, ha']
  · rw [goal, goal, ha, ha']
    dsimp only
    rw [h.length_eq, hq.length_eq]

theorem destination_of_ends (h : Ends code t u) : destination code t = u := by
  rw [destination, resolve_eq_final_iff.mpr h]

theorem corrected_eq (code : List Instruction) (i : Instruction) :
    corrected code i = match i.target? with
      | some t => i.retarget (destination code t)
      | none => i := by
  cases ht : i.target? with
  | none => rw [corrected, ht]
  | some t =>
    rw [corrected, ht]
    dsimp only
    rw [destination]
    cases resolve code t with
    | final u => rfl
    | cycle through => exact ((retarget_eq_self_iff ht).mpr rfl).symm

theorem sentOn_eq (code : List Instruction) : sentOn code = code.map (corrected code) := by
  rw [sentOn]
  congr 1
  funext i
  exact (corrected_eq code i).symm

theorem correctJumps_eq_sentOn (hs : Straight code) : (correctJumps code).code = sentOn code := by
  rw [sentOn_eq, correctJumps_code hs]

/-- Other targets are what a correction reports. -/
theorem correctJumps_changed_iff (hs : Straight code) :
    (correctJumps code).changed = true ↔
      ∃ i ∈ code, ∃ t, i.target? = some t ∧ destination code t ≠ t := by
  rw [← Bool.not_eq_false, correctJumps_unchanged hs]
  constructor
  · intro hdue
    push Not at hdue
    obtain ⟨i, hi, hne⟩ := hdue
    rw [corrected_eq] at hne
    cases ht : i.target? with
    | none => exact absurd (by rw [ht]) hne
    | some t =>
      rw [ht] at hne
      exact ⟨i, hi, t, ht, mt (retarget_eq_self_iff ht).mpr hne⟩
  · rintro ⟨i, hi, t, ht, hne⟩ hsame
    have hself := hsame i hi
    rw [corrected_eq, ht] at hself
    exact hne ((retarget_eq_self_iff ht).mp hself)

theorem destination_of_circles (hn : (placedLabels code).Nodup) (h : Circles code t) :
    destination code t = t := by
  rw [destination]
  cases hr : resolve code t with
  | cycle through => rfl
  | final u => exact absurd h ((resolve_eq_final_iff.mp hr).reaches hn).not_circles

/-- The label that a way ends with has the same place in the corrected list, and no way goes on there. -/
theorem Ends.reaches_sentOn (hn : (placedLabels code).Nodup) (h : Ends code t u) :
    Reaches (sentOn code) u (goal code u) := by
  have hs := straight_of_nodup hn
  have hsent := retargeted_correctJumps code
  have hn' : (placedLabels (correctJumps code).code).Nodup := by rwa [placedLabels_correctJumps]
  have hstop : way (correctJumps code).code u = .stop u :=
    (way_stop_retargeted hsent).mpr (h.way_eq hs)
  rw [← correctJumps_eq_sentOn hs, ← goal_retargeted hsent]
  exact .arrive (onward?_of_stop hn' hstop)

/-- Where each label has one place at most, the correction gives every jump the target that it gets in
the list as it was, and reports a change exactly if some target is another one; a second correction
changes nothing. A jump that does not lead into a circle leads where it has led before, and any other
keeps its target. -/
theorem correctJumps_simultaneous (hn : (placedLabels code).Nodup) :
    (correctJumps code).code = sentOn code ∧
      ((correctJumps code).changed = true ↔
        ∃ i ∈ code, ∃ t, i.target? = some t ∧ destination code t ≠ t) ∧
      (correctJumps (sentOn code)).code = sentOn code ∧
      (correctJumps (sentOn code)).changed = false ∧
      ∀ t, (Circles code t → destination code t = t) ∧
        (¬ Circles code t →
          ∃ g, Reaches code t g ∧ Reaches (sentOn code) (destination code t) g) := by
  have hs := straight_of_nodup hn
  have hcode := correctJumps_eq_sentOn hs
  have hagain : (correctJumps (sentOn code)).changed = false := by
    rw [← hcode]
    exact correctJumps_correctJumps hs
  refine ⟨hcode, correctJumps_changed_iff hs, correctFrom_unchanged hagain, hagain, fun t =>
    ⟨destination_of_circles hn, fun hno => ?_⟩⟩
  obtain ⟨u, hends⟩ := (ends_or_circles hn t).resolve_right hno
  rw [destination_of_ends hends]
  exact ⟨goal code u, hends.reaches hn, hends.reaches_sentOn hn⟩

theorem correctJumps_simultaneous_roundabout :
    (placedLabels roundabout).Nodup ∧ (correctJumps roundabout).code = sentOn roundabout ∧
      ((correctJumps roundabout).changed = true ↔
        ∃ i ∈ roundabout, ∃ t, i.target? = some t ∧ destination roundabout t ≠ t) ∧
      (correctJumps (sentOn roundabout)).code = sentOn roundabout ∧
      (correctJumps (sentOn roundabout)).changed = false ∧
      ∀ t, (Circles roundabout t → destination roundabout t = t) ∧
        (¬ Circles roundabout t →
          ∃ g, Reaches roundabout t g ∧ Reaches (sentOn roundabout) (destination roundabout t) g) := by
  have hn : (placedLabels roundabout).Nodup := by decide
  exact ⟨hn, correctJumps_simultaneous hn⟩

end Handheld.Optimizer
