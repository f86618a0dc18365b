import Handheld.Proofs.Optimizer.Rounds

namespace Handheld.Optimizer

variable {code code' code'' rest : List Instruction} {l m t u : Label}

/-- The label right behind a label, or the target of the unconditional jump there. -/
def onward? (code : List Instruction) (l : Label) : Option Label :=
  match after? l code with
  | some (.label m :: _) => some m
  | some (.jump m :: _) => some m
  | _ => none

/-- One step of following labels and unconditional jumps. -/
def Onward (code : List Instruction) (l m : Label) : Prop := onward? code l = some m

/-- Following labels and unconditional jumps gets into a circle, which it cannot leave. -/
def Circles (code : List Instruction) (l : Label) : Prop :=
  ∃ u, Relation.ReflTransGen (Onward code) l u ∧ Relation.TransGen (Onward code) u u

structure NormalForm (code : List Instruction) : Prop where
  used : ∀ l ∈ placedLabels code, ∃ i ∈ code, i.target? = some l
  apart : ∀ before t u rest, code ≠ before ++ .jump t :: .jump u :: rest
  leaving : ∀ before t rest, code = before ++ .jump t :: rest → t ∉ leadingLabels rest
  direct : ∀ i ∈ code, ∀ t, i.target? = some t → t ∈ placedLabels code →
    onward? code t = none ∨ Circles code t

section Settled

/-- No pass finds anything to do. -/
structure Settled (code : List Instruction) : Prop extends Tidy code where
  corrected : ∀ i ∈ code, corrected code i = i

theorem settled_of_unchanged (hn : (placedLabels code).Nodup) (h : (round code).changed = false) :
    Settled code := by
  obtain ⟨hjumps, htidy, -⟩ := round_same h
  exact ⟨htidy, (correctJumps_unchanged (straight_of_nodup hn)).mp hjumps⟩

theorem withoutDeadJumps_tail {afterJump : Bool} {i : Instruction}
    (h : withoutDeadJumps afterJump (i :: rest) = i :: rest) :
    (i.isJump && afterJump) = false ∧ withoutDeadJumps i.isJump rest = rest := by
  rw [withoutDeadJumps] at h
  split at h
  · have hlen := congrArg List.length h
    have hle := (withoutDeadJumps_sublist true rest).length_le
    rw [List.length_cons] at hlen
    omega
  · next hno => exact ⟨eq_false_of_ne_true hno, (List.cons.inj h).2⟩

theorem apart_of_withoutDeadJumps_eq {afterJump : Bool} (h : withoutDeadJumps afterJump code = code)
    (before : List Instruction) : code ≠ before ++ .jump t :: .jump u :: rest := by
  rintro rfl
  induction before generalizing afterJump with
  | nil =>
    have htail := (withoutDeadJumps_tail h).2
    have hno := (withoutDeadJumps_tail htail).1
    cases hno
  | cons i before ih => exact ih (withoutDeadJumps_tail h).2

theorem withoutFallthrough_tail {i : Instruction} (h : withoutFallthrough (i :: rest) = i :: rest) :
    (∀ t, i = .jump t → t ∉ leadingLabels rest) ∧ withoutFallthrough rest = rest := by
  by_cases hi : ∃ t, i = .jump t
  · obtain ⟨t, rfl⟩ := hi
    rw [withoutFallthrough] at h
    split at h
    · have hlen := congrArg List.length h
      have hle := (withoutFallthrough_sublist rest).length_le
      rw [List.length_cons] at hlen
      omega
    · next hno =>
      refine ⟨fun t' ht' => ?_, (List.cons.inj h).2⟩
      obtain rfl := Instruction.jump.inj ht'
      exact mt List.contains_iff_mem.mpr hno
  · have hstay : withoutFallthrough (i :: rest) = i :: withoutFallthrough rest := by
      cases i with
      | jump t => exact absurd ⟨t, rfl⟩ hi
      | _ => rfl
    have htail : i :: withoutFallthrough rest = i :: rest := hstay.symm.trans h
    exact ⟨fun t ht => absurd ⟨t, ht⟩ hi, (List.cons.inj htail).2⟩

theorem leaving_of_withoutFallthrough_eq (h : withoutFallthrough code = code)
    (before : List Instruction) (hcode : code = before ++ .jump t :: rest) :
    t ∉ leadingLabels rest := by
  subst hcode
  induction before with
  | nil => exact (withoutFallthrough_tail h).1 t rfl
  | cons i before ih => exact ih (withoutFallthrough_tail h).2

/-- The end of a run of labels is reached label by label. -/
theorem onward_endOfRun {last : Label} {behind : List Instruction} (hn : (placedLabels code).Nodup)
    (ha : after? l code = some rest) (hrun : endOfRun l rest = (last, behind)) :
    Relation.ReflTransGen (Onward code) l last ∧ after? last code = some behind := by
  induction rest generalizing l with
  | nil =>
    cases hrun
    exact ⟨.refl, ha⟩
  | cons i rest ih =>
    cases i with
    | label m =>
      have hstep : Onward code l m := by rw [Onward, onward?, ha]
      have hm : after? m code = some rest :=
        after?_of_suffix hn ((List.suffix_cons _ _).trans (after?_suffix ha))
      obtain ⟨hlast, hbehind⟩ := ih hm hrun
      exact ⟨.head hstep hlast, hbehind⟩
    | _ =>
      cases hrun
      exact ⟨.refl, ha⟩

theorem Hop.onward {next : Label} (hn : (placedLabels code).Nodup) (h : Hop code l next) :
    Relation.TransGen (Onward code) l next := by
  rw [Hop, way] at h
  cases ha : after? l code with
  | none =>
    rw [ha] at h
    cases h
  | some rest =>
    rw [ha] at h
    dsimp only at h
    rcases hrun : endOfRun l rest with ⟨last, behind⟩
    obtain ⟨hlast, hbehind⟩ := onward_endOfRun hn ha hrun
    rw [hrun] at h
    rcases behind with _ | ⟨_ | u | _ | _, behind⟩
    case cons.jump =>
      cases h
      exact .tail' hlast (by rw [Onward, onward?, hbehind])
    all_goals cases h

/-- Behind a label that a way ends with, neither a label nor an unconditional jump stands. -/
theorem onward?_of_stop (hn : (placedLabels code).Nodup) (h : way code l = .stop l) :
    onward? code l = none := by
  rw [way] at h
  rw [onward?]
  cases ha : after? l code with
  | none => rfl
  | some rest =>
    rw [ha] at h
    dsimp only at h
    rcases rest with _ | ⟨m | u | _ | _, rest⟩
    case cons.label =>
      -- the run goes on to another label, so that it cannot end with this one
      rcases hrun : endOfRun m rest with ⟨last, behind⟩
      have hlast : last = l := by
        rw [endOfRun, hrun] at h
        rcases behind with _ | ⟨_ | _ | _ | _, _⟩ <;> first | exact Way.stop.inj h | cases h
      have hmem : l ∈ placedLabels (.label m :: rest) := by
        rw [← hlast]
        exact mem_placedLabels.mpr ((endOfRun_lead hrun).1.subset List.mem_cons_self)
      have honce : (placedLabels (.label l :: .label m :: rest)).Nodup :=
        hn.sublist ((after?_suffix ha).sublist.filterMap _)
      exact absurd hmem (List.nodup_cons.mp honce).1
    case cons.jump => cases h
    all_goals rfl

theorem circles_of_circle (hn : (placedLabels code).Nodup) {v : Label}
    (hv : Relation.ReflTransGen (Hop code) l v) (hcircle : Relation.TransGen (Hop code) v v) :
    Circles code l := by
  have hhops : ∀ a b, Hop code a b → Relation.TransGen (Onward code) a b := fun _ _ h => h.onward hn
  refine ⟨v, ?_, Relation.TransGen.closed hhops v v hcircle⟩
  exact Relation.reflTransGen_closed (fun a b h => (hhops a b h).to_reflTransGen) l v hv

theorem ends_or_circles (hn : (placedLabels code).Nodup) (t : Label) :
    (∃ u, Ends code t u) ∨ Circles code t := by
  cases hr : resolve code t with
  | final u => exact .inl ⟨u, resolve_eq_final_iff.mp hr⟩
  | cycle through =>
    obtain ⟨v, hv, hcircle⟩ := circle_of_resolve hr
    exact .inr (circles_of_circle hn hv hcircle)

theorem Settled.normalForm (h : Settled code) (hn : (placedLabels code).Nodup) : NormalForm code := by
  refine ⟨fun l hl => ?_, fun before t u rest => apart_of_withoutDeadJumps_eq h.apart before,
    fun before t rest => leaving_of_withoutFallthrough_eq h.leaving before, fun i hi t ht _ => ?_⟩
  · exact List.mem_filterMap.mp (mem_of_withoutLabels_eq h.used hl)
  · rcases ends_or_circles hn t with ⟨u, hu⟩ | hcircles
    · have hself : i.retarget u = i := (corrected_of_ends ht hu).symm.trans (h.corrected i hi)
      obtain rfl : u = t := (retarget_eq_self_iff ht).mp hself
      exact .inl (onward?_of_stop hn (hu.way_eq (straight_of_nodup hn)))
    · exact .inr hcircles

end Settled

/-- Where each label has one place at most, the clean-up comes to an end with a list in normal form,
which does the same work and has its labels in the same order. -/
theorem optimize_normalForm (hn : (placedLabels code).Nodup) :
    NormalForm (optimize code).code ∧ work (optimize code).code = work code ∧
      (placedLabels (optimize code).code).Sublist (placedLabels code) := by
  have hfinishes := finishes_optimize code
  have hreduces := hfinishes.reduces
  have hn' := hreduces.nodup hn
  have hsettled := settled_of_unchanged hn' hfinishes.unchanged
  exact ⟨hsettled.normalForm hn', hreduces.work, hreduces.labels⟩

/-- A jump through other jumps, a jump behind a jump, and a circle of two labels. -/
def roundabout : List Instruction :=
  [.jumpIf ⟨.htid, .eq, .value (.text .empty)⟩ ⟨1⟩, .op .displayClear, .jump ⟨2⟩, .jump ⟨4⟩, .label ⟨1⟩,
    .jump ⟨3⟩, .op .displayClear, .label ⟨3⟩, .label ⟨9⟩, .jump ⟨1⟩, .label ⟨2⟩, .jump ⟨5⟩,
    .op .displayClear, .label ⟨5⟩, .label ⟨6⟩, .op .displayClear]

theorem optimize_normalForm_roundabout :
    (placedLabels roundabout).Nodup ∧ NormalForm (optimize roundabout).code ∧
      work (optimize roundabout).code = work roundabout ∧
      (placedLabels (optimize roundabout).code).Sublist (placedLabels roundabout) := by
  have hn : (placedLabels roundabout).Nodup := by decide
  exact ⟨hn, optimize_normalForm hn⟩

/-- The circle stays, and so does the jump into it. -/
example : (optimize roundabout).code =
    [.jumpIf ⟨.htid, .eq, .value (.text .empty)⟩ ⟨1⟩, .op .displayClear, .jump ⟨6⟩, .label ⟨1⟩, .jump ⟨3⟩,
      .op .displayClear, .label ⟨3⟩, .jump ⟨1⟩, .op .displayClear, .label ⟨6⟩, .op .displayClear] := by
  decide +kernel

end Handheld.Optimizer
