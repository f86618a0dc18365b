import Handheld.Proofs.Optimizer.Correction
import Handheld.Proofs.Optimizer.Removal

namespace Handheld.Optimizer

variable {code code' code'' rest : List Instruction} {l m t u : Label}

/-- What an instruction does besides jumping: its operation, or the condition it tests. -/
def work? : Instruction → Option (Operation ⊕ Condition)
  | .op o => some (.inl o)
  | .jumpIf c _ => some (.inr c)
  | _ => none

/-- The operations and the conditions of a list, in order. -/
def work (code : List Instruction) : List (Operation ⊕ Condition) := code.filterMap work?

section Passes

/-- What a pass leaves of a list. -/
structure Reduces (code code' : List Instruction) : Prop where
  labels : (placedLabels code').Sublist (placedLabels code)
  work : work code' = work code
  length : code'.length ≤ code.length

theorem Reduces.trans (h : Reduces code code') (h' : Reduces code' code'') : Reduces code code'' :=
  ⟨h'.labels.trans h.labels, h'.work.trans h.work, Nat.le_trans h'.length h.length⟩

theorem Reduces.nodup (h : Reduces code code') (hn : (placedLabels code).Nodup) :
    (placedLabels code').Nodup := hn.sublist h.labels

theorem filterMap_retargeted {α : Type} {f : Instruction → Option α}
    (hf : ∀ i u, f (i.retarget u) = f i) (h : List.Forall₂ Retargeted code code') :
    code'.filterMap f = code.filterMap f := by
  induction h with
  | nil => rfl
  | @cons i i' _ _ hi _ ih =>
    obtain ⟨u, rfl⟩ := hi
    rw [List.filterMap_cons, List.filterMap_cons, hf, ih]

theorem work?_retarget (i : Instruction) (u : Label) : work? (i.retarget u) = work? i := by
  cases i <;> rfl

theorem length_correctJumps (code : List Instruction) :
    (correctJumps code).code.length = code.length := (retargeted_correctJumps code).length_eq.symm

theorem placedLabels_correctJumps (code : List Instruction) :
    placedLabels (correctJumps code).code = placedLabels code :=
  filterMap_retargeted label?_retarget (retargeted_correctJumps code)

theorem reduces_correctJumps (code : List Instruction) : Reduces code (correctJumps code).code := by
  refine ⟨?_, filterMap_retargeted work?_retarget (retargeted_correctJumps code), ?_⟩
  · rw [placedLabels_correctJumps]
  · exact Nat.le_of_eq (length_correctJumps code)

theorem work_withoutLabels (used : List Label) (code : List Instruction) :
    work (withoutLabels used code) = work code := by
  induction code with
  | nil => rfl
  | cons i code ih =>
    cases i with
    | label l =>
      rw [withoutLabels_label]
      split
      · exact ih
      · exact ih
    | jump t => exact ih
    | jumpIf c t => exact congrArg (Sum.inr c :: ·) ih
    | op o => exact congrArg (Sum.inl o :: ·) ih

theorem work_withoutDeadJumps (afterJump : Bool) (code : List Instruction) :
    work (withoutDeadJumps afterJump code) = work code := by
  induction code generalizing afterJump with
  | nil => rfl
  | cons i code ih =>
    cases i with
    | label l => exact ih false
    | jump t =>
      rw [withoutDeadJumps]
      split
      · exact ih true
      · exact ih true
    | jumpIf c t => exact congrArg (Sum.inr c :: ·) (ih false)
    | op o => exact congrArg (Sum.inl o :: ·) (ih false)

theorem work_withoutFallthrough (code : List Instruction) :
    work (withoutFallthrough code) = work code := by
  induction code with
  | nil => rfl
  | cons i code ih =>
    cases i with
    | label l => exact ih
    | jump t =>
      rw [withoutFallthrough]
      split
      · exact ih
      · exact ih
    | jumpIf c t => exact congrArg (Sum.inr c :: ·) ih
    | op o => exact congrArg (Sum.inl o :: ·) ih

/-- A pass that drops instructions. -/
structure Drops (f : List Instruction → List Instruction) : Prop where
  sublist : ∀ code, (f code).Sublist code
  work : ∀ code, work (f code) = Optimizer.work code

theorem drops_withoutLabels (used : List Label) : Drops (withoutLabels used) :=
  ⟨fun _ => List.filter_sublist, work_withoutLabels used⟩

theorem drops_withoutDeadJumps : Drops (withoutDeadJumps false) :=
  ⟨withoutDeadJumps_sublist false, work_withoutDeadJumps false⟩

theorem drops_withoutFallthrough : Drops withoutFallthrough :=
  ⟨withoutFallthrough_sublist, work_withoutFallthrough⟩

theorem Drops.reduces {f : List Instruction → List Instruction} (h : Drops f)
    (code : List Instruction) : Reduces code (f code) :=
  ⟨(h.sublist code).filterMap _, h.work code, (h.sublist code).length_le⟩

/-- The targets of the jumps of a list. -/
def targets (code : List Instruction) : List Label := code.filterMap Instruction.target?

/-- The list after the three passes that drop instructions. -/
def stripped (code : List Instruction) : List Instruction :=
  withoutFallthrough (withoutDeadJumps false (withoutLabels (targets code) code))

theorem reduces_stripped (code : List Instruction) : Reduces code (stripped code) := by
  have hlabels := (drops_withoutLabels (targets code)).reduces code
  have hjumps := hlabels.trans (drops_withoutDeadJumps.reduces _)
  exact hjumps.trans (drops_withoutFallthrough.reduces _)

end Passes

section Rounds

/-- There is nothing to drop. -/
structure Tidy (code : List Instruction) : Prop where
  used : withoutLabels (targets code) code = code
  apart : withoutDeadJumps false code = code
  leaving : withoutFallthrough code = code

theorem Tidy.stripped_eq (h : Tidy code) : stripped code = code := by
  rw [stripped, h.used, h.apart, h.leaving]

/-- What drops nothing in the end has dropped nothing on the way. -/
theorem tidy_of_length (h : (stripped code).length = code.length) : Tidy code := by
  have hlabels := (drops_withoutLabels (targets code)).sublist code
  have hjumps := drops_withoutDeadJumps.sublist (withoutLabels (targets code) code)
  have hthrough := drops_withoutFallthrough.sublist
    (withoutDeadJumps false (withoutLabels (targets code) code))
  have hle := hlabels.length_le
  have hle' := hjumps.length_le
  have hle'' := hthrough.length_le
  change (withoutFallthrough (withoutDeadJumps false (withoutLabels (targets code) code))).length = _ at h
  have used : withoutLabels (targets code) code = code := hlabels.eq_of_length (by omega)
  have apart : withoutDeadJumps false (withoutLabels (targets code) code) = withoutLabels (targets code) code :=
    hjumps.eq_of_length (by omega)
  have leaving := hthrough.eq_of_length (by omega)
  rw [used] at apart leaving
  rw [apart] at leaving
  exact ⟨used, apart, leaving⟩

theorem round_code (code : List Instruction) :
    (round code).code = stripped (correctJumps code).code := rfl

/-- A round reports no change if no jump is corrected and nothing is dropped. -/
theorem round_unchanged_iff :
    (round code).changed = false ↔ (correctJumps code).changed = false ∧
      (stripped (correctJumps code).code).length = (correctJumps code).code.length := by
  obtain ⟨list, hlist⟩ : ∃ list, list = (correctJumps code).code := ⟨_, rfl⟩
  obtain ⟨labels, hlabels⟩ : ∃ labels, labels = withoutLabels (targets list) list := ⟨_, rfl⟩
  obtain ⟨jumps, hjumps⟩ : ∃ jumps, jumps = withoutDeadJumps false labels := ⟨_, rfl⟩
  have hle : labels.length ≤ list.length :=
    hlabels ▸ ((drops_withoutLabels (targets list)).sublist list).length_le
  have hle' : jumps.length ≤ labels.length := hjumps ▸ (drops_withoutDeadJumps.sublist labels).length_le
  have hle'' := (drops_withoutFallthrough.sublist jumps).length_le
  have hchanged : (round code).changed = ((((correctJumps code).changed ||
      (dropped list labels).changed) || (dropped labels jumps).changed) ||
      (dropped jumps (withoutFallthrough jumps)).changed) := by
    rw [hjumps, hlabels, hlist]
    rfl
  have hstripped : stripped list = withoutFallthrough jumps := by
    rw [stripped, hjumps, hlabels]
  rw [hchanged, ← hlist, hstripped]
  simp only [dropped, Bool.or_eq_false_iff, decide_eq_false_iff_not, Decidable.not_not, and_assoc]
  constructor
  · rintro ⟨hc, h, h', h''⟩
    exact ⟨hc, by omega⟩
  · rintro ⟨hc, h⟩
    exact ⟨hc, by omega, by omega, by omega⟩

theorem reduces_round (code : List Instruction) : Reduces code (round code).code :=
  (reduces_correctJumps code).trans (reduces_stripped _)

/-- A round that reports no change has changed nothing. -/
theorem round_same (h : (round code).changed = false) :
    (correctJumps code).changed = false ∧ Tidy code ∧ (round code).code = code := by
  obtain ⟨hjumps, hlen⟩ := round_unchanged_iff.mp h
  have hsame : (correctJumps code).code = code := correctFrom_unchanged hjumps
  rw [hsame] at hlen
  have htidy := tidy_of_length hlen
  refine ⟨hjumps, htidy, ?_⟩
  rw [round_code, hsame, htidy.stripped_eq]

end Rounds

section Used

-- Where every label is used after a correction, every way that stops at a label stops there for
-- good. A label that is not the last of its run is given up by every jump, so that a jump gets
-- there only from a run in front of it; the first of the runs would have nothing in front.
theorem after?_length_le {behind : List Instruction} (h : .label l :: behind <:+ code)
    (ha : after? l code = some rest) : rest.length ≤ behind.length := by
  induction code with
  | nil => cases ha
  | cons i code ih =>
    rw [after?_cons] at ha
    rcases List.suffix_cons_iff.mp h with heq | h
    · obtain ⟨rfl, rfl⟩ := List.cons.inj heq
      cases hr : after? l behind with
      | none =>
        rw [hr, if_pos rfl] at ha
        obtain rfl : behind = rest := Option.some.inj ha
        exact Nat.le_refl _
      | some q =>
        rw [hr] at ha
        obtain rfl : q = rest := Option.some.inj ha
        exact ((List.suffix_cons _ _).trans (after?_suffix hr)).length_le
    · cases hr : after? l code with
      | none =>
        have hmem : l ∈ placedLabels code := mem_placedLabels.mpr (h.subset List.mem_cons_self)
        exact absurd hmem (after?_eq_none.mp hr)
      | some q =>
        rw [hr] at ha
        obtain rfl : q = rest := Option.some.inj ha
        exact ih h hr

/-- A way that stops at another label stops behind where it has started. -/
theorem after?_of_stop (h : way code l = .stop u) (hne : u ≠ l) (ha : after? u code = some rest) :
    ∃ rest', after? l code = some rest' ∧ rest.length < rest'.length := by
  cases hl : after? l code with
  | none =>
    rw [way, hl] at h
    exact absurd (Way.stop.inj h).symm hne
  | some rest' =>
    obtain ⟨behind, hrun⟩ := endOfRun_of_stop h hl
    have hrest : .label u :: behind <:+ rest' := by
      rcases List.suffix_cons_iff.mp (endOfRun_lead hrun).1 with heq | hsuf
      · exact absurd (Instruction.label.inj (List.cons.inj heq).1) hne
      · exact hsuf
    have hcode := hrest.trans ((List.suffix_cons _ _).trans (after?_suffix hl))
    have hle := after?_length_le hcode ha
    have hlt : behind.length < rest'.length := hrest.length_le
    exact ⟨rest', rfl, by omega⟩

theorem Ends.exists_stop (h : Ends code l u) : ∃ s, way code s = .stop u := by
  induction h with
  | @stop l last h => exact ⟨l, h⟩
  | hop _ _ ih => exact ih

/-- What becomes of a jump is its correction in a list with other targets. -/
theorem mem_correctFrom {i' : Instruction} {before : List Instruction}
    (h : i' ∈ (correctFrom before rest).code) :
    i' ∈ before ∨ ∃ i list, List.Forall₂ Retargeted (before ++ rest) list ∧ i' = corrected list i := by
  induction rest generalizing before with
  | nil => exact .inl h
  | cons i rest ih =>
    rw [(correctFrom_cons before rest i).1] at h
    rcases ih h with hmem | ⟨j, list, hlist, rfl⟩
    · rcases List.mem_append.mp hmem with hmem | hmem
      · exact .inl hmem
      · exact .inr ⟨i, _, retargeted_refl _, List.mem_singleton.mp hmem⟩
    · rw [List.append_assoc] at hlist
      exact .inr ⟨j, list, retargeted_trans (retargeted_corrected before rest i) hlist, rfl⟩

/-- A jump goes to a label that is not the last of its run only if another run ends with it. -/
theorem exists_stop_of_target (hl : l ∈ targets (correctJumps code).code)
    (h : way code l = .stop u) (hne : u ≠ l) : ∃ s, s ≠ l ∧ way code s = .stop l := by
  obtain ⟨i', hi', ht'⟩ := List.mem_filterMap.mp hl
  obtain hmem | ⟨i, list, hlist, rfl⟩ := mem_correctFrom hi'
  · cases hmem
  have hstop {s v : Label} := way_stop_retargeted hlist (l := s) (u := v)
  rcases sent_corrected list i with hself | ⟨t, v, ht, hv, hsent⟩
  · -- the jump would have gone on
    rw [hself] at ht'
    have hends : Ends list l u := .stop (hstop.mpr h)
    rw [corrected_of_ends ht' hends, retarget_eq_self_iff ht'] at hself
    exact absurd hself hne
  · rw [hsent, target?_retarget i t v ht] at ht'
    obtain rfl := Option.some.inj ht'
    obtain ⟨s, hs⟩ := hv.exists_stop
    refine ⟨s, ?_, hstop.mp hs⟩
    rintro rfl
    exact hne (Way.stop.inj (h.symm.trans (hstop.mp hs)))

/-- Where every label is used after a correction, every run that a label starts ends with it. -/
theorem stop_of_used (hused : ∀ l ∈ placedLabels code, l ∈ targets (correctJumps code).code)
    (n : Nat) (ha : after? l code = some rest) (hn : code.length ≤ rest.length + n)
    (h : way code l = .stop u) : u = l := by
  induction n generalizing l u rest with
  | zero =>
    have hlt := (after?_suffix ha).length_le
    rw [List.length_cons] at hlt
    omega
  | succ n ih =>
    by_contra hne
    have hl : l ∈ placedLabels code := by
      by_contra hnot
      exact nomatch (after?_eq_none.mpr hnot).symm.trans ha
    obtain ⟨s, hsl, hs⟩ := exists_stop_of_target (hused l hl) h hne
    obtain ⟨rest', hrest', hlt⟩ := after?_of_stop hs hsl.symm ha
    exact hsl (ih hrest' (by omega) hs).symm

theorem straight_of_used (hused : ∀ l ∈ placedLabels code, l ∈ targets (correctJumps code).code) :
    Straight code := by
  intro l u h
  have hown : u = l := by
    cases ha : after? l code with
    | none =>
      rw [way, ha] at h
      exact (Way.stop.inj h).symm
    | some rest => exact stop_of_used hused code.length ha (Nat.le_add_left _ _) h
  rwa [hown] at h ⊢

end Used

section Termination

theorem mem_of_withoutLabels_eq {used : List Label} (h : withoutLabels used code = code)
    (hl : l ∈ placedLabels code) : l ∈ used := by
  have hall := List.filter_eq_self.mp h
  have hkept := hall _ (mem_placedLabels.mp hl)
  exact List.contains_iff_mem.mp hkept

/-- The instructions of a list count twice, so that a correction that is due counts less than one. -/
def weight (code : List Instruction) : Nat := 2 * code.length + (correctJumps code).changed.toNat

/-- A round that changes something leaves less to do. -/
theorem weight_round (h : (round code).changed = true) : weight (round code).code < weight code := by
  have hlen := length_correctJumps code
  have hle := (reduces_stripped (correctJumps code).code).length
  have hbool := Bool.toNat_le (correctJumps (round code).code).changed
  by_cases hsame : (stripped (correctJumps code).code).length = (correctJumps code).code.length
  · -- only jumps have been corrected, and every label is used, which leaves none to correct
    have hdue : (correctJumps code).changed = true := by
      by_contra hno
      have hnone := round_unchanged_iff.mpr ⟨eq_false_of_ne_true hno, hsame⟩
      exact nomatch h.symm.trans hnone
    have htidy := tidy_of_length hsame
    have hstraight : Straight code := straight_of_used fun l hl =>
      mem_of_withoutLabels_eq htidy.used (by rwa [placedLabels_correctJumps])
    have hdone : (correctJumps (round code).code).changed = false := by
      rw [round_code, htidy.stripped_eq]
      exact correctJumps_correctJumps hstraight
    rw [weight, weight, hdue, hdone, round_code, hsame, hlen]
    simp
  · rw [weight, weight]
    rw [round_code] at hbool ⊢
    omega

/-- The rounds without a bound: they go on after a round that changes something, and only then. -/
inductive Finishes : Nat → List Instruction → Result → Prop where
  | last {n : Nat} {code : List Instruction} (h : (round code).changed = false) :
      Finishes n code ⟨(round code).code, n, (round code).log⟩
  | more {n : Nat} {code : List Instruction} {r : Result} (h : (round code).changed = true)
      (hr : Finishes (n + 1) (round code).code r) :
      Finishes n code
        { r with log := (round code).log ++ roundMessage (n + 1) (round code).code :: r.log }

variable {n : Nat} {r : Result}

theorem Finishes.unchanged (h : Finishes n code r) : (round r.code).changed = false := by
  induction h with
  | last h =>
    obtain ⟨-, -, hsame⟩ := round_same h
    dsimp only
    rw [hsame]
    exact h
  | more _ _ ih => exact ih

theorem Finishes.reduces (h : Finishes n code r) : Reduces code r.code := by
  induction h with
  | last => exact reduces_round _
  | more _ _ ih => exact (reduces_round _).trans ih

theorem Finishes.rounds_le (h : Finishes n code r) : r.rounds ≤ n + weight code := by
  induction h with
  | last => exact Nat.le_add_right _ _
  | more h _ ih =>
    have hless := weight_round h
    dsimp only
    omega

/-- A bound above the weight is never reached. -/
theorem finishes_roundsFrom {fuel : Nat} (h : weight code < fuel) :
    Finishes n code (roundsFrom fuel n code) := by
  induction fuel generalizing n code with
  | zero => cases h
  | succ fuel ih =>
    rw [roundsFrom]
    split
    · next hchanged =>
      have hless := weight_round hchanged
      exact .more hchanged (ih (by omega))
    · next hsame => exact .last (eq_false_of_ne_true hsame)

theorem weight_le (code : List Instruction) : weight code ≤ 2 * code.length + 1 :=
  Nat.add_le_add_left (Bool.toNat_le _) _

theorem finishes_optimize (code : List Instruction) : Finishes 0 code (optimize code) := by
  apply finishes_roundsFrom
  calc weight code ≤ 2 * code.length + 1 := weight_le code
    _ < (code.length + 2) * 2 := by omega
    _ ≤ roundLimit code := Nat.mul_le_mul_left _ (by omega)

end Termination

/-- Whatever the list, the rounds come to an end, after which no pass finds anything to change; at most
two rounds for each instruction and one more have changed something. Whatever the target, following a
jump to it comes to an end, too. -/
theorem optimize_stops (code : List Instruction) :
    Finishes 0 code (optimize code) ∧ (round (optimize code).code).changed = false ∧
      (optimize code).rounds ≤ 2 * code.length + 1 ∧
      ∀ t, Follows code [] t (resolve code t) := by
  have hfinishes := finishes_optimize code
  have hrounds : (optimize code).rounds ≤ 0 + weight code := hfinishes.rounds_le
  have hweight := weight_le code
  exact ⟨hfinishes, hfinishes.unchanged, by omega, follows_resolve code⟩

/-- A label placed twice makes for a jump that goes on in the second round, from the place behind. -/
example :
    let test : Condition := ⟨.htid, .eq, .value (.text .empty)⟩
    let r := optimize [.jumpIf test ⟨1⟩, .jumpIf test ⟨3⟩, .label ⟨1⟩, .label ⟨2⟩, .op .displayClear,
      .label ⟨2⟩, .label ⟨3⟩, .op .displayClear]
    r.code = [.jumpIf test ⟨3⟩, .jumpIf test ⟨3⟩, .op .displayClear, .label ⟨3⟩, .op .displayClear] ∧
      r.rounds = 2 := by
  decide +kernel

end Handheld.Optimizer
