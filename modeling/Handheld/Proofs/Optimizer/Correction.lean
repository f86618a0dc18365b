import Handheld.Proofs.Optimizer.Resolution

namespace Handheld.Optimizer

variable {code code' before rest : List Instruction} {i i' : Instruction} {l t u : Label}

/-- The same instruction but for its target. -/
def Retargeted (i i' : Instruction) : Prop := ∃ u, i' = i.retarget u

theorem retargeted_self (i : Instruction) : Retargeted i i := by
  cases i with
  | jump t => exact ⟨t, rfl⟩
  | jumpIf c t => exact ⟨t, rfl⟩
  | label m => exact ⟨.entry, rfl⟩
  | op o => exact ⟨.entry, rfl⟩

theorem retargeted_refl (code : List Instruction) : List.Forall₂ Retargeted code code :=
  List.forall₂_same.mpr fun i _ => retargeted_self i

theorem Retargeted.trans {i'' : Instruction} (h : Retargeted i i') (h' : Retargeted i' i'') :
    Retargeted i i'' := by
  obtain ⟨u, rfl⟩ := h
  obtain ⟨v, rfl⟩ := h'
  exact ⟨v, by cases i <;> rfl⟩

theorem retargeted_trans {code'' : List Instruction} (h : List.Forall₂ Retargeted code code')
    (h' : List.Forall₂ Retargeted code' code'') : List.Forall₂ Retargeted code code'' := by
  induction h generalizing code'' with
  | nil => exact h'
  | cons hi _ ih =>
    cases h' with
    | cons hi' hrest' => exact .cons (hi.trans hi') (ih hrest')

theorem Retargeted.label_iff (h : Retargeted i i') (l : Label) : i = .label l ↔ i' = .label l := by
  obtain ⟨u, rfl⟩ := h
  cases i <;> simp [Instruction.retarget]

/-- Lists with the same labels in the same places: a way is the same in both, or it depends on the
instructions behind the run of labels, which stand in the same place. -/
theorem way_forall₂ {R : Instruction → Instruction → Prop}
    (hR : ∀ i i', R i i' → ∀ l, i = .label l ↔ i' = .label l) (h : List.Forall₂ R code code') (l : Label) :
    way code' l = way code l ∨ ∃ last i i' rest rest', R i i' ∧
      way code l = wayBehind (last, i :: rest) ∧ way code' l = wayBehind (last, i' :: rest') := by
  rcases after?_forall₂ hR h l with ⟨ha, ha'⟩ | ⟨q, q', ha, ha', hq⟩
  · exact .inl (by rw [way, way, ha, ha'])
  · obtain ⟨last, behind, behind', hrun, hrun', hbehind⟩ := endOfRun_forall₂ hR hq l
    have hway : way code l = wayBehind (last, behind) := by rw [way, ha, ← hrun]
    have hway' : way code' l = wayBehind (last, behind') := by rw [way, ha', ← hrun']
    rcases hbehind with _ | @⟨i, i', rest, rest', hi, -⟩
    · exact .inl (hway'.trans hway.symm)
    · exact .inr ⟨last, i, i', rest, rest', hi, hway, hway'⟩

/-- Where a way stops depends on the labels, and on where jumps stand, but not on where these go. -/
theorem way_stop_retargeted (h : List.Forall₂ Retargeted code code') :
    way code' l = .stop u ↔ way code l = .stop u := by
  rcases way_forall₂ (fun _ _ hi => hi.label_iff) h l with hway |
    ⟨last, i, i', _, _, ⟨v, rfl⟩, hway, hway'⟩
  · rw [hway]
  · rw [hway, hway']
    cases i with
    | jump t => exact iff_of_false nofun nofun
    | _ => exact Iff.rfl

/-- An instruction, or a jump sent on to where its way ends. -/
def Sent (code : List Instruction) (i i' : Instruction) : Prop :=
  i' = i ∨ ∃ t u, i.target? = some t ∧ Ends code t u ∧ i' = i.retarget u

theorem Sent.retargeted (h : Sent code i i') : Retargeted i i' := by
  rcases h with rfl | ⟨t, u, -, -, rfl⟩
  · exact retargeted_self _
  · exact ⟨u, rfl⟩

theorem Sent.label_iff (h : Sent code i i') (l : Label) : i = .label l ↔ i' = .label l :=
  h.retargeted.label_iff l

theorem sent_refl (code rest : List Instruction) : List.Forall₂ (Sent code) rest rest :=
  List.forall₂_same.mpr fun _ _ => .inl rfl

/-- Jumps sent on shorten a way, or leave it alone. -/
theorem way_sent (h : List.Forall₂ (Sent code) code code') (l : Label) :
    way code' l = way code l ∨ ∃ t u, way code l = .jump t ∧ way code' l = .jump u ∧ Ends code t u := by
  rcases way_forall₂ (fun _ _ hi => hi.label_iff) h l with hway |
    ⟨last, i, i', _, _, hi, hway, hway'⟩
  · exact .inl hway
  · rw [hway, hway']
    rcases hi with rfl | ⟨t, u, ht, hu, rfl⟩
    · exact .inl (by cases i' <;> rfl)
    · cases i with
      | jump t' =>
        cases ht
        exact .inr ⟨t, u, rfl, rfl, hu⟩
      | jumpIf c t' => exact .inl rfl
      | label m => cases ht
      | op o => cases ht

/-- Where a way ends does not depend on jumps that have been sent on. -/
theorem ends_sent (hs : Straight code) (h : List.Forall₂ (Sent code) code code') :
    Ends code' l u ↔ Ends code l u := by
  constructor
  · intro hl
    induction hl with
    | @stop l last hstop =>
      rcases way_sent h l with hway | ⟨t, v, -, hway, -⟩
      · exact .stop (hway.symm.trans hstop)
      · exact nomatch hway.symm.trans hstop
    | @hop l next u hhop _ ih =>
      rcases way_sent h l with hway | ⟨t, v, htv, hway, hends⟩
      · exact .hop (hway.symm.trans hhop) ih
      · -- the jump has been sent to an end, which has to be the end of the rest
        obtain rfl : v = next := Way.jump.inj (hway.symm.trans hhop)
        obtain rfl : v = u := (Ends.stop (hends.way_eq hs)).unique ih
        exact .hop htv hends
  · intro hl
    have hlast {v : Label} (hv : Ends code l v) : way code' v = .stop v := by
      rcases way_sent h v with hway | ⟨t, w, hway, -, -⟩
      · exact hway.trans (hv.way_eq hs)
      · exact nomatch hway.symm.trans (hv.way_eq hs)
    induction hl with
    | @stop l last hstop =>
      rcases way_sent h l with hway | ⟨t, v, hway, -, -⟩
      · exact .stop (hway.trans hstop)
      · exact nomatch hway.symm.trans hstop
    | @hop l next u hhop hu ih =>
      rcases way_sent h l with hway | ⟨t, v, htv, hway, hends⟩
      · exact .hop (hway.trans hhop) (ih fun hv => hlast (.hop hhop hv))
      · obtain rfl : t = next := Way.jump.inj (htv.symm.trans hhop)
        obtain rfl := hends.unique hu
        exact .hop hway (.stop (hlast (.hop hhop hu)))

/-- The instruction with its final destination in a list, if it is a jump that has one. -/
def corrected (code : List Instruction) (i : Instruction) : Instruction :=
  match i.target? with
  | none => i
  | some t =>
    match resolve code t with
    | .final u => i.retarget u
    | .cycle _ => i

theorem corrected_of_ends (ht : i.target? = some t) (h : Ends code t u) :
    corrected code i = i.retarget u := by
  rw [corrected, ht]
  dsimp only
  rw [resolve_eq_final_iff.mpr h]

theorem corrected_of_circle (ht : i.target? = some t) (h : ∀ u, ¬ Ends code t u) :
    corrected code i = i := by
  rw [corrected, ht]
  dsimp only
  cases hr : resolve code t with
  | final u => exact absurd (resolve_eq_final_iff.mp hr) (h u)
  | cycle through => rfl

theorem sent_corrected (code : List Instruction) (i : Instruction) : Sent code i (corrected code i) := by
  cases ht : i.target? with
  | none => exact .inl (by rw [corrected, ht])
  | some t =>
    by_cases hu : ∃ u, Ends code t u
    · obtain ⟨u, hu⟩ := hu
      exact .inr ⟨t, u, ht, hu, corrected_of_ends ht hu⟩
    · exact .inl (corrected_of_circle ht (not_exists.mp hu))

theorem retarget_eq_self_iff (ht : i.target? = some t) : i.retarget u = i ↔ u = t := by
  cases i with
  | jump t' =>
    cases ht
    simp [Instruction.retarget]
  | jumpIf c t' =>
    cases ht
    simp [Instruction.retarget]
  | label m => cases ht
  | op o => cases ht

/-- A list that has been corrected in part still sends every jump to the same place. -/
theorem corrected_sent (hs : Straight code) (h : List.Forall₂ (Sent code) code code')
    (i : Instruction) : corrected code' i = corrected code i := by
  cases ht : i.target? with
  | none => rw [corrected, corrected, ht]
  | some t =>
    by_cases hu : ∃ u, Ends code t u
    · obtain ⟨u, hu⟩ := hu
      rw [corrected_of_ends ht hu, corrected_of_ends ht ((ends_sent hs h).mpr hu)]
    · have hnone := not_exists.mp hu
      rw [corrected_of_circle ht hnone, corrected_of_circle ht fun u h' => hnone u ((ends_sent hs h).mp h')]

/-- One more instruction is corrected, in the list as it is by then. -/
theorem correctFrom_cons (before rest : List Instruction) (i : Instruction) :
    (correctFrom before (i :: rest)).code =
        (correctFrom (before ++ [corrected (before ++ i :: rest) i]) rest).code ∧
      ((correctFrom before (i :: rest)).changed = false ↔
        (correctFrom (before ++ [corrected (before ++ i :: rest) i]) rest).changed = false ∧
          corrected (before ++ i :: rest) i = i) := by
  rw [correctFrom]
  cases ht : i.target? with
  | none =>
    have hself : corrected (before ++ i :: rest) i = i := by rw [corrected, ht]
    rw [hself]
    exact ⟨rfl, by simp⟩
  | some t =>
    dsimp only
    cases hr : resolve (before ++ i :: rest) t with
    | final u =>
      rw [corrected_of_ends ht (resolve_eq_final_iff.mp hr), retarget_eq_self_iff ht]
      exact ⟨rfl, by simp⟩
    | cycle through =>
      have hself : corrected (before ++ i :: rest) i = i := by
        rw [corrected, ht]
        dsimp only
        rw [hr]
      rw [hself]
      exact ⟨rfl, by simp⟩

theorem retargeted_corrected (before rest : List Instruction) (i : Instruction) :
    List.Forall₂ Retargeted (before ++ i :: rest)
      (before ++ corrected (before ++ i :: rest) i :: rest) :=
  List.rel_append (retargeted_refl before)
    (.cons (sent_corrected _ i).retargeted (retargeted_refl rest))

/-- Corrections change targets, and nothing else. -/
theorem retargeted_correctFrom (before rest : List Instruction) :
    List.Forall₂ Retargeted (before ++ rest) (correctFrom before rest).code := by
  induction rest generalizing before with
  | nil =>
    rw [List.append_nil]
    exact retargeted_refl before
  | cons i rest ih =>
    have hmore := ih (before ++ [corrected (before ++ i :: rest) i])
    rw [List.append_assoc] at hmore
    rw [(correctFrom_cons before rest i).1]
    exact retargeted_trans (retargeted_corrected before rest i) hmore

theorem retargeted_correctJumps (code : List Instruction) :
    List.Forall₂ Retargeted code (correctJumps code).code := retargeted_correctFrom [] code

/-- What reports no change has changed nothing. -/
theorem correctFrom_unchanged (h : (correctFrom before rest).changed = false) :
    (correctFrom before rest).code = before ++ rest := by
  induction rest generalizing before with
  | nil => exact (List.append_nil before).symm
  | cons i rest ih =>
    obtain ⟨hcode, hchanged⟩ := correctFrom_cons before rest i
    obtain ⟨hrest, hself⟩ := hchanged.mp h
    rw [hcode, ih hrest, hself, List.append_assoc]
    rfl

/-- The corrections in the list as it changes are those in the list as it was. -/
theorem correctFrom_eq (hs : Straight code) {passed : List Instruction}
    (hcode : code = passed ++ rest) (hb : List.Forall₂ (Sent code) passed before) :
    (correctFrom before rest).code = before ++ rest.map (corrected code) ∧
      ((correctFrom before rest).changed = false ↔ ∀ i ∈ rest, corrected code i = i) := by
  induction rest generalizing passed before with
  | nil => exact ⟨(List.append_nil before).symm, by simp [correctFrom]⟩
  | cons i rest ih =>
    have hsent : List.Forall₂ (Sent code) (passed ++ i :: rest) (before ++ i :: rest) :=
      List.rel_append hb (sent_refl code (i :: rest))
    rw [← hcode] at hsent
    obtain ⟨hc, hchanged⟩ := correctFrom_cons before rest i
    rw [corrected_sent hs hsent] at hc hchanged
    have hnext := List.rel_append hb (.cons (sent_corrected code i) .nil)
    obtain ⟨hrest, hrestChanged⟩ := ih (by rw [hcode, List.append_assoc]; rfl) hnext
    refine ⟨?_, ?_⟩
    · rw [hc, hrest, List.append_assoc]
      rfl
    · rw [hchanged, hrestChanged, List.forall_mem_cons, and_comm]

theorem correctJumps_code (hs : Straight code) :
    (correctJumps code).code = code.map (corrected code) := (correctFrom_eq hs rfl .nil).1

theorem correctJumps_unchanged (hs : Straight code) :
    (correctJumps code).changed = false ↔ ∀ i ∈ code, corrected code i = i :=
  (correctFrom_eq hs rfl .nil).2

theorem sent_map_corrected (code rest : List Instruction) :
    List.Forall₂ (Sent code) rest (rest.map (corrected code)) := by
  rw [List.forall₂_map_right_iff]
  exact List.forall₂_same.mpr fun i _ => sent_corrected code i

/-- What has been corrected stays as it is. -/
theorem corrected_corrected (hs : Straight code) (i : Instruction) :
    corrected code (corrected code i) = corrected code i := by
  cases ht : i.target? with
  | none =>
    have hself : corrected code i = i := by rw [corrected, ht]
    rw [hself, hself]
  | some t =>
    by_cases hu : ∃ u, Ends code t u
    · obtain ⟨u, hu⟩ := hu
      have ht' : (i.retarget u).target? = some u := target?_retarget i t u ht
      rw [corrected_of_ends ht hu, corrected_of_ends ht' (.stop (hu.way_eq hs)),
        (retarget_eq_self_iff ht').mpr rfl]
    · have hself : corrected code i = i := corrected_of_circle ht (not_exists.mp hu)
      rw [hself, hself]

/-- Corrections leave ways that stop for good. -/
theorem Straight.corrected (hs : Straight code) : Straight (correctJumps code).code := by
  intro l u h
  rw [way_stop_retargeted (retargeted_correctJumps code)] at h ⊢
  exact hs l u h

/-- A second correction finds nothing to do. -/
theorem correctJumps_correctJumps (hs : Straight code) :
    (correctJumps (correctJumps code).code).changed = false := by
  rw [correctJumps_unchanged hs.corrected]
  have hsent := sent_map_corrected code code
  rw [← correctJumps_code hs] at hsent
  intro i' hi'
  rw [correctJumps_code hs] at hi'
  obtain ⟨i, -, rfl⟩ := List.mem_map.mp hi'
  rw [corrected_sent hs hsent, corrected_corrected hs]

end Handheld.Optimizer
