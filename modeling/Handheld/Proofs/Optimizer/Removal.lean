import Handheld.Proofs.Program.Link

namespace Handheld.Optimizer

open Handheld.Flow

variable {f : List Instruction → List Instruction} {body : List Instruction}

/-- A place in a body and the place in what a pass leaves of it. -/
inductive Image (f : List Instruction → List Instruction) (body : List Instruction) :
    Spot → Spot → Prop where
  | entry : Image f body .entry .entry
  | before {rest : List Instruction} (h : rest <:+ body) :
      Image f body (.before rest) (.before (f rest))

/-- What a pass may drop: labels that no jump goes to, and jumps to where it goes on anyway. -/
structure Removal (f : List Instruction → List Instruction) (body : List Instruction) : Prop where
  sub : ∀ rest, (f rest).Sublist rest
  op : ∀ o rest, f (.op o :: rest) = .op o :: f rest
  jumpIf : ∀ c t rest, f (.jumpIf c t :: rest) = .jumpIf c t :: f rest
  label : ∀ l rest, f (.label l :: rest) = .label l :: f rest ∨ f (.label l :: rest) = f rest
  jump : ∀ t rest, .jump t :: rest <:+ body →
    (∃ rest', f (.jump t :: rest) = .jump t :: rest') ∨
      ∃ rest', follow body t = .before (.label t :: rest') ∧ .label t :: rest' <:+ body ∧
        Leads (f body) (.before (f (.jump t :: rest))) (.before (.label t :: f rest'))
  after : ∀ i ∈ body, ∀ t, i.target? = some t →
    after? t (f body) = (after? t body).map f ∧
      ∀ rest, f (.label t :: rest) = .label t :: f rest

namespace Removal

theorem nil (h : Removal f body) : f [] = [] := List.sublist_nil.mp (h.sub [])

theorem follow (h : Removal f body) {i : Instruction} (hi : i ∈ body) {t : Label}
    (ht : i.target? = some t) : Image f body (Flow.follow body t) (Flow.follow (f body) t) := by
  obtain ⟨ha, hl⟩ := h.after i hi t ht
  by_cases he : t = .entry
  · rw [he]
    exact .entry
  · cases hr : after? t body with
    | none =>
      rw [hr] at ha
      rw [follow_none (after?_eq_none.mp hr), follow_none (after?_eq_none.mp ha)]
      exact .entry
    | some rest =>
      rw [hr] at ha
      rw [follow_some he hr, follow_some he ha, ← hl]
      exact .before (after?_suffix hr)

/-- What is left shows what the body shows. -/
theorem simulation (h : Removal f body) : Simulation body (f body) (Image f body) := by
  refine ⟨.before (List.suffix_refl body), ?_, ?_⟩
  · rintro _ _ (_ | ⟨hq⟩)
    · exact .refl _
    · rename_i q
      rcases q with _ | ⟨_ | _ | ⟨c, t⟩ | o, rest⟩
      · trivial
      · trivial
      · trivial
      · refine ⟨t, f rest, ?_, .before ((List.suffix_cons _ _).trans hq),
          h.follow (hq.subset List.mem_cons_self) rfl⟩
        rw [h.jumpIf]
        exact .refl _
      · refine ⟨f rest, ?_, .before ((List.suffix_cons _ _).trans hq)⟩
        rw [h.op]
        exact .refl _
  · rintro _ _ y (_ | ⟨hq⟩) hy
    · cases hy
    · rename_i q
      rcases q with _ | ⟨l | t | _ | _, rest⟩
      · cases hy
        refine ⟨.entry, .entry, .refl _, ?_, .entry⟩
        rw [h.nil]
        exact .step rfl
      · cases hy
        refine ⟨_, _, .refl _, ?_, .before ((List.suffix_cons _ _).trans hq)⟩
        rcases h.label l rest with hl | hl
        · rw [hl]
          exact .label l _
        · rw [hl]
          exact .refl _
      · cases hy
        rcases h.jump t rest hq with ⟨rest', hr⟩ | ⟨rest', hf, hs, hl⟩
        · refine ⟨_, _, .refl _, ?_, h.follow (hq.subset List.mem_cons_self) rfl⟩
          rw [hr]
          exact .jump t _
        · refine ⟨.before (.label t :: rest'), .before (.label t :: f rest'), ?_, hl, ?_⟩
          · rw [hf]
            exact .refl _
          · rw [← (h.after _ (hq.subset List.mem_cons_self) t rfl).2]
            exact .before hs
      · cases hy
      · cases hy

/-- The list does not start with a label that is dropped. -/
def Kept (f : List Instruction → List Instruction) : List Instruction → Prop
  | .label l :: rest => f (.label l :: rest) = .label l :: f rest
  | _ => True

theorem front (h : Removal f body) {q : List Instruction} (hq : q <:+ body) :
    ∃ q', q' <:+ body ∧ Leads body (.before q) (.before q') ∧ f q = f q' ∧ Kept f q' := by
  induction q with
  | nil => exact ⟨[], hq, .refl _, rfl, trivial⟩
  | cons i q ih =>
    cases i with
    | label l =>
      rcases h.label l q with hl | hl
      · exact ⟨_, hq, .refl _, rfl, hl⟩
      · obtain ⟨q', hq', hlead, hf, hk⟩ := ih ((List.suffix_cons _ _).trans hq)
        exact ⟨q', hq', (Leads.label l q).trans hlead, hl.trans hf, hk⟩
    | _ => exact ⟨_, hq, .refl _, rfl, trivial⟩

/-- The body shows what is left shows. -/
theorem simulation_back (h : Removal f body) :
    Simulation (f body) body fun x' x => Image f body x x' := by
  refine ⟨.before (List.suffix_refl body), ?_, ?_⟩
  · rintro _ _ (_ | ⟨hq⟩)
    · exact .refl _
    · rename_i q
      obtain ⟨q', hq', hlead, hf, hk⟩ := h.front hq
      rw [hf]
      have hsub {i : Instruction} {rest : List Instruction} (he : q' = i :: rest) :
          i ∈ body ∧ rest <:+ body := by
        subst he
        exact ⟨hq'.subset List.mem_cons_self, (List.suffix_cons _ _).trans hq'⟩
      rcases q' with _ | ⟨l | t | ⟨c, t⟩ | o, rest⟩
      · rw [h.nil]
        trivial
      · rw [show f (.label l :: rest) = .label l :: f rest from hk]
        trivial
      · rcases h.jump t rest hq' with ⟨rest', hr⟩ | ⟨rest', -, -, hl⟩
        · rw [hr]
          trivial
        · refine Matches.of_next fun hnone => ?_
          have he := hl.eq_of_none hnone
          rw [← he] at hnone
          cases hnone
      · rw [h.jumpIf]
        exact ⟨t, rest, hlead, .before (hsub rfl).2, h.follow (hsub rfl).1 rfl⟩
      · rw [h.op]
        exact ⟨rest, hlead, .before (hsub rfl).2⟩
  · rintro _ _ y (_ | ⟨hq⟩) hy
    · cases hy
    · rename_i q
      obtain ⟨q', hq', hlead, hf, hk⟩ := h.front hq
      rw [hf] at hy
      rcases q' with _ | ⟨l | t | ⟨c, t⟩ | o, rest⟩
      · rw [h.nil] at hy
        cases hy
        exact ⟨.entry, .entry, .refl _, hlead.trans (.step rfl), .entry⟩
      · rw [show f (.label l :: rest) = .label l :: f rest from hk] at hy
        cases hy
        exact ⟨_, .before rest, .refl _, hlead.trans (.label l rest),
          .before ((List.suffix_cons _ _).trans hq')⟩
      · have hjump := hlead.trans (Leads.jump t rest)
        rcases h.jump t rest hq' with ⟨rest', hr⟩ | ⟨rest', hfol, hs, hl⟩
        · rw [hr] at hy
          cases hy
          exact ⟨_, _, .refl _, hjump, h.follow (hq'.subset List.mem_cons_self) rfl⟩
        · -- both sides go on behind the label, so that the dropped jump counts for a step
          rw [hfol] at hjump
          refine ⟨.before (f rest'), .before rest', ?_, hjump.trans (.label t rest'),
            .before ((List.suffix_cons _ _).trans hs)⟩
          rcases hl.cases hy with he | hl
          · rw [← he] at hy
            cases hy
            exact .refl _
          · exact hl.trans (.label t _)
      · rw [h.jumpIf] at hy
        cases hy
      · rw [h.op] at hy
        cases hy

theorem alike {σ : Type} {link : Machine.Link σ} (h : Removal f body) : Alike link body (f body) :=
  ⟨h.simulation.covers, h.simulation_back.covers⟩

theorem closed (h : Removal f body) (hc : Closed body) : Closed (f body) := by
  have hsub : (placedLabels (f body)).Sublist (placedLabels body) := (h.sub body).filterMap _
  refine ⟨hc.once.sublist hsub, fun he => hc.outside (hsub.subset he), fun i hi t ht => ?_⟩
  have hi := (h.sub body).subset hi
  refine (hc.placed i hi t ht).imp id fun hmem => ?_
  obtain ⟨ha, -⟩ := h.after i hi t ht
  by_cases hn : after? t (f body) = none
  · rw [hn] at ha
    have hnone := Option.map_eq_none_iff.mp ha.symm
    exact absurd hmem (after?_eq_none.mp hnone)
  · exact Decidable.not_not.mp (mt after?_eq_none.mpr hn)

end Removal

theorem after?_keep {t : Label} {i : Instruction} {code left : List Instruction}
    (h : after? t left = (after? t code).map f) (hi : i = .label t → f code = left) :
    after? t (i :: left) = (after? t (i :: code)).map f := by
  rw [after?_cons, after?_cons, h]
  by_cases he : i = .label t
  · rw [if_pos he, if_pos he, ← hi he]
    cases after? t code <;> rfl
  · rw [if_neg he, if_neg he]
    cases after? t code <;> rfl

theorem after?_drop {t : Label} {i : Instruction} {code left : List Instruction}
    (h : after? t left = (after? t code).map f) (hi : i ≠ .label t) :
    after? t left = (after? t (i :: code)).map f := by
  rw [after?_cons, if_neg hi, Option.or_none, h]

/-- What stays when labels outside a list go. -/
def withoutLabels (used : List Label) (code : List Instruction) : List Instruction :=
  code.filter fun i =>
    match i.label? with
    | some l => used.contains l
    | none => true

theorem withoutLabels_label (used : List Label) (l : Label) (rest : List Instruction) :
    withoutLabels used (.label l :: rest) =
      if l ∈ used then .label l :: withoutLabels used rest else withoutLabels used rest := by
  simp [withoutLabels, List.filter_cons, Instruction.label?]

theorem after?_withoutLabels {used : List Label} {t : Label} (ht : t ∈ used)
    (code : List Instruction) :
    after? t (withoutLabels used code) = (after? t code).map (withoutLabels used) := by
  induction code with
  | nil => rfl
  | cons i code ih =>
    cases i with
    | label l =>
      rw [withoutLabels_label]
      by_cases hl : l ∈ used
      · rw [if_pos hl]
        exact after?_keep ih fun _ => rfl
      · rw [if_neg hl]
        exact after?_drop ih fun he => hl (Instruction.label.inj he ▸ ht)
    | jump u => exact after?_keep ih fun _ => rfl
    | jumpIf c u => exact after?_keep ih fun _ => rfl
    | op o => exact after?_keep ih fun _ => rfl

theorem removal_unusedLabels (body : List Instruction) :
    Removal (withoutLabels (body.filterMap Instruction.target?)) body := by
  refine ⟨fun _ => List.filter_sublist, fun o rest => rfl, fun c t rest => rfl, fun l rest => ?_,
    fun t rest _ => .inl ⟨_, rfl⟩, fun i hi t ht => ?_⟩
  · rw [withoutLabels_label]
    split
    · exact .inl rfl
    · exact .inr rfl
  · have ht : t ∈ body.filterMap Instruction.target? := List.mem_filterMap.mpr ⟨i, hi, ht⟩
    refine ⟨after?_withoutLabels ht body, fun rest => ?_⟩
    rw [withoutLabels_label, if_pos ht]

theorem after?_withoutDeadJumps (t : Label) (afterJump : Bool) (code : List Instruction) :
    after? t (withoutDeadJumps afterJump code) =
      (after? t code).map (withoutDeadJumps false) := by
  induction code generalizing afterJump with
  | nil => rfl
  | cons i code ih =>
    rw [withoutDeadJumps]
    split
    · next h =>
      refine after?_drop (ih true) fun he => ?_
      rw [he] at h
      cases h
    · refine after?_keep (ih _) fun he => ?_
      rw [he]
      rfl

theorem withoutDeadJumps_sublist (afterJump : Bool) (code : List Instruction) :
    (withoutDeadJumps afterJump code).Sublist code := by
  induction code generalizing afterJump with
  | nil => exact List.Sublist.slnil
  | cons i code ih =>
    rw [withoutDeadJumps]
    split
    · exact (ih true).cons i
    · exact (ih _).cons_cons i

theorem removal_deadJumps (body : List Instruction) : Removal (withoutDeadJumps false) body :=
  ⟨withoutDeadJumps_sublist false, fun _ _ => rfl, fun _ _ _ => rfl, fun _ _ => .inl rfl,
    fun _ _ _ => .inl ⟨_, rfl⟩,
    fun _ _ t _ => ⟨after?_withoutDeadJumps t false body, fun _ => rfl⟩⟩

theorem after?_withoutFallthrough (t : Label) (code : List Instruction) :
    after? t (withoutFallthrough code) = (after? t code).map withoutFallthrough := by
  induction code with
  | nil => rfl
  | cons i code ih =>
    cases i with
    | label l => exact after?_keep ih fun _ => rfl
    | jump u =>
      rw [withoutFallthrough]
      split
      · exact after?_drop ih nofun
      · exact after?_keep ih fun _ => rfl
    | jumpIf c u => exact after?_keep ih fun _ => rfl
    | op o => exact after?_keep ih fun _ => rfl

theorem withoutFallthrough_sublist (code : List Instruction) :
    (withoutFallthrough code).Sublist code := by
  induction code with
  | nil => exact List.Sublist.slnil
  | cons i code ih =>
    cases i with
    | jump u =>
      rw [withoutFallthrough]
      split
      · exact ih.cons _
      · exact ih.cons_cons _
    | label l => exact ih.cons_cons _
    | jumpIf c u => exact ih.cons_cons _
    | op o => exact ih.cons_cons _

/-- Only labels stand before a leading label. -/
theorem leadingLabels_lead {t : Label} {rest : List Instruction} (h : t ∈ leadingLabels rest) :
    ∃ rest', .label t :: rest' <:+ rest ∧
      ∀ code, Leads code (.before (withoutFallthrough rest))
        (.before (.label t :: withoutFallthrough rest')) := by
  induction rest with
  | nil => cases h
  | cons i rest ih =>
    cases i with
    | label l =>
      rcases List.mem_cons.mp h with rfl | h
      · exact ⟨rest, List.suffix_refl _, fun code => .refl _⟩
      · obtain ⟨rest', hs, hl⟩ := ih h
        exact ⟨rest', hs.trans (List.suffix_cons _ _), fun code => .head rfl (hl code)⟩
    | _ => cases h

theorem removal_fallthroughJumps {body : List Instruction} (hc : Closed body) :
    Removal withoutFallthrough body := by
  refine ⟨withoutFallthrough_sublist, fun _ _ => rfl, fun _ _ _ => rfl, fun _ _ => .inl rfl,
    fun t rest hs => ?_, fun _ _ t _ => ⟨after?_withoutFallthrough t body, fun _ => rfl⟩⟩
  rw [withoutFallthrough]
  split
  · next h =>
    obtain ⟨rest', hs', hl⟩ := leadingLabels_lead (List.contains_iff_mem.mp h)
    have hsuf := hs'.trans ((List.suffix_cons _ _).trans hs)
    have he : t ≠ .entry := by
      rintro rfl
      exact hc.outside (mem_placedLabels.mpr (hsuf.subset List.mem_cons_self))
    exact .inr ⟨rest', follow_some he (after?_of_suffix hc.once hsuf), hsuf, hl _⟩
  · exact .inl ⟨_, rfl⟩

end Handheld.Optimizer
