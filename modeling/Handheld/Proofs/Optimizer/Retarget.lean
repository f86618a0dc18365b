import Handheld.Proofs.Program.Link
import Mathlib.Data.List.Forall2

namespace Handheld.Optimizer

open Handheld.Flow

variable {body body' : List Instruction}

section Labels

-- Lists that place the same labels: one list is the other with some instructions changed that are
-- no labels.
variable {R : Instruction → Instruction → Prop} {rest rest' : List Instruction}
  (hR : ∀ i i', R i i' → ∀ l, i = .label l ↔ i' = .label l)

include hR

theorem after?_forall₂ (h : List.Forall₂ R rest rest') (t : Label) :
    (after? t rest = none ∧ after? t rest' = none) ∨
      ∃ q q', after? t rest = some q ∧ after? t rest' = some q' ∧ List.Forall₂ R q q' := by
  induction h with
  | nil => exact .inl ⟨rfl, rfl⟩
  | @cons i i' rest rest' hi hr ih =>
    rw [after?_cons, after?_cons]
    rcases ih with ⟨h, h'⟩ | ⟨q, q', h, h', hq⟩
    · rw [h, h']
      by_cases hl : i = .label t
      · rw [if_pos hl, if_pos ((hR i i' hi t).mp hl)]
        exact .inr ⟨rest, rest', rfl, rfl, hr⟩
      · rw [if_neg hl, if_neg (mt (hR i i' hi t).mpr hl)]
        exact .inl ⟨rfl, rfl⟩
    · rw [h, h']
      exact .inr ⟨q, q', rfl, rfl, hq⟩

theorem endOfRun_forall₂ (h : List.Forall₂ R rest rest') (l : Label) :
    ∃ last behind behind', endOfRun l rest = (last, behind) ∧ endOfRun l rest' = (last, behind') ∧
      List.Forall₂ R behind behind' := by
  induction h generalizing l with
  | nil => exact ⟨l, [], [], rfl, rfl, .nil⟩
  | @cons i i' rest rest' hi hr ih =>
    by_cases hm : ∃ m, i = .label m
    · obtain ⟨m, rfl⟩ := hm
      obtain rfl := (hR _ i' hi m).mp rfl
      exact ih m
    · have hstay {i : Instruction} (hi : ∀ m, i ≠ .label m) (rest : List Instruction) :
          endOfRun l (i :: rest) = (l, i :: rest) := by
        cases i with
        | label m => exact absurd rfl (hi m)
        | _ => rfl
      have hi' : ∀ m, i' ≠ .label m := fun m e => hm ⟨m, (hR i i' hi m).mpr e⟩
      exact ⟨l, _, _, hstay (not_exists.mp hm) rest, hstay hi' rest', .cons hi hr⟩

end Labels

/-- An instruction stays, or is a jump that goes to where its destination leads. -/
def Redirect (body : List Instruction) (i i' : Instruction) : Prop :=
  i' = i ∨ ∃ t u, i.target? = some t ∧ i' = i.retarget u ∧ Leads body (follow body t) (follow body u)

/-- A place, and the same place with some jumps sent on. -/
inductive Redirected (body : List Instruction) : Spot → Spot → Prop where
  | entry : Redirected body .entry .entry
  | before {rest rest' : List Instruction} (h : List.Forall₂ (Redirect body) rest rest') :
      Redirected body (.before rest) (.before rest')

namespace Redirect

theorem refl (body : List Instruction) (i : Instruction) : Redirect body i i := .inl rfl

theorem label_iff {i i' : Instruction} (h : Redirect body i i') (l : Label) :
    i = .label l ↔ i' = .label l := by
  rcases h with rfl | ⟨t, u, ht, rfl, -⟩
  · exact Iff.rfl
  · cases i <;> simp [Instruction.retarget]

theorem after? {rest rest' : List Instruction} (h : List.Forall₂ (Redirect body) rest rest')
    (t : Label) :
    (Optimizer.after? t rest = none ∧ Optimizer.after? t rest' = none) ∨
      ∃ q q', Optimizer.after? t rest = some q ∧ Optimizer.after? t rest' = some q' ∧
        List.Forall₂ (Redirect body) q q' :=
  after?_forall₂ (fun _ _ hi => hi.label_iff) h t

theorem follow (h : List.Forall₂ (Redirect body) body body') (t : Label) :
    Redirected body (Flow.follow body t) (Flow.follow body' t) := by
  by_cases he : t = .entry
  · rw [he]
    exact .entry
  · rcases after? h t with ⟨ha, ha'⟩ | ⟨q, q', ha, ha', hq⟩
    · rw [follow_none (after?_eq_none.mp ha), follow_none (after?_eq_none.mp ha')]
      exact .entry
    · rw [follow_some he ha, follow_some he ha']
      exact .before (.cons (refl body _) hq)

/-- A place that leads to one that is the second but for jumps sent on. -/
def Ahead (body : List Instruction) (x x' : Spot) : Prop :=
  ∃ z, Leads body x z ∧ Redirected body z x'

theorem ahead {x x' : Spot} (h : Redirected body x x') : Ahead body x x' := ⟨x, .refl x, h⟩

theorem simulation (h : List.Forall₂ (Redirect body) body body') :
    Simulation body body' (Ahead body) := by
  refine ⟨ahead (.before h), ?_, ?_⟩
  · rintro x x' ⟨z, hl, hz⟩
    by_cases hx : next? body x = none
    · obtain rfl := hl.eq_of_none hx
      rcases hz with _ | @⟨_, _, _ | @⟨i, i', rest, rest', hi, hr⟩⟩
      · exact .refl _
      · trivial
      · rcases hi with rfl | ⟨t, u, ht, rfl, hu⟩
        · rcases i' with l | t | ⟨c, t⟩ | o
          · trivial
          · trivial
          · exact ⟨t, rest', .refl _, ahead (.before hr), ahead (follow h t)⟩
          · exact ⟨rest', .refl _, ahead (.before hr)⟩
        · rcases i with l | t | ⟨c, t⟩ | o
          · trivial
          · trivial
          · cases ht
            exact ⟨u, rest', .refl _, ahead (.before hr), _, hu, follow h u⟩
          · cases ht
    · exact .of_next hx
  · rintro x x' y ⟨z, hl, hz⟩ hy
    rcases hl.cases hy with rfl | hl
    · rcases hz with _ | @⟨_, _, _ | @⟨i, i', rest, rest', hi, hr⟩⟩
      · cases hy
      · cases hy
        exact ⟨_, _, .refl _, .step rfl, ahead .entry⟩
      · rcases hi with rfl | ⟨t, u, ht, rfl, hu⟩
        · rcases i' with l | t | _ | _
          · cases hy
            exact ⟨_, _, .refl _, .label l _, ahead (.before hr)⟩
          · cases hy
            exact ⟨_, _, .refl _, .jump t _, ahead (follow h t)⟩
          · cases hy
          · cases hy
        · rcases i with _ | t | _ | _
          · cases ht
          · cases ht
            cases hy
            exact ⟨_, _, hu, .jump u _, ahead (follow h u)⟩
          · cases hy
          · cases ht
    · exact ⟨y, x', .refl _, .refl _, z, hl, hz⟩

theorem simulation_back (h : List.Forall₂ (Redirect body) body body') :
    Simulation body' body fun x' x => Ahead body x x' := by
  refine ⟨ahead (.before h), ?_, ?_⟩
  · rintro x' x ⟨z, hl, hz⟩
    rcases hz with _ | @⟨_, _, _ | @⟨i, i', rest, rest', hi, hr⟩⟩
    · exact hl
    · trivial
    · rcases hi with rfl | ⟨t, u, ht, rfl, hu⟩
      · rcases i' with l | t | ⟨c, t⟩ | o
        · trivial
        · trivial
        · exact ⟨t, rest, hl, ahead (.before hr), ahead (follow h t)⟩
        · exact ⟨rest, hl, ahead (.before hr)⟩
      · rcases i with l | t | ⟨c, t⟩ | o
        · trivial
        · trivial
        · cases ht
          exact ⟨t, rest, hl, ahead (.before hr), _, hu, follow h u⟩
        · cases ht
  · rintro x' x y ⟨z, hl, hz⟩ hy
    rcases hz with _ | @⟨_, _, _ | @⟨i, i', rest, rest', hi, hr⟩⟩
    · cases hy
    · cases hy
      exact ⟨_, _, .refl _, hl.trans (.step rfl), ahead .entry⟩
    · rcases hi with rfl | ⟨t, u, ht, rfl, hu⟩
      · rcases i' with l | t | _ | _
        · cases hy
          exact ⟨_, _, .refl _, hl.trans (.label l _), ahead (.before hr)⟩
        · cases hy
          exact ⟨_, _, .refl _, hl.trans (.jump t _), ahead (follow h t)⟩
        · cases hy
        · cases hy
      · rcases i with _ | t | _ | _
        · cases ht
        · cases ht
          cases hy
          exact ⟨_, _, .refl _, (hl.trans (.jump t _)).trans hu, ahead (follow h u)⟩
        · cases hy
        · cases ht

theorem alike {σ : Type} {link : Machine.Link σ} (h : List.Forall₂ (Redirect body) body body') :
    Alike link body body' :=
  ⟨(simulation h).covers, (simulation_back h).covers⟩

end Redirect

/-- The entry, or a label that has its place in the body. -/
def Target (body : List Instruction) (t : Label) : Prop := t = .entry ∨ t ∈ placedLabels body

theorem endOfRun_lead {l last : Label} {rest behind : List Instruction}
    (h : endOfRun l rest = (last, behind)) :
    .label last :: behind <:+ .label l :: rest ∧
      ∀ code, Leads code (.before (.label l :: rest)) (.before (.label last :: behind)) := by
  induction rest generalizing l with
  | nil =>
    cases h
    exact ⟨List.suffix_refl _, fun code => .refl _⟩
  | cons i rest ih =>
    cases i with
    | label m =>
      obtain ⟨hs, hl⟩ := ih h
      exact ⟨hs.trans (List.suffix_cons _ _), fun code => .head rfl (hl code)⟩
    | _ =>
      cases h
      exact ⟨List.suffix_refl _, fun code => .refl _⟩

/-- The final destination of a jump is where the jump leads. -/
theorem resolveFrom_lead (hc : Closed body) {fuel : Nat} {seen : List Label} {l u : Label}
    (ht : Target body l) (h : resolveFrom body fuel seen l = .final u) :
    Target body u ∧ Leads body (follow body l) (follow body u) := by
  induction fuel generalizing seen l with
  | zero => cases h
  | succ fuel ih =>
    rw [resolveFrom] at h
    split at h
    · cases h
    · cases ha : after? l body with
      | none =>
        rw [ha] at h
        cases h
        exact ⟨ht, .refl _⟩
      | some rest =>
        rw [ha] at h
        have hsuf := after?_suffix ha
        have hentry {m : Label} {q : List Instruction} (hq : .label m :: q <:+ body) :
            m ≠ .entry := by
          rintro rfl
          exact hc.outside (mem_placedLabels.mpr (hq.subset List.mem_cons_self))
        have hfollow := follow_some (hentry hsuf) ha
        rcases hrun : endOfRun l rest with ⟨last, behind⟩
        obtain ⟨hs, hl⟩ := endOfRun_lead hrun
        have hs := hs.trans hsuf
        have hlast := follow_some (hentry hs) (after?_of_suffix hc.once hs)
        simp only [hrun] at h
        rcases behind with _ | ⟨_ | next | _ | _, behind⟩
        case cons.jump =>
          have hmem : Instruction.jump next ∈ body :=
            hs.subset (List.mem_cons_of_mem _ List.mem_cons_self)
          obtain ⟨hu, hlu⟩ := ih (hc.placed _ hmem next rfl) h
          refine ⟨hu, ?_⟩
          rw [hfollow]
          exact (((hl body).trans (.label last _)).trans (.jump next _)).trans hlu
        all_goals
          cases h
          refine ⟨.inr (mem_placedLabels.mpr (hs.subset List.mem_cons_self)), ?_⟩
          rw [hfollow, hlast]
          exact hl body

theorem target?_retarget (i : Instruction) (t u : Label) (h : i.target? = some t) :
    (i.retarget u).target? = some u := by
  cases i <;> first | rfl | cases h

theorem label?_retarget (i : Instruction) (u : Label) : (i.retarget u).label? = i.label? := by
  cases i <;> rfl

/-- One jump sent on leaves the body closed. -/
theorem closed_retarget {before rest : List Instruction} {i : Instruction} {t u : Label}
    (hc : Closed (before ++ i :: rest)) (ht : i.target? = some t)
    (hu : Target (before ++ i :: rest) u) : Closed (before ++ i.retarget u :: rest) := by
  have hl : placedLabels (before ++ i.retarget u :: rest) = placedLabels (before ++ i :: rest) := by
    simp [placedLabels, List.filterMap_cons, label?_retarget]
  refine ⟨hl ▸ hc.once, hl ▸ hc.outside, fun j hj s hs => ?_⟩
  rw [hl]
  rcases List.mem_append.mp hj with hj | hj
  · exact hc.placed j (List.mem_append_left _ hj) s hs
  · rcases List.mem_cons.mp hj with rfl | hj
    · rw [target?_retarget i t u ht] at hs
      cases hs
      exact hu
    · exact hc.placed j (List.mem_append_right _ (List.mem_cons_of_mem _ hj)) s hs

theorem forall₂_retarget {before rest : List Instruction} {i : Instruction} {t u : Label}
    (ht : i.target? = some t)
    (hl : Leads (before ++ i :: rest) (follow (before ++ i :: rest) t)
      (follow (before ++ i :: rest) u)) :
    List.Forall₂ (Redirect (before ++ i :: rest)) (before ++ i :: rest)
      (before ++ i.retarget u :: rest) := by
  have hrefl (code : List Instruction) :
      List.Forall₂ (Redirect (before ++ i :: rest)) code code :=
    List.forall₂_same.mpr fun j _ => .refl _ j
  exact List.rel_append (hrefl before) (.cons (.inr ⟨t, u, ht, rfl, hl⟩) (hrefl rest))

end Handheld.Optimizer
