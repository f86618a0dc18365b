import Handheld.Proofs.Construct.Sound
import Handheld.Proofs.Evaluation.Pages

namespace Handheld

open Build Handheld.Flow Machine

variable {σ : Type} {code : List Instruction} (link : Link σ) (n : Nat)

theorem playAll_empty {free : List Register} {ks : List Construct} (h : expandAll ks = []) :
    playAll link n free none ks = .skip := by
  cases ks with
  | nil => rfl
  | cons k rest => cases h

theorem isEmpty_expandAll (ks : List Construct) : (expandAll ks).isEmpty = ks.isEmpty := by
  cases ks <;> rfl

mutual

/-- By induction on the construct; the shapes do the work. -/
theorem Construct.means (hc : Closed code) (k : Construct) (free : List Register)
    (before : Option String) :
    Means code link n free k.expand before (k.trail before) (k.play link n free before) := by
  cases k with
  | op o => exact means_op o
  | label name => exact means_label hc name
  | block body => exact means_all hc body free before
  | ifElse cond yes no =>
    have h := @means_branch _ code link n free before hc cond _ _ _ _ ⟨_, means_all hc yes free none⟩
      ⟨_, means_all hc no free none⟩ (playAll_empty link n) (playAll_empty link n)
      (balanced_expandAll yes) (balanced_expandAll no)
    rw [isEmpty_expandAll, isEmpty_expandAll] at h
    cases yes <;> cases no <;> exact h
  | loop body =>
    exact means_loop hc (balanced_seq (balanced_expandAll body)) (means_all hc body free none)
  | switch reg cases default =>
    exact means_switch hc reg (means_cases hc cases free) ⟨_, means_all hc default free none⟩
      (playAll_empty link n) (balanced_expandCases cases) (balanced_expandAll default)
  | leave name => exact means_leave name _
  | again name => exact means_again name _
  | leaveIf cond name => exact means_leaveIf cond name _
  | againIf cond name => exact means_againIf cond name _
  | ifFileExists file yes no =>
    exact means_ifFileExists hc file ⟨_, means_all hc yes free none⟩ ⟨_, means_all hc no free none⟩
      (playAll_empty link n) (playAll_empty link n) (balanced_expandAll yes) (balanced_expandAll no)
  | getResult dst => exact means_getResult hc dst
  | menuLines lines => exact means_menuLines lines
  | menuLoop entries next prev =>
    cases free with
    | nil => exact means_refused_menu
    | cons key free =>
      exact means_menu (m := ⟨playEntries link n free entries, next, prev⟩) hc
        (means_entries hc entries free) (balanced_expandEntries entries)

theorem means_all (hc : Closed code) (ks : List Construct) (free : List Register)
    (before : Option String) :
    Means code link n free (seq (expandAll ks)) before (trailAll before ks)
      (playAll link n free before ks) := by
  cases ks with
  | nil => exact means_nil
  | cons k rest =>
    exact means_cons (k.means hc free before) (means_all hc rest free _) (balanced_expandAll rest)

theorem means_cases (hc : Closed code) (cs : List Case) (free : List Register) :
    List.Forall₂ (fun k e => k.1 = e.1 ∧ MeansAll code link n free k.2 e.2) (expandCases cs)
      (playCases link n free cs) := by
  rcases cs with _ | ⟨⟨key, body⟩, rest⟩
  · exact .nil
  · exact .cons ⟨rfl, _, means_all hc body free none⟩ (means_cases hc rest free)

theorem means_entries (hc : Closed code) (es : List MenuEntry) (free : List Register) :
    List.Forall₂ (EntryMeans code link n free) (expandEntries es) (playEntries link n free es) := by
  rcases es with _ | ⟨⟨text, action⟩, rest⟩
  · exact .nil
  · refine .cons ⟨rfl, ?_⟩ (means_entries hc rest free)
    cases action with
    | none => exact .none
    | some body => exact .some ⟨_, means_all hc body free none⟩

end

end Handheld
