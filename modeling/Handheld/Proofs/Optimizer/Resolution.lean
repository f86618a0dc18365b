import Handheld.Proofs.Optimizer.Retarget
import Mathlib.Data.List.Perm.Subperm
import Mathlib.Logic.Relation

namespace Handheld.Optimizer

variable {code : List Instruction} {l m u : Label}

/-- What a run of labels is followed by: an unconditional jump, or something else. -/
inductive Way where
  | stop (last : Label)
  | jump (next : Label)
  deriving DecidableEq

def wayBehind : Label × List Instruction → Way
  | (_, .jump next :: _) => .jump next
  | (last, _) => .stop last

/-- The way from a label past the run of labels that it starts. -/
def way (code : List Instruction) (l : Label) : Way :=
  match after? l code with
  | none => .stop l
  | some rest => wayBehind (endOfRun l rest)

/-- A jump stands behind the run of labels. -/
def Hop (code : List Instruction) (l next : Label) : Prop := way code l = .jump next

/-- From one label jump after jump leads to the other, behind which no jump stands. -/
inductive Ends (code : List Instruction) : Label → Label → Prop where
  | stop {l last : Label} (h : way code l = .stop last) : Ends code l last
  | hop {l next u : Label} (h : Hop code l next) (hu : Ends code next u) : Ends code l u

theorem Hop.unique {next next' : Label} (h : Hop code l next) (h' : Hop code l next') :
    next = next' := Way.jump.inj (h.symm.trans h')

theorem Ends.unique {v : Label} (hu : Ends code l u) (hv : Ends code l v) : u = v := by
  induction hu with
  | stop h =>
    cases hv with
    | stop h' => exact Way.stop.inj (h.symm.trans h')
    | hop h' _ => exact nomatch h.symm.trans h'
  | hop h _ ih =>
    cases hv with
    | stop h' => exact nomatch h.symm.trans h'
    | hop h' hv => exact ih (h.unique h' ▸ hv)

/-- A way that ends goes on to its end from everywhere on it. -/
theorem Ends.of_hops (h : Ends code l u) (hm : Relation.ReflTransGen (Hop code) l m) :
    Ends code m u := by
  induction hm with
  | refl => exact h
  | tail _ hhop ih =>
    cases ih with
    | stop h' => exact nomatch Eq.trans (Eq.symm h') hhop
    | hop h' hu => exact h'.unique hhop ▸ hu

/-- A way that ends is no circle. -/
theorem Ends.not_circle (h : Ends code l u) : ¬ Relation.TransGen (Hop code) l l := by
  induction h with
  | stop h' =>
    intro hcircle
    obtain ⟨next, hhop, -⟩ := Relation.TransGen.head'_iff.mp hcircle
    exact nomatch Eq.trans (Eq.symm h') hhop
  | hop hhop _ ih =>
    intro hcircle
    obtain ⟨next, hhop', hback⟩ := Relation.TransGen.head'_iff.mp hcircle
    obtain rfl := hhop.unique hhop'
    exact ih (Relation.TransGen.tail' hback hhop)

/-- A label with a jump behind it has a place in the list. -/
theorem Hop.placed {next : Label} (h : Hop code l next) : l ∈ placedLabels code := by
  by_contra hnot
  rw [Hop, way, after?_eq_none.mpr hnot] at h
  cases h

theorem resolveFrom_succ (code : List Instruction) (fuel : Nat) (seen : List Label) (l : Label) :
    resolveFrom code (fuel + 1) seen l =
      if l ∈ seen then .cycle l
      else match way code l with
        | .stop u => .final u
        | .jump next => resolveFrom code fuel (l :: seen) next := by
  rw [resolveFrom, way]
  by_cases hl : l ∈ seen
  · rw [if_pos hl, if_pos (List.contains_iff_mem.mpr hl)]
  · rw [if_neg hl, if_neg (mt List.contains_iff_mem.mp hl)]
    cases after? l code with
    | none => rfl
    | some rest =>
      dsimp only
      rcases endOfRun l rest with ⟨last, _ | ⟨_ | _ | _ | _, behind⟩⟩ <;> rfl

/-- Following a jump without a bound on the steps: it ends where no jump goes on, or at a label that
has been passed before. -/
inductive Follows (code : List Instruction) : List Label → Label → Resolution → Prop where
  | passed {seen : List Label} {l : Label} (hl : l ∈ seen) : Follows code seen l (.cycle l)
  | stop {seen : List Label} {l u : Label} (hl : l ∉ seen) (h : way code l = .stop u) :
      Follows code seen l (.final u)
  | hop {seen : List Label} {l next : Label} {r : Resolution} (hl : l ∉ seen) (h : Hop code l next)
      (hr : Follows code (l :: seen) next r) : Follows code seen l r

/-- Of the labels passed none is there twice, and all have a place, so that they run out before the
steps do. -/
theorem follows_resolveFrom {fuel : Nat} {seen : List Label} (hseen : seen.Nodup)
    (hplaced : ∀ s ∈ seen, s ∈ placedLabels code)
    (hfuel : (placedLabels code).length < seen.length + fuel) :
    Follows code seen l (resolveFrom code fuel seen l) := by
  induction fuel generalizing seen l with
  | zero =>
    have hle : seen.length ≤ (placedLabels code).length := (hseen.subperm hplaced).length_le
    omega
  | succ fuel ih =>
    rw [resolveFrom_succ]
    by_cases hl : l ∈ seen
    · rw [if_pos hl]
      exact .passed hl
    · rw [if_neg hl]
      cases hway : way code l with
      | stop u => exact .stop hl hway
      | jump next =>
        have hhop : Hop code l next := hway
        have hplaced' : ∀ s ∈ l :: seen, s ∈ placedLabels code :=
          List.forall_mem_cons.mpr ⟨hhop.placed, hplaced⟩
        exact .hop hl hhop (ih (List.nodup_cons.mpr ⟨hl, hseen⟩) hplaced'
          (by rw [List.length_cons]; omega))

theorem follows_resolve (code : List Instruction) (l : Label) :
    Follows code [] l (resolve code l) := by
  have hlen : (placedLabels code).length ≤ code.length := List.length_filterMap_le _ _
  exact follows_resolveFrom List.nodup_nil (by simp) (by simp only [List.length_nil]; omega)

theorem Follows.ends {seen : List Label} (h : Follows code seen l (.final u)) : Ends code l u := by
  generalize hr : Resolution.final u = r at h
  induction h with
  | passed => cases hr
  | stop _ hstop =>
    cases hr
    exact .stop hstop
  | hop _ hhop _ ih => exact .hop hhop (ih hr)

/-- What has been passed leads to where the way is, so that a label passed twice is on a circle. -/
theorem Follows.circle {seen : List Label} {through : Label}
    (h : Follows code seen l (.cycle through))
    (hlead : ∀ s ∈ seen, Relation.TransGen (Hop code) s l) :
    ∃ v, Relation.ReflTransGen (Hop code) l v ∧ Relation.TransGen (Hop code) v v := by
  generalize hr : Resolution.cycle through = r at h
  induction h with
  | @passed seen l hl => exact ⟨l, .refl, hlead l hl⟩
  | stop => cases hr
  | @hop seen l next r _ hhop _ ih =>
    have hlead' : ∀ s ∈ l :: seen, Relation.TransGen (Hop code) s next :=
      List.forall_mem_cons.mpr ⟨.single hhop, fun s hs => (hlead s hs).tail hhop⟩
    obtain ⟨v, hv, hcircle⟩ := ih hlead' hr
    exact ⟨v, .head hhop hv, hcircle⟩

/-- A jump that has no final destination leads into a circle. -/
theorem circle_of_resolve {through : Label} (h : resolve code l = .cycle through) :
    ∃ v, Relation.ReflTransGen (Hop code) l v ∧ Relation.TransGen (Hop code) v v := by
  have hfollows := follows_resolve code l
  rw [h] at hfollows
  exact hfollows.circle (by simp)

/-- A jump resolves to where its way ends. -/
theorem resolve_eq_final_iff : resolve code l = .final u ↔ Ends code l u := by
  have hfollows := follows_resolve code l
  constructor
  · intro h
    rw [h] at hfollows
    exact hfollows.ends
  · intro h
    cases hr : resolve code l with
    | final v =>
      rw [hr] at hfollows
      exact congrArg Resolution.final (hfollows.ends.unique h)
    | cycle through =>
      obtain ⟨v, hv, hcircle⟩ := circle_of_resolve hr
      exact absurd hcircle (h.of_hops hv).not_circle

/-- A way that stops is a run of labels, and stops at the last of them. -/
theorem endOfRun_of_stop {rest : List Instruction} (h : way code l = .stop u)
    (ha : after? l code = some rest) : ∃ behind, endOfRun l rest = (u, behind) := by
  rw [way, ha] at h
  dsimp only at h
  rcases hrun : endOfRun l rest with ⟨last, behind⟩
  rw [hrun] at h
  obtain rfl : last = u := by
    rcases behind with _ | ⟨_ | _ | _ | _, _⟩ <;> first | exact Way.stop.inj h | cases h
  exact ⟨behind, rfl⟩

section Once

variable (hn : (placedLabels code).Nodup)

theorem endOfRun_endOfRun {last : Label} {rest behind : List Instruction}
    (h : endOfRun l rest = (last, behind)) : endOfRun last behind = (last, behind) := by
  induction rest generalizing l with
  | nil =>
    cases h
    rfl
  | cons i rest ih =>
    cases i with
    | label m => exact ih h
    | _ =>
      cases h
      rfl

include hn

/-- A final destination is its own. -/
theorem way_of_stop (h : way code l = .stop u) : way code u = .stop u := by
  cases ha : after? l code with
  | none =>
    rw [way, ha] at h
    cases h
    rw [way, ha]
  | some rest =>
    obtain ⟨behind, hrun⟩ := endOfRun_of_stop h ha
    have hsuf := (endOfRun_lead hrun).1.trans (after?_suffix ha)
    have hbehind : wayBehind (u, behind) = .stop u := by
      rw [way, ha] at h
      dsimp only at h
      rwa [hrun] at h
    rw [way, after?_of_suffix hn hsuf]
    dsimp only
    rw [endOfRun_endOfRun hrun, hbehind]

end Once

/-- Every way that stops at a label stops there from the label itself, too. -/
def Straight (code : List Instruction) : Prop := ∀ l u, way code l = .stop u → way code u = .stop u

theorem straight_of_nodup (hn : (placedLabels code).Nodup) : Straight code :=
  fun _ _ => way_of_stop hn

theorem Ends.way_eq (hs : Straight code) (h : Ends code l u) : way code u = .stop u := by
  induction h with
  | stop h => exact hs _ _ h
  | hop _ _ ih => exact ih

end Handheld.Optimizer
