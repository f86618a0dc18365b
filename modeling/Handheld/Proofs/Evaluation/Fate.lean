import Handheld.Construct.Context
import Handheld.Proofs.Evaluation.Menu
import Handheld.Proofs.Program.Link

namespace Handheld.Flow

open Machine

variable {σ : Type}

/-- The operations among what shows, up to the first ending. -/
def performed : List (Event × View × σ) → List (Operation × View × σ)
  | [] => []
  | (.operation o, v, s) :: rest => (o, v, s) :: performed rest
  | (.ending _, _, _) :: _ => []
  | _ :: rest => performed rest

/-- The operations are as given, and nothing ends. -/
structure Shows (ds : List (Event × View × σ)) (es : List (Operation × View × σ)) : Prop where
  performed : performed ds = es
  going : ∀ d ∈ ds, Event.ending? d = none

namespace Shows

variable {ds ds' : List (Event × View × σ)} {es es' : List (Operation × View × σ)}

theorem nil : Shows ([] : List (Event × View × σ)) [] := ⟨rfl, by simp⟩

theorem operation (o : Operation) (v : View) (s : σ) : Shows [(.operation o, v, s)] [(o, v, s)] :=
  ⟨rfl, by simp [Event.ending?]⟩

theorem decision (c : Condition) (taken : Bool) (v : View) (s : σ) :
    Shows [(.decision c taken, v, s)] [] := ⟨rfl, by simp [Event.ending?]⟩

/-- What shows after events without an ending adds its operations. -/
theorem performed_append (h : Shows ds es) (rest : List (Event × View × σ)) :
    Flow.performed (ds ++ rest) = es ++ Flow.performed rest := by
  obtain ⟨rfl, hg⟩ := h
  induction ds with
  | nil => rfl
  | cons d ds ih =>
    have ih := ih fun x hx => hg x (List.mem_cons_of_mem d hx)
    obtain ⟨e, v, s⟩ := d
    cases e with
    | ending e =>
      have he := hg _ List.mem_cons_self
      simp [Event.ending?] at he
    | operation o => simp [Flow.performed, ih]
    | title => simpa [Flow.performed] using ih
    | decision c taken => simpa [Flow.performed] using ih

theorem append (h : Shows ds es) (h' : Shows ds' es') : Shows (ds ++ ds') (es ++ es') := by
  refine ⟨by rw [h.performed_append, h'.performed], fun d hd => ?_⟩
  rcases List.mem_append.mp hd with hd | hd
  · exact h.going d hd
  · exact h'.going d hd

theorem findSome?_eq_none (h : Shows ds es) : ds.findSome? Event.ending? = none :=
  List.findSome?_eq_none_iff.mpr h.going

end Shows

/-- More of a run performs more operations. -/
theorem performed_mono {ds ds' : List (Event × View × σ)} (h : ds <+: ds') :
    performed ds <+: performed ds' := by
  induction ds generalizing ds' with
  | nil => exact List.nil_prefix
  | cons d ds ih =>
    obtain ⟨rest, rfl⟩ := h
    have ih := ih (List.prefix_append ds rest)
    obtain ⟨e, v, s⟩ := d
    cases e with
    | operation o => exact (List.prefix_cons_inj _).mpr ih
    | ending e => exact List.prefix_refl _
    | title => exact ih
    | decision c taken => exact ih

section Fate

variable (body : List Instruction) (link : Link σ)

/-- The run comes to another place after these operations. -/
def Passes (x : Spot) (v : View) (s : σ) (es : List (Operation × View × σ)) (y : Spot) (v' : View)
    (s' : σ) : Prop :=
  ∃ j ds, Shows ds es ∧
    ∀ n, flow body link (j + n) x v s = ds ++ flow body link n y v' s'

/-- The run ends after these operations. -/
def Finishes (x : Spot) (v : View) (s : σ) (es : List (Operation × View × σ)) (e : Ending)
    (v' : View) (s' : σ) : Prop :=
  ∃ j ds, Shows ds es ∧ ∀ n, flow body link (j + n) x v s = ds ++ [(.ending e, v', s')]

/-- The run performs these operations in `n` steps or more, and has not ended then. -/
def Persists (n : Nat) (x : Spot) (v : View) (s : σ) (es : List (Operation × View × σ)) : Prop :=
  ∃ k ds, n ≤ k ∧ Shows ds es ∧ flow body link k x v s = ds

/-- An open loop, with the name it has. -/
abbrev Frame := Loop × Option String

/-- What a run from `x` on does, if the evaluation comes out as given: it goes on at `z`, goes to the
exit or the entry of one of the open loops, or ends. -/
def Fate (n : Nat) (frames : List Frame) (x z : Spot) (v : View) (s : σ) (o : Outcome σ) : Prop :=
  match o.completion with
  | .next => Passes body link x v s o.performed z o.view o.link
  | .leave target => ∃ f, frames.find? (fun f => picks target f.2) = some f ∧
    Passes body link x v s o.performed (follow body f.1.exit) o.view o.link
  | .again target => ∃ f, frames.find? (fun f => picks target f.2) = some f ∧
    Passes body link x v s o.performed (follow body f.1.entry) o.view o.link
  | .ended .unfinished => Persists body link n x v s o.performed
  | .ended e => Finishes body link x v s o.performed e o.view o.link

end Fate

variable {body : List Instruction} {link : Link σ} {n : Nat} {frames : List Frame} {x y z : Spot}
  {v v' v'' : View} {s s' s'' : σ} {es es' : List (Operation × View × σ)} {o : Outcome σ}

namespace Passes

theorem of_leads (h : Leads body x y) (v : View) (s : σ) : Passes body link x v s [] y v s := by
  obtain ⟨j, hj⟩ := flow_leads link h
  exact ⟨j, [], .nil, fun n => hj n v s⟩

theorem trans (h : Passes body link x v s es y v' s') (h' : Passes body link y v' s' es' z v'' s'') :
    Passes body link x v s (es ++ es') z v'' s'' := by
  obtain ⟨j, ds, hd, hj⟩ := h
  obtain ⟨j', ds', hd', hj'⟩ := h'
  refine ⟨j + j', ds ++ ds', hd.append hd', fun n => ?_⟩
  rw [Nat.add_assoc, hj, hj', List.append_assoc]

theorem finishes {e : Ending} (h : Passes body link x v s es y v' s')
    (h' : Finishes body link y v' s' es' e v'' s'') :
    Finishes body link x v s (es ++ es') e v'' s'' := by
  obtain ⟨j, ds, hd, hj⟩ := h
  obtain ⟨j', ds', hd', hj'⟩ := h'
  refine ⟨j + j', ds ++ ds', hd.append hd', fun n => ?_⟩
  rw [Nat.add_assoc, hj, hj', List.append_assoc]

theorem persists (h : Passes body link x v s es y v' s') (h' : Persists body link n y v' s' es') :
    Persists body link n x v s (es ++ es') := by
  obtain ⟨j, ds, hd, hj⟩ := h
  obtain ⟨k, ds', hk, hd', hflow⟩ := h'
  refine ⟨j + k, ds ++ ds', by omega, hd.append hd', ?_⟩
  rw [hj, hflow]

/-- A fate that begins where a run has come to. -/
theorem fate (h : Passes body link x v s es y v' s') (h' : Fate body link n frames y z v' s' o) :
    Fate body link n frames x z v s (o.behind es) := by
  unfold Fate at *
  simp only [Outcome.behind]
  split at h'
  · exact h.trans h'
  · obtain ⟨f, hf, hp⟩ := h'
    exact ⟨f, hf, h.trans hp⟩
  · obtain ⟨f, hf, hp⟩ := h'
    exact ⟨f, hf, h.trans hp⟩
  · exact h.persists h'
  · exact h.finishes h'

/-- Coming to a place is a fate. -/
theorem next (h : Passes body link x v s es z v' s') :
    Fate body link n frames x z v s ⟨es, .next, v', s'⟩ := h

end Passes

namespace Fate

/-- Where the run first goes without showing anything. -/
theorem of_passes (h : Passes body link x v s [] y v s) (h' : Fate body link n frames y z v s o) :
    Fate body link n frames x z v s o := h.fate h'

theorem of_leads (h : Leads body x y) (h' : Fate body link n frames y z v s o) :
    Fate body link n frames x z v s o := of_passes (Passes.of_leads h v s) h'

/-- Doing nothing comes to where the run goes without showing anything. -/
theorem skip (h : Leads body x z) (v : View) (s : σ) :
    Fate body link n frames x z v s (Evaluation.skip v s) := (Passes.of_leads h v s).next

/-- Where the run goes on from the place that it was to come to, without showing anything. -/
theorem leads (h : Fate body link n frames x y v s o) (h' : Leads body y z) :
    Fate body link n frames x z v s o := by
  unfold Fate at *
  split at h
  · next hc =>
    have hp := Passes.trans h (Passes.of_leads h' _ _)
    rw [List.append_nil] at hp
    exact hp
  · exact h
  · exact h
  · exact h
  · exact h

/-- Fewer steps are asked of a run that does not end. -/
theorem mono {k : Nat} (h : Fate body link n frames x z v s o) (hk : k ≤ n) :
    Fate body link k frames x z v s o := by
  unfold Fate at *
  split at h
  · exact h
  · exact h
  · exact h
  · obtain ⟨j, ds, hj, hd⟩ := h
    exact ⟨j, ds, Nat.le_trans hk hj, hd⟩
  · exact h

/-- A step that does not show counts for a run that does not end. -/
theorem step (h : next? body x = some y) (h' : Fate body link n frames y z v s o) :
    Fate body link (n + 1) frames x z v s o := by
  have hp (v : View) (s : σ) : Passes body link x v s [] y v s := .of_leads (.step h) v s
  unfold Fate at *
  split at h'
  · exact (hp v s).trans h'
  · obtain ⟨f, hf, h'⟩ := h'
    exact ⟨f, hf, (hp v s).trans h'⟩
  · obtain ⟨f, hf, h'⟩ := h'
    exact ⟨f, hf, (hp v s).trans h'⟩
  · obtain ⟨k, ds, hk, hd, hflow⟩ := h'
    refine ⟨k + 1, ds, by omega, hd, ?_⟩
    rw [flow_next link h, hflow]
  · exact (hp v s).finishes h'

theorem andThen {a b : Evaluation σ} (ha : Fate body link n frames x y v s (a v s))
    (hb : ∀ v s, Fate body link n frames y z v s (b v s)) :
    Fate body link n frames x z v s (a.andThen b v s) := by
  unfold Evaluation.andThen
  cases hc : (a v s).completion with
  | next =>
    have hp : Passes body link x v s (a v s).performed y (a v s).view (a v s).link := by
      simpa [Fate, hc] using ha
    exact hp.fate (hb _ _)
  | leave target => simpa [Fate, hc] using ha
  | again target => simpa [Fate, hc] using ha
  | ended e => cases e <;> simpa [Fate, hc] using ha

/-- An operation in front of a place. -/
theorem perform (op : Operation) (rest : List Instruction) (v : View) (s : σ) :
    Fate body link n frames (.before (.op op :: rest)) (.before rest) v s
      (Evaluation.perform link op v s) := by
  unfold Evaluation.perform
  rcases hp : v.perform link op s with ⟨_ | e, v', s'⟩
  · refine ⟨1, _, .operation op v' s', fun n => ?_⟩
    rw [Nat.add_comm, flow, hp]
    rfl
  · have hends : Finishes body link (.before (.op op :: rest)) v s [(op, v', s')] e v' s' := by
      refine ⟨1, _, .operation op v' s', fun n => ?_⟩
      rw [Nat.add_comm, flow, hp]
      rfl
    have he : (v.perform link op s).1 = some e := by rw [hp]
    rcases View.perform_ending he with rfl | ⟨stop, rfl⟩
    · exact hends
    · exact hends

/-- A conditional jump in front of a place. -/
theorem decide (c : Condition) (t : Label) (rest : List Instruction) (v : View) (s : σ) :
    Passes body link (.before (.jumpIf c t :: rest)) v s []
      (if v.holds c then follow body t else .before rest) v s := by
  refine ⟨1, _, .decision c (v.holds c) v s, fun n => ?_⟩
  rw [Nat.add_comm, flow]
  rfl

theorem branch {c : Condition} {yes no : Evaluation σ} (v : View) (s : σ)
    (hy : v.holds c = true → Fate body link n frames x z v s (yes v s))
    (hn : v.holds c = false → Fate body link n frames x z v s (no v s)) :
    Fate body link n frames x z v s (Evaluation.branch c yes no v s) := by
  unfold Evaluation.branch
  cases hc : v.holds c with
  | true => exact hy hc
  | false => exact hn hc

variable {lp : Loop} {name : Option String}

/-- An exit out of a loop that picks another one is an exit out of what is around the loop. -/
theorem find?_other {target : Option String} {f : Frame} (hp : picks target name = false)
    (hf : ((lp, name) :: frames).find? (fun f => picks target f.2) = some f) :
    frames.find? (fun f => picks target f.2) = some f := by
  rwa [List.find?_cons_of_neg (by simp [hp])] at hf

theorem find?_here {target : Option String} {f : Frame} (hp : picks target name = true)
    (hf : ((lp, name) :: frames).find? (fun f => picks target f.2) = some f) : f = (lp, name) := by
  rw [List.find?_cons_of_pos (by simpa using hp)] at hf
  exact (Option.some.inj hf).symm

/-- A round inside a loop, where what comes next and the loop again have their fates. -/
theorem inside {next again : Evaluation σ} {w : Spot}
    (hround : Fate body link n ((lp, name) :: frames) x w v s o) (hexit : follow body lp.exit = z)
    (hnext : ∀ v s, Fate body link n frames w z v s (next v s))
    (hagain : ∀ v s, Fate body link n frames (follow body lp.entry) z v s (again v s)) :
    Fate body link n frames x z v s (Evaluation.inside name next again o) := by
  unfold Evaluation.inside
  cases hc : o.completion with
  | next =>
    simp only [Fate, hc] at hround
    exact hround.fate (hnext _ _)
  | again target =>
    simp only [Fate, hc] at hround
    obtain ⟨f, hf, hp⟩ := hround
    dsimp only
    cases ht : picks target name with
    | true =>
      obtain rfl := find?_here ht hf
      rw [if_pos rfl]
      exact hp.fate (hagain _ _)
    | false =>
      rw [if_neg Bool.false_ne_true]
      simp only [Fate, hc]
      exact ⟨f, find?_other ht hf, hp⟩
  | leave target =>
    simp only [Fate, hc] at hround
    obtain ⟨f, hf, hp⟩ := hround
    dsimp only
    cases ht : picks target name with
    | true =>
      obtain rfl := find?_here ht hf
      rw [if_pos rfl]
      exact (hexit ▸ hp).next
    | false =>
      rw [if_neg Bool.false_ne_true]
      simp only [Fate, hc]
      exact ⟨f, find?_other ht hf, hp⟩
  | ended e =>
    simp only [Fate, hc] at hround ⊢
    cases e <;> exact hround

/-- Round after round: every round begins with a step that does not show, at the entry of the loop,
and comes back to it. -/
theorem loop {round : Evaluation σ} {top w : Spot} (hstep : next? body top = some y)
    (hback : Leads body w top) (hentry : follow body lp.entry = top)
    (hexit : follow body lp.exit = z)
    (hround : ∀ v s, Fate body link n ((lp, name) :: frames) y w v s (round v s)) (m : Nat)
    (hm : m ≤ n) (v : View) (s : σ) :
    Fate body link m frames top z v s (Evaluation.loop name round m v s) := by
  induction m generalizing v s with
  | zero => exact ⟨0, [], Nat.le_refl _, .nil, rfl⟩
  | succ m ih =>
    have hm := Nat.le_of_succ_le hm
    rw [Evaluation.loop_succ]
    exact step hstep (inside ((hround v s).mono hm) hexit (fun v s => of_leads hback (ih hm v s))
      (hentry ▸ ih hm))

end Fate
end Handheld.Flow
