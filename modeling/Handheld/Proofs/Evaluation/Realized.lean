import Handheld.Proofs.Evaluation.Fate
import Handheld.Proofs.Flow.Linked

namespace Handheld

open Machine Handheld.Flow

variable {σ : Type}

namespace Machine

/-- The operations that a run up to the return performs. -/
def performed (m : Machine) (link : Link σ) (k : Nat) (s : σ) : List (Operation × View × σ) :=
  Flow.performed (m.trace link k s)

/-- The machine performs the operations that the tales tell, in their order, no more and no less; and
it ends as they do, with the same to be seen. -/
structure Realizes (m : Machine) (link : Link σ) (s : σ) (tale : Nat → Tale σ) : Prop where
  told : ∀ k, ∃ n, m.performed link k s <+: (tale n).1
  done : ∀ n, ∃ k, (tale n).1 <+: m.performed link k s
  ends : ∀ es e v t, e ≠ .unfinished →
    ((∃ n, tale n = (es, e, v, t)) ↔
      ∃ k m', runUntilReturn link k m s = (e, m', t) ∧ m'.view = v ∧ m.performed link k s = es)

end Machine

namespace Flow

/-- What comes behind an ending does not count. -/
theorem performed_of_ending {ds ds' : List (Event × View × σ)} {x : Ending × View × σ}
    (h : ds <+: ds') (hx : ds.findSome? Event.ending? = some x) : performed ds' = performed ds := by
  obtain ⟨rest, rfl⟩ := h
  induction ds with
  | nil => cases hx
  | cons d ds ih =>
    obtain ⟨e, v, s⟩ := d
    cases e with
    | ending e => rfl
    | operation o => exact congrArg ((o, v, s) :: ·) (ih hx)
    | title => exact ih hx
    | decision c taken => exact ih hx

/-- Nothing is performed where an ending comes before any operation. -/
theorem performed_ending {ds : List (Event × View × σ)} (h : ∀ d ∈ ds, ∀ o, d.1 ≠ .operation o)
    (e : Ending) (v : View) (s : σ) (rest : List (Event × View × σ)) :
    performed (ds ++ (.ending e, v, s) :: rest) = [] := by
  induction ds with
  | nil => rfl
  | cons d ds ih =>
    have ih := ih fun x hx => h x (List.mem_cons_of_mem d hx)
    obtain ⟨e, v, s⟩ := d
    cases e with
    | ending e => rfl
    | operation o => exact absurd rfl (h _ List.mem_cons_self o)
    | title => exact ih
    | decision c taken => exact ih

variable (body : List Instruction) (link : Link σ) (n : Nat) (v : View) (s : σ)

/-- The tale is what the flow through a body shows up to its first ending; an unfinished one covers
`n` steps or more. -/
inductive Told : Tale σ → Prop where
  | unfinished {i : Nat} {v' : View} {t : σ} (long : n ≤ i)
      (going : (flow body link i (.before body) v s).findSome? Event.ending? = none) :
      Told (performed (flow body link i (.before body) v s), .unfinished, v', t)
  | ended {i : Nat} {e : Ending} {v' : View} {t : σ}
      (closing : (flow body link i (.before body) v s).findSome? Event.ending? = some (e, v', t)) :
      Told (performed (flow body link i (.before body) v s), e, v', t)

variable {body} {link} {n} {v} {s} {r : Tale σ}

/-- A tale is told by some part of the flow. -/
theorem Told.performed (h : Told body link n v s r) :
    ∃ i, r.1 = Flow.performed (flow body link i (.before body) v s) := by
  cases h with
  | unfinished long going => exact ⟨_, rfl⟩
  | ended closing => exact ⟨_, rfl⟩

/-- A tale with a large bound covers what a short run performs. -/
theorem Told.covers (h : Told body link n v s r) :
    Flow.performed (flow body link n (.before body) v s) <+: r.1 := by
  cases h with
  | unfinished long going => exact performed_mono (flow_mono link long _ v s)
  | @ended i e v' t closing =>
    rcases Nat.le_total n i with hn | hn
    · exact performed_mono (flow_mono link hn _ v s)
    · have he := performed_of_ending (flow_mono link hn (.before body) v s) closing
      exact he ▸ List.prefix_refl _

/-- If a run has ended, a tale with a larger bound tells its end. -/
theorem Told.ending {x : Ending × View × σ} (h : Told body link n v s r)
    (hx : (flow body link n (.before body) v s).findSome? Event.ending? = some x) :
    r = (Flow.performed (flow body link n (.before body) v s), x) := by
  cases h with
  | @unfinished i v' t long going =>
    rw [(flow_mono link long _ v s).findSome?_eq_some hx] at going
    cases going
  | @ended i e v' t closing =>
    have hp {j k : Nat} (h : j ≤ k) :
        flow body link j (.before body) v s <+: flow body link k (.before body) v s :=
      flow_mono link h _ v s
    rcases Nat.le_total n i with hn | hn
    · have hp := hp hn
      rw [hp.findSome?_eq_some hx] at closing
      rw [performed_of_ending hp hx, Option.some.inj closing]
    · have hp := hp hn
      rw [hp.findSome?_eq_some closing] at hx
      rw [performed_of_ending hp closing, Option.some.inj hx]

/-- Where a tale has an ending, the flow has it. -/
theorem Told.closing {es : List (Operation × View × σ)} {e : Ending} {v' : View} {t : σ}
    (h : Told body link n v s (es, e, v', t)) (he : e ≠ .unfinished) :
    ∃ i, (flow body link i (.before body) v s).findSome? Event.ending? = some (e, v', t) ∧
      Flow.performed (flow body link i (.before body) v s) = es := by
  cases h with
  | unfinished => exact absurd rfl he
  | @ended i _ _ _ closing => exact ⟨i, closing, rfl⟩

/-- The tale of a fate without open loops, from the beginning of a body to its end. -/
theorem Fate.told {o : Outcome σ} (h : Fate body link n [] (.before body) (.before []) v s o) :
    Told body link n v s o.tale := by
  unfold Fate at h
  unfold Outcome.tale
  split at h
  · next hc =>
    obtain ⟨j, ds, hd, hflow⟩ := h
    have hend := hflow 2
    have hdone : Flow.performed (flow body link (j + 2) (.before body) v s) = o.performed := by
      rw [hend, hd.performed_append]
      exact List.append_nil _
    rw [hc, ← hdone]
    refine .ended ?_
    rw [hend, List.findSome?_append, hd.findSome?_eq_none]
    rfl
  · obtain ⟨f, hf, -⟩ := h
    cases hf
  · obtain ⟨f, hf, -⟩ := h
    cases hf
  · next hc =>
    obtain ⟨k, ds, hk, hd, hflow⟩ := h
    have hdone : Flow.performed (flow body link k (.before body) v s) = o.performed := by
      rw [hflow, hd.performed]
    rw [hc, ← hdone]
    refine .unfinished hk ?_
    rw [hflow, hd.findSome?_eq_none]
  · next e _ hc =>
    obtain ⟨j, ds, hd, hflow⟩ := h
    have hend := hflow 0
    have hdone : Flow.performed (flow body link (j + 0) (.before body) v s) = o.performed := by
      rw [hend, hd.performed_append]
      exact List.append_nil _
    rw [hc, ← hdone]
    refine .ended ?_
    rw [hend, List.findSome?_append, hd.findSome?_eq_none]
    rfl

end Flow

namespace Machine

variable {body : List Instruction} {link : Link σ} {m : Machine} {s : σ} {tale : Nat → Tale σ}

theorem Loaded.realizes (h : m.Loaded body) (hr : m.view.Ready)
    (ht : ∀ n, Told body link n m.view s (tale n)) : m.Realizes link s tale := by
  have htrace (k : Nat) :
      ∃ j, k ≤ j ∧ m.trace link k s = flow body link j (.before body) m.view s := by
    have hj := (h.runs hr).trace link k s
    rwa [h.spot] at hj
  refine ⟨fun k => ?_, fun n => ?_, fun es e v t he => ⟨?_, ?_⟩⟩
  · obtain ⟨j, -, hj⟩ := htrace k
    refine ⟨j, ?_⟩
    rw [Machine.performed, hj]
    exact (ht j).covers
  · obtain ⟨i, hi⟩ := (ht n).performed
    obtain ⟨j, hij, hj⟩ := htrace i
    refine ⟨i, ?_⟩
    rw [hi, Machine.performed, hj]
    exact performed_mono (flow_mono link hij _ _ s)
  · rintro ⟨n, hn⟩
    have htold := ht n
    rw [hn] at htold
    obtain ⟨i, hend, hes⟩ := htold.closing he
    obtain ⟨j, hij, hj⟩ := htrace i
    have hp : flow body link i (.before body) m.view s <+: flow body link j (.before body) m.view s :=
      flow_mono link hij _ _ s
    have htrace : (m.trace link i s).findSome? Event.ending? = some (e, v, t) := by
      rw [hj]
      exact hp.findSome?_eq_some hend
    obtain ⟨-, m', hrun, hv⟩ := run_of_ending? htrace
    refine ⟨i, m', hrun, hv, ?_⟩
    rw [Machine.performed, hj, performed_of_ending hp hend, hes]
  · rintro ⟨k, m', hrun, rfl, rfl⟩
    obtain ⟨j, -, hj⟩ := htrace k
    have hend := ending?_of_run hrun he
    rw [hj] at hend
    refine ⟨j, ?_⟩
    rw [(ht j).ending hend, Machine.performed, hj]

/-- A machine that first shows its title, without ending there. -/
theorem Realizes.of_start {m' : Machine} (hs : m.stepWith link s = (.ok .running, m', s))
    (hi : m.intent = [.title]) (h : m'.Realizes link s tale) : m.Realizes link s tale := by
  have hdone (k : Nat) : m.performed link (k + 1) s = m'.performed link k s := by
    simp [Machine.performed, trace, hs, shown, hi, Ending.ofStep?, Flow.performed]
  have hrun (k : Nat) : runUntilReturn link (k + 1) m s = runUntilReturn link k m' s := by
    simp [runUntilReturn, hs]
  refine ⟨fun k => ?_, fun n => ?_, fun es e v t he => ⟨?_, ?_⟩⟩
  · cases k with
    | zero => exact ⟨0, List.nil_prefix⟩
    | succ k =>
      rw [hdone]
      exact h.told k
  · obtain ⟨k, hk⟩ := h.done n
    exact ⟨k + 1, by rwa [hdone]⟩
  · intro hn
    obtain ⟨k, m₁, hk, hv, hes⟩ := (h.ends es e v t he).mp hn
    exact ⟨k + 1, m₁, (hrun k).trans hk, hv, (hdone k).trans hes⟩
  · rintro ⟨k, m₁, hk, hv, hes⟩
    cases k with
    | zero =>
      cases hk
      exact absurd rfl he
    | succ k =>
      rw [hrun] at hk
      rw [hdone] at hes
      exact (h.ends es e v t he).mpr ⟨k, m₁, hk, hv, hes⟩

/-- A machine that ends with its first step, without an operation. -/
theorem Realizes.of_end {m' : Machine} {r : Except Stop Step} {e : Ending}
    (hs : m.stepWith link s = (r, m', s)) (hi : ∀ o, .operation o ∉ m.intent)
    (hr : Ending.ofStep? r = some e) (ht : ∀ n, tale n = ([], e, m'.view, s)) :
    m.Realizes link s tale := by
  have hevents : ∀ d ∈ m.intent.map fun e => (e, m'.view, s), ∀ o, d.1 ≠ .operation o := by
    intro d hd o ho
    obtain ⟨x, hx, rfl⟩ := List.mem_map.mp hd
    exact hi o (ho ▸ hx)
  have hdone (k : Nat) : m.performed link k s = [] := by
    cases k with
    | zero => rfl
    | succ k =>
      unfold Machine.performed trace
      rw [hs]
      rcases r with stop | _ | _ | _ <;> cases hr
      all_goals
        simp only [shown, Ending.ofStep?, Option.toList_some, List.map_append, List.map_cons,
          List.map_nil, List.append_assoc, List.cons_append]
        exact performed_ending hevents _ _ _ _
  have hrun (k : Nat) : runUntilReturn link (k + 1) m s = (e, m', s) := by
    unfold runUntilReturn
    rw [hs]
    rcases r with stop | _ | _ | _ <;> cases hr
    all_goals rfl
  refine ⟨fun k => ⟨0, ?_⟩, fun n => ⟨0, ?_⟩, fun es e' v t he => ⟨?_, ?_⟩⟩
  · rw [hdone]
    exact List.nil_prefix
  · rw [ht]
    exact List.nil_prefix
  · rintro ⟨n, hn⟩
    rw [ht] at hn
    cases hn
    exact ⟨1, m', hrun 0, rfl, hdone 1⟩
  · rintro ⟨k, m₁, hk, rfl, rfl⟩
    cases k with
    | zero =>
      cases hk
      exact absurd rfl he
    | succ k =>
      rw [hrun] at hk
      cases hk
      exact ⟨0, by rw [ht, hdone]⟩

end Machine
end Handheld
