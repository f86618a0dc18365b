import Handheld.Proofs.Machine.View

namespace Handheld.Machine

/-- Nothing keeps the machine from running its next instruction. -/
structure View.Ready (v : View) : Prop where
  started : v.started = true
  listening : v.keys.cancelled = false

def View.value (v : View) : Operand → Value
  | .register r => v.registers.get r
  | .key k => .ofKey k
  | .value x => x

def View.holds (v : View) (c : Condition) : Bool :=
  c.comparison.holds ((v.registers.get c.left).order (v.value c.right))

/-- What an operation asks of the link. -/
def View.request? (v : View) : Operation → Option LinkRequest
  | .upload file _ _ _ =>
    let name := match file with
      | .literal name => name
      | .register r => v.registers.text r
    (v.files.get? name).map fun f => .upload (Transfer.empty.put name f.content)
  | .download _ _ _ => some (.download .empty)
  | _ => none

/-- What an instruction asks of the link. -/
def View.requestFor? (v : View) : Instruction → Option LinkRequest
  | .op o => v.request? o
  | _ => none

variable {σ : Type}

/-- What the link makes of a request, if there is one. -/
def Link.answer (link : Link σ) : Option LinkRequest → σ → LinkReply × σ
  | none, s => (⟨.empty, []⟩, s)
  | some request, s => link request s

/-- An operation with a link at hand. It may end the run: by a fault, for want of a key, or because
the input has ended. -/
def perform (link : Link σ) (o : Operation) (m : Machine) (s : σ) : Option Ending × Machine × σ :=
  let (reply, s) := link.answer (m.view.request? o) s
  match Act.execute reply o m with
  | (.error .waiting, _) => (some (.stop .waiting), m, s)
  | (.error stop, m) => (some (.stop stop), m, s)
  | (.ok (), m) => (if m.keys.cancelled then some (.step .terminated) else none, m, s)

/-- What a step can be seen to do. -/
inductive Event where
  /-- The title is shown. -/
  | title
  | operation (o : Operation)
  | decision (cond : Condition) (taken : Bool)
  | ending (e : Ending)
  deriving DecidableEq

/-- What an instruction sets out to do; labels and plain jumps do not show. -/
def View.intent (v : View) : Instruction → List Event
  | .op o => [.operation o]
  | .jumpIf cond _ => [.decision cond (v.holds cond)]
  | _ => []

/-- What the next step sets out to do. -/
def intent (m : Machine) : List Event :=
  if m.keys.cancelled then []
  else if !m.started then [.title]
  else
    match m.program.code[m.pc]? with
    | some i => m.view.intent i
    | none => []

/-- How a step ends the run up to the return, if it does. -/
def Ending.ofStep? : Except Stop Step → Option Ending
  | .ok .running => none
  | .ok s => some (.step s)
  | .error s => some (.stop s)

/-- What a step shows: its events, with the machine it leaves. -/
def shown (m : Machine) (r : Except Stop Step) (after : View) (s : σ) : List (Event × View × σ) :=
  (m.intent ++ (Ending.ofStep? r).toList.map Event.ending).map fun e => (e, after, s)

/-- What the first `n` steps show. A program that returns starts again; any other ending is the last
event. -/
def trace (link : Link σ) : Nat → Machine → σ → List (Event × View × σ)
  | 0, _, _ => []
  | n + 1, m, s =>
    match m.stepWith link s with
    | (.ok .running, m', s') => m.shown (.ok .running) m'.view s' ++ trace link n m' s'
    | (.ok .returned, m', s') => m.shown (.ok .returned) m'.view s' ++ trace link n m' s'
    | (r, m', s') => m.shown r m'.view s'

/-- The place after the instruction in turn, which the journal notes. -/
def moved (m : Machine) (i : Instruction) : Machine :=
  { m with
    pc := m.pc + 1
    journal := { m.journal with notes := .executing m.pc i :: m.journal.notes } }

@[simp] theorem view_moved (m : Machine) (i : Instruction) : (m.moved i).view = m.view := by
  simp [moved, view, Note.ofPlace]

@[simp] theorem program_moved (m : Machine) (i : Instruction) : (m.moved i).program = m.program :=
  rfl

@[simp] theorem pc_moved (m : Machine) (i : Instruction) : (m.moved i).pc = m.pc + 1 := rfl

/-- The place that a jump leads to. -/
def jumped (m : Machine) (i : Instruction) (k : Nat) : Machine := { m.moved i with pc := k }

@[simp] theorem view_jumped (m : Machine) (i : Instruction) (k : Nat) :
    (m.jumped i k).view = m.view := m.view_moved i

@[simp] theorem program_jumped (m : Machine) (i : Instruction) (k : Nat) :
    (m.jumped i k).program = m.program := rfl

@[simp] theorem pc_jumped (m : Machine) (i : Instruction) (k : Nat) : (m.jumped i k).pc = k := rfl

theorem intent_eq (m : Machine) {i : Instruction} (h : m.view.Ready)
    (hi : m.program.code[m.pc]? = some i) : m.intent = m.view.intent i := by
  have hs : m.started = true := h.started
  have hc : m.keys.cancelled = false := h.listening
  simp only [intent, hs, hc, hi, Bool.not_true, Bool.false_eq_true, if_false]

theorem request?_eq (m : Machine) {i : Instruction} (h : m.view.Ready)
    (hi : m.program.code[m.pc]? = some i) : m.request? = m.view.requestFor? i := by
  have hs : m.started = true := h.started
  have hc : m.keys.cancelled = false := h.listening
  simp only [request?, hs, hc, hi, Bool.not_true, Bool.or_self, Bool.false_eq_true, if_false]
  rcases i with _ | _ | _ | o
  any_goals rfl
  cases o <;> rfl

/-- The last part of a step: it counts as the last one when the input has ended in it, and has not
happened if it has to wait for a key. -/
def settled (m : Machine) : Except Stop Step × Machine → Except Stop Step × Machine
  | (.error .waiting, _) => (.error .waiting, m)
  | (.error stop, m') => (.error stop, m')
  | (.ok step, m') => (.ok (if m'.keys.cancelled then .terminated else step), m')

theorem step_eq (m : Machine) (reply : LinkReply) {i : Instruction} (h : m.view.Ready)
    (hi : m.program.code[m.pc]? = some i) :
    m.step reply = m.settled (Act.run reply i (m.moved i)) := by
  have hs : m.started = true := h.started
  have hc : m.keys.cancelled = false := h.listening
  have hf : Act.fetch reply m = Act.run reply i (m.moved i) := by
    simp only [Act.fetch, Act.run_bind, Act.read, hi]
    rfl
  have ha : Act.step reply m = match Act.run reply i (m.moved i) with
      | (.error stop, m') => (.error stop, m')
      | (.ok step, m') => (.ok (if m'.keys.cancelled then .terminated else step), m') := by
    simp only [Act.step, Act.run_bind, Act.read, hs, hc, Bool.false_eq_true, if_false, if_true, hf]
    rcases Act.run reply i (m.moved i) with ⟨stop | step, m'⟩ <;> rfl
  unfold Machine.step settled
  rw [ha]
  rcases Act.run reply i (m.moved i) with ⟨(_ | _ | _) | step, m'⟩ <;> rfl

theorem stepWith_eq (link : Link σ) (m : Machine) (s : σ) {i : Instruction} (h : m.view.Ready)
    (hi : m.program.code[m.pc]? = some i) :
    m.stepWith link s =
      let answer := link.answer (m.view.requestFor? i) s
      let r := m.settled (Act.run answer.1 i (m.moved i))
      (r.1, r.2, answer.2) := by
  unfold stepWith
  rw [m.request?_eq h hi]
  simp only [m.step_eq _ h hi]
  cases m.view.requestFor? i <;> rfl

/-- A step that only moves on to another place. -/
theorem stepWith_place (link : Link σ) (m m' : Machine) (s : σ) {i : Instruction} {step : Step}
    (h : m.view.Ready) (hi : m.program.code[m.pc]? = some i) (hq : m.view.requestFor? i = none)
    (hr : ∀ reply, Act.run reply i (m.moved i) = (.ok step, m')) (hv : m'.view = m.view) :
    m.stepWith link s = (.ok step, m', s) := by
  have hc : m'.keys.cancelled = false := by
    have h' : m'.view.keys.cancelled = false := by rw [hv]; exact h.listening
    exact h'
  rw [stepWith_eq link m s h hi, hq]
  simp only [Link.answer, hr, settled, hc]
  rfl

theorem stepWith_label (link : Link σ) (m : Machine) (s : σ) {l : Label} (h : m.view.Ready)
    (hi : m.program.code[m.pc]? = some (.label l)) :
    m.stepWith link s = (.ok .running, m.moved (.label l), s) :=
  stepWith_place link m _ s h hi rfl (fun _ => rfl) (m.view_moved _)

/-- Where a jump leads; the target is found in the label table. -/
theorem jump_eq (m : Machine) {t : Label} {k : Nat} (hk : m.program.labels.get .index t = .ok k) :
    Act.jump t m = (.ok (if t = .entry then .returned else .running), { m with pc := k }) := by
  simp only [Act.jump, Act.run_bind, Act.read, hk]
  rfl

theorem holds_eq (m : Machine) (c : Condition) : Act.holds c m = (.ok (m.view.holds c), m) := by
  rcases c with ⟨left, comparison, _ | _ | _⟩ <;> rfl

theorem stepWith_jump (link : Link σ) (m : Machine) (s : σ) {t : Label} {k : Nat}
    (h : m.view.Ready) (hi : m.program.code[m.pc]? = some (.jump t))
    (hk : m.program.labels.get .index t = .ok k) :
    m.stepWith link s =
      (.ok (if t = .entry then .returned else .running), m.jumped (.jump t) k, s) :=
  stepWith_place link m _ s h hi rfl (fun _ => jump_eq (m.moved (.jump t)) hk) (m.view_jumped _ k)

theorem stepWith_jumpIf (link : Link σ) (m : Machine) (s : σ) {c : Condition} {t : Label} {k : Nat}
    (h : m.view.Ready) (hi : m.program.code[m.pc]? = some (.jumpIf c t))
    (hk : m.program.labels.get .index t = .ok k) :
    m.stepWith link s =
      if m.view.holds c then
        (.ok (if t = .entry then .returned else .running), m.jumped (.jumpIf c t) k, s)
      else (.ok .running, m.moved (.jumpIf c t), s) := by
  have hr (reply : LinkReply) : Act.run reply (.jumpIf c t) (m.moved (.jumpIf c t)) =
      if m.view.holds c then Act.jump t (m.moved (.jumpIf c t))
      else (.ok .running, m.moved (.jumpIf c t)) := by
    simp only [Act.run, Act.run_bind, holds_eq, view_moved]
    split <;> rfl
  split
  · next hc =>
    refine stepWith_place link m _ s h hi rfl (fun reply => ?_) (m.view_jumped (.jumpIf c t) k)
    rw [hr, if_pos hc]
    exact jump_eq _ hk
  · next hc =>
    refine stepWith_place link m _ s h hi rfl (fun reply => ?_) (m.view_moved _)
    rw [hr, if_neg hc]

/-- Machines that look the same perform an operation in the same way. -/
theorem perform_congr (link : Link σ) (o : Operation) (s : σ) {m m' : Machine}
    (h : m.view = m'.view) :
    (perform link o m s).1 = (perform link o m' s).1 ∧
      (perform link o m s).2.1.view = (perform link o m' s).2.1.view ∧
      (perform link o m s).2.2 = (perform link o m' s).2.2 := by
  unfold perform
  rw [h]
  have hp := Act.Placeless.execute (link.answer (m'.view.request? o) s).1 o
  have hr := hp.result m m' h
  have hv := hp.view m m' h
  simp only
  rcases hm : Act.execute (link.answer (m'.view.request? o) s).1 o m with ⟨r, m₁⟩
  rcases hm' : Act.execute (link.answer (m'.view.request? o) s).1 o m' with ⟨r', m₁'⟩
  rw [hm, hm'] at hr hv
  obtain rfl : r = r' := hr
  have hk : m₁.keys.cancelled = m₁'.keys.cancelled := congrArg (·.keys.cancelled) hv
  rcases r with (_ | _ | _) | _
  · exact ⟨rfl, hv, rfl⟩
  · exact ⟨rfl, hv, rfl⟩
  · exact ⟨rfl, h, rfl⟩
  · exact ⟨by simp only [hk], hv, rfl⟩

/-- The result of a step that ends the run as given. -/
def Ending.result : Option Ending → Except Stop Step
  | some (.step s) => .ok s
  | some (.stop s) => .error s
  | _ => .ok .running

theorem stepWith_op (link : Link σ) (m : Machine) (s : σ) {o : Operation} (h : m.view.Ready)
    (hi : m.program.code[m.pc]? = some (.op o)) :
    ∃ m', m.stepWith link s =
        (Ending.result (perform link o m s).1, m', (perform link o m s).2.2) ∧
      m'.view = (perform link o m s).2.1.view ∧ m'.program = m.program ∧
      ((perform link o m s).1 = none → m'.pc = m.pc + 1 ∧ m'.view.Ready) := by
  have hp := Act.Placeless.execute (link.answer (m.view.request? o) s).1 o
  have hr := hp.result (m.moved (.op o)) m (m.view_moved _)
  have hv := hp.view (m.moved (.op o)) m (m.view_moved _)
  have hprog := hp.program (m.moved (.op o))
  have hpc := hp.pc (m.moved (.op o))
  have hstart := (hp.started (m.moved (.op o))).trans h.started
  rw [stepWith_eq link m s h hi]
  simp only [View.requestFor?, Act.run, Act.run_bind, perform]
  rcases hm : Act.execute (link.answer (m.view.request? o) s).1 o (m.moved (.op o)) with ⟨r, m₁⟩
  rcases hm' : Act.execute (link.answer (m.view.request? o) s).1 o m with ⟨r', m₁'⟩
  rw [hm, hm'] at hr hv
  rw [hm] at hprog hpc hstart
  obtain rfl : r = r' := hr
  have hk : m₁.keys.cancelled = m₁'.keys.cancelled := congrArg (·.keys.cancelled) hv
  rcases r with (_ | _ | _) | _
  · exact ⟨m₁, rfl, hv, hprog, by simp⟩
  · exact ⟨m₁, rfl, hv, hprog, by simp⟩
  · exact ⟨m, rfl, rfl, rfl, by simp⟩
  · refine ⟨m₁, ?_, hv, hprog, fun hn => ⟨hpc, hstart, ?_⟩⟩
    · simp only [Act.run_pure, settled, hk]
      cases m₁'.keys.cancelled <;> rfl
    · show m₁.keys.cancelled = false
      rw [hk]
      cases hc : m₁'.keys.cancelled with
      | false => rfl
      | true => simp [hc] at hn

/-- An operation ends a run by stopping it, or because the input has ended. -/
theorem perform_ending (link : Link σ) (o : Operation) (m : Machine) (s : σ) {e : Ending}
    (h : (perform link o m s).1 = some e) : e = .step .terminated ∨ ∃ stop, e = .stop stop := by
  unfold perform at h
  simp only at h
  rcases hm : Act.execute (link.answer (m.view.request? o) s).1 o m with ⟨(_ | _ | _) | _, m₁⟩
  all_goals rw [hm] at h
  · exact .inr ⟨_, (Option.some.inj h).symm⟩
  · exact .inr ⟨_, (Option.some.inj h).symm⟩
  · exact .inr ⟨_, (Option.some.inj h).symm⟩
  · cases hc : m₁.keys.cancelled with
    | false => simp [hc] at h
    | true => simp only [hc, if_true] at h; exact .inl (Option.some.inj h).symm

theorem step_cancelled (m : Machine) (reply : LinkReply) (hc : m.keys.cancelled = true) :
    m.step reply = (.ok .terminated, m) := by
  simp [Machine.step, Act.step, Act.run_bind, Act.read, hc]

theorem stepWith_cancelled (link : Link σ) (m : Machine) (s : σ) (hc : m.keys.cancelled = true) :
    m.stepWith link s = (.ok .terminated, m, s) := by
  have hq : m.request? = none := by simp [request?, hc]
  unfold stepWith
  rw [hq]
  simp only [step_cancelled m _ hc]

/-- The machine about to show the title. -/
def opened (m : Machine) : Machine :=
  { m with
    started := true
    journal := { m.journal with
      notes := .starting m.program.title.title m.program.code.length :: m.journal.notes } }

theorem view_opened (m : Machine) : m.opened.view = { m.view with started := true } := by
  simp [opened, view, Note.ofPlace]

/-- What the first step does but for starting. -/
def opening (t : Title) : Act Step := do
  Act.showTitle t
  pure .running

theorem placeless_opening (t : Title) : (opening t).Placeless :=
  .bind (.showTitle t) fun _ => .pure _

/-- The first step, which shows the title. -/
theorem step_start (m : Machine) (reply : LinkReply) (hs : m.started = false)
    (hc : m.keys.cancelled = false) :
    m.step reply = m.settled (opening m.program.title m.opened) := by
  have ha : Act.step reply m =
      match opening m.program.title m.opened with
      | (.error stop, m') => (.error stop, m')
      | (.ok step, m') => (.ok (if m'.keys.cancelled then .terminated else step), m') := by
    have hst : Act.start m = opening m.program.title m.opened := rfl
    simp only [Act.step, Act.run_bind, Act.read, hs, hc, Bool.false_eq_true, if_false, hst]
    rcases opening m.program.title m.opened with ⟨stop | step, m'⟩ <;> rfl
  simp only [Machine.step, settled, ha]
  rcases opening m.program.title m.opened with ⟨(_ | _ | _) | step, m'⟩ <;> rfl

theorem stepWith_start (link : Link σ) (m : Machine) (s : σ) (hs : m.started = false)
    (hc : m.keys.cancelled = false) :
    m.stepWith link s =
      ((m.settled (opening m.program.title m.opened)).1,
        (m.settled (opening m.program.title m.opened)).2, s) := by
  have hq : m.request? = none := by simp [request?, hs]
  unfold stepWith
  rw [hq]
  simp only [step_start m _ hs hc]

/-- After the first step the machine stands where it stood, and is ready if it goes on. -/
theorem stepWith_start_spec (link : Link σ) (m : Machine) (s : σ) (hs : m.started = false)
    (hc : m.keys.cancelled = false) :
    ∃ r m', m.stepWith link s = (r, m', s) ∧ m'.program = m.program ∧ m'.pc = m.pc ∧
      r ≠ .ok .returned ∧ (r = .ok .running → m'.view.Ready) := by
  have hp := (placeless_opening m.program.title).program m.opened
  have hi := (placeless_opening m.program.title).pc m.opened
  have hstart := (placeless_opening m.program.title).started m.opened
  have hrun : (opening m.program.title m.opened).1 = .ok .running ∨
      ∃ stop, (opening m.program.title m.opened).1 = .error stop := by
    simp only [opening, Act.run_bind]
    rcases Act.showTitle m.program.title m.opened with ⟨stop | _, m'⟩
    · exact .inr ⟨stop, rfl⟩
    · exact .inl rfl
  rw [stepWith_start link m s hs hc]
  rcases hr : opening m.program.title m.opened with ⟨r, m'⟩
  rw [hr] at hp hi hstart hrun
  rcases hrun with rfl | ⟨_ | _ | _, rfl⟩
  · refine ⟨_, m', rfl, hp, hi, ?_, fun h => ⟨hstart, ?_⟩⟩
    all_goals cases hc' : m'.keys.cancelled
    · simp [settled, hc']
    · simp [settled, hc']
    · exact hc'
    · simp [settled, hc'] at h
  · exact ⟨_, m', rfl, hp, hi, by simp [settled], by simp [settled]⟩
  · exact ⟨_, m', rfl, hp, hi, by simp [settled], by simp [settled]⟩
  · exact ⟨_, m, rfl, rfl, rfl, by simp [settled], by simp [settled]⟩

/-- Machines that look the same and have the same title start in the same way. -/
theorem stepWith_start_congr (link : Link σ) {m m' : Machine} (s : σ) (hv : m.view = m'.view)
    (ht : m.program.title = m'.program.title) (hs : m.started = false)
    (hc : m.keys.cancelled = false) :
    (m.stepWith link s).1 = (m'.stepWith link s).1 ∧
      (m.stepWith link s).2.1.view = (m'.stepWith link s).2.1.view := by
  have hs' : m'.started = false := by
    have h : m'.view.started = false := by rw [← hv]; exact hs
    exact h
  have hc' : m'.keys.cancelled = false := by
    have h : m'.view.keys.cancelled = false := by rw [← hv]; exact hc
    exact h
  have ho : m.opened.view = m'.opened.view := by rw [view_opened, view_opened, hv]
  have hr := (placeless_opening m.program.title).result _ _ ho
  have hw := (placeless_opening m.program.title).view _ _ ho
  rw [stepWith_start link m s hs hc, stepWith_start link m' s hs' hc', ← ht]
  rcases hm : opening m.program.title m.opened with ⟨r, m₁⟩
  rcases hm' : opening m.program.title m'.opened with ⟨r', m₁'⟩
  rw [hm, hm'] at hr hw
  obtain rfl : r = r' := hr
  have hk : m₁.keys.cancelled = m₁'.keys.cancelled := congrArg (·.keys.cancelled) hw
  rcases r with (_ | _ | _) | _
  · exact ⟨rfl, hw⟩
  · exact ⟨rfl, hw⟩
  · exact ⟨rfl, hv⟩
  · exact ⟨by simp only [settled, hk], hw⟩

/-- The ending that an event is. -/
def Event.ending? : Event × View × σ → Option (Ending × View × σ)
  | (.ending e, v, s) => some (e, v, s)
  | _ => none

/-- The run up to the return ends as given, with what can be seen of the machine then. -/
def Ends (m : Machine) (link : Link σ) (s : σ) (e : Ending) (v : View) (t : σ) : Prop :=
  e ≠ .unfinished ∧ ∃ n m', runUntilReturn link n m s = (e, m', t) ∧ m'.view = v

theorem intent_no_ending (m : Machine) {e : Event} (he : e ∈ m.intent) (x : Ending) :
    e ≠ .ending x := by
  have hi (i : Instruction) (h : e ∈ m.view.intent i) : e ≠ .ending x := by
    cases i with
    | label l => cases h
    | jump t => cases h
    | jumpIf c t => cases List.mem_singleton.mp h; simp
    | op o => cases List.mem_singleton.mp h; simp
  unfold intent at he
  split at he
  · cases he
  · split at he
    · cases List.mem_singleton.mp he
      simp
    · split at he
      · exact hi _ he
      · cases he

theorem shown_ending? (m : Machine) (r : Except Stop Step) (v : View) (s : σ) :
    (m.shown r v s).findSome? Event.ending? = (Ending.ofStep? r).map fun e => (e, v, s) := by
  have hi : ((m.intent.map fun e => (e, v, s)).findSome? Event.ending?) = none := by
    rw [List.findSome?_eq_none_iff]
    intro x hx
    obtain ⟨e, he, rfl⟩ := List.mem_map.mp hx
    cases e with
    | ending y => exact absurd rfl (m.intent_no_ending he y)
    | _ => rfl
  rw [shown, List.map_append, List.findSome?_append, hi]
  cases Ending.ofStep? r <;> rfl

/-- How a run up to the return ends can be read off what the run shows. -/
theorem trace_ending? (link : Link σ) (n : Nat) (m : Machine) (s : σ) :
    (m.trace link n s).findSome? Event.ending? =
      match runUntilReturn link n m s with
      | (.unfinished, _, _) => none
      | (e, m', t) => some (e, m'.view, t) := by
  induction n generalizing m s with
  | zero => rfl
  | succ n ih =>
    rcases hs : m.stepWith link s with ⟨stop | _ | _ | _, m', s'⟩
    · simp only [trace, runUntilReturn, hs, shown_ending?]
      rfl
    · simp only [trace, runUntilReturn, hs, List.findSome?_append, shown_ending?]
      exact ih m' s'
    · simp only [trace, runUntilReturn, hs, List.findSome?_append, shown_ending?]
      rfl
    · simp only [trace, runUntilReturn, hs, shown_ending?]
      rfl

theorem ending?_of_run {link : Link σ} {n : Nat} {m m' : Machine} {s t : σ} {e : Ending}
    (h : runUntilReturn link n m s = (e, m', t)) (he : e ≠ .unfinished) :
    (m.trace link n s).findSome? Event.ending? = some (e, m'.view, t) := by
  rw [m.trace_ending? link n s, h]
  cases e with
  | unfinished => exact absurd rfl he
  | _ => rfl

theorem run_of_ending? {link : Link σ} {n : Nat} {m : Machine} {s t : σ} {e : Ending} {v : View}
    (h : (m.trace link n s).findSome? Event.ending? = some (e, v, t)) :
    e ≠ .unfinished ∧ ∃ m', runUntilReturn link n m s = (e, m', t) ∧ m'.view = v := by
  rw [m.trace_ending? link n s] at h
  rcases hr : runUntilReturn link n m s with ⟨_ | _ | _, m', t'⟩
  all_goals
    rw [hr] at h
    cases h
  all_goals exact ⟨by simp, m', rfl, rfl⟩

theorem ends_iff (link : Link σ) (m : Machine) (s : σ) (e : Ending) (v : View) (t : σ) :
    m.Ends link s e v t ↔ ∃ n, (m.trace link n s).findSome? Event.ending? = some (e, v, t) := by
  constructor
  · rintro ⟨he, n, m', hr, rfl⟩
    exact ⟨n, ending?_of_run hr he⟩
  · rintro ⟨n, h⟩
    obtain ⟨he, m', hr, hv⟩ := run_of_ending? h
    exact ⟨he, n, m', hr, hv⟩

/-- A machine ends every run as another does that shows what it shows. -/
theorem Ends.of_traces {link : Link σ} {m m' : Machine} {s : σ} {e : Ending} {v : View} {t : σ}
    (h : m.Ends link s e v t) (hp : ∀ n, ∃ k, m.trace link n s <+: m'.trace link k s) :
    m'.Ends link s e v t := by
  obtain ⟨n, hn⟩ := (m.ends_iff link s e v t).mp h
  obtain ⟨k, hk⟩ := hp n
  exact (m'.ends_iff link s e v t).mpr ⟨k, hk.findSome?_eq_some hn⟩

end Handheld.Machine
