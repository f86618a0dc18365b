import Handheld.KeyQueue
import Mathlib.Logic.Relation

namespace Handheld.KeyQueue

/-- The codes in a channel, in order. -/
def codes : List Event → List Int32
  | [] => []
  | .key code :: rest => code :: codes rest
  | .terminate :: rest => codes rest

@[simp] theorem codes_append (es fs : List Event) : codes (es ++ fs) = codes es ++ codes fs := by
  induction es with
  | nil => rfl
  | cons e es ih => cases e <;> simp [codes, ih]

/-- A code that has been read. -/
def Reading.code? : Reading → Option Int32
  | .key code => some code
  | _ => none

/-- The codes that the program has not read, in the order in which it will. -/
def unread (q : KeyQueue) : List Int32 := q.pending ++ codes q.channel

/-- The flag is down, and nobody has asked to terminate. -/
structure Quiet (q : KeyQueue) : Prop where
  down : q.cancelled = false
  untold : .terminate ∉ q.channel

/-- Events are taken from the channel, and nothing else changes than what has not been read. -/
structure Takes (q q' : KeyQueue) : Prop where
  channel : q'.channel <:+ q.channel
  cancelled : q'.cancelled = q.cancelled
  keypads : q'.keypads = q.keypads
  listening : q'.listening = q.listening

variable {q q' : KeyQueue}

theorem Takes.refl (q : KeyQueue) : q.Takes q := ⟨List.suffix_refl _, rfl, rfl, rfl⟩

theorem Takes.quiet (h : q.Takes q') (hq : q.Quiet) : q'.Quiet :=
  ⟨h.cancelled.trans hq.down, fun hmem => hq.untold (h.channel.subset hmem)⟩

/-- Asking for a key gives the first code that has not been read. Without one it waits for the
keypads, or raises the flag when there are none. -/
theorem Quiet.next (h : q.Quiet) :
    (∃ code q', q.next = (.key code, q') ∧ q.Takes q' ∧ q.unread = code :: q'.unread) ∨
      (q.unread = [] ∧ q.channel = [] ∧
        q.next = if q.keypads = 0 then (.ended, { q with cancelled := true }) else (.waiting, q)) := by
  obtain ⟨channel, pending, cancelled, keypads, listening⟩ := q
  obtain rfl : cancelled = false := h.down
  cases pending with
  | cons code rest => exact .inl ⟨code, _, rfl, ⟨List.suffix_refl _, rfl, rfl, rfl⟩, rfl⟩
  | nil =>
    cases channel with
    | nil => exact .inr ⟨rfl, rfl, rfl⟩
    | cons e rest =>
      cases e with
      | key code => exact .inl ⟨code, _, rfl, ⟨List.suffix_cons _ _, rfl, rfl, rfl⟩, rfl⟩
      | terminate => exact absurd List.mem_cons_self h.untold

/-- Looking for a code sets it aside at most. -/
theorem Quiet.exhausted (h : q.Quiet) :
    (∃ q', q.exhausted = (false, q') ∧ q.Takes q' ∧ q'.unread = q.unread) ∨
      (q.unread = [] ∧ q.channel = [] ∧ q.keypads = 0 ∧
        q.exhausted = (true, { q with cancelled := true })) := by
  obtain ⟨channel, pending, cancelled, keypads, listening⟩ := q
  obtain rfl : cancelled = false := h.down
  cases pending with
  | cons code rest => exact .inl ⟨_, rfl, .refl _, rfl⟩
  | nil =>
    cases channel with
    | nil =>
      by_cases hk : keypads = 0
      · exact .inr ⟨rfl, rfl, hk, by simp [KeyQueue.exhausted, hk]⟩
      · exact .inl ⟨_, by simp [KeyQueue.exhausted, hk], .refl _, rfl⟩
    | cons e rest =>
      cases e with
      | key code => exact .inl ⟨_, rfl, ⟨List.suffix_cons _ _, rfl, rfl, rfl⟩, rfl⟩
      | terminate => exact absurd List.mem_cons_self h.untold

/-- Receiving moves codes from the front of the channel to the end of those set aside. -/
theorem Quiet.receive (h : q.Quiet) (n : Nat) :
    ∃ q', q.receive n = (true, q') ∧ q.Takes q' ∧ q'.unread = q.unread := by
  induction n generalizing q with
  | zero => exact ⟨q, rfl, .refl q, rfl⟩
  | succ n ih =>
    obtain ⟨channel, pending, cancelled, keypads, listening⟩ := q
    cases channel with
    | nil => exact ⟨_, rfl, .refl _, rfl⟩
    | cons e rest =>
      cases e with
      | terminate => exact absurd List.mem_cons_self h.untold
      | key code =>
        have hrest : Takes ⟨.key code :: rest, pending, cancelled, keypads, listening⟩
            ⟨rest, pending ++ [code], cancelled, keypads, listening⟩ :=
          ⟨List.suffix_cons _ _, rfl, rfl, rfl⟩
        obtain ⟨q', hok, ht, hu⟩ := ih (hrest.quiet h)
        refine ⟨q', hok, ⟨ht.channel.trans hrest.channel, ht.cancelled, ht.keypads, ht.listening⟩, ?_⟩
        rw [hu]
        simp [unread, codes]

theorem Quiet.sleepThrough (h : q.Quiet) (n : Nat) :
    ∃ q', q.sleepThrough n = (true, q') ∧ q.Takes q' ∧ q'.unread = q.unread := by
  rw [KeyQueue.sleepThrough, h.down]
  exact h.receive n

/-- A raised flag ends everything at once. -/
theorem next_of_cancelled (h : q.cancelled = true) : q.next = (.ended, q) := by
  rw [KeyQueue.next, if_pos h]

theorem exhausted_of_cancelled (h : q.cancelled = true) : q.exhausted = (true, q) := by
  rw [KeyQueue.exhausted, if_pos h]

theorem sleepThrough_of_cancelled (h : q.cancelled = true) (n : Nat) :
    q.sleepThrough n = (false, q) := by
  rw [KeyQueue.sleepThrough, if_pos h]

/-- A queue with what has gone through it. -/
structure History where
  queue : KeyQueue
  /-- All codes pressed, in the order of sending. -/
  pressed : List Int32
  /-- The codes that the program has read. -/
  taken : List Int32
  /-- Some keypad has asked to terminate. -/
  requested : Bool

namespace History

/-- One keypad, and nothing has happened. -/
def start : History := ⟨.initial, [], [], false⟩

/-- What a keypad or the program may do next. Only keypads that are left press, multiply, go or ask to
terminate. A request first raises the flag and then sends its event, and anything may happen between
the two. A program that has to wait for a key asks again, and a sleep of the program is one or more of
the sleeps here, each receiving some of the events that have arrived by then. -/
inductive Step : History → History → Prop where
  | press {h : History} (alive : 0 < h.queue.keypads) (code : Int32) :
    Step h { h with queue := (h.queue.press code).2, pressed := h.pressed ++ [code] }
  | addKeypad {h : History} (alive : 0 < h.queue.keypads) :
    Step h { h with queue := h.queue.addKeypad }
  | removeKeypad {h : History} (alive : 0 < h.queue.keypads) :
    Step h { h with queue := h.queue.removeKeypad }
  | raise {h : History} (alive : 0 < h.queue.keypads) :
    Step h { h with queue := { h.queue with cancelled := true }, requested := true }
  | terminate {h : History} (alive : 0 < h.queue.keypads) :
    Step h { h with queue := h.queue.terminate, requested := true }
  | next {h : History} :
    Step h { h with queue := h.queue.next.2, taken := h.taken ++ h.queue.next.1.code?.toList }
  | exhausted {h : History} : Step h { h with queue := h.queue.exhausted.2 }
  | sleep {h : History} (n : Nat) : Step h { h with queue := (h.queue.sleepThrough n).2 }

/-- What can come about from the start, whatever the order of the actions. -/
def Reached (h : History) : Prop := Relation.ReflTransGen Step start h

variable {h h' : History}

/-- Before a request the codes are accounted for, and the flag is up only when nothing is left. -/
structure Faithful (h : History) : Prop where
  listening : h.queue.listening = true
  flagged : h.requested = true → h.queue.cancelled = true
  untold : h.requested = false → .terminate ∉ h.queue.channel
  ordered : h.requested = false → h.taken ++ h.queue.unread = h.pressed
  drained : h.requested = false → h.queue.cancelled = true →
    h.queue.keypads = 0 ∧ h.queue.unread = []

theorem faithful_start : Faithful start :=
  ⟨rfl, nofun, by simp [start, initial], fun _ => rfl, nofun⟩

/-- With the flag down nobody has asked to terminate. -/
theorem Faithful.quiet (f : h.Faithful) (hc : h.queue.cancelled = false) :
    h.requested = false ∧ h.queue.Quiet := by
  cases hr : h.requested with
  | false => exact ⟨rfl, hc, f.untold hr⟩
  | true => exact absurd (f.flagged hr) (by simp [hc])

/-- Taking events keeps account of the codes. -/
theorem Faithful.takes (f : h.Faithful) (hc : h.queue.cancelled = false) {q : KeyQueue}
    {taken : List Int32} (ht : h.queue.Takes q)
    (hu : taken ++ q.unread = h.taken ++ h.queue.unread) :
    Faithful { h with queue := q, taken := taken } := by
  obtain ⟨hr, hq⟩ := f.quiet hc
  have hdown : q.cancelled = false := ht.cancelled.trans hc
  refine ⟨ht.listening.trans f.listening, ?_, fun _ => (ht.quiet hq).untold,
    fun _ => hu.trans (f.ordered hr), ?_⟩
  · simp [hr]
  · simp [hdown]

/-- Once nothing is left and no keypad either, the flag may go up. -/
theorem Faithful.drain (f : h.Faithful) (hu : h.queue.unread = []) (hk : h.queue.keypads = 0) :
    Faithful { h with queue := { h.queue with cancelled := true } } :=
  ⟨f.listening, fun _ => rfl, f.untold, f.ordered, fun _ _ => ⟨hk, hu⟩⟩

/-- After a request only the flag counts. -/
theorem faithful_requested (hl : h.queue.listening = true) (hr : h.requested = true)
    (hc : h.queue.cancelled = true) : h.Faithful :=
  ⟨hl, fun _ => hc, by simp [hr], by simp [hr], by simp [hr]⟩

theorem Faithful.next (f : h.Faithful) :
    Faithful { h with queue := h.queue.next.2, taken := h.taken ++ h.queue.next.1.code?.toList } := by
  cases hc : h.queue.cancelled with
  | true => simpa [next_of_cancelled hc, Reading.code?] using f
  | false =>
    rcases (f.quiet hc).2.next with ⟨code, q, hn, ht, hu⟩ | ⟨hu, -, hn⟩
    · rw [hn]
      exact f.takes hc ht (by simp [hu, Reading.code?])
    · by_cases hk : h.queue.keypads = 0
      · rw [hn, if_pos hk]
        simpa [Reading.code?] using f.drain hu hk
      · rw [hn, if_neg hk]
        simpa [Reading.code?] using f

theorem Faithful.exhausted (f : h.Faithful) :
    Faithful { h with queue := h.queue.exhausted.2 } := by
  cases hc : h.queue.cancelled with
  | true => simpa [exhausted_of_cancelled hc] using f
  | false =>
    rcases (f.quiet hc).2.exhausted with ⟨q, he, ht, hu⟩ | ⟨hu, -, hk, he⟩
    · rw [he]
      exact f.takes hc ht (by rw [hu])
    · rw [he]
      exact f.drain hu hk

theorem Faithful.sleep (f : h.Faithful) (n : Nat) :
    Faithful { h with queue := (h.queue.sleepThrough n).2 } := by
  cases hc : h.queue.cancelled with
  | true => simpa [sleepThrough_of_cancelled hc] using f
  | false =>
    obtain ⟨q, hs, ht, hu⟩ := (f.quiet hc).2.sleepThrough n
    rw [hs]
    exact f.takes hc ht (by rw [hu])

/-- A keypad that is left adds its code at the end. -/
theorem Faithful.press (f : h.Faithful) (alive : 0 < h.queue.keypads) (code : Int32) :
    Faithful { h with queue := (h.queue.press code).2, pressed := h.pressed ++ [code] } := by
  have hp : (h.queue.press code).2 =
      { h.queue with channel := h.queue.channel ++ [.key code] } := by
    rw [KeyQueue.press, if_pos f.listening]
  rw [hp]
  refine ⟨f.listening, f.flagged, fun hr hmem => ?_, fun hr => ?_, fun hr hc => ?_⟩
  · rcases List.mem_append.mp hmem with hmem | hmem
    · exact f.untold hr hmem
    · cases List.mem_singleton.mp hmem
  · rw [← f.ordered hr]
    simp [unread, codes]
  · have hgone := (f.drained hr hc).1
    omega

theorem Step.faithful (s : Step h h') (f : h.Faithful) : h'.Faithful := by
  cases s with
  | press alive code => exact f.press alive code
  | addKeypad alive =>
    refine ⟨f.listening, f.flagged, f.untold, f.ordered, fun hr hc => ?_⟩
    have hgone := (f.drained hr hc).1
    omega
  | removeKeypad alive =>
    refine ⟨f.listening, f.flagged, f.untold, f.ordered, fun hr hc => ?_⟩
    have hgone := (f.drained hr hc).1
    omega
  | raise => exact faithful_requested f.listening rfl rfl
  | terminate => exact faithful_requested f.listening rfl rfl
  | next => exact f.next
  | exhausted => exact f.exhausted
  | sleep n => exact f.sleep n

theorem Reached.faithful (h : Reached h') : h'.Faithful := by
  induction h with
  | refl => exact faithful_start
  | tail _ s ih => exact s.faithful ih

/-- A raised flag stays up. -/
theorem Step.cancelled (s : Step h h') (hc : h.queue.cancelled = true) :
    h'.queue.cancelled = true := by
  cases s with
  | press alive code =>
    unfold KeyQueue.press
    split <;> exact hc
  | addKeypad => exact hc
  | removeKeypad => exact hc
  | raise => rfl
  | terminate => rfl
  | next => rw [next_of_cancelled hc]; exact hc
  | exhausted => rw [exhausted_of_cancelled hc]; exact hc
  | sleep n => rw [sleepThrough_of_cancelled hc]; exact hc

theorem cancelled_of_later (s : Relation.ReflTransGen Step h h') (hc : h.queue.cancelled = true) :
    h'.queue.cancelled = true := by
  induction s with
  | refl => exact hc
  | tail _ s ih => exact s.cancelled ih

/-- Nothing is left to come: somebody has asked to terminate, or no keypad is left and all that has
been pressed has been read. -/
def Over (h : History) : Prop :=
  h.requested = true ∨ (h.queue.keypads = 0 ∧ h.taken = h.pressed)

theorem Faithful.over (f : h.Faithful) (hk : h.queue.keypads = 0) (hu : h.queue.unread = []) :
    h.Over := by
  cases hr : h.requested with
  | true => exact .inl hr
  | false =>
    have ho := f.ordered hr
    rw [hu, List.append_nil] at ho
    exact .inr ⟨hk, ho⟩

theorem Faithful.over_of_cancelled (f : h.Faithful) (hc : h.queue.cancelled = true) : h.Over := by
  cases hr : h.requested with
  | true => exact .inl hr
  | false =>
    obtain ⟨hk, hu⟩ := f.drained hr hc
    exact f.over hk hu

/-- However pressing, adding and removing keypads, asking to terminate, reading, probing and sleeping
follow each other: before a request the codes read, those set aside and those in the channel are the
codes pressed, in order. The input ends, to a reader or a probe, only when nothing is left to come; a
reader waits only while a keypad is left and all that has been pressed has been read. Once the flag is
up, every later reading and probing finds the input at its end. -/
theorem codes_kept_in_order (hr : Reached h) :
    (h.requested = false → h.taken ++ h.queue.pending ++ codes h.queue.channel = h.pressed) ∧
      (h.queue.next.1 = .ended → h.Over) ∧
      (h.queue.exhausted.1 = true → h.Over) ∧
      (h.queue.next.1 = .waiting →
        h.requested = false ∧ 0 < h.queue.keypads ∧ h.taken = h.pressed) ∧
      (h.queue.cancelled = true → ∀ h', Relation.ReflTransGen Step h h' →
        h'.queue.next.1 = .ended ∧ h'.queue.exhausted.1 = true) := by
  have f := hr.faithful
  refine ⟨fun hq => ?_, fun hn => ?_, fun he => ?_, fun hn => ?_, fun hc h' hs => ?_⟩
  · rw [List.append_assoc]
    exact f.ordered hq
  · cases hc : h.queue.cancelled with
    | true => exact f.over_of_cancelled hc
    | false =>
      rcases (f.quiet hc).2.next with ⟨code, q, hk, -⟩ | ⟨hu, -, hk⟩
      · rw [hk] at hn
        cases hn
      · rw [hk] at hn
        split at hn
        · next hgone => exact f.over hgone hu
        · cases hn
  · cases hc : h.queue.cancelled with
    | true => exact f.over_of_cancelled hc
    | false =>
      rcases (f.quiet hc).2.exhausted with ⟨q, hk, -⟩ | ⟨hu, -, hgone, -⟩
      · rw [hk] at he
        cases he
      · exact f.over hgone hu
  · cases hc : h.queue.cancelled with
    | true =>
      rw [next_of_cancelled hc] at hn
      cases hn
    | false =>
      obtain ⟨hq, quiet⟩ := f.quiet hc
      rcases quiet.next with ⟨code, q, hk, -⟩ | ⟨hu, -, hk⟩
      · rw [hk] at hn
        cases hn
      · rw [hk] at hn
        split at hn
        · cases hn
        · have ho := f.ordered hq
          rw [hu, List.append_nil] at ho
          exact ⟨hq, by omega, ho⟩
  · have hc' := cancelled_of_later hs hc
    exact ⟨by rw [next_of_cancelled hc'], by rw [exhausted_of_cancelled hc']⟩

/-- Two keypads send a code each; the program sleeps through the first, probes, and reads it; then
the keypads go. -/
theorem codes_kept_in_order_twoKeypads :
    ∃ h : History, Reached h ∧ h.pressed = [51, 52] ∧ h.taken = [51] ∧
      h.queue = ⟨[.key 52], [], false, 0, true⟩ ∧
      (h.requested = false → h.taken ++ h.queue.pending ++ codes h.queue.channel = h.pressed) ∧
      (h.queue.next.1 = .ended → h.Over) ∧
      (h.queue.exhausted.1 = true → h.Over) ∧
      (h.queue.next.1 = .waiting →
        h.requested = false ∧ 0 < h.queue.keypads ∧ h.taken = h.pressed) ∧
      (h.queue.cancelled = true → ∀ h', Relation.ReflTransGen Step h h' →
        h'.queue.next.1 = .ended ∧ h'.queue.exhausted.1 = true) := by
  have hr : Reached ⟨⟨[.key 52], [], false, 0, true⟩, [51, 52], [51], false⟩ :=
    (((((((Relation.ReflTransGen.refl.tail (.addKeypad (by decide))).tail
      (.press (by decide) 51)).tail (.press (by decide) 52)).tail (.sleep 1)).tail .exhausted).tail
      .next).tail (.removeKeypad (by decide))).tail (.removeKeypad (by decide))
  exact ⟨_, hr, rfl, rfl, rfl, codes_kept_in_order hr⟩

end History
end Handheld.KeyQueue
