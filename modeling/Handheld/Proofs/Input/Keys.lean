import Handheld.Proofs.Machine.Sane

namespace Handheld

namespace KeyQueue

/-- The codes at the front of a channel, up to a request to terminate. -/
def leading : List Event → List Int32
  | .key code :: rest => code :: leading rest
  | _ => []

/-- The codes that are read, one after the other, before the input ends or has to wait. -/
def coming (q : KeyQueue) : List Int32 := if q.cancelled then [] else q.pending ++ leading q.channel

/-- The input ends behind the codes that come, instead of waiting for more. -/
def closes (q : KeyQueue) : Bool :=
  q.cancelled || q.channel.contains .terminate || q.keypads == 0

theorem length_leading_le (es : List Event) : (leading es).length ≤ es.length := by
  induction es with
  | nil => exact Nat.le_refl _
  | cons e rest ih =>
    cases e with
    | key code => exact Nat.succ_le_succ ih
    | terminate => exact Nat.zero_le _

theorem length_coming_le (q : KeyQueue) : q.coming.length ≤ q.size := by
  have hleading := length_leading_le q.channel
  unfold coming size
  split
  · exact Nat.zero_le _
  · rw [List.length_append]
    omega

theorem cancelled_next (q : KeyQueue) (h : q.cancelled = true) : q.next.2.cancelled = true := by
  rw [next, if_pos h]
  exact h

/-- Asking gives the first of the codes that come; without one the input ends or has to wait. It ends with
the flag up, unless a request to terminate has not raised it. -/
theorem next_coming (q : KeyQueue) :
    (∃ code q', q.next = (.key code, q') ∧ q.coming = code :: q'.coming ∧ q'.closes = q.closes ∧
      q'.cancelled = false ∧ q'.channel ⊆ q.channel) ∨
      (q.coming = [] ∧ (q.next.1 = if q.closes then .ended else .waiting) ∧
        (q.closes = true → q.next.2.cancelled = true ∨ .terminate ∈ q.channel)) := by
  obtain ⟨channel, pending, cancelled, keypads, listening⟩ := q
  cases cancelled with
  | true => exact .inr ⟨rfl, rfl, fun _ => .inl rfl⟩
  | false =>
    cases pending with
    | cons code rest => exact .inl ⟨code, _, rfl, rfl, rfl, rfl, List.Subset.refl _⟩
    | nil =>
      cases channel with
      | cons e rest =>
        cases e with
        | key code =>
          exact .inl ⟨code, _, rfl, rfl, by simp [closes], rfl, List.subset_cons_self _ _⟩
        | terminate => exact .inr ⟨rfl, by simp [next, closes], fun _ => .inr List.mem_cons_self⟩
      | nil => by_cases hk : keypads = 0 <;> simp [next, closes, coming, leading, hk]

end KeyQueue

/-- The first known key among codes, and the codes behind it. -/
def Key.firstKnown? : List Int32 → Option (Key × List Int32)
  | [] => none
  | code :: rest =>
    match ofCode32? code with
    | some k => some (k, rest)
    | none => firstKnown? rest

/-- What stands behind the first known key does not matter for finding it. -/
theorem Key.firstKnown?_split {codes rest : List Int32} {k : Key}
    (h : firstKnown? codes = some (k, rest)) :
    ∃ front, front ≠ [] ∧ codes = front ++ rest ∧
      ∀ others, firstKnown? (front ++ others) = some (k, others) := by
  induction codes with
  | nil => cases h
  | cons code codes ih =>
    rw [firstKnown?] at h
    split at h
    · next k' hcode =>
      obtain ⟨rfl, rfl⟩ := Prod.mk.inj (Option.some.inj h)
      refine ⟨[code], nofun, rfl, fun others => ?_⟩
      rw [List.singleton_append, firstKnown?, hcode]
    · next hcode =>
      obtain ⟨front, -, rfl, hfront⟩ := ih h
      refine ⟨code :: front, nofun, rfl, fun others => ?_⟩
      rw [List.cons_append, firstKnown?, hcode]
      exact hfront others

theorem Key.length_of_firstKnown? {codes rest : List Int32} {k : Key}
    (h : firstKnown? codes = some (k, rest)) : rest.length < codes.length := by
  obtain ⟨front, hfront, rfl, -⟩ := firstKnown?_split h
  have hsome := List.length_pos_iff.mpr hfront
  rw [List.length_append]
  omega

namespace Machine

/-- Reading keys has left everything that the input works on; it may beep. -/
structure Heard (beep : Bool) (m m' : Machine) : Prop where
  registers : m'.registers = m.registers
  files : m'.files = m.files
  rows : m'.screen.rows = m.screen.rows
  screen : beep = false → m'.screen = m.screen
  watcher : m'.watcher = m.watcher
  cancelled : m.keys.cancelled = true → m'.keys.cancelled = true

variable {beep : Bool} {m m₁ m₂ : Machine}

theorem Heard.trans (h : m.Heard beep m₁) (h₁ : m₁.Heard beep m₂) : m.Heard beep m₂ :=
  ⟨h₁.registers.trans h.registers, h₁.files.trans h.files, h₁.rows.trans h.rows,
    fun hb => (h₁.screen hb).trans (h.screen hb), h₁.watcher.trans h.watcher,
    fun hc => h₁.cancelled (h.cancelled hc)⟩

theorem heard_adopt_next (beep : Bool) (m : Machine) :
    ∃ m', Act.adopt m.keys.next.2 m = (.ok (), m') ∧ m'.keys = m.keys.next.2 ∧ m.Heard beep m' := by
  simp only [Act.adopt, Act.run_bind, Act.read, Act.update]
  split
  · exact ⟨_, rfl, rfl, rfl, rfl, rfl, fun _ => rfl, rfl, m.keys.cancelled_next⟩
  · exact ⟨_, rfl, rfl, rfl, rfl, rfl, fun _ => rfl, rfl, m.keys.cancelled_next⟩

theorem nextCode_coming (beep : Bool) (m : Machine) :
    (∃ code m', Act.nextCode m = (.ok (some code), m') ∧ m.keys.coming = code :: m'.keys.coming ∧
        m'.keys.closes = m.keys.closes ∧ m'.keys.cancelled = false ∧
        m'.keys.channel ⊆ m.keys.channel ∧ m.Heard beep m') ∨
      (m.keys.coming = [] ∧ ∃ m', m.Heard beep m' ∧
        (m.keys.closes = true → m'.keys.cancelled = true ∨ .terminate ∈ m.keys.channel) ∧
        Act.nextCode m = (if m.keys.closes then .ok none else .error .waiting, m')) := by
  obtain ⟨m', hadopt, hkeys, hheard⟩ := heard_adopt_next beep m
  simp only [Act.nextCode, Act.run_bind, Act.read, hadopt]
  rcases m.keys.next_coming with
    ⟨code, q, hnext, hcoming, hcloses, hopen, hchannel⟩ | ⟨hnone, hreading, hflag⟩
  · obtain rfl : m'.keys = q := by rw [hkeys, hnext]
    refine .inl ⟨code, m', ?_, hcoming, hcloses, hopen, hchannel, hheard⟩
    rw [hnext]
    rfl
  · refine .inr ⟨hnone, m', hheard, hkeys ▸ hflag, ?_⟩
    rw [hreading]
    cases m.keys.closes <;> rfl

/-- What asking for a known key comes to. -/
inductive Hears (beep : Bool) (m : Machine) : Except Stop (Option Key) × Machine → Prop where
  | key {m' : Machine} {k : Key} (hkey : Key.firstKnown? m.keys.coming = some (k, m'.keys.coming))
    (hcloses : m'.keys.closes = m.keys.closes) (hheard : m.Heard beep m')
    (hopen : m'.keys.cancelled = false) : Hears beep m (.ok (some k), m')
  | ended {m' : Machine} (hkey : Key.firstKnown? m.keys.coming = none) (hcloses : m.keys.closes = true)
    (hheard : m.Heard beep m') (hflag : m'.keys.cancelled = true ∨ .terminate ∈ m.keys.channel) :
    Hears beep m (.ok none, m')
  | waits {m' : Machine} (hkey : Key.firstKnown? m.keys.coming = none)
    (hcloses : m.keys.closes = false) (hheard : m.Heard beep m') : Hears beep m (.error .waiting, m')

/-- An unknown code in front makes no difference. -/
theorem Hears.skip {code : Int32} {r : Except Stop (Option Key) × Machine} (h : m₁.Hears beep r)
    (hcode : Key.ofCode32? code = none) (hcoming : m.keys.coming = code :: m₁.keys.coming)
    (hcloses : m₁.keys.closes = m.keys.closes) (hchannel : m₁.keys.channel ⊆ m.keys.channel)
    (hheard : m.Heard beep m₁) : m.Hears beep r := by
  have hskip : Key.firstKnown? m.keys.coming = Key.firstKnown? m₁.keys.coming := by
    rw [hcoming, Key.firstKnown?, hcode]
  cases h with
  | key hkey hclose hlast hopen =>
    exact .key (hskip.trans hkey) (hclose.trans hcloses) (hheard.trans hlast) hopen
  | ended hkey hclose hlast hflag =>
    exact .ended (hskip.trans hkey) (hcloses ▸ hclose) (hheard.trans hlast) (hflag.imp_right (hchannel ·))
  | waits hkey hclose hlast => exact .waits (hskip.trans hkey) (hcloses ▸ hclose) (hheard.trans hlast)

theorem hears_knownKeyAmong (beep : Bool) (n : Nat) (m : Machine) (h : m.keys.coming.length < n) :
    m.Hears beep (Act.knownKeyAmong beep n m) := by
  induction n generalizing m with
  | zero => cases h
  | succ n ih =>
    rw [Act.knownKeyAmong, Act.run_bind]
    rcases nextCode_coming beep m with
      ⟨code, m₁, hnext, hcoming, hcloses, hopen, hchannel, hheard⟩ | ⟨hnone, m₁, hheard, hflag, hnext⟩
    · simp only [hnext]
      cases hcode : Key.ofCode32? code with
      | some k =>
        exact .key (by rw [hcoming, Key.firstKnown?, hcode]) hcloses hheard hopen
      | none =>
        have hfewer : m₁.keys.coming.length < n := by
          rw [hcoming, List.length_cons] at h
          omega
        -- all that is left of the code is a note, and a beep if there is to be one
        have rest {noted : Machine} (hkeys : noted.keys = m₁.keys) (hnoted : m₁.Heard beep noted) :
            m.Hears beep (Act.knownKeyAmong beep n noted) := by
          rw [← hkeys] at hfewer hcoming hcloses hchannel
          exact (ih noted hfewer).skip hcode hcoming hcloses hchannel (hheard.trans hnoted)
        cases beep with
        | false => exact rest rfl ⟨rfl, rfl, rfl, fun _ => rfl, rfl, id⟩
        | true => exact rest rfl ⟨rfl, rfl, rfl, nofun, rfl, id⟩
    · have hkey : Key.firstKnown? m.keys.coming = none := by rw [hnone]; rfl
      simp only [hnext]
      cases hcloses : m.keys.closes with
      | true => exact .ended hkey hcloses hheard (hflag hcloses)
      | false => exact .waits hkey hcloses hheard

/-- Asking for a known key gives the first one among the codes that come. -/
theorem hears_knownKey (beep : Bool) (m : Machine) : m.Hears beep (Act.knownKey beep m) :=
  hears_knownKeyAmong beep _ m (Nat.lt_succ_of_le m.keys.length_coming_le)

end Machine
end Handheld
