import Handheld.Proofs.Input.Turn
import Handheld.Proofs.Machine.Records

namespace Handheld

/-- The three registers that tell how an input ended. -/
def RegisterStore.report (s : RegisterStore) (rslt endky numbr : Int32) : RegisterStore :=
  ((s.store .rslt (.int rslt)).store .endky (.int endky)).store .numbr (.int numbr)

namespace InputField

/-- How a line comes to its end. -/
inductive Ending where
  /-- By a special key: nothing is stored. -/
  | special (k : Key)
  /-- By Enter, or because the field is full and taken at once. -/
  | taken
  deriving DecidableEq

/-- What one key does to a line. -/
inductive Pressed where
  | ends (e : Ending) (typed : List UInt8)
  | goes (typed : List UInt8)
  /-- The key does not fit here; the line stays. -/
  | refused
  /-- A line that had something in it is empty now. -/
  | emptied
  deriving DecidableEq

namespace Pressed

/-- What the line holds behind the key. -/
def line (typed : List UInt8) : Pressed → List UInt8
  | ends _ line | goes line => line
  | refused => typed
  | emptied => []

def isOpen : Pressed → Bool
  | ends _ _ => false
  | goes _ | refused | emptied => true

def beeps : Pressed → Nat
  | ends _ _ | goes _ => 0
  | refused | emptied => 1

end Pressed

/-- What typing codes comes to. -/
structure Typing where
  typed : List UInt8
  refused : Nat
  emptied : Nat
  /-- None while the line still waits for keys. -/
  ending : Option Ending
  /-- The codes behind the one that ended the line. -/
  unread : List Int32
  deriving DecidableEq

def Typing.beeps (t : Typing) : Nat := t.refused + t.emptied

/-- The same line but for some beeps more. -/
structure Typing.Adds (n : Nat) (t t' : Typing) : Prop where
  typed : t'.typed = t.typed
  ending : t'.ending = t.ending
  unread : t'.unread = t.unread
  beeps : t'.beeps = n + t.beeps

/-- The byte that a key types into a field of a kind, if it types one. -/
def glyph? (kind : Kind) : Key → Option UInt8
  | .num d => some (UInt8.ofNat (0x30 + d))
  | .period => if kind = .int then none else some 0x2E
  | _ => none

/-- A key that is there to be typed, if it types a byte and there is room for it. -/
def offer (f : InputField) (typed : List UInt8) (k : Key) : Pressed :=
  match glyph? f.dst.kind k with
  | none => .refused
  | some byte =>
    if f.columns ≤ typed.length then .refused
    else if typed.length + 1 = f.columns ∧ f.full = .immediate then .ends .taken (typed ++ [byte])
    else .goes (typed ++ [byte])

/-- Special keys come first. -/
def press (f : InputField) (typed : List UInt8) (k : Key) : Pressed :=
  if f.special.contains k then .ends (.special k) typed
  else match k with
    | .enter => .ends .taken typed
    | .backspace => .goes typed.dropLast
    | .clear => if typed = [] then .goes [] else .emptied
    | k => f.offer typed k

/-- The line editor: codes that are no key are skipped, and the others pressed from left to right. -/
def edit (f : InputField) (typed : List UInt8) : List Int32 → Typing
  | [] => ⟨typed, 0, 0, none, []⟩
  | code :: rest =>
    match Key.ofCode32? code with
    | none => edit f typed rest
    | some k =>
      match f.press typed k with
      | .ends e typed => ⟨typed, 0, 0, some e, rest⟩
      | .goes typed => edit f typed rest
      | .refused => { edit f typed rest with refused := (edit f typed rest).refused + 1 }
      | .emptied => { edit f [] rest with emptied := (edit f [] rest).emptied + 1 }

/-- The registers behind a line that has ended. -/
def stored (f : InputField) (s : RegisterStore) (typed : List UInt8) : Ending → RegisterStore
  | .special k => s.report k.code32 1 0
  | .taken => (s.store f.dst (.text ⟨typed⟩)).report 0 0 (Int32.ofNat typed.length)

/-- The registers behind an input; a line that has not ended stores nothing. -/
def after (f : InputField) (s : RegisterStore) (t : Typing) : RegisterStore :=
  match t.ending with
  | some e => f.stored s t.typed e
  | none => s

variable {f : InputField} {typed : List UInt8} {k : Key} {codes rest : List Int32}

theorem edit_of_firstKnown?_none (h : Key.firstKnown? codes = none) :
    f.edit typed codes = ⟨typed, 0, 0, none, []⟩ := by
  induction codes with
  | nil => rfl
  | cons code codes ih =>
    rw [Key.firstKnown?] at h
    rw [edit]
    split at h
    · cases h
    · next hcode =>
      simp only [hcode]
      exact ih h

/-- The codes in front of the first known key make no difference. -/
theorem edit_of_firstKnown? (h : Key.firstKnown? codes = some (k, rest)) :
    f.edit typed codes = match f.press typed k with
      | .ends e typed => ⟨typed, 0, 0, some e, rest⟩
      | .goes typed => f.edit typed rest
      | .refused => { f.edit typed rest with refused := (f.edit typed rest).refused + 1 }
      | .emptied => { f.edit [] rest with emptied := (f.edit [] rest).emptied + 1 } := by
  induction codes with
  | nil => cases h
  | cons code codes ih =>
    rw [Key.firstKnown?] at h
    rw [edit]
    split at h
    · next k' hcode =>
      obtain ⟨rfl, rfl⟩ := Prod.mk.inj (Option.some.inj h)
      simp only [hcode]
    · next hcode =>
      simp only [hcode]
      exact ih h

/-- A key that leaves the line open only adds its beep to what comes behind. -/
theorem edit_open (h : Key.firstKnown? codes = some (k, rest)) (hopen : (f.press typed k).isOpen = true) :
    (f.edit ((f.press typed k).line typed) rest).Adds (f.press typed k).beeps (f.edit typed codes) := by
  rw [edit_of_firstKnown? h]
  cases hp : f.press typed k with
  | ends e line =>
    rw [hp] at hopen
    cases hopen
  | goes line => exact ⟨rfl, rfl, rfl, (Nat.zero_add _).symm⟩
  | refused | emptied =>
    refine ⟨rfl, rfl, rfl, ?_⟩
    simp only [Typing.beeps, Pressed.beeps, Pressed.line]
    omega

/-- The keys that type a byte, and the byte they type. -/
theorem glyph?_eq (kind : Kind) (k : Key) :
    glyph? kind k = if accepts kind k then some (keyByte k) else none := by
  cases k with
  | num d => rfl
  | period => cases kind <;> rfl
  | trigger | q1 | q2 | backspace | clear | enter | function => cases kind <;> rfl

section Press

theorem press_special (h : f.special.contains k = true) : f.press typed k = .ends (.special k) typed :=
  if_pos h

theorem press_enter (h : f.special.contains .enter = false) :
    f.press typed .enter = .ends .taken typed := by
  rw [press, h]
  rfl

theorem press_backspace (h : f.special.contains .backspace = false) :
    f.press typed .backspace = .goes typed.dropLast := by
  rw [press, h]
  rfl

theorem press_clear (h : f.special.contains .clear = false) :
    f.press typed .clear = if typed = [] then .goes [] else .emptied := by
  rw [press, h]
  rfl

theorem press_ordinary (h : f.special.contains k = false) (hk : Ordinary k) :
    f.press typed k = f.offer typed k := by
  obtain ⟨henter, hback, hclear⟩ := hk
  unfold press
  rw [h]
  cases k with
  | enter => exact absurd rfl henter
  | backspace => exact absurd rfl hback
  | clear => exact absurd rfl hclear
  | trigger | q1 | q2 | num | period | function => rfl

theorem press_refused (h : f.special.contains k = false) (hk : Ordinary k)
    (hno : ¬ (typed.length < f.columns ∧ accepts f.dst.kind k = true)) :
    f.press typed k = .refused := by
  rw [press_ordinary h hk, offer, glyph?_eq]
  by_cases haccepts : accepts f.dst.kind k = true
  · have hroom : f.columns ≤ typed.length := by
      by_contra hroom
      exact hno ⟨Nat.lt_of_not_le hroom, haccepts⟩
    simp only [haccepts, if_true, hroom]
  · rw [if_neg haccepts]

theorem press_type (h : f.special.contains k = false) (hk : Ordinary k)
    (hroom : typed.length < f.columns) (haccepts : accepts f.dst.kind k = true) :
    f.press typed k =
      if typed.length + 1 = f.columns ∧ f.full = .immediate then .ends .taken (typed ++ [keyByte k])
      else .goes (typed ++ [keyByte k]) := by
  rw [press_ordinary h hk, offer, glyph?_eq, if_pos haccepts]
  exact if_neg (Nat.not_le_of_lt hroom)

end Press

theorem length_line_offer (hlen : typed.length ≤ f.columns) (k : Key) :
    ((f.offer typed k).line typed).length ≤ min f.columns (typed.length + 1) := by
  have hkept : typed.length ≤ min f.columns (typed.length + 1) := by omega
  unfold offer
  split
  · exact hkept
  · next byte _ =>
    split
    · exact hkept
    · have hmore : (typed ++ [byte]).length ≤ min f.columns (typed.length + 1) := by
        rw [List.length_append, List.length_singleton]
        omega
      split
      · exact hmore
      · exact hmore

/-- A key adds one byte at most, and none to a full field. -/
theorem length_line_press (hlen : typed.length ≤ f.columns) (k : Key) :
    ((f.press typed k).line typed).length ≤ min f.columns (typed.length + 1) := by
  have hkept : typed.length ≤ min f.columns (typed.length + 1) := by omega
  have hshort : typed.dropLast.length ≤ typed.length := typed.dropLast_sublist.length_le
  unfold press
  split
  · exact hkept
  · split
    · exact hkept
    · exact Nat.le_trans hshort hkept
    · split
      · exact Nat.zero_le _
      · exact Nat.zero_le _
    · exact length_line_offer hlen _

/-- What is typed never gets longer than the field. -/
theorem length_edit (hlen : typed.length ≤ f.columns) (codes : List Int32) :
    (f.edit typed codes).typed.length ≤ f.columns := by
  induction codes generalizing typed with
  | nil => exact hlen
  | cons code codes ih =>
    rw [edit]
    split
    · exact ih hlen
    · next k _ =>
      have hline := Nat.le_trans (length_line_press hlen k) (Nat.min_le_left _ _)
      split
      · next hp =>
        rw [hp] at hline
        exact hline
      · next hp =>
        rw [hp] at hline
        exact ih hline
      · exact ih hlen
      · exact ih (Nat.zero_le _)

end InputField

namespace Machine

variable {f : InputField} {typed : List UInt8} {k : Key} {m : Machine}

/-- The machine has sounded `n` beeps, and but for the screen nothing else has happened. -/
structure Sounds (m : Machine) (n : Nat) (m' : Machine) : Prop where
  registers : m'.registers = m.registers
  beeps : m'.screen.beeps = m.screen.beeps + n
  undisturbed : m.Undisturbed m'

theorem beeps_foldl_apply (ds : List Screen.Drawing) (s : Screen) :
    (ds.foldl Screen.apply s).beeps = s.beeps + (ds.map Screen.Drawing.beeps).sum := by
  induction ds generalizing s with
  | nil => rfl
  | cons d rest ih =>
    rw [List.foldl_cons, ih, Screen.beeps_apply, List.map_cons, List.sum_cons, Nat.add_assoc]

theorem Drawn.sounds {ds : List Screen.Drawing} {m' : Machine} (h : m.Drawn ds m') :
    m.Sounds (ds.map Screen.Drawing.beeps).sum m' :=
  ⟨h.registers, by rw [h.screen, beeps_foldl_apply], h.undisturbed⟩

/-- How one key of an input leaves the machine, given what the editor makes of the key. -/
inductive Did (m : Machine) (f : InputField) (typed : List UInt8) :
    InputField.Pressed → Except Stop (Option (List UInt8)) × Machine → Prop where
  | ends {e : InputField.Ending} {line : List UInt8} {m' : Machine}
    (hregisters : m'.registers = f.stored m.registers line e) (hcursor : m'.screen.cursor = none)
    (hbeeps : m'.screen.beeps = m.screen.beeps) (hundisturbed : m.Undisturbed m') :
    Did m f typed (.ends e line) (.ok none, m')
  | goes {p : InputField.Pressed} {m' : Machine} (hopen : p.isOpen = true)
    (hsounds : m.Sounds p.beeps m') : Did m f typed p (.ok (some (p.line typed)), m')

namespace Act

theorem endSpecial_did (k : Key) :
    m.Did f typed (.ends (.special k) typed) ((endSpecial k >>= fun _ => pure none) m) :=
  .ends rfl rfl rfl ⟨.inl rfl, id⟩

/-- Storing a line behind drawings that make no sound. -/
theorem commitLine_did (hdst : f.dst.isSystem = false) (line : List UInt8) {m₁ : Machine}
    (h : m.Sounds 0 m₁) :
    m.Did f typed (.ends .taken line) ((commitLine f line >>= fun _ => pure none) m₁) := by
  rw [commitLine, bind_bind, run_bind, set_eq hdst]
  refine .ends ?_ rfl h.beeps ⟨h.undisturbed.keys, h.undisturbed.unwatched⟩
  rw [← h.registers]
  rfl

theorem drawAll_sounds (ds : List Screen.Drawing) (m : Machine) :
    ∃ m', drawAll ds m = (.ok (), m') ∧ m.Sounds (ds.map Screen.Drawing.beeps).sum m' := by
  obtain ⟨m', hdraw, hdrawn⟩ := drawAll_drawn ds m
  exact ⟨m', hdraw, hdrawn.sounds⟩

/-- Editing ends no line. -/
theorem edit_did (ds : List Screen.Drawing) (p : InputField.Pressed) (hopen : p.isOpen = true)
    (hbeeps : (ds.map Screen.Drawing.beeps).sum = p.beeps) :
    m.Did f typed p ((drawAll ds >>= fun _ => pure (some (p.line typed))) m) := by
  obtain ⟨m', hdraw, hsounds⟩ := drawAll_sounds ds m
  rw [run_bind, hdraw]
  exact .goes hopen (hbeeps ▸ hsounds)

/-- A byte ends the line if it fills a field that is taken at once. -/
theorem type_did (hdst : f.dst.isSystem = false) (hfull : f.full ≠ .oneSecond)
    (hroom : typed.length < f.columns) (byte : UInt8) {ds : List Screen.Drawing}
    (hquiet : (ds.map Screen.Drawing.beeps).sum = 0) :
    m.Did f typed
      (if typed.length + 1 = f.columns ∧ f.full = .immediate then .ends .taken (typed ++ [byte])
        else .goes (typed ++ [byte]))
      (answer f typed k (.type (typed ++ [byte]) ds) m) := by
  obtain ⟨m₁, hdraw, hsounds⟩ := drawAll_sounds ds m
  rw [hquiet] at hsounds
  have hlength : (typed ++ [byte]).length = typed.length + 1 := by
    rw [List.length_append, List.length_singleton]
  rw [answer, run_bind, hdraw]
  dsimp only
  rw [hlength]
  by_cases hmore : typed.length + 1 < f.columns
  · rw [if_pos hmore, if_neg (by omega)]
    exact .goes rfl hsounds
  · have hlast : typed.length + 1 = f.columns := by omega
    rw [if_neg hmore]
    cases hf : f.full with
    | immediate =>
      rw [if_pos ⟨hlast, rfl⟩]
      exact commitLine_did hdst _ hsounds
    | oneSecond => exact absurd hf hfull
    | nothing =>
      rw [if_neg (by simp)]
      exact .goes rfl hsounds

/-- The input does with a key what the editor does. -/
theorem answer_did (hdst : f.dst.isSystem = false) (hfull : f.full ≠ .oneSecond)
    {r : InputField.Response} (hr : f.Responds typed k r) :
    m.Did f typed (f.press typed k) (answer f typed k r m) := by
  cases hr with
  | special h =>
    rw [InputField.press_special h]
    exact endSpecial_did k
  | enter h =>
    rw [InputField.press_enter h]
    exact commitLine_did hdst typed ⟨rfl, rfl, .refl m⟩
  | backspaceEmpty h hempty =>
    subst hempty
    rw [InputField.press_backspace h]
    exact edit_did _ (.goes []) rfl rfl
  | backspace h =>
    rw [InputField.press_backspace h]
    exact edit_did _ (.goes typed.dropLast) rfl rfl
  | clearEmpty h hempty =>
    subst hempty
    rw [InputField.press_clear h]
    exact edit_did _ (.goes []) rfl rfl
  | clear h hsome =>
    rw [InputField.press_clear h, if_neg hsome]
    exact edit_did _ .emptied rfl rfl
  | refused h hk hno =>
    rw [InputField.press_refused h hk hno]
    exact edit_did _ .refused rfl rfl
  | type h hk hroom haccepts =>
    rw [InputField.press_type h hk hroom haccepts]
    exact type_did hdst hfull hroom _ (by split <;> rfl)

end Act

/-- An input has done to a machine what the editor makes of the codes. -/
structure Edited (m : Machine) (f : InputField) (t : InputField.Typing) (m' : Machine) : Prop where
  registers : m'.registers = f.after m.registers t
  cursor : m'.screen.cursor = none
  beeps : m'.screen.beeps = m.screen.beeps + t.beeps
  unread : t.ending ≠ none → m'.keys.coming = t.unread

/-- The codes that an input is given: all that come, or those in front of a request to terminate from
somebody who watches the screen. -/
structure Given (m : Machine) (codes : List Int32) (m' : Machine) : Prop where
  front : codes <+: m.keys.coming
  all : codes = m.keys.coming ∨ m.watcher ≠ 0 ∧ m'.keys.cancelled = true

/-- What typing comes to. -/
inductive Obeys (m : Machine) (f : InputField) (typed : List UInt8) :
    Except Stop Unit × Machine → Prop where
  | ends {codes : List Int32} {m' : Machine} (hgiven : m.Given codes m')
    (hcancelled : m.keys.cancelled = true → m'.keys.cancelled = true)
    (hedited : m.Edited f (f.edit typed codes) m') : Obeys m f typed (.ok (), m')
  | waits {m' : Machine} (hending : (f.edit typed m.keys.coming).ending = none)
    (hcloses : m.keys.closes = false) : Obeys m f typed (.error .waiting, m')

theorem Asked.beeps {m₁ : Machine} (h : m.Asked f typed m₁) : m₁.screen.beeps = m.screen.beeps := by
  rw [h.screen, beeps_foldl_apply, InputField.pointing]
  split <;> rfl

/-- Beeps that have been sounded before are added to the editor's. -/
theorem Edited.adds {n : Nat} {m₁ m' : Machine} {t t' : InputField.Typing} (h : m₁.Edited f t m')
    (ht : t.Adds n t') (hregisters : m₁.registers = m.registers)
    (hbeeps : m₁.screen.beeps = m.screen.beeps + n) : m.Edited f t' m' := by
  have hafter : f.after m₁.registers t = f.after m.registers t' := by
    rw [InputField.after, InputField.after, hregisters, ht.ending, ht.typed]
  refine ⟨h.registers.trans hafter, h.cursor, ?_, fun hended => ?_⟩
  · rw [h.beeps, hbeeps, ht.beeps, Nat.add_assoc]
  · rw [ht.ending] at hended
    exact (h.unread hended).trans ht.unread.symm

/-- A key that ends the line. -/
theorem Asked.obeys_ends {m₁ m' : Machine} {e : InputField.Ending} {line : List UInt8}
    (hasked : m.Asked f typed m₁) (hkey : Key.firstKnown? m.keys.coming = some (k, m₁.keys.coming))
    (hpress : f.press typed k = .ends e line)
    (hdid : m₁.Did f typed (.ends e line) (.ok none, m')) : m.Obeys f typed (.ok (), m') := by
  obtain ⟨front, -, hcoming, hfront⟩ := Key.firstKnown?_split hkey
  have hedit (others : List Int32) :
      f.edit typed (front ++ others) = ⟨line, 0, 0, some e, others⟩ := by
    rw [InputField.edit_of_firstKnown? (hfront others), hpress]
  cases hdid with
  | ends hregisters hcursor hbeeps hundisturbed =>
    have hedited : m.Edited f (f.edit typed (front ++ m'.keys.coming)) m' := by
      rw [hedit]
      refine ⟨?_, hcursor, hbeeps.trans hasked.beeps, fun _ => rfl⟩
      rw [hregisters, hasked.registers]
      rfl
    refine .ends ⟨?_, ?_⟩ (fun h => hundisturbed.cancelled (hasked.cancelled h)) hedited
    · rw [hcoming]
      exact (List.prefix_append_right_inj front).mpr hundisturbed.coming
    · rw [hcoming]
      rcases hundisturbed.keys with hsame | ⟨hwatched, hcancelled⟩
      · exact .inl (by rw [hsame])
      · exact .inr ⟨hasked.watcher ▸ hwatched, hcancelled⟩

/-- A key behind which the line goes on. -/
theorem Asked.obeys_goes {m₁ m₂ : Machine} {r : Except Stop Unit × Machine} (hasked : m.Asked f typed m₁)
    (hkey : Key.firstKnown? m.keys.coming = some (k, m₁.keys.coming))
    (hcloses : m₁.keys.closes = m.keys.closes) (hopen : (f.press typed k).isOpen = true)
    (hsounds : m₁.Sounds (f.press typed k).beeps m₂)
    (hobeys : m₂.Obeys f ((f.press typed k).line typed) r) : m.Obeys f typed r := by
  obtain ⟨front, -, hcoming, hfront⟩ := Key.firstKnown?_split hkey
  have hadds (others : List Int32) := InputField.edit_open (hfront others) hopen
  have hregisters : m₂.registers = m.registers := hsounds.registers.trans hasked.registers
  have hbeeps : m₂.screen.beeps = m.screen.beeps + (f.press typed k).beeps := by
    rw [hsounds.beeps, hasked.beeps]
  have hundisturbed := hsounds.undisturbed
  cases hobeys with
  | @ends codes m' hgiven hcancelled hedited =>
    have hmore : m.Edited f (f.edit typed (front ++ codes)) m' :=
      hedited.adds (hadds codes) hregisters hbeeps
    refine .ends ⟨?_, ?_⟩ (fun h => hcancelled (hundisturbed.cancelled (hasked.cancelled h))) hmore
    · rw [hcoming]
      exact (List.prefix_append_right_inj front).mpr (hgiven.front.trans hundisturbed.coming)
    -- a request to terminate comes from the drawings of this key, or from those of a later one
    · rcases hundisturbed.keys with hsame | ⟨hwatched, hnow⟩
      · rcases hgiven.all with hall | ⟨hwatched, hnow⟩
        · exact .inl (by rw [hcoming, hall, hsame])
        · exact .inr ⟨fun hnobody => hwatched (hundisturbed.unwatched (hasked.watcher.trans hnobody)), hnow⟩
      · exact .inr ⟨hasked.watcher ▸ hwatched, hcancelled hnow⟩
  | waits hending hopened =>
    rcases hundisturbed.keys with hsame | ⟨-, hnow⟩
    · rw [hsame] at hending hopened
      exact .waits ((InputField.edit_open hkey hopen).ending.trans hending) (hcloses ▸ hopened)
    · rw [KeyQueue.closes, hnow] at hopened
      cases hopened

/-- Typing a line does what the editor makes of the codes that come. -/
theorem typeLine_obeys (hdst : f.dst.isSystem = false) (hfull : f.full ≠ .oneSecond) (n : Nat)
    (hlen : typed.length ≤ f.columns)
    (hf : f.col + min f.columns (typed.length + m.keys.coming.length) < Word.limit)
    (hn : m.keys.coming.length < n) : m.Obeys f typed (Act.typeLine f n typed m) := by
  -- on the bound of the keys: a turn uses up a code and adds a byte at most, so both bounds last
  induction n generalizing m typed with
  | zero => cases hn
  | succ n ih =>
    have hturned := turn_turned hf hlen
    rw [Act.typeLine_succ, Act.run_bind]
    generalize Act.turn f typed m = out at hturned ⊢
    cases hturned with
    | @answers m₁ k r _ hasked hkey hcloses hr hout =>
      have hfewer := Key.length_of_firstKnown? hkey
      have hline := InputField.length_line_press hlen k
      have hdid := Act.answer_did hdst hfull hr (m := m₁)
      rw [hout] at hdid
      generalize hpress : f.press typed k = p at hdid hline
      cases hdid with
      | ends hregisters hcursor hbeeps hundisturbed =>
        exact hasked.obeys_ends hkey hpress (.ends hregisters hcursor hbeeps hundisturbed)
      | @goes _ m₂ hopen hsounds =>
        have hless := hsounds.undisturbed.coming.length_le
        have hmore : m₂.Obeys f _ (Act.typeLine f n _ m₂) :=
          ih (Nat.le_trans hline (Nat.min_le_left _ _)) (by omega) (by omega)
        subst hpress
        exact hasked.obeys_goes hkey hcloses hopen hsounds hmore
    | ended hasked hkey hcloses hhide =>
      refine .ends ⟨List.prefix_rfl, .inl rfl⟩
        (fun h => hhide.undisturbed.cancelled (hasked.cancelled h)) ?_
      rw [InputField.edit_of_firstKnown?_none hkey]
      refine ⟨hhide.registers.trans hasked.registers, ?_, ?_, fun h => absurd rfl h⟩
      · rw [hhide.screen]
        rfl
      · rw [hhide.screen]
        exact hasked.beeps
    | waits hasked hkey hcloses =>
      refine .waits ?_ hcloses
      rw [InputField.edit_of_firstKnown?_none hkey]

section LineInput

/-- Line input does to registers, cursor, buzzer and keys what the editor makes of the codes it is given,
whenever a key ends the line or the codes end; the columns that are reached have to fit a word. -/
theorem lineInput_edits (hdst : f.dst.isSystem = false) (hfull : f.full ≠ .oneSecond)
    (hf : f.col + min f.columns m.keys.coming.length < Word.limit)
    (hends : (f.edit [] m.keys.coming).ending ≠ none ∨ m.keys.closes = true) :
    ∃ codes m', Act.lineInput f m = (.ok (), m') ∧ m.Given codes m' ∧
      m.Edited f (f.edit [] codes) m' ∧ (f.edit [] codes).typed.length ≤ f.columns := by
  have hobeys : m.Obeys f [] (Act.lineInput f m) :=
    typeLine_obeys hdst hfull (m.keys.size + 1) (Nat.zero_le _) (by simpa using hf)
      (Nat.lt_succ_of_le m.keys.length_coming_le)
  generalize Act.lineInput f m = out at hobeys ⊢
  cases hobeys with
  | ends hgiven _ hedited =>
    exact ⟨_, _, rfl, hgiven, hedited, InputField.length_edit (Nat.zero_le _) _⟩
  | waits hending hcloses =>
    rcases hends with hended | hclosed
    · exact absurd hending hended
    · rw [hcloses] at hclosed
      cases hclosed

/-- A machine to which codes have been sent. -/
def keyed (codes : List Int32) : Machine :=
  { idle with keys := { KeyQueue.initial with channel := codes.map .key } }

/-- A field for a price, taken as soon as it is full. -/
def price : InputField :=
  ⟨2, 4, .flt (Fin.last 9), 4, true, .immediate, .ofList [.function (Fin.last 7)], .block⟩

/-- Clear, an unknown code, F2, 1, 2, Clear, 9, period, Backspace, period, 5, 0 and 7. -/
def priceCodes : List Int32 := [24, 999, 242, 49, 50, 24, 57, 46, 8, 46, 53, 48, 55]

/-- F2 and the second Clear beep, and the last key comes behind the end. -/
theorem lineInput_edits_price :
    price.edit [] priceCodes = ⟨[0x39, 0x2E, 0x35, 0x30], 1, 1, some .taken, [55]⟩ ∧
      ∃ m', Act.lineInput price (keyed priceCodes) = (.ok (), m') ∧
        m'.registers.get .numbr = .int 4 ∧ m'.screen.beeps = 2 ∧ m'.keys.coming = [55] := by
  have hedit : price.edit [] priceCodes = ⟨[0x39, 0x2E, 0x35, 0x30], 1, 1, some .taken, [55]⟩ := by
    decide
  have hcoming : (keyed priceCodes).keys.coming = priceCodes := rfl
  have hends : (price.edit [] (keyed priceCodes).keys.coming).ending ≠ none := by
    rw [hcoming, hedit]
    nofun
  obtain ⟨codes, m', hinput, hgiven, hedited, -⟩ :=
    lineInput_edits (m := keyed priceCodes) (f := price) rfl nofun (by decide) (.inl hends)
  -- nobody watches the screen
  have hall : codes = priceCodes := hgiven.all.elim (·.trans hcoming) fun h => absurd rfl h.1
  subst hall
  rw [hedit] at hedited
  refine ⟨hedit, m', hinput, ?_, hedited.beeps, hedited.unread nofun⟩
  rw [hedited.registers]
  rfl

/-- A field behind the last column that a word can count. -/
def beyond : InputField := ⟨0, Word.limit - 1, .dat (Fin.last 9), 5, true, .nothing, .empty, .none⟩

/-- There the column behind the first digit is not a word, and the input fails before Enter. -/
theorem not_every_lineInput_edits :
    ¬ ∀ (f : InputField) (m : Machine), f.dst.isSystem = false → f.full ≠ .oneSecond →
      ((f.edit [] m.keys.coming).ending ≠ none ∨ m.keys.closes = true) →
      ∃ codes m', Act.lineInput f m = (.ok (), m') ∧ m.Given codes m' ∧
        m.Edited f (f.edit [] codes) m' := by
  intro hall
  have hends : (beyond.edit [] (keyed [49, 13]).keys.coming).ending ≠ none := by decide
  obtain ⟨codes, m', hinput, -⟩ := hall beyond (keyed [49, 13]) rfl nofun (.inl hends)
  have hfails : (Act.lineInput beyond (keyed [49, 13])).1 = .error .overflow := by decide
  rw [hinput] at hfails
  cases hfails

end LineInput

end Machine
end Handheld
