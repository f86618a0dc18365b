import Handheld.Proofs.Input.Echo

namespace Handheld

namespace InputField

variable {f : InputField} {typed : List UInt8} {k : Key}

/-- A field that shows neither what is typed nor a cursor. -/
def hidden (row col : Nat) (dst : Register) (columns : Nat) (full : FullAction) (special : KeySet) :
    InputField :=
  ⟨row, col, dst, columns, false, full, special, .none⟩

/-- The same field, taken without a pause. -/
def unpaused (f : InputField) : InputField :=
  { f with full := if f.full = .oneSecond then .immediate else f.full }

/-- The places in the line of the bytes that are taken away while codes are typed. -/
def takenAway (f : InputField) (typed : List UInt8) : List Int32 → List Nat
  | [] => []
  | code :: rest =>
    match Key.ofCode32? code with
    | none => takenAway f typed rest
    | some k =>
      let left := (f.press typed k).line typed
      if (f.press typed k).isOpen then
        List.range' left.length (typed.length - left.length) ++ takenAway f left rest
      else []

theorem takenAway_of_firstKnown?_none {codes : List Int32} (h : Key.firstKnown? codes = none) :
    f.takenAway typed codes = [] := by
  induction codes with
  | nil => rfl
  | cons code codes ih =>
    rw [Key.firstKnown?] at h
    rw [takenAway]
    split at h
    · cases h
    · next hcode =>
      simp only [hcode]
      exact ih h

theorem takenAway_of_firstKnown? {codes rest : List Int32} (h : Key.firstKnown? codes = some (k, rest)) :
    f.takenAway typed codes =
      if (f.press typed k).isOpen then
        List.range' ((f.press typed k).line typed).length
            (typed.length - ((f.press typed k).line typed).length) ++
          f.takenAway ((f.press typed k).line typed) rest
      else [] := by
  induction codes with
  | nil => cases h
  | cons code codes ih =>
    rw [Key.firstKnown?] at h
    rw [takenAway]
    split at h
    · next hcode =>
      obtain ⟨rfl, rfl⟩ := Prod.mk.inj (Option.some.inj h)
      simp only [hcode]
    · next hcode =>
      simp only [hcode]
      exact ih h

section Respond

variable {r : Response}

theorem responds_ordinary (hspecial : f.special.contains k = false) (hk : Ordinary k)
    (h : f.respond typed k = .ok r) : f.Responds typed k r := by
  rw [respond_ordinary hspecial hk] at h
  split at h
  · next hyes =>
    have htype := Responds.type hspecial hk hyes.1 hyes.2
    cases hecho : f.echo with
    | true =>
      rw [hecho] at h htype
      cases hcheck : Word.check (f.col + typed.length + 1) <;> rw [hcheck] at h <;> cases h
      exact htype
    | false =>
      rw [hecho] at h htype
      cases h
      exact htype
  · next hno =>
    cases h
    exact .refused hspecial hk hno

theorem responds_backspace (hspecial : f.special.contains .backspace = false)
    (h : f.respond typed .backspace = .ok r) : f.Responds typed .backspace r := by
  unfold respond at h
  rw [hspecial] at h
  by_cases hempty : typed = []
  · subst hempty
    cases h
    exact .backspaceEmpty hspecial rfl
  · simp only [List.isEmpty_iff, hempty] at h
    cases hcheck : Word.check (f.col + typed.dropLast.length) <;> rw [hcheck] at h <;> cases h
    obtain ⟨-, rfl⟩ := Word.check_eq_ok_iff.mp hcheck
    exact .backspace hspecial hempty

theorem responds_clear (hspecial : f.special.contains .clear = false)
    (h : f.respond typed .clear = .ok r) : f.Responds typed .clear r := by
  unfold respond at h
  rw [hspecial] at h
  by_cases hempty : typed = []
  · subst hempty
    cases h
    exact .clearEmpty hspecial rfl
  · simp only [List.isEmpty_iff, hempty] at h
    cases h
    exact .clear hspecial hempty

/-- A response is one of those that a key can have, wherever the field lies. -/
theorem responds_of_respond (h : f.respond typed k = .ok r) : f.Responds typed k r := by
  cases hspecial : f.special.contains k with
  | true =>
    have hends : f.respond typed k = .ok .special := if_pos hspecial
    rw [hends] at h
    cases h
    exact .special hspecial
  | false =>
    cases k with
    | enter =>
      unfold respond at h
      rw [hspecial] at h
      cases h
      exact .enter hspecial
    | backspace => exact responds_backspace hspecial h
    | clear => exact responds_clear hspecial h
    | trigger | q1 | q2 | num | period | function =>
      exact responds_ordinary hspecial ⟨nofun, nofun, nofun⟩ h

end Respond

/-- Cells of a field have become blank, and no other cell has changed. -/
structure Blanked (f : InputField) (before : Screen) (places : List Nat) (now : Screen) : Prop where
  cells : ∀ r c, now.cell? r c =
    if r = f.row ∧ ∃ i ∈ places, c = f.col + i then (before.cell? r c).map fun _ => Text.fill
    else before.cell? r c
  exact : now.Exact

variable {before now : Screen} {places : List Nat}

theorem Blanked.none (h : before.Exact) : f.Blanked before [] before :=
  ⟨fun r c => by rw [if_neg (by simp)], h⟩

theorem Blanked.trans {more : List Nat} {later : Screen} (h : f.Blanked before places now)
    (h₁ : f.Blanked now more later) : f.Blanked before (places ++ more) later := by
  refine ⟨fun r c => ?_, h₁.exact⟩
  have hall : (∃ i ∈ places ++ more, c = f.col + i) ↔
      (∃ i ∈ places, c = f.col + i) ∨ ∃ i ∈ more, c = f.col + i := by
    simp only [List.mem_append, or_and_right, exists_or]
  by_cases hmore : r = f.row ∧ ∃ i ∈ more, c = f.col + i
  · have hboth : r = f.row ∧ ∃ i ∈ places ++ more, c = f.col + i := ⟨hmore.1, hall.mpr (.inr hmore.2)⟩
    rw [h₁.cells, if_pos hmore, if_pos hboth, h.cells]
    split
    · exact Option.map_map _ _ _
    · rfl
  · have hsame : (r = f.row ∧ ∃ i ∈ places ++ more, c = f.col + i) ↔
        (r = f.row ∧ ∃ i ∈ places, c = f.col + i) := by
      rw [hall, and_or_left]
      exact or_iff_left hmore
    rw [h₁.cells, if_neg hmore, h.cells]
    simp only [hsame]

/-- Cursor and buzzer are not shown in cells. -/
theorem Blanked.congr {now' : Screen} (h : f.Blanked before places now) (hrows : now'.rows = now.rows)
    (hcolumns : now'.columns = now.columns) : f.Blanked before places now' := by
  refine ⟨fun r c => ?_, fun line hline => ?_⟩
  · rw [Screen.cell?, Screen.row, hrows]
    exact h.cells r c
  · rw [hcolumns]
    exact h.exact line (hrows ▸ hline)

theorem Blanked.clearRegion (h : before.Exact) (n len : Nat) :
    f.Blanked before (List.range' n len) (before.apply (.clearRegion f.row (f.col + n) len)) := by
  refine ⟨fun r c => ?_, h.apply _⟩
  have hplaces : (∃ i ∈ List.range' n len, c = f.col + i) ↔ f.col + n ≤ c ∧ c < f.col + n + len := by
    simp only [List.mem_range'_1]
    constructor
    · rintro ⟨i, hi, rfl⟩
      omega
    · intro hc
      exact ⟨c - f.col, by omega, by omega⟩
  rw [h.cell?_clearRegion]
  simp only [hplaces]

end InputField

namespace Machine

variable {f : InputField} {typed : List UInt8} {k : Key} {m : Machine}

namespace Act

/-- An action that changes no cell of the screen. -/
def Still {α : Type} (act : Act α) : Prop :=
  ∀ m, (act m).2.screen.rows = m.screen.rows ∧ (act m).2.screen.columns = m.screen.columns

theorem Still.bind {α β : Type} {act : Act α} {next : α → Act β} (h : Still act)
    (hnext : ∀ a, Still (next a)) : Still (act >>= next) := by
  intro m
  obtain ⟨hrows, hcolumns⟩ := h m
  rw [run_bind]
  rcases hact : act m with ⟨s | a, m₁⟩
  · rw [hact] at hrows hcolumns
    exact ⟨hrows, hcolumns⟩
  · rw [hact] at hrows hcolumns
    obtain ⟨hrows₁, hcolumns₁⟩ := hnext a m₁
    exact ⟨hrows₁.trans hrows, hcolumns₁.trans hcolumns⟩

theorem Still.pure {α : Type} (a : α) : Still (pure a : Act α) := fun _ => ⟨rfl, rfl⟩

theorem Still.hideCursor : Still (draw .hideCursor) := fun _ => ⟨rfl, rfl⟩

theorem Still.sleep (ms : Nat) : Still (sleep ms) := fun _ => ⟨rfl, rfl⟩

theorem Still.change (g : RegisterStore → Except Fault RegisterStore) : Still (change g) := by
  intro m
  rw [Act.change, run_bind, Act.read]
  dsimp only
  rw [run_bind]
  cases g m.registers with
  | error e => exact ⟨rfl, rfl⟩
  | ok s => exact ⟨rfl, rfl⟩

theorem Still.endSpecial (k : Key) : Still (endSpecial k) :=
  (Still.change _).bind fun _ => (Still.change _).bind fun _ => (Still.change _).bind fun _ =>
    Still.hideCursor

theorem Still.commitLine (f : InputField) (line : List UInt8) : Still (commitLine f line) :=
  (Still.change _).bind fun _ => (Still.change _).bind fun _ => (Still.change _).bind fun _ =>
    (Still.change _).bind fun _ => Still.hideCursor

end Act

/-- How an answer leaves the screen if nothing typed is shown. -/
inductive Hides (m : Machine) (f : InputField) (typed : List UInt8) (p : InputField.Pressed) :
    Except Stop (Option (List UInt8)) × Machine → Prop where
  | goes {m' : Machine} (hopen : p.isOpen = true) (hkeys : m'.keys = m.keys)
    (hblanked : f.Blanked m.screen
      (List.range' (p.line typed).length (typed.length - (p.line typed).length)) m'.screen) :
    Hides m f typed p (.ok (some (p.line typed)), m')
  | ends {out : Except Stop (Option (List UInt8)) × Machine} (hends : p.isOpen = false)
    (hover : ∀ left m', out ≠ (.ok (some left), m'))
    (hblanked : f.Blanked m.screen [] out.2.screen) : Hides m f typed p out

namespace Act

/-- An action that changes no cell and leaves no line. -/
theorem Still.hides {p : InputField.Pressed} {act : Act Unit} (h : Still act) (hends : p.isOpen = false)
    (hs : m.screen.Exact) : m.Hides f typed p ((act >>= fun _ => Pure.pure none) m) := by
  obtain ⟨hrows, hcolumns⟩ := h.bind (fun _ => Still.pure (α := Option (List UInt8)) none) m
  exact .ends hends (fun _ _ => ending_ne_some act) ((InputField.Blanked.none hs).congr hrows hcolumns)

/-- A byte that is typed without echo changes no cell, also if it ends the line. -/
theorem type_hides (hs : m.screen.Exact) (hroom : typed.length < f.columns) (byte : UInt8) :
    m.Hides f typed
      (if typed.length + 1 = f.columns ∧ f.unpaused.full = .immediate then .ends .taken (typed ++ [byte])
        else .goes (typed ++ [byte]))
      (answer f typed k (.type (typed ++ [byte]) []) m) := by
  have hlength : (typed ++ [byte]).length = typed.length + 1 := by
    rw [List.length_append, List.length_singleton]
  have hgoes : m.Hides f typed (.goes (typed ++ [byte])) (.ok (some (typed ++ [byte])), m) := by
    refine .goes rfl rfl ?_
    rw [InputField.Pressed.line, hlength, Nat.sub_eq_zero_of_le (Nat.le_succ _)]
    exact .none hs
  rw [answer, run_bind, drawAll, run_pure]
  dsimp only
  rw [hlength, InputField.unpaused]
  by_cases hmore : typed.length + 1 < f.columns
  · rw [if_pos hmore, if_neg (by omega)]
    exact hgoes
  · have hlast : typed.length + 1 = f.columns := by omega
    rw [if_neg hmore]
    cases f.full with
    | immediate =>
      rw [if_pos ⟨hlast, rfl⟩]
      exact (Still.commitLine f _).hides rfl hs
    | oneSecond =>
      rw [if_pos ⟨hlast, rfl⟩, ← bind_assoc]
      refine Still.hides ((Still.sleep _).bind fun slept => ?_) rfl hs
      cases slept with
      | true => exact Still.commitLine f _
      | false => exact Still.hideCursor
    | nothing =>
      rw [if_neg (by simp)]
      exact hgoes

theorem answer_hides (hecho : f.echo = false) (hs : m.screen.Exact) {r : InputField.Response}
    (hr : f.Responds typed k r) : m.Hides f typed (f.unpaused.press typed k) (answer f typed k r m) := by
  cases hr with
  | special h =>
    rw [InputField.press_special (f := f.unpaused) h]
    exact (Still.endSpecial k).hides rfl hs
  | enter h =>
    rw [InputField.press_enter (f := f.unpaused) h]
    exact (Still.commitLine f typed).hides rfl hs
  | backspaceEmpty h hempty =>
    rw [InputField.press_backspace (f := f.unpaused) h, hempty]
    exact .goes rfl rfl (.none hs)
  | backspace h hsome =>
    rw [InputField.press_backspace (f := f.unpaused) h]
    have hone : typed.length - typed.dropLast.length = 1 := by
      have hlength := List.length_pos_iff.mpr hsome
      rw [List.length_dropLast]
      omega
    refine .goes rfl rfl ?_
    rw [InputField.Pressed.line, hone]
    exact .clearRegion hs _ 1
  | clearEmpty h hempty =>
    rw [InputField.press_clear (f := f.unpaused) h, if_pos hempty]
    exact .goes rfl rfl (by rw [hempty]; exact .none hs)
  | clear h hsome =>
    rw [InputField.press_clear (f := f.unpaused) h, if_neg hsome]
    have hwiped := InputField.Blanked.clearRegion (f := f) hs 0 typed.length
    exact .goes rfl rfl (hwiped.congr rfl rfl)
  | refused h hk hno =>
    rw [InputField.press_refused (f := f.unpaused) h hk hno]
    refine .goes rfl rfl ?_
    rw [InputField.Pressed.line, Nat.sub_self]
    exact (InputField.Blanked.none hs).congr rfl rfl
  | type h hk hroom haccepts =>
    rw [InputField.press_type (f := f.unpaused) h hk hroom haccepts, hecho]
    exact type_hides hs hroom _

end Act

/-- What a turn does to the screen if nothing is shown, given the codes that come. -/
inductive Conceals (m : Machine) (f : InputField) (typed : List UInt8) :
    Except Stop (Option (List UInt8)) × Machine → Prop where
  | goes {left : List UInt8} {m' : Machine} {places : List Nat}
    (hplaces : f.unpaused.takenAway typed m.keys.coming =
      places ++ f.unpaused.takenAway left m'.keys.coming)
    (hfewer : m'.keys.coming.length < m.keys.coming.length)
    (hblanked : f.Blanked m.screen places m'.screen) : Conceals m f typed (.ok (some left), m')
  | ends {out : Except Stop (Option (List UInt8)) × Machine}
    (hplaces : f.unpaused.takenAway typed m.keys.coming = [])
    (hover : ∀ left m', out ≠ (.ok (some left), m'))
    (hblanked : f.Blanked m.screen [] out.2.screen) : Conceals m f typed out

/-- A turn without echo and cursor blanks the cells of what its key takes away. -/
theorem turn_conceals (hecho : f.echo = false) (hcursor : f.cursor = .none) (hs : m.screen.Exact)
    (hruns : (Act.turn f typed m).1 ≠ .error .overflow) : m.Conceals f typed (Act.turn f typed m) := by
  have hshow : Act.showCursor f typed m = (.ok (), m) := by
    rw [Act.showCursor, if_neg (not_not_intro hcursor)]
    rfl
  have hhears := hears_knownKey false m
  rw [Act.turn, Act.run_bind, hshow] at hruns ⊢
  dsimp only at hruns ⊢
  rw [Act.run_bind] at hruns ⊢
  generalize Act.knownKey false m = heard at hhears hruns ⊢
  cases hhears with
  | @key m₁ k hkey hcloses hheard =>
    have hplaces : f.unpaused.takenAway typed m.keys.coming = _ :=
      InputField.takenAway_of_firstKnown? hkey
    dsimp only at hruns ⊢
    rw [Act.run_bind] at hruns ⊢
    cases hr : f.respond typed k with
    | error e =>
      rw [hr] at hruns
      exact absurd rfl hruns
    | ok r =>
      have hhides : m₁.Hides f typed (f.unpaused.press typed k) (Act.answer f typed k r m₁) :=
        Act.answer_hides hecho (hheard.screen rfl ▸ hs) (InputField.responds_of_respond hr)
      show m.Conceals f typed (Act.answer f typed k r m₁)
      generalize Act.answer f typed k r m₁ = out at hhides
      cases hhides with
      | @goes m₂ hopen hkeys hblanked =>
        rw [if_pos hopen, ← hkeys] at hplaces
        have hfewer := Key.length_of_firstKnown? hkey
        exact .goes hplaces (hkeys ▸ hfewer) (hheard.screen rfl ▸ hblanked)
      | ends hends hover hblanked =>
        rw [hends] at hplaces
        exact .ends hplaces hover (hheard.screen rfl ▸ hblanked)
  | @ended m₁ hkey hcloses hheard =>
    obtain ⟨hrows, hcolumns⟩ := Act.Still.hideCursor m₁
    have hkept : f.Blanked m.screen [] (Act.draw .hideCursor m₁).2.screen :=
      (InputField.Blanked.none hs).congr (by rw [hrows, hheard.screen rfl])
        (by rw [hcolumns, hheard.screen rfl])
    exact .ends (InputField.takenAway_of_firstKnown?_none hkey)
      (fun _ _ => Act.ending_ne_some Act.abandon) hkept
  | @waits m₁ hkey hcloses hheard =>
    show m.Conceals f typed (.error .waiting, m₁)
    have hkept : f.Blanked m.screen [] m₁.screen := by
      rw [hheard.screen rfl]
      exact .none hs
    refine .ends (InputField.takenAway_of_firstKnown?_none hkey) (fun left m' hsome => ?_) hkept
    cases hsome

/-- Typing without echo and cursor blanks the cells of what is taken away, unless a column overflows. -/
theorem typeLine_blanks (hecho : f.echo = false) (hcursor : f.cursor = .none) (n : Nat)
    (hs : m.screen.Exact) (hn : m.keys.coming.length < n)
    (hruns : (Act.typeLine f n typed m).1 ≠ .error .overflow) :
    f.Blanked m.screen (f.unpaused.takenAway typed m.keys.coming) (Act.typeLine f n typed m).2.screen := by
  -- on the bound of the keys, one of which every turn uses up
  induction n generalizing m typed with
  | zero => cases hn
  | succ n ih =>
    rw [Act.typeLine_succ, Act.run_bind] at hruns ⊢
    have hturn : (Act.turn f typed m).1 ≠ .error .overflow := by
      intro hover
      rcases hout : Act.turn f typed m with ⟨s | left, m₁⟩
      · rw [hout] at hruns hover
        cases hover
        exact hruns rfl
      · rw [hout] at hover
        cases hover
    have hconceals := turn_conceals hecho hcursor hs hturn
    rcases hout : Act.turn f typed m with ⟨s | _ | left, m₁⟩
    · rw [hout] at hconceals
      cases hconceals with
      | ends hplaces hover hblanked => exact hplaces ▸ hblanked
    · rw [hout] at hconceals
      cases hconceals with
      | ends hplaces hover hblanked => exact hplaces ▸ hblanked
    · rw [hout] at hconceals hruns
      cases hconceals with
      | goes hplaces hfewer hblanked =>
        rw [hplaces]
        exact hblanked.trans (ih hblanked.exact (by omega) hruns)
      | ends hplaces hover hblanked => exact absurd rfl (hover left m₁)

/-- Input without echo blanks the cells under the bytes that are taken away while the codes that come are
typed, and changes no other cell of the screen. -/
theorem hidden_input_blanks (reply : LinkReply) {row col : Nat} {dst : Register} {columns : Nat}
    {full : FullAction} {special : KeySet} (cursor : CursorShape) (minus : Bool) (hs : m.screen.Exact)
    (hruns : (Act.execute reply
      (.echoedInput row col dst columns true full special cursor minus) m).1 ≠ .error .overflow)
    (r c : Nat) :
    (Act.execute reply (.echoedInput row col dst columns true full special cursor minus) m).2.screen.cell?
        r c =
      if r = row ∧ ∃ i ∈ (InputField.hidden row col dst columns full special).unpaused.takenAway []
          m.keys.coming, c = col + i then
        (m.screen.cell? r c).map fun _ => Text.fill
      else m.screen.cell? r c :=
  (typeLine_blanks (f := .hidden row col dst columns full special) rfl rfl _ hs
    (Nat.lt_succ_of_le m.keys.length_coming_le) hruns).cells r c

/-- A terminal that shows ABC, to which 1, Backspace and Enter have been sent. -/
def lettered : Machine :=
  { keyed [49, 8, 13] with screen := (Screen.blank 8 16).apply (.text 0 0 ⟨[0x41, 0x42, 0x43]⟩) }

theorem exact_lettered : lettered.screen.Exact := (Screen.exact_blank 8 16).apply _

/-- The cells of the terminal behind input without echo over its letters. -/
def overtyped (r c : Nat) : Option UInt8 :=
  (Act.execute ⟨.empty, []⟩ (.echoedInput 0 0 (.dat (.last 9)) 5 true .nothing .empty .none false)
    lettered).2.screen.cell? r c

/-- The digit is not seen, but taking it away blanks the A. -/
theorem hidden_input_blanks_lettered :
    overtyped 0 0 = some Text.fill ∧ overtyped 0 1 = some 0x42 ∧ overtyped 0 2 = some 0x43 := by
  have hruns : (Act.execute ⟨.empty, []⟩
      (.echoedInput 0 0 (.dat (.last 9)) 5 true .nothing .empty .none false) lettered).1 ≠
        .error .overflow := by decide
  have htaken : (InputField.hidden 0 0 (.dat (.last 9)) 5 .nothing .empty).unpaused.takenAway []
      lettered.keys.coming = [0] := by decide
  have hcells := hidden_input_blanks ⟨.empty, []⟩ .none false exact_lettered hruns
  rw [htaken] at hcells
  refine ⟨(hcells 0 0).trans ?_, (hcells 0 1).trans ?_, (hcells 0 2).trans ?_⟩
  · rw [if_pos ⟨rfl, 0, by simp, rfl⟩]
    rfl
  · rw [if_neg (by simp)]
    rfl
  · rw [if_neg (by simp)]
    rfl

/-- So input without echo does not leave every screen alone. -/
theorem not_every_hidden_input_leaves :
    ¬ ∀ (reply : LinkReply) (row col : Nat) (dst : Register) (columns : Nat) (full : FullAction)
      (special : KeySet) (cursor : CursorShape) (minus : Bool) (m : Machine), m.screen.Exact →
      ∀ r c, (Act.execute reply
        (.echoedInput row col dst columns true full special cursor minus) m).2.screen.cell? r c =
          m.screen.cell? r c := by
  intro hall
  have hsame : overtyped 0 0 = lettered.screen.cell? 0 0 :=
    hall ⟨.empty, []⟩ 0 0 (.dat (.last 9)) 5 .nothing .empty .none false lettered exact_lettered 0 0
  exact absurd hsame (by decide)

end Machine
end Handheld
