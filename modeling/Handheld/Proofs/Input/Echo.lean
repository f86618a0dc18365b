import Handheld.Proofs.Input.Editor
import Handheld.Proofs.Screen.Cells

namespace Handheld

namespace InputField

variable {f : InputField} {typed : List UInt8} {before now : Screen}

/-- The screen shows what is typed into a field, given the screen before the input. -/
structure Shows (f : InputField) (before now : Screen) (typed : List UInt8) : Prop where
  fits : typed.length ≤ f.columns
  held : ∀ i < typed.length, now.cell? f.row (f.col + i) = typed[i]?
  rest : ∀ i < f.columns, typed.length ≤ i →
    now.cell? f.row (f.col + i) = some Text.fill ∨
      now.cell? f.row (f.col + i) = before.cell? f.row (f.col + i)
  outside : ∀ r c, ¬ (r = f.row ∧ f.col ≤ c ∧ c < f.col + f.columns) → now.cell? r c = before.cell? r c
  exact : now.Exact
  size : now.columns = before.columns ∧ now.rows.length = before.rows.length

/-- A cursor with a shape stands behind what is typed, or on the last cell of a full field. -/
def Points (f : InputField) (s : Screen) (typed : List UInt8) : Prop :=
  f.cursor ≠ .none → s.cursor = some ⟨f.row, f.cell typed, f.cursor⟩

/-- The field lies on the screen. -/
structure On (f : InputField) (s : Screen) : Prop where
  row : f.row < s.rows.length
  right : f.col + f.columns ≤ s.columns

/-- A field with echo, of one column or more, on a screen whose rows have as many cells as it has
columns. -/
structure EchoesOn (f : InputField) (s : Screen) : Prop extends On f s where
  echo : f.echo = true
  some : 0 < f.columns
  exact : s.Exact
  word : s.columns < Word.limit

theorem Shows.start (h : before.Exact) : f.Shows before before [] :=
  ⟨Nat.zero_le _, nofun, fun _ _ _ => .inr rfl, fun _ _ _ => rfl, h, rfl, rfl⟩

theorem Shows.on (h : f.Shows before now typed) (hon : f.On before) : f.On now :=
  ⟨h.size.2 ▸ hon.row, h.size.1 ▸ hon.right⟩

/-- Cursor and buzzer are not shown in cells. -/
theorem Shows.congr {now' : Screen} (h : f.Shows before now typed) (hrows : now'.rows = now.rows)
    (hcolumns : now'.columns = now.columns) : f.Shows before now' typed := by
  have hcell (r c : Nat) : now'.cell? r c = now.cell? r c := by
    rw [Screen.cell?, Screen.cell?, Screen.row, Screen.row, hrows]
  refine ⟨h.fits, fun i hi => (hcell _ _).trans (h.held i hi), fun i hi hlen => ?_,
    fun r c hout => (hcell _ _).trans (h.outside r c hout), fun line hline => ?_,
    hcolumns.trans h.size.1, (congrArg _ hrows).trans h.size.2⟩
  · rw [hcell]
    exact h.rest i hi hlen
  · rw [hcolumns]
    exact h.exact line (hrows ▸ hline)

/-- One byte more. -/
theorem Shows.type (h : f.Shows before now typed) (hon : f.On before) (hroom : typed.length < f.columns)
    (byte : UInt8) :
    f.Shows before (now.apply (.text f.row (f.col + typed.length) ⟨[byte]⟩)) (typed ++ [byte]) := by
  obtain ⟨hrow, hcolumns⟩ := h.on hon
  have hcell := Screen.cell?_text h.exact hrow (c := f.col + typed.length) (by omega) byte
  have hlength : (typed ++ [byte]).length = typed.length + 1 := by
    rw [List.length_append, List.length_singleton]
  refine ⟨by omega, fun i hi => ?_, fun i hi hlen => ?_, fun r c hout => ?_, h.exact.apply _, ?_⟩
  · rw [hcell]
    by_cases hlast : i = typed.length
    · subst hlast
      rw [if_pos ⟨rfl, rfl⟩, List.getElem?_concat_length]
    · rw [if_neg (by omega), h.held i (by omega), List.getElem?_append_left (by omega)]
  · rw [hcell, if_neg (by omega)]
    exact h.rest i hi (by omega)
  · rw [hcell, if_neg (by omega)]
    exact h.outside r c hout
  · have hsize := now.size_apply (.text f.row (f.col + typed.length) ⟨[byte]⟩)
    exact ⟨hsize.1.trans h.size.1, hsize.2.trans h.size.2⟩

/-- Wiping the cells of the last bytes takes these bytes away. -/
theorem Shows.cut (h : f.Shows before now typed) (hon : f.On before) {n : Nat} (hn : n < typed.length) :
    f.Shows before (now.apply (.clearRegion f.row (f.col + n) (typed.length - n))) (typed.take n) := by
  obtain ⟨hrow, hcolumns⟩ := h.on hon
  have hfits := h.fits
  have hwide : f.col + n + (typed.length - n) ≤ now.columns := by omega
  have hcell := Screen.cell?_clearRegion h.exact hrow hwide
  have hlength : (typed.take n).length = n := List.length_take_of_le (by omega)
  refine ⟨by omega, fun i hi => ?_, fun i hi hlen => ?_, fun r c hout => ?_, h.exact.apply _, ?_⟩
  · rw [hcell, if_neg (by omega), h.held i (by omega), List.getElem?_take_of_lt (by omega)]
  -- the wiped cells become blanks of the field
  · rw [hcell]
    by_cases hwiped : i < typed.length
    · rw [if_pos (by omega)]
      exact .inl rfl
    · rw [if_neg (by omega)]
      exact h.rest i hi (by omega)
  · rw [hcell, if_neg (by omega)]
    exact h.outside r c hout
  · have hsize := now.size_apply (.clearRegion f.row (f.col + n) (typed.length - n))
    exact ⟨hsize.1.trans h.size.1, hsize.2.trans h.size.2⟩

theorem Shows.pointing (h : f.Shows before now typed) :
    f.Shows before ((f.pointing typed).foldl Screen.apply now) typed := by
  unfold InputField.pointing
  split
  · exact h
  · exact h.congr rfl rfl

/-- A field of one column or more has a cell for the cursor. -/
theorem points_pointing (hon : f.On now) (hcolumns : 0 < f.columns) (hlen : typed.length ≤ f.columns) :
    f.Points ((f.pointing typed).foldl Screen.apply now) typed := by
  intro hshape
  have hin : f.cell typed < now.columns := by
    have hcell : f.cell typed = f.col + min typed.length (f.columns - 1) := rfl
    have hright := hon.right
    omega
  rw [InputField.pointing, if_neg hshape]
  exact if_pos ⟨hon.row, hin, hshape⟩

/-- A response that leaves the line open, what it leaves and what it draws. -/
inductive Response.Leaves : Response → List UInt8 → List Screen.Drawing → Prop where
  | edit (typed : List UInt8) (ds : List Screen.Drawing) : Leaves (.edit typed ds) typed ds
  | type (typed : List UInt8) (ds : List Screen.Drawing) : Leaves (.type typed ds) typed ds

/-- Whatever a key does to a field with echo, the field shows what is left. -/
theorem Shows.responds (h : f.Shows before now typed) (hon : f.On before) (hecho : f.echo = true) {k : Key}
    {r : Response} {left : List UInt8} {ds : List Screen.Drawing} (hr : f.Responds typed k r)
    (hleaves : r.Leaves left ds) : f.Shows before (ds.foldl Screen.apply now) left := by
  cases hr with
  | special | enter => cases hleaves
  | backspaceEmpty _ hempty | clearEmpty _ hempty =>
    cases hleaves
    subst hempty
    exact h
  | backspace _ hsome =>
    -- one cell is wiped, that of the last byte
    cases hleaves
    have hlength : 0 < typed.length := List.length_pos_iff.mpr hsome
    have hcut := h.cut hon (n := typed.length - 1) (by omega)
    rw [List.dropLast_eq_take, List.length_take_of_le (by omega)]
    rwa [Nat.sub_sub_self hlength] at hcut
  | clear _ hsome =>
    cases hleaves
    have hcut := h.cut hon (List.length_pos_iff.mpr hsome)
    exact hcut.congr rfl rfl
  | refused =>
    cases hleaves
    exact h.congr rfl rfl
  | @type k _ _ hroom _ =>
    rw [hecho] at hleaves
    cases hleaves
    exact h.type hon hroom (keyByte k)

end InputField

namespace Machine

variable {f : InputField} {typed left : List UInt8} {k : Key} {m m' : Machine}

namespace Act

/-- An action that ends the line leaves none. -/
theorem ending_ne_some (act : Act Unit) :
    (act >>= fun _ => pure none) m ≠ (.ok (some left), m') := by
  rw [run_bind]
  rcases act m with ⟨s | _, m₁⟩ <;> nofun

/-- An answer behind which the line goes on has only drawn. -/
theorem answer_some {r : InputField.Response} (h : answer f typed k r m = (.ok (some left), m')) :
    ∃ ds, r.Leaves left ds ∧ m.Drawn ds m' := by
  cases r with
  | special => exact absurd h (ending_ne_some _)
  | commit => exact absurd h (ending_ne_some _)
  | edit line ds =>
    obtain ⟨m₁, hdraw, hdrawn⟩ := drawAll_drawn ds m
    rw [answer, run_bind, hdraw] at h
    cases h
    exact ⟨ds, .edit left ds, hdrawn⟩
  | type line ds =>
    obtain ⟨m₁, hdraw, hdrawn⟩ := drawAll_drawn ds m
    have hkept : (pure (some line) : Act (Option (List UInt8))) m₁ = (.ok (some left), m') →
        ∃ ds', (InputField.Response.type line ds).Leaves left ds' ∧ m.Drawn ds' m' := by
      intro hgoes
      cases hgoes
      exact ⟨ds, .type left ds, hdrawn⟩
    rw [answer, run_bind, hdraw] at h
    dsimp only at h
    split at h
    · exact hkept h
    · cases hfull : f.full with
      | immediate =>
        rw [hfull] at h
        exact absurd h (ending_ne_some _)
      | oneSecond =>
        rw [hfull, ← bind_assoc] at h
        exact absurd h (ending_ne_some _)
      | nothing =>
        rw [hfull] at h
        exact hkept h

/-- An action that waits for no key. -/
def Prompt {α : Type} (act : Act α) : Prop := ∀ m, (act m).1 ≠ .error .waiting

theorem Prompt.bind {α β : Type} {act : Act α} {next : α → Act β} (h : Prompt act)
    (hnext : ∀ a, Prompt (next a)) : Prompt (act >>= next) := by
  intro m
  have hact := h m
  rw [run_bind]
  rcases hrun : act m with ⟨s | a, m₁⟩
  · rw [hrun] at hact
    intro hwaits
    cases hwaits
    exact hact rfl
  · exact hnext a m₁

theorem Prompt.pure {α : Type} (a : α) : Prompt (pure a : Act α) := fun _ => nofun

theorem Prompt.draw (d : Screen.Drawing) : Prompt (draw d) := fun _ => nofun

theorem Prompt.drawAll (ds : List Screen.Drawing) : Prompt (drawAll ds) := by
  intro m
  obtain ⟨m', hdraw, -⟩ := drawAll_drawn ds m
  rw [hdraw]
  nofun

theorem Prompt.sleep (ms : Nat) : Prompt (sleep ms) := fun _ => nofun

theorem Prompt.change (g : RegisterStore → Except Fault RegisterStore) : Prompt (change g) := by
  intro m
  rw [Act.change, run_bind, Act.read]
  dsimp only
  rw [run_bind]
  cases g m.registers with
  | error e =>
    intro hwaits
    cases hwaits
  | ok s =>
    intro hwaits
    cases hwaits

theorem Prompt.endSpecial (k : Key) : Prompt (endSpecial k) :=
  (Prompt.change _).bind fun _ => (Prompt.change _).bind fun _ => (Prompt.change _).bind fun _ => .draw _

theorem Prompt.commitLine (f : InputField) (line : List UInt8) : Prompt (commitLine f line) :=
  (Prompt.change _).bind fun _ => (Prompt.change _).bind fun _ => (Prompt.change _).bind fun _ =>
    (Prompt.change _).bind fun _ => .draw _

/-- All waiting is done before the answer to a key. -/
theorem Prompt.answer (f : InputField) (typed : List UInt8) (k : Key) (r : InputField.Response) :
    Prompt (answer f typed k r) := by
  cases r with
  | special => exact (Prompt.endSpecial k).bind fun _ => .pure _
  | commit => exact (Prompt.commitLine f typed).bind fun _ => .pure _
  | edit line ds => exact (Prompt.drawAll ds).bind fun _ => .pure _
  | type line ds =>
    refine (Prompt.drawAll ds).bind fun _ => ?_
    split
    · exact .pure _
    · cases f.full with
      | immediate => exact (Prompt.commitLine f line).bind fun _ => .pure _
      | oneSecond =>
        refine (Prompt.sleep _).bind fun slept => ?_
        cases slept with
        | true => exact (Prompt.commitLine f line).bind fun _ => .pure _
        | false => exact (Prompt.draw .hideCursor).bind fun _ => .pure _
      | nothing => exact .pure _

end Act

/-- The turns of an input: what has been typed, and the machine. -/
inductive Turns (m : Machine) (f : InputField) : List UInt8 → Machine → Prop where
  | start : Turns m f [] m
  | next {typed left : List UInt8} {m₁ m₂ : Machine} (hturns : Turns m f typed m₁)
    (hturn : Act.turn f typed m₁ = (.ok (some left), m₂)) : Turns m f left m₂

variable {m₁ : Machine}

/-- A turn behind which the line goes on leaves a screen that shows the line, and fewer codes. -/
theorem Turned.shows (h : m₁.Turned f typed (.ok (some left), m')) (hf : f.EchoesOn m.screen)
    (hshows : f.Shows m.screen m₁.screen typed) :
    f.Shows m.screen m'.screen left ∧ m'.keys.coming.length < m₁.keys.coming.length := by
  cases h with
  | @answers m₂ k r _ hasked hkey hcloses hr hout =>
    obtain ⟨ds, hleaves, hdrawn⟩ := Act.answer_some hout
    have hread : f.Shows m.screen m₂.screen typed := by
      rw [hasked.screen]
      exact hshows.pointing
    refine ⟨hdrawn.screen ▸ hread.responds hf.toOn hf.echo hr hleaves, ?_⟩
    calc m'.keys.coming.length ≤ m₂.keys.coming.length := hdrawn.undisturbed.coming.length_le
      _ < m₁.keys.coming.length := Key.length_of_firstKnown? hkey

theorem turned_of_shows (hf : f.EchoesOn m.screen) (hshows : f.Shows m.screen m₁.screen typed) :
    m₁.Turned f typed (Act.turn f typed m₁) := by
  have hright := hf.right
  have hword := hf.word
  exact turn_turned (by omega) hshows.fits

/-- Every turn is one of the input, and starts on a screen that shows what has been typed. -/
theorem Turns.shows (h : m.Turns f typed m₁) (hf : f.EchoesOn m.screen) :
    f.Shows m.screen m₁.screen typed ∧
      ∃ n, m₁.keys.coming.length ≤ n ∧ Act.lineInput f m = Act.typeLine f (n + 1) typed m₁ := by
  induction h with
  | start => exact ⟨.start hf.exact, m.keys.size, m.keys.length_coming_le, rfl⟩
  | @next typed left m₁ m₂ _ hturn ih =>
    obtain ⟨hshows, n, hn, hinput⟩ := ih
    have hturned := turned_of_shows hf hshows
    rw [hturn] at hturned
    obtain ⟨hleft, hfewer⟩ := hturned.shows hf hshows
    -- the turn has used up a code, so the bound has not run out
    obtain ⟨n, rfl⟩ : ∃ n', n = n' + 1 := ⟨n - 1, by omega⟩
    refine ⟨hleft, n, by omega, ?_⟩
    rw [hinput, Act.typeLine_succ, Act.run_bind, hturn]
    rfl

/-- A turn that waits does so behind showing the cursor. -/
theorem Turned.waits_shown (h : m₁.Turned f typed (.error .waiting, m')) :
    m'.screen = (f.pointing typed).foldl Screen.apply m₁.screen := by
  cases h with
  | @answers m₂ k r _ hasked hkey hcloses hr hout =>
    have hprompt := Act.Prompt.answer f typed k r m₂
    rw [hout] at hprompt
    exact absurd rfl hprompt
  | waits hasked hkey hcloses => exact hasked.screen

/-- An input that waits does so in one of its turns. -/
theorem typeLine_waits (hf : f.EchoesOn m.screen) (n : Nat) (h : m.Turns f typed m₁)
    (hn : m₁.keys.coming.length < n) (hwaits : Act.typeLine f n typed m₁ = (.error .waiting, m')) :
    ∃ last m₂, m.Turns f last m₂ ∧ m'.screen = (f.pointing last).foldl Screen.apply m₂.screen := by
  induction n generalizing typed m₁ with
  | zero => cases hn
  | succ n ih =>
    have hshows := (h.shows hf).1
    have hturned := turned_of_shows hf hshows
    rw [Act.typeLine_succ, Act.run_bind] at hwaits
    rcases hturn : Act.turn f typed m₁ with ⟨s | _ | left, m₂⟩
    · rw [hturn] at hwaits hturned
      cases hwaits
      exact ⟨typed, m₁, h, hturned.waits_shown⟩
    · rw [hturn] at hwaits
      cases hwaits
    · rw [hturn] at hwaits hturned
      have hfewer := (hturned.shows hf hshows).2
      exact ih (.next h hturn) (by omega) hwaits

/-- Showing the cursor in a turn completes what is to be seen. -/
theorem Turns.shown {s : Screen} (h : m.Turns f typed m₁) (hf : f.EchoesOn m.screen)
    (hs : s = (f.pointing typed).foldl Screen.apply m₁.screen) :
    f.Shows m.screen s typed ∧ f.Points s typed := by
  have hshows := (h.shows hf).1
  subst hs
  exact ⟨hshows.pointing, InputField.points_pointing (hshows.on hf.toOn) hf.some hshows.fits⟩

/-- Whenever the input asks for a key, the screen shows what has been typed into a field with echo, and
the cursor points behind it: in every turn, and wherever the input is left to wait. -/
theorem echo_shows (hf : f.EchoesOn m.screen) :
    (∀ typed m₁, m.Turns f typed m₁ →
      ∃ n m₂, Act.lineInput f m = Act.typeLine f (n + 1) typed m₁ ∧
        Act.showCursor f typed m₁ = (.ok (), m₂) ∧
        f.Shows m.screen m₂.screen typed ∧ f.Points m₂.screen typed) ∧
      ∀ m', Act.lineInput f m = (.error .waiting, m') →
        ∃ typed m₁, m.Turns f typed m₁ ∧ f.Shows m.screen m'.screen typed ∧ f.Points m'.screen typed := by
  refine ⟨fun typed m₁ hturns => ?_, fun m' hwaits => ?_⟩
  · obtain ⟨-, n, -, hinput⟩ := hturns.shows hf
    have hright := hf.right
    have hword := hf.word
    obtain ⟨m₂, hshow, -, hasked⟩ := Act.showCursor_asked (f := f) typed (by omega) m₁
    exact ⟨n, m₂, hinput, hshow, hturns.shown hf hasked.screen⟩
  · obtain ⟨last, m₁, hturns, hscreen⟩ :=
      typeLine_waits hf (m.keys.size + 1) .start (Nat.lt_succ_of_le m.keys.length_coming_le) hwaits
    exact ⟨last, m₁, hturns, hturns.shown hf hscreen⟩

/-- Behind 1, 2 and Backspace a price of four cells shows 1, and waits with the cursor on the next. -/
theorem echo_shows_price :
    ∃ m₁ m₂, (keyed [49, 50, 8]).Turns price [0x31] m₁ ∧
      Act.showCursor price [0x31] m₁ = (.ok (), m₂) ∧
      m₂.screen.cell? 2 4 = some 0x31 ∧ m₂.screen.cursor = some ⟨2, 5, .block⟩ := by
  have hf : price.EchoesOn (keyed [49, 50, 8]).screen :=
    ⟨⟨by decide, by decide⟩, rfl, by decide, Screen.exact_blank 8 16, by decide⟩
  have hturns : ∃ m₁, (keyed [49, 50, 8]).Turns price [0x31] m₁ :=
    ⟨_, .next (.next (.next .start rfl) rfl) rfl⟩
  obtain ⟨m₁, hturns⟩ := hturns
  obtain ⟨n, m₂, -, hshow, hshows, hpoints⟩ := (echo_shows hf).1 _ m₁ hturns
  exact ⟨m₁, m₂, hturns, hshow, hshows.held 0 (by decide), hpoints nofun⟩

end Machine
end Handheld
