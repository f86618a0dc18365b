import Handheld.Proofs.Input.Keys

namespace Handheld

namespace InputField

/-- The cell behind what is typed, or the last one of a full field. -/
def cell (f : InputField) (typed : List UInt8) : Nat := f.col + min typed.length (f.columns - 1)

/-- What shows the cursor, should it have a shape. -/
def pointing (f : InputField) (typed : List UInt8) : List Screen.Drawing :=
  if f.cursor = .none then [] else [.cursor f.row (f.cell typed) f.cursor]

/-- Neither Enter nor one of the keys that edit. -/
def Ordinary (k : Key) : Prop := k ≠ .enter ∧ k ≠ .backspace ∧ k ≠ .clear

variable {f : InputField} {typed : List UInt8}

/-- All that a key can do in a field: what has to be the case, and what is left and drawn. -/
inductive Responds (f : InputField) (typed : List UInt8) : Key → Response → Prop where
  | special {k : Key} (hspecial : f.special.contains k = true) : Responds f typed k .special
  | enter (hplain : f.special.contains .enter = false) : Responds f typed .enter .commit
  | backspaceEmpty (hplain : f.special.contains .backspace = false) (hempty : typed = []) :
    Responds f typed .backspace (.edit [] [])
  | backspace (hplain : f.special.contains .backspace = false) (hsome : typed ≠ []) :
    Responds f typed .backspace
      (.edit typed.dropLast [.clearRegion f.row (f.col + typed.dropLast.length) 1])
  | clearEmpty (hplain : f.special.contains .clear = false) (hempty : typed = []) :
    Responds f typed .clear (.edit [] [])
  | clear (hplain : f.special.contains .clear = false) (hsome : typed ≠ []) :
    Responds f typed .clear (.edit [] [.clearRegion f.row f.col typed.length, .beep])
  | refused {k : Key} (hplain : f.special.contains k = false) (hk : Ordinary k)
    (hno : ¬ (typed.length < f.columns ∧ accepts f.dst.kind k = true)) :
    Responds f typed k (.edit typed [.beep])
  | type {k : Key} (hplain : f.special.contains k = false) (hk : Ordinary k)
    (hroom : typed.length < f.columns) (haccepts : accepts f.dst.kind k = true) :
    Responds f typed k (.type (typed ++ [keyByte k])
      (if f.echo then [.text f.row (f.col + typed.length) ⟨[keyByte k]⟩] else []))

/-- A key that is not special and does not edit is typed if there is room for it. -/
theorem respond_ordinary {k : Key} (hplain : f.special.contains k = false) (hk : Ordinary k) :
    f.respond typed k =
      if typed.length < f.columns ∧ accepts f.dst.kind k then
        if f.echo then
          (Word.check (f.col + typed.length + 1)).map fun _ =>
            .type (typed ++ [keyByte k]) [.text f.row (f.col + typed.length) ⟨[keyByte k]⟩]
        else .ok (.type (typed ++ [keyByte k]) [])
      else .ok (.edit typed [.beep]) := by
  unfold respond
  rw [hplain]
  obtain ⟨henter, hback, hclear⟩ := hk
  cases k with
  | enter => exact absurd rfl henter
  | backspace => exact absurd rfl hback
  | clear => exact absurd rfl hclear
  | trigger | q1 | q2 | num | period | function => rfl

/-- Such a key is typed or refused. -/
theorem respond_typing (hf : f.col + min f.columns (typed.length + 1) < Word.limit) {k : Key}
    (hplain : f.special.contains k = false) (hk : Ordinary k) :
    ∃ r, f.respond typed k = .ok r ∧ f.Responds typed k r := by
  by_cases hyes : typed.length < f.columns ∧ accepts f.dst.kind k = true
  · refine ⟨_, ?_, .type hplain hk hyes.1 hyes.2⟩
    have hcheck : Word.check (f.col + typed.length + 1) = .ok (f.col + typed.length + 1) :=
      Word.check_eq_ok_iff.mpr ⟨by omega, rfl⟩
    rw [respond_ordinary hplain hk, if_pos hyes, hcheck]
    cases f.echo <;> rfl
  · exact ⟨_, by rw [respond_ordinary hplain hk, if_neg hyes], .refused hplain hk hyes⟩

/-- A field responds to every key as long as the column behind one more byte fits a word. -/
theorem respond_responds (hf : f.col + min f.columns (typed.length + 1) < Word.limit)
    (hlen : typed.length ≤ f.columns) (k : Key) :
    ∃ r, f.respond typed k = .ok r ∧ f.Responds typed k r := by
  cases hspecial : f.special.contains k with
  | true => exact ⟨.special, if_pos hspecial, .special hspecial⟩
  | false =>
    have hplain {k : Key} (h : f.special.contains k = false) : ¬ f.special.contains k = true := by
      rw [h]
      nofun
    cases k with
    | enter => exact ⟨.commit, if_neg (hplain hspecial), .enter hspecial⟩
    | backspace =>
      unfold respond
      rw [if_neg (hplain hspecial)]
      by_cases hempty : typed = []
      · subst hempty
        exact ⟨_, rfl, .backspaceEmpty hspecial rfl⟩
      · have hshort : typed.dropLast.length ≤ typed.length := typed.dropLast_sublist.length_le
        have hcheck : Word.check (f.col + typed.dropLast.length) = .ok (f.col + typed.dropLast.length) :=
          Word.check_eq_ok_iff.mpr ⟨by omega, rfl⟩
        refine ⟨_, ?_, .backspace hspecial hempty⟩
        simp only [List.isEmpty_iff, hempty, hcheck]
        rfl
    | clear =>
      unfold respond
      rw [if_neg (hplain hspecial)]
      by_cases hempty : typed = []
      · subst hempty
        exact ⟨_, rfl, .clearEmpty hspecial rfl⟩
      · refine ⟨_, ?_, .clear hspecial hempty⟩
        simp only [List.isEmpty_iff, hempty]
        rfl
    | trigger | q1 | q2 | num | period | function =>
      exact respond_typing hf hspecial ⟨nofun, nofun, nofun⟩

end InputField

namespace Machine

variable {f : InputField} {typed : List UInt8} {m : Machine}

/-- The keys are as they were, unless somebody who watches the screen has asked to terminate. -/
structure Undisturbed (m m' : Machine) : Prop where
  keys : m'.keys = m.keys ∨ m.watcher ≠ 0 ∧ m'.keys.cancelled = true
  unwatched : m.watcher = 0 → m'.watcher = 0

theorem Undisturbed.refl (m : Machine) : m.Undisturbed m := ⟨.inl rfl, id⟩

theorem Undisturbed.trans {m₁ m₂ : Machine} (h : m.Undisturbed m₁) (h₁ : m₁.Undisturbed m₂) :
    m.Undisturbed m₂ := by
  refine ⟨?_, fun hnobody => h₁.unwatched (h.unwatched hnobody)⟩
  rcases h₁.keys with hsame | ⟨hwatched, hcancelled⟩
  · rw [hsame]
    exact h.keys
  · exact .inr ⟨fun hnobody => hwatched (h.unwatched hnobody), hcancelled⟩

/-- Either all codes still come or none. -/
theorem Undisturbed.coming {m' : Machine} (h : m.Undisturbed m') : m'.keys.coming <+: m.keys.coming := by
  rcases h.keys with hsame | ⟨-, hcancelled⟩
  · exact hsame ▸ List.prefix_rfl
  · rw [KeyQueue.coming, if_pos hcancelled]
    exact List.nil_prefix

theorem Undisturbed.cancelled {m' : Machine} (h : m.Undisturbed m') (hcancelled : m.keys.cancelled = true) :
    m'.keys.cancelled = true := by
  rcases h.keys with hsame | ⟨-, hnow⟩
  · rw [hsame]
    exact hcancelled
  · exact hnow

/-- Drawings have changed the screen. -/
structure Drawn (m : Machine) (ds : List Screen.Drawing) (m' : Machine) : Prop where
  registers : m'.registers = m.registers
  screen : m'.screen = ds.foldl Screen.apply m.screen
  undisturbed : m.Undisturbed m'

/-- The machine has shown the cursor behind a line, and read keys. -/
structure Asked (m : Machine) (f : InputField) (typed : List UInt8) (m' : Machine) : Prop where
  registers : m'.registers = m.registers
  screen : m'.screen = (f.pointing typed).foldl Screen.apply m.screen
  watcher : m'.watcher = m.watcher
  cancelled : m.keys.cancelled = true → m'.keys.cancelled = true

namespace Act

theorem bind_pure_eq {α : Type} (act : Act α) : (act >>= pure) = act := by
  funext m
  rw [run_bind]
  rcases act m with ⟨s | a, m⟩ <;> rfl

theorem bind_bind {α β γ : Type} (act : Act α) (next : α → Act β) (last : β → Act γ) :
    (act >>= next >>= last) = act >>= fun a => next a >>= last := by
  funext m
  rw [run_bind, run_bind, run_bind]
  rcases act m with ⟨s | a, m⟩ <;> rfl

instance : LawfulMonad Act := LawfulMonad.mk' Act bind_pure_eq (fun _ _ => rfl) bind_bind

theorem draw_drawn (d : Screen.Drawing) (m : Machine) :
    ∃ m', draw d m = (.ok (), m') ∧ m.Drawn [d] m' := by
  cases d with
  | text row col t =>
    refine ⟨_, rfl, ?_⟩
    simp only [watched]
    split
    · exact ⟨rfl, rfl, .inl rfl, id⟩
    · next hone =>
      have hwatched : m.watcher ≠ 0 := fun hnobody => by cases hone.symm.trans hnobody
      exact ⟨rfl, rfl, .inr ⟨hwatched, rfl⟩, fun _ => rfl⟩
    · next hmore =>
      exact ⟨rfl, rfl, .inl rfl, fun hnobody => by cases hmore.symm.trans hnobody⟩
  | clearAll | clearRegion | cursor | hideCursor | beep => exact ⟨_, rfl, rfl, rfl, .inl rfl, id⟩

theorem drawAll_drawn (ds : List Screen.Drawing) (m : Machine) :
    ∃ m', drawAll ds m = (.ok (), m') ∧ m.Drawn ds m' := by
  induction ds generalizing m with
  | nil => exact ⟨m, rfl, rfl, rfl, .refl m⟩
  | cons d rest ih =>
    obtain ⟨m₁, hdraw, hd⟩ := draw_drawn d m
    obtain ⟨m₂, hall, hds⟩ := ih m₁
    refine ⟨m₂, by simp only [drawAll, run_bind, hdraw, hall], hds.registers.trans hd.registers, ?_,
      hd.undisturbed.trans hds.undisturbed⟩
    rw [hds.screen, hd.screen]
    rfl

/-- What is left of a line behind the response to a key, none if the key ended it. -/
def answer (f : InputField) (typed : List UInt8) (k : Key) :
    InputField.Response → Act (Option (List UInt8))
  | .special => do endSpecial k; pure none
  | .commit => do commitLine f typed; pure none
  | .edit typed drawings => do drawAll drawings; pure (some typed)
  | .type typed drawings => do
    drawAll drawings
    if typed.length < f.columns then pure (some typed)
    else match f.full with
      | .immediate => commitLine f typed; pure none
      | .oneSecond => (if ← sleep fullPause then commitLine f typed else abandon); pure none
      | .nothing => pure (some typed)

/-- One turn of the input: it shows the cursor and asks for a key. -/
def turn (f : InputField) (typed : List UInt8) : Act (Option (List UInt8)) := do
  showCursor f typed
  match ← knownKey false with
  | none => abandon; pure none
  | some k => do answer f typed k (← checked (f.respond typed k))

/-- A line goes on with the next turn unless it has ended. -/
def goOn (f : InputField) (n : Nat) : Option (List UInt8) → Act Unit
  | none => pure ()
  | some typed => typeLine f n typed

/-- Typing is one turn after the other. -/
theorem typeLine_succ (f : InputField) (n : Nat) (typed : List UInt8) :
    typeLine f (n + 1) typed = turn f typed >>= goOn f n := by
  rw [typeLine, turn, bind_assoc]
  congr 1
  funext _
  rw [bind_assoc]
  congr 1
  funext k
  cases k with
  | none => simp [goOn]
  | some k =>
    dsimp only
    rw [bind_assoc]
    congr 1
    funext r
    cases r with
    | special | commit | edit => simp [answer, goOn]
    | type typed ds =>
      dsimp only [answer]
      rw [bind_assoc]
      congr 1
      funext _
      split
      · rfl
      · cases f.full <;> simp [goOn]

/-- The cursor stands in the field or right behind it. -/
theorem cursorColumn_eq (hf : f.col + min f.columns typed.length < Word.limit) :
    f.cursorColumn typed = .ok (f.cell typed) :=
  Word.check_eq_ok_iff.mpr ⟨by omega, rfl⟩

theorem showCursor_asked (typed : List UInt8) (hf : f.col + min f.columns typed.length < Word.limit)
    (m : Machine) :
    ∃ m', showCursor f typed m = (.ok (), m') ∧ m'.keys = m.keys ∧ m.Asked f typed m' := by
  by_cases hnone : f.cursor = .none
  · have hpointing : f.pointing typed = [] := if_pos hnone
    rw [showCursor, if_neg (not_not_intro hnone)]
    exact ⟨m, rfl, rfl, rfl, by rw [hpointing]; rfl, rfl, id⟩
  · have hpointing : f.pointing typed = [.cursor f.row (f.cell typed) f.cursor] := if_neg hnone
    rw [showCursor, if_pos hnone, cursorColumn_eq hf]
    exact ⟨_, rfl, rfl, rfl, by rw [hpointing]; rfl, rfl, id⟩

end Act

/-- What one turn comes to. -/
inductive Turned (m : Machine) (f : InputField) (typed : List UInt8) :
    Except Stop (Option (List UInt8)) × Machine → Prop where
  | answers {m₁ : Machine} {k : Key} {r : InputField.Response}
    {out : Except Stop (Option (List UInt8)) × Machine} (hasked : m.Asked f typed m₁)
    (hkey : Key.firstKnown? m.keys.coming = some (k, m₁.keys.coming))
    (hcloses : m₁.keys.closes = m.keys.closes) (hr : f.Responds typed k r)
    (hout : Act.answer f typed k r m₁ = out) : Turned m f typed out
  | ended {m₁ m₂ : Machine} (hasked : m.Asked f typed m₁) (hkey : Key.firstKnown? m.keys.coming = none)
    (hcloses : m.keys.closes = true) (hhide : m₁.Drawn [.hideCursor] m₂) : Turned m f typed (.ok none, m₂)
  | waits {m₁ : Machine} (hasked : m.Asked f typed m₁) (hkey : Key.firstKnown? m.keys.coming = none)
    (hcloses : m.keys.closes = false) : Turned m f typed (.error .waiting, m₁)

/-- A turn takes the first known key, or ends or waits for want of one. -/
theorem turn_turned (hf : f.col + min f.columns (typed.length + m.keys.coming.length) < Word.limit)
    (hlen : typed.length ≤ f.columns) : m.Turned f typed (Act.turn f typed m) := by
  obtain ⟨m₁, hshow, hkeys, hasked⟩ := Act.showCursor_asked (f := f) typed (by omega) m
  have hread {m₂ : Machine} (hheard : m₁.Heard false m₂) : m.Asked f typed m₂ :=
    ⟨hheard.registers.trans hasked.registers, (hheard.screen rfl).trans hasked.screen,
      hheard.watcher.trans hasked.watcher, fun hc => hheard.cancelled (hasked.cancelled hc)⟩
  rw [Act.turn, Act.run_bind, hshow]
  dsimp only
  rw [Act.run_bind]
  have hhears := hears_knownKey false m₁
  generalize Act.knownKey false m₁ = heard at hhears ⊢
  rw [← hkeys] at hf
  cases hhears with
  | key hkey hcloses hheard =>
    have hfewer := Key.length_of_firstKnown? hkey
    obtain ⟨r, hr, hresponds⟩ := InputField.respond_responds (f := f) (by omega) hlen _
    rw [hkeys] at hkey hcloses
    dsimp only
    rw [hr]
    exact .answers (hread hheard) hkey hcloses hresponds rfl
  | @ended m₂ hkey hcloses hheard =>
    obtain ⟨m₃, hdraw, hhide⟩ := Act.draw_drawn .hideCursor m₂
    rw [hkeys] at hkey hcloses
    show m.Turned f typed ((Act.draw .hideCursor >>= fun _ => pure none) m₂)
    rw [Act.run_bind, hdraw]
    exact .ended (hread hheard) hkey hcloses hhide
  | waits hkey hcloses hheard =>
    rw [hkeys] at hkey hcloses
    exact .waits (hread hheard) hkey hcloses

end Machine
end Handheld
