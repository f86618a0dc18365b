import Handheld.Construct.Expand

namespace Handheld

namespace Context

theorem size_newLabel (c : Context) : c.newLabel.2.labels.size = c.labels.size + 1 := by
  simp [Context.newLabel, LabelTable.create, LabelTable.size]

/-- Nothing but instructions, labels, names and log entries has been added. -/
structure Returns (c c' : Context) : Prop where
  code : c.code <+: c'.code
  loops : c'.loops = c.loops
  pools : c'.pools = c.pools
  size : c.labels.size ≤ c'.labels.size

namespace Returns

variable {c c' c'' : Context}

theorem refl (c : Context) : Returns c c := ⟨List.prefix_refl _, rfl, rfl, Nat.le_refl _⟩

theorem trans (h : Returns c c') (h' : Returns c' c'') : Returns c c'' :=
  ⟨h.code.trans h'.code, h'.loops.trans h.loops, h'.pools.trans h.pools, Nat.le_trans h.size h'.size⟩

theorem emit (c : Context) (i : Instruction) : Returns c (c.emit i) :=
  ⟨List.prefix_append _ _, rfl, rfl, Nat.le_refl _⟩

theorem newLabel (c : Context) : Returns c c.newLabel.2 :=
  ⟨List.prefix_refl _, rfl, rfl, by rw [size_newLabel]; exact Nat.le_succ _⟩

theorem newLabels (c : Context) (n : Nat) : Returns c (c.newLabels n).2 := by
  induction n generalizing c with
  | zero => exact refl c
  | succ n ih => exact (newLabel c).trans (ih _)

end Returns

theorem code_newLabels (c : Context) (n : Nat) : (c.newLabels n).2.code = c.code := by
  induction n generalizing c with
  | zero => rfl
  | succ n ih => exact ih _

theorem length_newLabels (c : Context) (n : Nat) : (c.newLabels n).1.length = n := by
  induction n generalizing c with
  | zero => rfl
  | succ n ih => simp [newLabels, ih]

/-- Each element of the list has a label of its own. -/
theorem length_zip_newLabels {α : Type} (c : Context) (as : List α) :
    ((c.newLabels as.length).1.zip as).length = as.length := by
  rw [List.length_zip, length_newLabels, Nat.min_self]

end Context

namespace Build

open Context

/-- The step returns the open loops and the temporaries as it found them. -/
def Balanced (b : Build) : Prop := ∀ c : Context, c.Returns (b c).1

theorem Balanced.of_eq {b : Build} (h : b.Balanced) {c c' : Context} {r : Except CompileError Unit}
    (he : b c = (c', r)) : c.Returns c' := by
  have hb := h c
  rw [he] at hb
  exact hb

theorem balanced_seq {bs : List Build} (h : ∀ b ∈ bs, b.Balanced) : (seq bs).Balanced := by
  induction bs with
  | nil => exact Returns.refl
  | cons b rest ih =>
    intro c
    have hb := h b List.mem_cons_self
    have hrest := ih fun b' hb' => h b' (List.mem_cons_of_mem b hb')
    simp only [seq, andThen]
    rcases hr : b c with ⟨c₁, _ | _⟩
    · exact hb.of_eq hr
    · exact (hb.of_eq hr).trans (hrest c₁)

theorem balanced_op (o : Operation) : (op o).Balanced := by
  intro c
  unfold op
  cases check o with
  | error e => exact .refl c
  | ok o => exact .emit c _

theorem balanced_label (name : String) : (label name).Balanced := by
  intro c
  unfold label placeNamed
  cases c.find? name with
  | some l => exact .refl c
  | none => exact ⟨List.prefix_append _ _, rfl, rfl, (Returns.newLabel c).size⟩

theorem balanced_toLoop (name : Option String) (construct : String)
    (jump : Loop → Context → Context) (h : ∀ lp c, Context.Returns c (jump lp c)) :
    (toLoop name construct jump).Balanced := by
  intro c
  unfold toLoop
  cases c.findLoop name construct with
  | error e => exact .refl c
  | ok lp => exact h lp c

/-- Closing a loop takes back its opening. -/
theorem returns_popLoop {c c' : Context} (h : c.pushLoop.2.Returns c') : c.Returns c'.popLoop :=
  ⟨h.code, by rw [popLoop, h.loops]; rfl, h.pools,
    Nat.le_trans ((Returns.newLabel c).trans (.newLabel _)).size h.size⟩

theorem balanced_loop {body : Build} (h : body.Balanced) : (loop body).Balanced := by
  intro c
  unfold loop
  exact returns_popLoop ((((Returns.emit _ _).trans (h _)).trans (.emit _ _)).trans (.emit _ _))

theorem balanced_branch (cond : Condition) {yes no : List Build} (hy : ∀ b ∈ yes, b.Balanced)
    (hn : ∀ b ∈ no, b.Balanced) : (branch cond yes no).Balanced := by
  have hy := balanced_seq hy
  have hn := balanced_seq hn
  intro c
  unfold branch
  cases yes.isEmpty <;> cases no.isEmpty
  · have hstart := ((Returns.newLabel c).trans (.newLabel _)).trans
      (.emit _ (.jumpIf cond.normalize.negate c.newLabel.1))
    simp only
    split
    · next h => exact hstart.trans (hy.of_eq h)
    · next c₁ h =>
      have hmid := ((hstart.trans (hy.of_eq h)).trans (.emit _ (.jump c.newLabel.2.newLabel.1))).trans
        (.emit _ (.label c.newLabel.1))
      split
      · next h => exact (hmid.trans (hn.of_eq h)).trans (.emit _ _)
      · next h => exact hmid.trans (hn.of_eq h)
  · have hstart := (Returns.newLabel c).trans
      (.emit _ (.jumpIf cond.normalize.negate c.newLabel.1))
    simp only
    split
    · next h => exact (hstart.trans (hy.of_eq h)).trans (.emit _ _)
    · next h => exact hstart.trans (hy.of_eq h)
  · have hstart := (Returns.newLabel c).trans (.emit _ (.jumpIf cond.normalize c.newLabel.1))
    simp only
    split
    · next h => exact (hstart.trans (hn.of_eq h)).trans (.emit _ _)
    · next h => exact hstart.trans (hn.of_eq h)
  · exact .refl c

theorem returns_tests (reg : Register) (ts : List (Operand × Label)) (c : Context) :
    c.Returns (tests reg c ts) := by
  induction ts generalizing c with
  | nil => exact .refl c
  | cons t rest ih => exact (Returns.emit c _).trans (ih _)

/-- The step runs some bodies, each behind its label. -/
theorem balanced_bodies (exit : Label) {targets : List (Label × List Build)}
    (h : ∀ t ∈ targets, ∀ b ∈ t.2, b.Balanced) : (bodies exit targets).Balanced := by
  induction targets with
  | nil => exact Returns.refl
  | cons t rest ih =>
    obtain ⟨l, body⟩ := t
    have hb := balanced_seq (h _ List.mem_cons_self)
    have hrest := ih fun t ht => h t (List.mem_cons_of_mem _ ht)
    intro c
    have hplace : c.Returns (c.place l) := .emit c _
    simp only [bodies]
    split
    · next c₁ hs => exact ((hplace.trans (hb.of_eq hs)).trans (.emit _ _)).trans (hrest _)
    · next hs => exact hplace.trans (hb.of_eq hs)

theorem returns_dispatch (reg : Register) (cases : List (Operand × List Build))
    (default : List Build) (c : Context) : c.Returns (dispatch reg cases default c).2.2 := by
  have hstart := ((Returns.newLabel c).trans (.newLabels _ cases.length)).trans
    (returns_tests reg ((cases.map (·.1)).zip (c.newLabel.2.newLabels cases.length).1) _)
  unfold dispatch
  simp only
  split
  · exact hstart.trans (.emit _ _)
  · exact (hstart.trans (.newLabel _)).trans (.emit _ _)

/-- A switch leads to the bodies of its cases and to its default. -/
theorem mem_dispatch {reg : Register} {cases : List (Operand × List Build)} {default : List Build}
    {c : Context} {t : Label × List Build} (h : t ∈ (dispatch reg cases default c).2.1) :
    t.2 = default ∨ ∃ k ∈ cases, t.2 = k.2 := by
  have hzip {ls : List Label} (h : t ∈ ls.zip (cases.map (·.2))) : ∃ k ∈ cases, t.2 = k.2 := by
    obtain ⟨k, hk, he⟩ := List.mem_map.mp (List.of_mem_zip h).2
    exact ⟨k, hk, he.symm⟩
  unfold dispatch at h
  simp only at h
  split at h
  · exact .inr (hzip h)
  · rcases List.mem_append.mp h with h | h
    · exact .inr (hzip h)
    · exact .inl (List.mem_singleton.mp h ▸ rfl)

/-- What holds of the parts of the cases and the default holds of those of all bodies behind the head. -/
theorem forall_dispatch {P : Build → Prop} {cases : List (Operand × List Build)} {default : List Build}
    (hc : ∀ k ∈ cases, ∀ b ∈ k.2, P b) (hd : ∀ b ∈ default, P b) (reg : Register) (c : Context) :
    ∀ t ∈ (dispatch reg cases default c).2.1, ∀ b ∈ t.2, P b := by
  intro t ht
  rcases mem_dispatch ht with he | ⟨k, hk, he⟩
  · exact he ▸ hd
  · exact he ▸ hc k hk

theorem balanced_switch (reg : Register) {cases : List (Operand × List Build)} {default : List Build}
    (hc : ∀ k ∈ cases, ∀ b ∈ k.2, b.Balanced) (hd : ∀ b ∈ default, b.Balanced) :
    (switch reg cases default).Balanced := by
  intro c
  have hb := balanced_bodies (dispatch reg cases default c).1 (forall_dispatch hc hd reg c)
  have hstart := returns_dispatch reg cases default c
  unfold switch
  simp only
  split
  · exact .refl c
  · split
    · next hs => exact (hstart.trans (hb.of_eq hs)).trans (.emit _ _)
    · next hs => exact hstart.trans (hb.of_eq hs)

theorem returns_lines (i : Nat) (ls : List MenuLine) (c : Context) : c.Returns (lines i c ls) := by
  induction ls generalizing i c with
  | nil => exact .refl c
  | cons l rest ih => exact (Returns.emit c _).trans (ih _ _)

theorem balanced_menuLines (ls : List MenuLine) : (menuLines ls).Balanced :=
  fun c => (Returns.emit c _).trans (returns_lines 0 ls _)

theorem returns_keyTest (key : Register) (k : Option Key) (target : Label) (c : Context) :
    c.Returns (keyTest key k target c) := by
  cases k with
  | none => exact .refl c
  | some k => exact .emit c _

theorem returns_digitTests (key : Register) (digit : Nat) (es : List Entry) (c : Context) :
    c.Returns (digitTests key digit c es).2 := by
  induction es generalizing digit c with
  | nil => exact .refl c
  | cons e rest ih =>
    rcases e with ⟨text, _ | action⟩
    · exact ih digit c
    · exact ((Returns.newLabel c).trans (.emit _ _)).trans (ih (digit + 1) _)

/-- The digits lead to the actions of the entries, in their order. -/
theorem bodies_digitTests (key : Register) (digit : Nat) (es : List Entry) (c : Context) :
    (digitTests key digit c es).1.map (·.2) = es.filterMap (·.2) := by
  induction es generalizing digit c with
  | nil => rfl
  | cons e rest ih =>
    rcases e with ⟨text, _ | action⟩
    · exact ih digit c
    · simp only [digitTests, List.map_cons, ih]
      rfl

/-- What holds of the parts of the actions holds of those that the digits lead to. -/
theorem forall_digitTests {P : Build → Prop} {es : List Entry}
    (h : ∀ e ∈ es, ∀ action, e.2 = some action → ∀ b ∈ action, P b) (key : Register) (digit : Nat)
    (c : Context) : ∀ t ∈ (digitTests key digit c es).1, ∀ b ∈ t.2, P b := by
  intro t ht
  have hmem : t.2 ∈ es.filterMap (·.2) := bodies_digitTests key digit es c ▸ List.mem_map_of_mem ht
  obtain ⟨e, he, hs⟩ := List.mem_filterMap.mp hmem
  exact h e he t.2 hs

theorem balanced_actions (top : Label) {targets : List (Label × List Build)}
    (h : ∀ t ∈ targets, ∀ b ∈ t.2, b.Balanced) : (actions top targets).Balanced := by
  induction targets with
  | nil => exact Returns.refl
  | cons t rest ih =>
    obtain ⟨l, body⟩ := t
    have hb := balanced_seq (h _ List.mem_cons_self)
    have hrest := ih fun t ht => h t (List.mem_cons_of_mem _ ht)
    intro c
    have hplace : c.Returns (c.place l) := .emit c _
    simp only [actions]
    split
    · next c₁ hs => exact ((hplace.trans (hb.of_eq hs)).trans (.emit _ _)).trans (hrest _)
    · next hs => exact (hplace.trans (hb.of_eq hs)).trans (.emit _ _)

/-- A temporary that has just been taken can be given back. -/
theorem release_allocate {c c₁ c₂ : Context} {k : Kind} {r : Register}
    (ha : c.allocate k = .ok (r, c₁)) (hr : c₁.Returns c₂) :
    ∃ c₃, c₂.release r = .ok c₃ ∧ c.Returns c₃ ∧ c₃.code = c₂.code ∧ c₃.labels = c₂.labels := by
  unfold allocate at ha
  split at ha
  · cases ha
  · next r' ps htake =>
    obtain ⟨rfl, rfl⟩ := Prod.mk.inj (Except.ok.inj ha)
    have hpools : c₂.pools = ps := hr.pools
    have hgive : c₂.pools.give? r' = some c.pools := hpools ▸ Pools.give?_take? htake
    refine ⟨{ c₂ with pools := c.pools }.note ("release " ++ r'.name), ?_, ?_, rfl, rfl⟩
    · simp only [release, hgive]
    · exact ⟨hr.code, hr.loops, rfl, hr.size⟩

theorem balanced_withTemporary (k : Kind) {body : Register → Build} (h : ∀ r, (body r).Balanced) :
    (withTemporary k body).Balanced := by
  intro c
  unfold withTemporary
  cases ha : c.allocate k with
  | error f => exact .refl c
  | ok a =>
    obtain ⟨r, c₁⟩ := a
    obtain ⟨c₂, hr, hret, -⟩ := release_allocate ha (h r c₁)
    simp only [hr]
    exact hret

/-- A page up to the read of a key. -/
def shown (es : List Entry) (key : Register) (c : Context) : Context :=
  (lines 0 ((c.newLabel.2.newLabel.2.place c.newLabel.1).op .displayClear)
    (es.map fun e => .text e.1)).op (.noEchoInput key)

/-- A page up to its actions. -/
def asked (next prev : Option Key) (back : Label) (last : Bool) (es : List Entry) (key : Register)
    (c : Context) : Context :=
  (keyTest key next (if last then c.newLabel.1 else c.newLabel.2.newLabel.1)
    (keyTest key prev back (digitTests key 1 (shown es key c) es).2)).jump c.newLabel.1

/-- What a page shows stands behind its two labels. -/
theorem returns_drawn (es : List Entry) (key : Register) (c : Context) :
    c.newLabel.2.newLabel.2.Returns (shown es key c) := by
  have hclear := (Returns.emit c.newLabel.2.newLabel.2 (.label c.newLabel.1)).trans
    (.emit _ (.op .displayClear))
  exact (hclear.trans (returns_lines 0 (es.map fun e => .text e.1) _)).trans
    (.emit _ (.op (.noEchoInput key)))

theorem returns_shown (es : List Entry) (key : Register) (c : Context) : c.Returns (shown es key c) :=
  ((Returns.newLabel c).trans (.newLabel _)).trans (returns_drawn es key c)

/-- The dispatch on the key stands behind the read of it. -/
theorem returns_dispatched (next prev : Option Key) (back : Label) (last : Bool) (es : List Entry)
    (key : Register) (c : Context) : (shown es key c).Returns (asked next prev back last es key c) := by
  have hdigits := returns_digitTests key 1 es (shown es key c)
  exact ((hdigits.trans (returns_keyTest key prev back _)).trans
    (returns_keyTest key next _ _)).trans (.emit _ (.jump c.newLabel.1))

theorem returns_asked (next prev : Option Key) (back : Label) (last : Bool) (es : List Entry)
    (key : Register) (c : Context) : c.Returns (asked next prev back last es key c) :=
  (returns_shown es key c).trans (returns_dispatched next prev back last es key c)

theorem balanced_pageBody (next prev : Option Key) (back : Label) (last : Bool) {es : List Entry}
    (h : ∀ e ∈ es, ∀ action, e.2 = some action → ∀ b ∈ action, b.Balanced) (key : Register) :
    (pageBody next prev back last es key).Balanced := by
  intro c
  have hactions := balanced_actions c.newLabel.1 (forall_digitTests h key 1 (shown es key c))
  exact ((returns_asked next prev back last es key c).trans (hactions _)).trans (.emit _ _)

theorem balanced_pageSeq (next prev : Option Key) (back : Label) {ps : List (Label × List Entry)}
    (h : ∀ p ∈ ps, ∀ e ∈ p.2, ∀ action, e.2 = some action → ∀ b ∈ action, b.Balanced) :
    (pageSeq next prev back ps).Balanced := by
  induction ps generalizing back with
  | nil => exact Returns.refl
  | cons p rest ih =>
    obtain ⟨l, es⟩ := p
    have hp := balanced_withTemporary .int
      (balanced_pageBody next prev back rest.isEmpty (h _ List.mem_cons_self))
    have hrest := ih l fun p hp => h p (List.mem_cons_of_mem _ hp)
    intro c
    have hplace : c.Returns (c.place l) := .emit c _
    simp only [pageSeq]
    split
    · next c₁ hs => exact (hplace.trans (hp.of_eq hs)).trans (hrest _)
    · next hs => exact hplace.trans (hp.of_eq hs)

/-- Pages hold the entries they are cut from. -/
theorem mem_pages {n : Nat} {es p : List Entry} (hp : p ∈ pages n es) {e : Entry} (he : e ∈ p) :
    e ∈ es := by
  induction n generalizing es with
  | zero => cases hp
  | succ n ih =>
    cases es with
    | nil => cases hp
    | cons e' es =>
      rcases List.mem_cons.mp hp with rfl | hp
      · exact List.mem_of_mem_take he
      · exact List.mem_of_mem_drop (ih hp)

/-- What holds of the entries holds of those on the pages, whatever labels these have. -/
theorem forall_labelled {P : Entry → Prop} {es : List Entry} (h : ∀ e ∈ es, P e) (n : Nat)
    (ls : List Label) : ∀ p ∈ ls.zip (pages n es), ∀ e ∈ p.2, P e :=
  fun _ hp e he => h e (mem_pages (List.of_mem_zip hp).2 he)

theorem balanced_menu {es : List Entry} (next prev : Option Key)
    (h : ∀ e ∈ es, ∀ action, e.2 = some action → ∀ b ∈ action, b.Balanced) :
    (menu es next prev).Balanced := by
  intro c
  unfold menu
  split
  · exact .refl c
  · have hseq := balanced_pageSeq next prev c.pushLoop.1.exit (forall_labelled h es.length
      ((c.pushLoop.2.place c.pushLoop.1.entry).newLabels (pages es.length es).length).1)
    exact returns_popLoop ((((Returns.emit _ _).trans (.newLabels _ _)).trans (hseq _)).trans
      (.emit _ _))

theorem balanced_ifFileExists (file : FileName) {yes no : List Build}
    (hy : ∀ b ∈ yes, b.Balanced) (hn : ∀ b ∈ no, b.Balanced) :
    (ifFileExists file yes no).Balanced :=
  fun c => (Returns.emit c _).trans (balanced_branch succeeded hy hn _)

theorem balanced_getResult (dst : Register) : (getResult dst).Balanced := by
  refine balanced_switch .rslt (fun k hk b hb => ?_) fun b hb => ?_
  · obtain ⟨n, -, rfl⟩ := List.mem_map.mp hk
    exact List.mem_singleton.mp hb ▸ balanced_op _
  · exact List.mem_singleton.mp hb ▸ balanced_op _

end Build

open Build

mutual

/-- Expanding a construct only appends instructions; the open loops and the free registers are
what they were, also when it fails. -/
theorem Construct.balanced (k : Construct) : k.expand.Balanced := by
  cases k with
  | op o => exact balanced_op o
  | label name => exact balanced_label name
  | block body => exact balanced_seq (balanced_expandAll body)
  | ifElse cond yes no => exact balanced_branch cond (balanced_expandAll yes) (balanced_expandAll no)
  | loop body => exact balanced_loop (balanced_seq (balanced_expandAll body))
  | switch reg cases default =>
    exact balanced_switch reg (balanced_expandCases cases) (balanced_expandAll default)
  | leave name => exact balanced_toLoop name _ _ fun _ c => .emit c _
  | again name => exact balanced_toLoop name _ _ fun _ c => .emit c _
  | leaveIf cond name => exact balanced_toLoop name _ _ fun _ c => .emit c _
  | againIf cond name => exact balanced_toLoop name _ _ fun _ c => .emit c _
  | ifFileExists file yes no =>
    exact balanced_ifFileExists file (balanced_expandAll yes) (balanced_expandAll no)
  | getResult dst => exact balanced_getResult dst
  | menuLines lines => exact balanced_menuLines lines
  | menuLoop entries next prev => exact balanced_menu next prev (balanced_expandEntries entries)

theorem balanced_expandAll (ks : List Construct) : ∀ b ∈ expandAll ks, b.Balanced := by
  cases ks with
  | nil => exact fun b hb => nomatch hb
  | cons k rest =>
    intro b hb
    rcases List.mem_cons.mp hb with rfl | hb
    · exact k.balanced
    · exact balanced_expandAll rest b hb

theorem balanced_expandCases (cs : List Case) :
    ∀ k ∈ expandCases cs, ∀ b ∈ k.2, b.Balanced := by
  rcases cs with _ | ⟨⟨key, body⟩, rest⟩
  · exact fun k hk => nomatch hk
  · intro k hk
    rcases List.mem_cons.mp hk with rfl | hk
    · exact balanced_expandAll body
    · exact balanced_expandCases rest k hk

theorem balanced_expandEntries (es : List MenuEntry) :
    ∀ e ∈ expandEntries es, ∀ action, e.2 = some action → ∀ b ∈ action, b.Balanced := by
  rcases es with _ | ⟨⟨text, action⟩, rest⟩
  · exact fun e he => nomatch he
  · intro e he
    rcases List.mem_cons.mp he with rfl | he
    · intro bs hbs
      rcases action with _ | body
      · cases hbs
      · cases hbs
        exact balanced_expandAll body
    · exact balanced_expandEntries rest e he

end

end Handheld
