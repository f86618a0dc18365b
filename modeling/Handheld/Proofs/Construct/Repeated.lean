import Handheld.Proofs.Construct.Success
import Handheld.Proofs.Construct.Growth
import Handheld.Proofs.Program.Renamed

namespace Handheld

mutual

/-- Neither names a label nor jumps to a loop by its name. -/
def Construct.nameless : Construct → Bool
  | .label _ => false
  | .block body | .loop body => namelessAll body
  | .ifElse _ yes no | .ifFileExists _ yes no => namelessAll yes && namelessAll no
  | .switch _ cases default => namelessCases cases && namelessAll default
  | .leave name | .again name | .leaveIf _ name | .againIf _ name => name.isNone
  | .menuLoop entries _ _ => namelessEntries entries
  | .op _ | .getResult _ | .menuLines _ => true

def namelessAll : List Construct → Bool
  | [] => true
  | k :: rest => k.nameless && namelessAll rest

def namelessCases : List Case → Bool
  | [] => true
  | .mk _ body :: rest => namelessAll body && namelessCases rest

def namelessEntries : List MenuEntry → Bool
  | [] => true
  | .mk _ action :: rest => namelessAction action && namelessEntries rest

def namelessAction : Option (List Construct) → Bool
  | none => true
  | some body => namelessAll body

end

namespace Context

/-- A context that can come about. -/
inductive Made : Context → Prop where
  | initial : Made .initial
  | allocate {c c' : Context} {k : Kind} {r : Register} (h : Made c) (ha : c.allocate k = .ok (r, c')) :
    Made c'
  | release {c c' : Context} {r : Register} (h : Made c) (hr : c.release r = .ok c') : Made c'
  | newLabel {c : Context} (h : Made c) : Made c.newLabel.2
  | placeNamed {c c' : Context} {name : String} {l : Label} (h : Made c)
    (hp : c.placeNamed name = .ok (l, c')) : Made c'
  | emit {c : Context} (h : Made c) (i : Instruction) : Made (c.emit i)
  | pushLoop {c : Context} (h : Made c) : Made c.pushLoop.2
  | popLoop {c : Context} (h : Made c) : Made c.popLoop
  | expand {c : Context} (h : Made c) (k : Construct) : Made (k.expand c).1

/-- The entry and the exit of every open loop have been created. -/
def Opened (c : Context) : Prop :=
  ∀ lp ∈ c.loops, lp.entry.id < c.labels.size ∧ lp.exit.id < c.labels.size

variable {a b c d c' : Context}

theorem Opened.mono (h : c.Opened) (hloops : c'.loops = c.loops) (hsize : c.labels.size ≤ c'.labels.size) :
    c'.Opened := by
  intro lp hlp
  obtain ⟨hentry, hexit⟩ := h lp (hloops ▸ hlp)
  exact ⟨Nat.lt_of_lt_of_le hentry hsize, Nat.lt_of_lt_of_le hexit hsize⟩

theorem Made.opened (h : c.Made) : c.Opened := by
  induction h with
  | initial => exact fun lp hlp => nomatch hlp
  | allocate _ ha ih =>
    obtain ⟨-, hlabels, hloops, -⟩ := Build.allocate_ok ha
    exact ih.mono hloops (by rw [hlabels])
  | release _ hr ih =>
    obtain ⟨-, hlabels, hloops⟩ := Build.release_ok hr
    exact ih.mono hloops (by rw [hlabels])
  | newLabel _ ih => exact ih.mono rfl (Returns.newLabel _).size
  | @placeNamed c c' name l _ hp ih =>
    unfold Context.placeNamed at hp
    split at hp
    · cases hp
    · cases hp
      exact ih.mono rfl (Returns.newLabel c).size
  | emit _ i ih => exact ih.mono rfl (Nat.le_refl _)
  | @pushLoop c _ ih =>
    have hentry := size_newLabel c
    have hexit := size_newLabel c.newLabel.2
    intro lp hlp
    rcases List.mem_cons.mp hlp with rfl | hlp
    · show c.labels.size < c.newLabel.2.newLabel.2.labels.size ∧
        c.newLabel.2.labels.size < c.newLabel.2.newLabel.2.labels.size
      omega
    · have hopened : c.newLabel.2.newLabel.2.Opened :=
        ih.mono rfl ((Returns.newLabel c).trans (.newLabel _)).size
      exact hopened lp hlp
  | popLoop _ ih => exact fun lp hlp => ih lp (List.mem_of_mem_tail hlp)
  | @expand c _ k ih =>
    have hret := k.balanced c
    exact ih.mono hret.loops hret.size

/-- Renames the labels that come behind those of `a` to those that come as far behind those of `b`. -/
def shift (a b : Context) (l : Label) : Label :=
  if l.id < a.labels.size then l else ⟨l.id + (b.labels.size - a.labels.size)⟩

theorem shift_old {l : Label} (h : l.id < a.labels.size) : a.shift b l = l := if_pos h

theorem shift_new {l : Label} (h : a.labels.size ≤ l.id) :
    a.shift b l = ⟨l.id + (b.labels.size - a.labels.size)⟩ := if_neg (Nat.not_lt_of_le h)

theorem shift_injective (a b : Context) : Function.Injective (a.shift b) := by
  intro l l' h
  ext
  unfold shift at h
  split at h
  · split at h
    · exact congrArg Label.id h
    · have hid : l.id = l'.id + (b.labels.size - a.labels.size) := congrArg Label.id h
      omega
  · split at h
    · have hid : l.id + (b.labels.size - a.labels.size) = l'.id := congrArg Label.id h
      omega
    · exact Nat.add_right_cancel (congrArg Label.id h)

/-- `d` has come from `b` as `c` has come from `a`: the same has been added but for the labels. -/
structure Twin (a b c d : Context) : Prop where
  created : a.labels.size ≤ c.labels.size
  size : d.labels.size = c.labels.size + (b.labels.size - a.labels.size)
  pools : d.pools = c.pools
  loops : List.Forall₂ (fun lp lp' => lp'.entry = a.shift b lp.entry ∧ lp'.exit = a.shift b lp.exit)
    c.loops d.loops
  code : ∃ new, c.code = a.code ++ new ∧ d.code = b.code ++ new.map (.rename (a.shift b))

namespace Twin

/-- At first nothing has been added to either. -/
theorem start (ha : a.Opened) (h : a.Returns b) : Twin a b a b := by
  refine ⟨Nat.le_refl _, (Nat.add_sub_cancel' h.size).symm, h.pools, ?_, [], by simp, by simp⟩
  rw [h.loops]
  exact List.forall₂_same.mpr fun lp hlp =>
    ⟨(shift_old (ha lp hlp).1).symm, (shift_old (ha lp hlp).2).symm⟩

theorem emit (h : Twin a b c d) (i : Instruction) : Twin a b (c.emit i) (d.emit (i.rename (a.shift b))) := by
  obtain ⟨new, hc, hd⟩ := h.code
  refine ⟨h.created, h.size, h.pools, h.loops, new ++ [i], ?_, ?_⟩
  · rw [Context.emit, hc, List.append_assoc]
  · rw [Context.emit, hd, List.append_assoc, List.map_append]
    rfl

theorem op (h : Twin a b c d) (o : Operation) : Twin a b (c.op o) (d.op o) := h.emit (.op o)

theorem place (h : Twin a b c d) (l : Label) : Twin a b (c.place l) (d.place (a.shift b l)) :=
  h.emit (.label l)

theorem jump (h : Twin a b c d) (t : Label) : Twin a b (c.jump t) (d.jump (a.shift b t)) :=
  h.emit (.jump t)

theorem jumpIf (h : Twin a b c d) (cond : Condition) (t : Label) :
    Twin a b (c.jumpIf cond t) (d.jumpIf cond (a.shift b t)) :=
  h.emit (.jumpIf cond t)

/-- The next label is created in both. -/
theorem newLabel_eq (h : Twin a b c d) : d.newLabel.1 = a.shift b c.newLabel.1 := by
  have hnew : a.shift b c.newLabel.1 = ⟨c.labels.size + (b.labels.size - a.labels.size)⟩ :=
    shift_new h.created
  rw [hnew, ← h.size]
  rfl

theorem newLabel (h : Twin a b c d) : Twin a b c.newLabel.2 d.newLabel.2 := by
  have hcreated := h.created
  have hsize := h.size
  refine ⟨?_, ?_, h.pools, h.loops, h.code⟩
  · rw [size_newLabel]
    omega
  · rw [size_newLabel, size_newLabel]
    omega

theorem newLabels (h : Twin a b c d) (n : Nat) :
    (d.newLabels n).1 = (c.newLabels n).1.map (a.shift b) ∧
      Twin a b (c.newLabels n).2 (d.newLabels n).2 := by
  induction n generalizing c d with
  | zero => exact ⟨rfl, h⟩
  | succ n ih =>
    obtain ⟨hlabels, htwin⟩ := ih h.newLabel
    refine ⟨?_, htwin⟩
    rw [Context.newLabels, Context.newLabels, List.map_cons, ← h.newLabel_eq, ← hlabels]

/-- What a loop is labelled with plays no part. -/
theorem pushLoop (h : Twin a b c d) :
    d.pushLoop.1.entry = a.shift b c.pushLoop.1.entry ∧ d.pushLoop.1.exit = a.shift b c.pushLoop.1.exit ∧
      Twin a b c.pushLoop.2 d.pushLoop.2 := by
  have hentry := h.newLabel_eq
  have hexit := h.newLabel.newLabel_eq
  have hboth := h.newLabel.newLabel
  exact ⟨hentry, hexit, hboth.created, hboth.size, hboth.pools, .cons ⟨hentry, hexit⟩ h.loops, hboth.code⟩

theorem popLoop (h : Twin a b c d) : Twin a b c.popLoop d.popLoop := by
  refine ⟨h.created, h.size, h.pools, ?_, h.code⟩
  show List.Forall₂ _ c.loops.tail d.loops.tail
  have hloops := h.loops
  generalize c.loops = open₁, d.loops = open₂ at hloops
  cases hloops with
  | nil => exact .nil
  | cons _ hrest => exact hrest

theorem free (h : Twin a b c d) (k : Kind) : d.free k = c.free k := by
  rw [Context.free, Context.free, h.pools]

/-- The log plays no part either. -/
theorem hold (h : Twin a b c d) (pools : Pools) (m m' : String) :
    Twin a b ({ c with pools }.note m) ({ d with pools }.note m') :=
  ⟨h.created, h.size, rfl, h.loops, h.code⟩

/-- The labels created in one run are renamed to those created in the other. -/
theorem created_shift (h : Twin a b c d) (hsize : a.labels.size ≤ b.labels.size) :
    (a.created c).map (a.shift b) = b.created d := by
  have hcount : d.labels.size - b.labels.size = c.labels.size - a.labels.size := by
    have htwin := h.size
    omega
  have hrange : List.range' b.labels.size (c.labels.size - a.labels.size) =
      (List.range' a.labels.size (c.labels.size - a.labels.size)).map
        (b.labels.size - a.labels.size + ·) := by
    rw [List.map_add_range', Nat.sub_add_cancel hsize]
  rw [Context.created, Context.created, hcount, hrange, List.map_map, List.map_map]
  refine List.map_congr_left fun i hi => ?_
  have hnew : a.shift b ⟨i⟩ = ⟨i + (b.labels.size - a.labels.size)⟩ :=
    shift_new (List.mem_range'_1.mp hi).1
  exact hnew.trans (congrArg Label.mk (Nat.add_comm _ _))

end Twin
end Context

namespace Build

open Context

variable {a b c d : Context}

/-- Results that are the same but for the contexts, which are twins. -/
structure Twins (a b : Context) (r r' : Result) : Prop where
  result : r'.2 = r.2
  twin : Twin a b r.1 r'.1

theorem Twins.follow {r r' : Result} (h : Twins a b r r') {next next' : Context → Result}
    {undo undo' : Context → Context} (hundo : ∀ c d, Twin a b c d → Twin a b (undo c) (undo' d))
    (hnext : ∀ c d, Twin a b c d → Twins a b (next c) (next' d)) :
    Twins a b (r.follow next undo) (r'.follow next' undo') := by
  obtain ⟨c, res⟩ := r
  obtain ⟨d, res'⟩ := r'
  obtain ⟨hres, htwin⟩ := h
  obtain rfl : res' = res := hres
  cases res' with
  | ok => exact hnext c d htwin
  | error e => exact ⟨rfl, hundo c d htwin⟩

theorem Twins.next {r r' : Result} (h : Twins a b r r') {next next' : Context → Result}
    (hnext : ∀ c d, Twin a b c d → Twins a b (next c) (next' d)) :
    Twins a b (r.follow next id) (r'.follow next' id) :=
  h.follow (fun _ _ => id) hnext

/-- What is done whether the step has succeeded or failed. -/
theorem Twins.finish {r r' : Result} (h : Twins a b r r') {last last' : Context → Context}
    (hlast : ∀ c d, Twin a b c d → Twin a b (last c) (last' d)) :
    Twins a b (last r.1, r.2) (last' r'.1, r'.2) :=
  ⟨h.result, hlast _ _ h.twin⟩

theorem Twins.ok (h : Twin a b c d) : Twins a b (c, .ok ()) (d, .ok ()) := ⟨rfl, h⟩

theorem Twins.error (h : Twin a b c d) (e : CompileError) : Twins a b (c, .error e) (d, .error e) :=
  ⟨rfl, h⟩

/-- The second step does behind `b` what the first does behind `a`. -/
def Repeats (a b : Context) (s s' : Build) : Prop := ∀ c d, Twin a b c d → Twins a b (s c) (s' d)

theorem repeats_op (o : Operation) : Repeats a b (op o) (op o) := by
  intro c d h
  unfold op
  cases check o with
  | error e => exact .error h _
  | ok o => exact .ok (h.op o)

theorem repeats_toLoop (construct : String) {jump : Loop → Context → Context}
    (hjump : ∀ lp lp' c d, lp'.entry = a.shift b lp.entry → lp'.exit = a.shift b lp.exit →
      Twin a b c d → Twin a b (jump lp c) (jump lp' d)) :
    Repeats a b (toLoop none construct jump) (toLoop none construct jump) := by
  intro c d h
  have hloops := h.loops
  unfold toLoop findLoop currentLoop
  dsimp only
  generalize c.loops = open₁, d.loops = open₂ at hloops
  cases hloops with
  | nil => exact .error h _
  | cons hlp _ => exact .ok (hjump _ _ c d hlp.1 hlp.2 h)

theorem repeats_seq {ss : List Build} (h : ∀ s ∈ ss, Repeats a b s s) : Repeats a b (seq ss) (seq ss) := by
  induction ss with
  | nil => exact fun _ _ htwin => .ok htwin
  | cons s rest ih =>
    intro c d htwin
    exact (h s List.mem_cons_self c d htwin).next (ih fun s' hs' => h s' (List.mem_cons_of_mem s hs'))

theorem repeats_loop {body : Build} (h : Repeats a b body body) : Repeats a b (loop body) (loop body) := by
  intro c d htwin
  obtain ⟨hentry, hexit, hpush⟩ := htwin.pushLoop
  unfold loop
  dsimp only
  rw [hentry, hexit]
  exact (h _ _ (hpush.place _)).finish fun _ _ hlast => ((hlast.jump _).place _).popLoop

theorem repeats_branch (cond : Condition) {yes no : List Build} (hy : ∀ s ∈ yes, Repeats a b s s)
    (hn : ∀ s ∈ no, Repeats a b s s) : Repeats a b (branch cond yes no) (branch cond yes no) := by
  intro c d h
  have hplace (l : Label) (c d : Context) (h : Twin a b c d) :
      Twins a b (c.place l, .ok ()) (d.place (a.shift b l), .ok ()) := .ok (h.place l)
  rcases hye : yes.isEmpty <;> rcases hne : no.isEmpty
  · rw [branch_both cond hye hne, branch_both cond hye hne, h.newLabel_eq, h.newLabel.newLabel_eq]
    refine (repeats_seq hy _ _ (h.newLabel.newLabel.jumpIf _ _)).next fun c₁ d₁ h₁ => ?_
    exact (repeats_seq hn _ _ ((h₁.jump _).place _)).next (hplace _)
  · unfold branch
    rw [hye, hne]
    dsimp only
    rw [h.newLabel_eq]
    exact (repeats_seq hy _ _ (h.newLabel.jumpIf _ _)).next (hplace _)
  · unfold branch
    rw [hye, hne]
    dsimp only
    rw [h.newLabel_eq]
    exact (repeats_seq hn _ _ (h.newLabel.jumpIf _ _)).next (hplace _)
  · unfold branch
    rw [hye, hne]
    exact .ok h

theorem repeats_ifFileExists (file : FileName) {yes no : List Build} (hy : ∀ s ∈ yes, Repeats a b s s)
    (hn : ∀ s ∈ no, Repeats a b s s) :
    Repeats a b (ifFileExists file yes no) (ifFileExists file yes no) :=
  fun _ _ h => repeats_branch succeeded hy hn _ _ (h.op _)

theorem twin_tests (reg : Register) (ts : List (Operand × Label)) (h : Twin a b c d) :
    Twin a b (tests reg c ts) (tests reg d (ts.map (Prod.map id (a.shift b)))) := by
  induction ts generalizing c d with
  | nil => exact h
  | cons t rest ih => exact ih (h.jumpIf _ _)

/-- Bodies behind labels of the second run. -/
def shifted {α : Type} (a b : Context) (ts : List (Label × α)) : List (Label × α) :=
  ts.map (Prod.map (a.shift b) id)

theorem repeats_bodies (exit : Label) {targets : List (Label × List Build)}
    (h : ∀ t ∈ targets, ∀ s ∈ t.2, Repeats a b s s) :
    Repeats a b (bodies exit targets) (bodies (a.shift b exit) (shifted a b targets)) := by
  induction targets with
  | nil => exact fun _ _ htwin => .ok htwin
  | cons t rest ih =>
    intro c d htwin
    have hbody := repeats_seq (h t List.mem_cons_self) _ _ (htwin.place t.1)
    refine hbody.next fun c₁ d₁ h₁ => ?_
    exact ih (fun u hu => h u (List.mem_cons_of_mem t hu)) _ _ (h₁.jump exit)

/-- The heads of the two runs are twins and lead to the same bodies. -/
theorem twin_dispatch (reg : Register) (cases : List (Operand × List Build)) (default : List Build)
    (h : Twin a b c d) :
    (dispatch reg cases default d).1 = a.shift b (dispatch reg cases default c).1 ∧
      (dispatch reg cases default d).2.1 = shifted a b (dispatch reg cases default c).2.1 ∧
      Twin a b (dispatch reg cases default c).2.2 (dispatch reg cases default d).2.2 := by
  obtain ⟨hlabels, hnew⟩ := h.newLabel.newLabels cases.length
  have htests := twin_tests reg ((cases.map (·.1)).zip (c.newLabel.2.newLabels cases.length).1) hnew
  have hkeys : (cases.map (·.1)).zip (d.newLabel.2.newLabels cases.length).1 =
      ((cases.map (·.1)).zip (c.newLabel.2.newLabels cases.length).1).map (Prod.map id (a.shift b)) := by
    rw [hlabels, List.zip_map_right]
  have htargets : (d.newLabel.2.newLabels cases.length).1.zip (cases.map (·.2)) =
      shifted a b ((c.newLabel.2.newLabels cases.length).1.zip (cases.map (·.2))) := by
    rw [hlabels, List.zip_map_left, shifted]
  rw [← hkeys] at htests
  unfold dispatch
  dsimp only
  split
  · refine ⟨h.newLabel_eq, htargets, ?_⟩
    rw [h.newLabel_eq]
    exact htests.jump _
  · refine ⟨h.newLabel_eq, ?_, ?_⟩
    · rw [htargets, htests.newLabel_eq, shifted, shifted, List.map_append]
      rfl
    · rw [htests.newLabel_eq]
      exact htests.newLabel.jump _

theorem repeats_switch (reg : Register) {cases : List (Operand × List Build)} {default : List Build}
    (hc : ∀ k ∈ cases, ∀ s ∈ k.2, Repeats a b s s) (hd : ∀ s ∈ default, Repeats a b s s) :
    Repeats a b (switch reg cases default) (switch reg cases default) := by
  intro c d h
  obtain ⟨hexit, htargets, hhead⟩ := twin_dispatch reg cases default h
  have hmem := forall_dispatch hc hd reg c
  unfold switch
  split
  · exact .error h _
  · dsimp only
    rw [hexit, htargets]
    exact (repeats_bodies _ hmem _ _ hhead).next fun c₁ d₁ h₁ => .ok (h₁.place _)

theorem repeats_getResult (dst : Register) : Repeats a b (getResult dst) (getResult dst) := by
  refine repeats_switch .rslt (fun k hk s hs => ?_) fun s hs => ?_
  · obtain ⟨n, -, rfl⟩ := List.mem_map.mp hk
    exact List.mem_singleton.mp hs ▸ repeats_op _
  · exact List.mem_singleton.mp hs ▸ repeats_op _

theorem twin_lines (i : Nat) (ls : List MenuLine) (h : Twin a b c d) :
    Twin a b (lines i c ls) (lines i d ls) := by
  induction ls generalizing i c d with
  | nil => exact h
  | cons l rest ih => exact ih _ (h.op _)

theorem repeats_menuLines (ls : List MenuLine) : Repeats a b (menuLines ls) (menuLines ls) :=
  fun _ _ h => .ok (twin_lines 0 ls (h.op .displayClear))

theorem twin_keyTest (key : Register) (k : Option Key) (target : Label) (h : Twin a b c d) :
    Twin a b (keyTest key k target c) (keyTest key k (a.shift b target) d) := by
  cases k with
  | none => exact h
  | some k => exact h.jumpIf _ _

theorem twin_digitTests (key : Register) (digit : Nat) (es : List Entry) (h : Twin a b c d) :
    (digitTests key digit d es).1 = shifted a b (digitTests key digit c es).1 ∧
      Twin a b (digitTests key digit c es).2 (digitTests key digit d es).2 := by
  induction es generalizing digit c d with
  | nil => exact ⟨rfl, h⟩
  | cons e rest ih =>
    rcases e with ⟨text, _ | action⟩
    · exact ih digit h
    · have htest := h.newLabel.jumpIf ⟨key, .eq, .value (.int (Int32.ofNat (48 + digit)))⟩ c.newLabel.1
      obtain ⟨htargets, hrest⟩ := ih (digit + 1) htest
      rw [← h.newLabel_eq] at htargets hrest
      refine ⟨?_, hrest⟩
      rw [digitTests, digitTests]
      dsimp only
      rw [htargets, h.newLabel_eq]
      rfl

theorem repeats_actions (top : Label) {targets : List (Label × List Build)}
    (h : ∀ t ∈ targets, ∀ s ∈ t.2, Repeats a b s s) :
    Repeats a b (actions top targets) (actions (a.shift b top) (shifted a b targets)) := by
  induction targets with
  | nil => exact fun _ _ htwin => .ok htwin
  | cons t rest ih =>
    intro c d htwin
    have hbody := repeats_seq (h t List.mem_cons_self) _ _ (htwin.place t.1)
    have hback (c₁ d₁ : Context) (h₁ : Twin a b c₁ d₁) :
        Twin a b (c₁.jump top) (d₁.jump (a.shift b top)) := h₁.jump top
    refine hbody.follow hback fun c₁ d₁ h₁ => ?_
    exact ih (fun u hu => h u (List.mem_cons_of_mem t hu)) _ _ (h₁.jump top)

theorem repeats_pageBody (next prev : Option Key) (back : Label) (last : Bool) {es : List Entry}
    (h : ∀ e ∈ es, ∀ action, e.2 = some action → ∀ s ∈ action, Repeats a b s s) (key : Register) :
    Repeats a b (pageBody next prev back last es key)
      (pageBody next prev (a.shift b back) last es key) := by
  intro c d htwin
  have hshow := (twin_lines 0 (es.map fun e => .text e.1)
    ((htwin.newLabel.newLabel.place c.newLabel.1).op .displayClear)).op (.noEchoInput key)
  obtain ⟨htargets, hdigits⟩ := twin_digitTests key 1 es hshow
  have htests := twin_keyTest key next (if last then c.newLabel.1 else c.newLabel.2.newLabel.1)
    (twin_keyTest key prev back hdigits)
  have hactions := repeats_actions c.newLabel.1 (forall_digitTests h key 1 (shown es key c))
  unfold pageBody
  dsimp only
  rw [htwin.newLabel_eq, htwin.newLabel.newLabel_eq, htargets, ← apply_ite (a.shift b)]
  exact (hactions _ _ (htests.jump c.newLabel.1)).finish fun _ _ hlast => hlast.place _

/-- Both runs take the same temporary and give it back. -/
theorem repeats_withTemporary (k : Kind) {body body' : Register → Build}
    (h : ∀ r, Repeats a b (body r) (body' r)) :
    Repeats a b (withTemporary k body) (withTemporary k body') := by
  intro c d htwin
  unfold withTemporary allocate
  rw [htwin.pools]
  cases c.pools.take? k with
  | none => exact .error htwin _
  | some taken =>
    obtain ⟨r, pools⟩ := taken
    dsimp only
    have hbody := h r _ _ (htwin.hold pools ("allocate " ++ r.name) ("allocate " ++ r.name))
    generalize body r _ = out, body' r _ = out' at hbody
    obtain ⟨hresult, htwin₁⟩ := hbody
    unfold release
    rw [htwin₁.pools, hresult]
    cases out.1.pools.give? r with
    | none => exact .error htwin₁ _
    | some pools' => exact ⟨rfl, htwin₁.hold pools' _ _⟩

theorem repeats_pageSeq (next prev : Option Key) (back : Label) {ps : List (Label × List Entry)}
    (h : ∀ p ∈ ps, ∀ e ∈ p.2, ∀ action, e.2 = some action → ∀ s ∈ action, Repeats a b s s) :
    Repeats a b (pageSeq next prev back ps) (pageSeq next prev (a.shift b back) (shifted a b ps)) := by
  induction ps generalizing back with
  | nil => exact fun _ _ htwin => .ok htwin
  | cons p rest ih =>
    intro c d htwin
    have hlast : (shifted a b rest).isEmpty = rest.isEmpty := List.isEmpty_map
    have hpage : Repeats a b (page next prev back rest.isEmpty p.2)
        (page next prev (a.shift b back) (shifted a b rest).isEmpty p.2) := by
      rw [hlast]
      exact repeats_withTemporary .int (repeats_pageBody next prev back _ (h p List.mem_cons_self))
    have hrest := ih p.1 fun q hq => h q (List.mem_cons_of_mem p hq)
    exact (hpage _ _ (htwin.place p.1)).next hrest

theorem repeats_menu {es : List Entry} (next prev : Option Key)
    (h : ∀ e ∈ es, ∀ action, e.2 = some action → ∀ s ∈ action, Repeats a b s s) :
    Repeats a b (menu es next prev) (menu es next prev) := by
  intro c d htwin
  unfold menu
  split
  · exact .error htwin _
  · obtain ⟨hentry, hexit, hpush⟩ := htwin.pushLoop
    obtain ⟨hlabels, hnew⟩ := (hpush.place c.pushLoop.1.entry).newLabels (pages es.length es).length
    have hpages := repeats_pageSeq next prev c.pushLoop.1.exit (forall_labelled h es.length
      ((c.pushLoop.2.place c.pushLoop.1.entry).newLabels (pages es.length es).length).1) _ _ hnew
    dsimp only
    rw [hentry, hexit, hlabels, List.zip_map_left]
    exact hpages.finish fun _ _ hlast => (hlast.place _).popLoop

end Build

open Build

mutual

/-- A construct that needs no names does the same in the second run. -/
theorem Construct.repeats {a b : Context} (k : Construct) (h : k.nameless = true) :
    Repeats a b k.expand k.expand := by
  cases k with
  | op o => exact repeats_op o
  | label name => cases h
  | block body => exact repeats_seq (repeats_expandAll body h)
  | ifElse cond yes no =>
    obtain ⟨hy, hn⟩ := Bool.and_eq_true_iff.mp h
    exact repeats_branch cond (repeats_expandAll yes hy) (repeats_expandAll no hn)
  | loop body => exact repeats_loop (repeats_seq (repeats_expandAll body h))
  | switch reg cases default =>
    obtain ⟨hc, hd⟩ := Bool.and_eq_true_iff.mp h
    exact repeats_switch reg (repeats_expandCases cases hc) (repeats_expandAll default hd)
  | leave name =>
    obtain rfl := Option.isNone_iff_eq_none.mp h
    exact repeats_toLoop _ fun lp lp' c d _ hexit htwin => hexit ▸ htwin.jump lp.exit
  | again name =>
    obtain rfl := Option.isNone_iff_eq_none.mp h
    exact repeats_toLoop _ fun lp lp' c d hentry _ htwin => hentry ▸ htwin.jump lp.entry
  | leaveIf cond name =>
    obtain rfl := Option.isNone_iff_eq_none.mp h
    exact repeats_toLoop _ fun lp lp' c d _ hexit htwin => hexit ▸ htwin.jumpIf cond.normalize lp.exit
  | againIf cond name =>
    obtain rfl := Option.isNone_iff_eq_none.mp h
    exact repeats_toLoop _ fun lp lp' c d hentry _ htwin => hentry ▸ htwin.jumpIf cond.normalize lp.entry
  | ifFileExists file yes no =>
    obtain ⟨hy, hn⟩ := Bool.and_eq_true_iff.mp h
    exact repeats_ifFileExists file (repeats_expandAll yes hy) (repeats_expandAll no hn)
  | getResult dst => exact repeats_getResult dst
  | menuLines lines => exact repeats_menuLines lines
  | menuLoop entries next prev => exact repeats_menu next prev (repeats_expandEntries entries h)

theorem repeats_expandAll {a b : Context} (ks : List Construct) (h : namelessAll ks = true) :
    ∀ s ∈ expandAll ks, Repeats a b s s := by
  cases ks with
  | nil => exact fun s hs => nomatch hs
  | cons k rest =>
    obtain ⟨hk, hrest⟩ := Bool.and_eq_true_iff.mp h
    intro s hs
    rcases List.mem_cons.mp hs with rfl | hs
    · exact k.repeats hk
    · exact repeats_expandAll rest hrest s hs

theorem repeats_expandCases {a b : Context} (cs : List Case) (h : namelessCases cs = true) :
    ∀ k ∈ expandCases cs, ∀ s ∈ k.2, Repeats a b s s := by
  rcases cs with _ | ⟨⟨key, body⟩, rest⟩
  · exact fun k hk => nomatch hk
  · obtain ⟨hbody, hrest⟩ := Bool.and_eq_true_iff.mp h
    intro k hk
    rcases List.mem_cons.mp hk with rfl | hk
    · exact repeats_expandAll body hbody
    · exact repeats_expandCases rest hrest k hk

theorem repeats_expandEntries {a b : Context} (es : List MenuEntry) (h : namelessEntries es = true) :
    ∀ e ∈ expandEntries es, ∀ action, e.2 = some action → ∀ s ∈ action, Repeats a b s s := by
  rcases es with _ | ⟨⟨text, action⟩, rest⟩
  · exact fun e he => nomatch he
  · obtain ⟨haction, hrest⟩ := Bool.and_eq_true_iff.mp h
    intro e he
    rcases List.mem_cons.mp he with rfl | he
    · intro ss hss
      rcases action with _ | body
      · cases hss
      · cases hss
        exact repeats_expandAll body haction
    · exact repeats_expandEntries rest hrest e he

end

/-- A construct without names for labels and loops, expanded once more behind itself, succeeds again and
appends the same instructions but for the labels that the first expansion has created: they are renamed,
one by one, to those that the second one creates. The labels of the loops around it stay, and so do the
operations and conditions with all their registers. -/
theorem Construct.expand_again (k : Construct) (hk : k.nameless = true) {c : Context} (hc : c.Made)
    (hok : (k.expand c).2 = .ok ()) :
    (k.expand (k.expand c).1).2 = .ok () ∧
      ∃ f : Label → Label, Function.Injective f ∧
        (∀ lp ∈ c.loops, f lp.entry = lp.entry ∧ f lp.exit = lp.exit) ∧
        (c.created (k.expand c).1).map f = (k.expand c).1.created (k.expand (k.expand c).1).1 ∧
        ∃ code, (k.expand c).1.code = c.code ++ code ∧
          (k.expand (k.expand c).1).1.code = (k.expand c).1.code ++ code.map (.rename f) := by
  have hopened := hc.opened
  obtain ⟨hresult, htwin⟩ := k.repeats hk c (k.expand c).1 (.start hopened (k.balanced c))
  refine ⟨hresult.trans hok, c.shift (k.expand c).1, c.shift_injective _, fun lp hlp => ?_,
    htwin.created_shift (k.balanced c).size, htwin.code⟩
  obtain ⟨hentry, hexit⟩ := hopened lp hlp
  exact ⟨Context.shift_old hentry, Context.shift_old hexit⟩

/-- A menu, one entry of which leaves it, before the loop around it starts again. -/
def Construct.menuBeforeAgain : Construct :=
  .block [.menuLoop [.mk .empty (some [.leave none]), .mk .empty none] (some .enter) none,
    .again none]

/-- A context in which a loop has been opened. -/
def Context.inLoop : Context := Context.initial.pushLoop.2

/-- The menu has six labels of its own, and the last jump leads to the loop both times. -/
theorem Construct.expand_again_menuBeforeAgain :
    Context.inLoop.created (menuBeforeAgain.expand .inLoop).1 = (List.range' 3 6).map Label.mk ∧
      ∃ f : Label → Label, Function.Injective f ∧ f ⟨1⟩ = ⟨1⟩ ∧
        ((List.range' 3 6).map Label.mk).map f = (List.range' 9 6).map Label.mk ∧
        ∃ code, (menuBeforeAgain.expand .inLoop).1.code = Context.inLoop.code ++ code ∧
          (menuBeforeAgain.expand (menuBeforeAgain.expand .inLoop).1).1.code =
            (menuBeforeAgain.expand .inLoop).1.code ++ code.map (.rename f) := by
  have hok : (menuBeforeAgain.expand .inLoop).2 = .ok () := by decide +kernel
  obtain ⟨-, f, hf, hloops, hcreated, hcode⟩ :=
    menuBeforeAgain.expand_again rfl (c := .inLoop) (.pushLoop .initial) hok
  have hfirst : Context.inLoop.created (menuBeforeAgain.expand .inLoop).1 =
      (List.range' 3 6).map Label.mk := by decide +kernel
  have hsecond : (menuBeforeAgain.expand .inLoop).1.created
      (menuBeforeAgain.expand (menuBeforeAgain.expand .inLoop).1).1 = (List.range' 9 6).map Label.mk := by
    decide +kernel
  rw [hfirst, hsecond] at hcreated
  exact ⟨hfirst, f, hf, (hloops ⟨⟨1⟩, ⟨2⟩, none⟩ List.mem_cons_self).1, hcreated, hcode⟩

end Handheld
