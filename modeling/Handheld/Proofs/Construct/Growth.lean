import Handheld.Proofs.Construct.Success
import Handheld.Proofs.Program.Link
import Mathlib.Data.List.Nodup

namespace Handheld

namespace Context

/-- The labels created on the way from one context to another, in order. -/
def created (c c' : Context) : List Label :=
  (List.range' c.labels.size (c'.labels.size - c.labels.size)).map Label.mk

/-- The instructions added on the way from one context to another. -/
def added (c c' : Context) : List Instruction := c'.code.drop c.code.length

/-- Where jumps may lead that are added on the way from one context to another: to a label created
there, or to a loop that was open before. -/
def Reaches (c c' : Context) (t : Label) : Prop :=
  t ∈ c.created c' ∨ ∃ lp ∈ c.loops, t = lp.entry ∨ t = lp.exit

variable {c c' c'' : Context} {pending p q : List Label} {t : Label}

theorem mem_created : t ∈ c.created c' ↔ c.labels.size ≤ t.id ∧ t.id < c'.labels.size := by
  simp only [created, List.mem_map, List.mem_range'_1]
  constructor
  · rintro ⟨i, hi, rfl⟩
    show c.labels.size ≤ i ∧ i < c'.labels.size
    omega
  · intro h
    exact ⟨t.id, by omega, rfl⟩

/-- What a jump may lead to, later jumps may lead to as well. -/
theorem Reaches.mono (h : c.Reaches c' t) (hle : c'.labels.size ≤ c''.labels.size) :
    c.Reaches c'' t := by
  rcases h with h | h
  · obtain ⟨hlow, hhigh⟩ := mem_created.mp h
    exact .inl (mem_created.mpr ⟨hlow, Nat.lt_of_lt_of_le hhigh hle⟩)
  · exact .inr h

theorem nodup_created (c c' : Context) : (c.created c').Nodup :=
  List.Nodup.map (fun _ _ h => Label.mk.inj h) List.nodup_range'

theorem created_append (h : c.labels.size ≤ c'.labels.size) (h' : c'.labels.size ≤ c''.labels.size) :
    c.created c'' = c.created c' ++ c'.created c'' := by
  have hmid : c'.labels.size = c.labels.size + (c'.labels.size - c.labels.size) := by omega
  have hlen : c''.labels.size - c.labels.size =
      (c'.labels.size - c.labels.size) + (c''.labels.size - c'.labels.size) := by omega
  simp only [created]
  rw [← List.map_append, hlen, ← List.range'_append_1, ← hmid]

theorem added_eq {code : List Instruction} (h : c'.code = c.code ++ code) : c.added c' = code := by
  simp [added, h]

theorem added_append (h : c.code <+: c'.code) (h' : c'.code <+: c''.code) :
    c.added c'' = c.added c' ++ c'.added c'' := by
  obtain ⟨a, ha⟩ := h
  obtain ⟨b, hb⟩ := h'
  have hcode : c''.code = c.code ++ (a ++ b) := by rw [← hb, ← ha, List.append_assoc]
  rw [added_eq hcode, added_eq ha.symm, added_eq hb.symm]

/-- Blank labels, instructions and loops have been added. Of the new labels some are pending, and
every other one is placed once. -/
structure Grown (c c' : Context) (pending : List Label) : Prop where
  table : ∃ n, c'.labels = ⟨c.labels.slots ++ List.replicate n .blank⟩
  code : c.code <+: c'.code
  placed : (pending ++ placedLabels (c.added c')).Perm (c.created c')
  targets : ∀ i ∈ c.added c', ∀ t, i.target? = some t → c.Reaches c' t
  loops : ∀ lp ∈ c'.loops, c.Reaches c' lp.entry ∧ c.Reaches c' lp.exit
  ops : ∀ o, .op o ∈ c.added c' → o.Proper

namespace Grown

theorem size_le (h : c.Grown c' pending) : c.labels.size ≤ c'.labels.size := by
  obtain ⟨n, hn⟩ := h.table
  simp [hn, LabelTable.size]

theorem refl (c : Context) : c.Grown c [] := by
  refine ⟨⟨0, by simp⟩, List.prefix_refl _, ?_, ?_, ?_, ?_⟩
  · simp [added, created, placedLabels]
  · simp [added]
  · intro lp hlp
    exact ⟨.inr ⟨lp, hlp, .inl rfl⟩, .inr ⟨lp, hlp, .inr rfl⟩⟩
  · simp [added]

theorem perm (h : c.Grown c' p) (hp : p.Perm q) : c.Grown c' q :=
  { h with placed := (hp.symm.append_right _).trans h.placed }

/-- Nothing but instructions, labels and loops counts. -/
theorem congr (h : c.Grown c' pending) (hcode : c''.code = c'.code) (hlabels : c''.labels = c'.labels)
    (hloops : c''.loops = c'.loops) : c.Grown c'' pending := by
  have hadded : c.added c'' = c.added c' := by simp only [added, hcode]
  have hcreated : c.created c'' = c.created c' := by simp only [created, hlabels]
  have hle : c'.labels.size ≤ c''.labels.size := Nat.le_of_eq (congrArg LabelTable.size hlabels.symm)
  refine ⟨hlabels ▸ h.table, hcode ▸ h.code, ?_, ?_, ?_, ?_⟩
  · rw [hadded, hcreated]
    exact h.placed
  · rw [hadded]
    intro i hi t ht
    exact (h.targets i hi t ht).mono hle
  · rw [hloops]
    intro lp hlp
    exact ⟨(h.loops lp hlp).1.mono hle, (h.loops lp hlp).2.mono hle⟩
  · rw [hadded]
    exact h.ops

/-- A pending label has been created. -/
theorem pending_mem (h : c.Grown c' pending) (ht : t ∈ pending) : t ∈ c.created c' :=
  h.placed.subset (List.mem_append_left _ ht)

theorem pending_reaches (h : c.Grown c' pending) (ht : t ∈ pending) : c.Reaches c' t :=
  .inl (h.pending_mem ht)

/-- What is added to a context that has grown already has been added to the first one. -/
theorem trans (h : c.Grown c' p) (h' : c'.Grown c'' q) : c.Grown c'' (p ++ q) := by
  have hadded := added_append h.code h'.code
  have hcreated := created_append h.size_le h'.size_le
  have hreaches (t : Label) (ht : c'.Reaches c'' t) : c.Reaches c'' t := by
    rcases ht with ht | ⟨lp, hlp, ht⟩
    · rw [Reaches, hcreated]
      exact .inl (List.mem_append_right _ ht)
    · obtain ⟨hentry, hexit⟩ := h.loops lp hlp
      rcases ht with rfl | rfl
      · exact hentry.mono h'.size_le
      · exact hexit.mono h'.size_le
  refine ⟨?_, h.code.trans h'.code, ?_, ?_, ?_, ?_⟩
  · obtain ⟨m, hm⟩ := h.table
    obtain ⟨n, hn⟩ := h'.table
    refine ⟨m + n, ?_⟩
    rw [hn, hm, List.append_assoc, List.replicate_append_replicate]
  · rw [hadded, hcreated, placedLabels_append]
    refine List.Perm.trans ?_ (h.placed.append h'.placed)
    simp only [List.append_assoc]
    refine List.Perm.append_left p ?_
    simp only [← List.append_assoc]
    exact List.Perm.append_right _ List.perm_append_comm
  · rw [hadded]
    intro i hi t ht
    rcases List.mem_append.mp hi with hi | hi
    · exact (h.targets i hi t ht).mono h'.size_le
    · exact hreaches t (h'.targets i hi t ht)
  · intro lp hlp
    obtain ⟨hentry, hexit⟩ := h'.loops lp hlp
    exact ⟨hreaches _ hentry, hreaches _ hexit⟩
  · rw [hadded]
    intro o ho
    rcases List.mem_append.mp ho with ho | ho
    · exact h.ops o ho
    · exact h'.ops o ho

/-- A part that leaves no label pending. -/
theorem follow (h : c.Grown c' pending) (h' : c'.Grown c'' []) : c.Grown c'' pending := by
  have ht := h.trans h'
  rwa [List.append_nil] at ht

theorem newLabel (h : c.Grown c' pending) : c.Grown c'.newLabel.2 (c'.newLabel.1 :: pending) := by
  have hone : c'.Grown c'.newLabel.2 [c'.newLabel.1] := by
    have hadded : c'.added c'.newLabel.2 = [] := by simp [added, Context.newLabel]
    have hcreated : c'.created c'.newLabel.2 = [c'.newLabel.1] := by
      simp [created, Context.newLabel, LabelTable.create, LabelTable.size]
    refine ⟨⟨1, rfl⟩, List.prefix_refl _, ?_, ?_, ?_, ?_⟩
    · rw [hadded, hcreated]
      exact List.Perm.refl _
    · simp [hadded]
    · intro lp hlp
      exact ⟨.inr ⟨lp, hlp, .inl rfl⟩, .inr ⟨lp, hlp, .inr rfl⟩⟩
    · simp [hadded]
  exact (h.trans hone).perm List.perm_append_comm

theorem newLabels (h : c.Grown c' pending) (k : Nat) :
    c.Grown (c'.newLabels k).2 ((c'.newLabels k).1 ++ pending) := by
  induction k generalizing c' pending with
  | zero => exact h
  | succ k ih => exact (ih h.newLabel).perm List.perm_middle

theorem added_emit (h : c.code <+: c'.code) (i : Instruction) :
    c.added (c'.emit i) = c.added c' ++ [i] := by
  rw [added_append h (List.prefix_append _ _)]
  simp [added, Context.emit]

/-- An instruction that places no label. -/
theorem emit (h : c.Grown c' pending) {i : Instruction} (hl : i.label? = none)
    (ht : ∀ t, i.target? = some t → c.Reaches c' t) (ho : ∀ o, i = .op o → o.Proper) :
    c.Grown (c'.emit i) pending := by
  have hadded := added_emit h.code i
  have hplaced : placedLabels (c.added c' ++ [i]) = placedLabels (c.added c') := by
    simp [placedLabels, hl]
  refine ⟨h.table, h.code.trans (List.prefix_append _ _), ?_, ?_, h.loops, ?_⟩
  · rw [hadded, hplaced]
    exact h.placed
  · rw [hadded]
    intro j hj t hjt
    rcases List.mem_append.mp hj with hj | hj
    · exact h.targets j hj t hjt
    · exact ht t (List.mem_singleton.mp hj ▸ hjt)
  · rw [hadded]
    intro o hmem
    rcases List.mem_append.mp hmem with hmem | hmem
    · exact h.ops o hmem
    · exact ho o (List.mem_singleton.mp hmem).symm

theorem op (h : c.Grown c' pending) {o : Operation} (ho : o.Proper) : c.Grown (c'.op o) pending :=
  h.emit rfl (fun _ ht => nomatch ht) fun _ he => Instruction.op.inj he ▸ ho

theorem jump (h : c.Grown c' pending) (ht : c.Reaches c' t) : c.Grown (c'.jump t) pending :=
  h.emit rfl (fun _ hu => Option.some.inj hu ▸ ht) fun _ he => nomatch he

theorem jumpIf (h : c.Grown c' pending) (cond : Condition) (ht : c.Reaches c' t) :
    c.Grown (c'.jumpIf cond t) pending :=
  h.emit rfl (fun _ hu => Option.some.inj hu ▸ ht) fun _ he => nomatch he

theorem place (h : c.Grown c' (t :: pending)) : c.Grown (c'.place t) pending := by
  have hadded := added_emit h.code (.label t)
  have hplaced : placedLabels (c.added c' ++ [.label t]) = placedLabels (c.added c') ++ [t] := by
    simp [placedLabels, Instruction.label?]
  refine ⟨h.table, h.code.trans (List.prefix_append _ _), ?_, ?_, h.loops, ?_⟩
  · rw [Context.place, hadded, hplaced, ← List.append_assoc]
    exact (List.perm_append_singleton t _).trans h.placed
  · rw [Context.place, hadded]
    intro j hj u hju
    rcases List.mem_append.mp hj with hj | hj
    · exact h.targets j hj u hju
    · cases List.mem_singleton.mp hj
      cases hju
  · rw [Context.place, hadded]
    intro o hmem
    rcases List.mem_append.mp hmem with hmem | hmem
    · exact h.ops o hmem
    · cases List.mem_singleton.mp hmem

theorem pushLoop (h : c.Grown c' pending) :
    c.Grown c'.pushLoop.2 (c'.pushLoop.1.entry :: c'.pushLoop.1.exit :: pending) := by
  have hnew := h.newLabel.newLabel.perm (List.Perm.swap _ _ _)
  refine ⟨hnew.table, hnew.code, hnew.placed, hnew.targets, ?_, hnew.ops⟩
  intro lp hlp
  rcases List.mem_cons.mp hlp with rfl | hlp
  · exact ⟨hnew.pending_reaches List.mem_cons_self,
      hnew.pending_reaches (List.mem_cons_of_mem _ List.mem_cons_self)⟩
  · exact hnew.loops lp hlp

theorem popLoop (h : c.Grown c' pending) : c.Grown c'.popLoop pending :=
  ⟨h.table, h.code, h.placed, h.targets, fun lp hlp => h.loops lp (List.mem_of_mem_tail hlp), h.ops⟩

end Grown

theorem mem_loops_of_findLoop {name : Option String} {construct : String} {lp : Loop}
    (h : c.findLoop name construct = .ok lp) : lp ∈ c.loops := by
  cases name with
  | none =>
    unfold findLoop currentLoop at h
    simp only at h
    split at h
    · next hl => rw [hl]; cases h; exact List.mem_cons_self
    · cases h
  | some name =>
    unfold findLoop labeledLoop at h
    simp only at h
    split at h
    · next hl =>
      cases h
      obtain ⟨l, -, hf⟩ := Option.bind_eq_some_iff.mp hl
      exact List.mem_of_find?_eq_some hf
    · cases h

end Context

namespace Build

open Context

/-- A successful step places every label that it creates. -/
def Grows (b : Build) : Prop := ∀ c c' : Context, b c = (c', .ok ()) → c.Grown c' []

variable {c₀ c c' : Context} {pending : List Label}

theorem grows_op (o : Operation) : (op o).Grows := by
  intro c c' h
  obtain ⟨rfl, hp⟩ := op_ok h
  exact (Grown.refl c).op hp

theorem grows_label (name : String) : (label name).Grows := by
  intro c c' h
  obtain ⟨-, rfl⟩ := label_ok h
  have hnew := (Grown.refl c).newLabel
  exact Grown.place (hnew.congr rfl rfl rfl)

/-- A jump to an open loop. -/
theorem grows_toLoop (name : Option String) (construct : String) {jump : Loop → Context → Context}
    (hj : ∀ (c : Context) (lp : Loop), lp ∈ c.loops → c.Grown (jump lp c) []) :
    (toLoop name construct jump).Grows := by
  intro c c' h
  obtain ⟨lp, hl, rfl⟩ := toLoop_ok h
  exact hj c lp (mem_loops_of_findLoop hl)

theorem grows_seq {bs : List Build} (h : ∀ b ∈ bs, b.Grows) : (seq bs).Grows := by
  induction bs with
  | nil =>
    intro c c' hok
    rw [seq_nil_ok hok]
    exact Grown.refl c
  | cons b rest ih =>
    intro c c' hok
    obtain ⟨c₁, hb, hrest⟩ := seq_cons_ok hok
    have hfirst := h b List.mem_cons_self c c₁ hb
    have hothers := ih (fun b' hb' => h b' (List.mem_cons_of_mem b hb')) c₁ c' hrest
    exact hfirst.follow hothers

theorem grows_loop {body : Build} (h : body.Grows) : (loop body).Grows := by
  intro c c' hok
  obtain ⟨c₁, hb, rfl⟩ := loop_ok hok
  have hpush := (Grown.refl c).pushLoop
  have hbody := h _ _ hb
  have hentry := (hpush.pending_reaches List.mem_cons_self).mono hbody.size_le
  exact ((hpush.place.follow hbody).jump hentry).place.popLoop

theorem grows_branch (cond : Condition) {yes no : List Build} (hy : ∀ b ∈ yes, b.Grows)
    (hn : ∀ b ∈ no, b.Grows) : (branch cond yes no).Grows := by
  intro c c' hok
  have hnew := (Grown.refl c).newLabel
  have hexit := hnew.pending_reaches List.mem_cons_self
  rcases branch_ok hok with ⟨-, -, rfl⟩ | ⟨-, -, c₁, h₁, rfl⟩ | ⟨-, -, c₁, h₁, rfl⟩ |
    ⟨-, -, c₁, c₂, h₁, h₂, rfl⟩
  · exact Grown.refl c'
  · have hyes := grows_seq hy _ _ h₁
    exact ((hnew.jumpIf _ hexit).follow hyes).place
  · have hno := grows_seq hn _ _ h₁
    exact ((hnew.jumpIf _ hexit).follow hno).place
  · -- both labels are pending in the first branch, the one of the second is placed between them
    have hboth := hnew.newLabel
    have hother := hboth.pending_reaches (List.mem_cons_of_mem _ List.mem_cons_self)
    have hyes := (hboth.jumpIf _ hother).follow (grows_seq hy _ _ h₁)
    have hjump := hyes.jump (hyes.pending_reaches List.mem_cons_self)
    have hmid := (hjump.perm (List.Perm.swap _ _ _)).place
    exact (hmid.follow (grows_seq hn _ _ h₂)).place

theorem grown_tests (reg : Register) {ts : List (Operand × Label)}
    (h : c₀.Grown c pending) (ht : ∀ t ∈ ts, c₀.Reaches c t.2) :
    c₀.Grown (tests reg c ts) pending := by
  induction ts generalizing c with
  | nil => exact h
  | cons t rest ih =>
    have hfirst := h.jumpIf (Condition.mk reg .eq t.1).normalize (ht t List.mem_cons_self)
    exact ih hfirst fun u hu => ht u (List.mem_cons_of_mem t hu)

/-- Bodies behind labels that wait for them. -/
theorem grown_bodies {exit : Label} {targets : List (Label × List Build)}
    (h : ∀ t ∈ targets, ∀ b ∈ t.2, b.Grows) (hok : bodies exit targets c = (c', .ok ()))
    (hg : c₀.Grown c (targets.map (·.1) ++ pending)) (he : c₀.Reaches c exit) :
    c₀.Grown c' pending ∧ c.labels.size ≤ c'.labels.size := by
  induction targets generalizing c with
  | nil =>
    obtain rfl := bodies_nil_ok hok
    exact ⟨hg, Nat.le_refl _⟩
  | cons t rest ih =>
    obtain ⟨l, body⟩ := t
    obtain ⟨c₁, hb, hrest⟩ := bodies_cons_ok hok
    have hbody := grows_seq (h _ List.mem_cons_self) _ _ hb
    have he₁ : c₀.Reaches c₁ exit := he.mono hbody.size_le
    have hfirst := (hg.place.follow hbody).jump he₁
    obtain ⟨hothers, hle⟩ := ih (fun t ht => h t (List.mem_cons_of_mem _ ht)) hrest hfirst he₁
    exact ⟨hothers, Nat.le_trans hbody.size_le hle⟩

/-- The head of a switch leaves its exit and the labels of its bodies pending. -/
theorem grown_dispatch (reg : Register) (cases : List (Operand × List Build)) (default : List Build)
    (c : Context) :
    c.Grown (dispatch reg cases default c).2.2
      ((dispatch reg cases default c).2.1.map (·.1) ++ [(dispatch reg cases default c).1]) := by
  have hnew := ((Grown.refl c).newLabel).newLabels cases.length
  have hlen := c.newLabel.2.length_newLabels cases.length
  have hlabels : ∀ t ∈ (cases.map (·.1)).zip (c.newLabel.2.newLabels cases.length).1,
      c.Reaches (c.newLabel.2.newLabels cases.length).2 t.2 := by
    intro t ht
    exact hnew.pending_reaches (List.mem_append_left _ (List.of_mem_zip ht).2)
  have htests := grown_tests reg hnew hlabels
  have hmap : ((c.newLabel.2.newLabels cases.length).1.zip (cases.map (·.2))).map (·.1) =
      (c.newLabel.2.newLabels cases.length).1 :=
    List.map_fst_zip (by simp [hlen])
  unfold dispatch
  simp only
  split
  · simp only [hmap]
    exact htests.jump (htests.pending_reaches (List.mem_append_right _ List.mem_cons_self))
  · have hother := htests.newLabel
    simp only [List.map_append, hmap, List.map_cons, List.map_nil, List.append_assoc]
    exact (hother.jump (hother.pending_reaches List.mem_cons_self)).perm List.perm_middle.symm

theorem grows_switch (reg : Register) {cases : List (Operand × List Build)} {default : List Build}
    (hc : ∀ k ∈ cases, ∀ b ∈ k.2, b.Grows) (hd : ∀ b ∈ default, b.Grows) :
    (switch reg cases default).Grows := by
  intro c c' hok
  obtain ⟨-, c₁, hb, rfl⟩ := switch_ok hok
  have hhead := grown_dispatch reg cases default c
  have hmem := forall_dispatch hc hd reg c
  have hexit := hhead.pending_reaches (List.mem_append_right _ List.mem_cons_self)
  exact (grown_bodies hmem hb hhead hexit).1.place

theorem proper_menuLine (row : Nat) (l : MenuLine) : (menuLine row l).Proper := by
  intro r hr
  cases l <;> cases hr

theorem grown_lines (i : Nat) (ls : List MenuLine) (h : c₀.Grown c pending) :
    c₀.Grown (lines i c ls) pending := by
  induction ls generalizing i c with
  | nil => exact h
  | cons l rest ih => exact ih _ (h.op (proper_menuLine _ l))

theorem proper_displayClear : Operation.displayClear.Proper := fun _ hr => nomatch hr

theorem grows_menuLines (ls : List MenuLine) : (menuLines ls).Grows := by
  intro c c' h
  rw [menuLines_ok h]
  exact grown_lines 0 ls ((Grown.refl c).op proper_displayClear)

theorem grows_ifFileExists (file : FileName) {yes no : List Build} (hy : ∀ b ∈ yes, b.Grows)
    (hn : ∀ b ∈ no, b.Grows) : (ifFileExists file yes no).Grows := by
  intro c c' hok
  have hbranch := grows_branch succeeded hy hn _ _ hok
  exact ((Grown.refl c).op (o := .fileExists file) fun _ hr => nomatch hr).follow hbranch

theorem grows_getResult (dst : Register) : (getResult dst).Grows := by
  refine grows_switch .rslt (fun k hk b hb => ?_) fun b hb => ?_
  · obtain ⟨n, -, rfl⟩ := List.mem_map.mp hk
    exact List.mem_singleton.mp hb ▸ grows_op _
  · exact List.mem_singleton.mp hb ▸ grows_op _

theorem grown_keyTest (key : Register) (k : Option Key) {target : Label}
    (h : c₀.Grown c pending) (ht : c₀.Reaches c target) :
    c₀.Grown (keyTest key k target c) pending := by
  cases k with
  | none => exact h
  | some k => exact h.jumpIf _ ht

/-- The digits of a page leave the labels of its actions pending. -/
theorem grown_digitTests (key : Register) (digit : Nat) (es : List Entry) (c : Context) :
    c.Grown (digitTests key digit c es).2 ((digitTests key digit c es).1.map (·.1)) := by
  induction es generalizing digit c with
  | nil => exact Grown.refl c
  | cons e rest ih =>
    rcases e with ⟨text, _ | action⟩
    · exact ih digit c
    · have hnew := (Grown.refl c).newLabel
      have htest := hnew.jumpIf ⟨key, .eq, .value (.int (Int32.ofNat (48 + digit)))⟩
        (hnew.pending_reaches List.mem_cons_self)
      exact htest.trans (ih (digit + 1) _)

theorem labels_lines (i : Nat) (c : Context) (ls : List MenuLine) : (lines i c ls).labels = c.labels := by
  induction ls generalizing i c with
  | nil => rfl
  | cons l rest ih => exact ih _ _

theorem labels_keyTest (key : Register) (k : Option Key) (target : Label) (c : Context) :
    (keyTest key k target c).labels = c.labels := by
  cases k <;> rfl

/-- A page jumps to where its previous key leads, apart from its own labels. -/
theorem grown_pageBody (next prev : Option Key) {back : Label} (last : Bool) {es : List Entry}
    (h : ∀ e ∈ es, ∀ action, e.2 = some action → ∀ b ∈ action, b.Grows) {key : Register}
    (hkey : key.isSystem = false) (hok : pageBody next prev back last es key c = (c', .ok ()))
    (hg : c₀.Grown c pending) (hback : c₀.Reaches c back) :
    c₀.Grown c' pending ∧ c.labels.size ≤ c'.labels.size := by
  have hnew := hg.newLabel.newLabel
  have hclear := (hnew.perm (List.Perm.swap _ _ _)).place.op proper_displayClear
  have hproper : (Operation.noEchoInput key).Proper := fun r hr => Option.some.inj hr ▸ hkey
  let start := c.newLabel.2.newLabel.2
  let digits := (digitTests key 1 (shown es key c) es).2
  have hshow : c₀.Grown (shown es key c) (c.newLabel.2.newLabel.1 :: pending) :=
    (grown_lines 0 _ hclear).op hproper
  have hdigits := grown_digitTests key 1 es (shown es key c)
  have hstart : start.labels.size ≤ digits.labels.size := by
    have hshown : (shown es key c).labels = start.labels := labels_lines _ _ _
    rw [← hshown]
    exact hdigits.size_le
  have hsize : c.labels.size ≤ start.labels.size := (Grown.refl c).newLabel.newLabel.size_le
  -- where the tests of the page lead was there before the digits
  have htop : c₀.Reaches digits c.newLabel.1 :=
    (hnew.pending_reaches (List.mem_cons_of_mem _ List.mem_cons_self)).mono hstart
  have hbottom : c₀.Reaches digits c.newLabel.2.newLabel.1 :=
    (hnew.pending_reaches List.mem_cons_self).mono hstart
  have hbefore : c₀.Reaches digits back := hback.mono (Nat.le_trans hsize hstart)
  have hlast : c₀.Reaches digits (if last then c.newLabel.1 else c.newLabel.2.newLabel.1) := by
    cases last
    · exact hbottom
    · exact htop
  let keys := keyTest key next (if last then c.newLabel.1 else c.newLabel.2.newLabel.1)
    (keyTest key prev back digits)
  have hprev := labels_keyTest key prev back digits
  have hkeys : keys.labels = digits.labels := (labels_keyTest _ _ _ _).trans hprev
  have htests := grown_keyTest key next (grown_keyTest key prev (hshow.trans hdigits) hbefore)
    (hlast.mono (Nat.le_of_eq (congrArg LabelTable.size hprev.symm)))
  have htop : c₀.Reaches keys c.newLabel.1 :=
    htop.mono (Nat.le_of_eq (congrArg LabelTable.size hkeys.symm))
  obtain ⟨c₁, hactions, rfl⟩ := pageBody_ok hok
  obtain ⟨hact, hle⟩ := grown_bodies (forall_digitTests h key 1 (shown es key c))
    (bodies_of_actions hactions) ((htests.jump htop).perm List.perm_append_comm) htop
  have hkeys : keys.labels.size = digits.labels.size := congrArg LabelTable.size hkeys
  have hle : keys.labels.size ≤ c₁.labels.size := hle
  exact ⟨hact.place, Nat.le_trans hsize (Nat.le_trans hstart (hkeys ▸ hle))⟩

theorem grown_page (next prev : Option Key) {back : Label} (last : Bool) {es : List Entry}
    (h : ∀ e ∈ es, ∀ action, e.2 = some action → ∀ b ∈ action, b.Grows)
    (hok : page next prev back last es c = (c', .ok ())) (hg : c₀.Grown c pending)
    (hback : c₀.Reaches c back) : c₀.Grown c' pending ∧ c.labels.size ≤ c'.labels.size := by
  obtain ⟨r, c₁, c₂, ha, hb, hr⟩ := withTemporary_ok hok
  obtain ⟨hcode, hlabels, hloops, hsys⟩ := allocate_ok ha
  have hback₁ : c₀.Reaches c₁ back := hback.mono (Nat.le_of_eq (congrArg LabelTable.size hlabels.symm))
  obtain ⟨hbody, hle⟩ := grown_pageBody next prev last h hsys hb (hg.congr hcode hlabels hloops) hback₁
  obtain ⟨hcode', hlabels', hloops'⟩ := release_ok hr
  exact ⟨hbody.congr hcode' hlabels' hloops', by rwa [hlabels', ← hlabels]⟩

theorem grown_pageSeq (next prev : Option Key) {back : Label} {ps : List (Label × List Entry)}
    (h : ∀ p ∈ ps, ∀ e ∈ p.2, ∀ action, e.2 = some action → ∀ b ∈ action, b.Grows)
    (hok : pageSeq next prev back ps c = (c', .ok ()))
    (hg : c₀.Grown c (ps.map (·.1) ++ pending)) (hback : c₀.Reaches c back) :
    c₀.Grown c' pending := by
  induction ps generalizing c back with
  | nil =>
    obtain rfl : c = c' := (Prod.mk.inj hok).1
    exact hg
  | cons p rest ih =>
    obtain ⟨l, es⟩ := p
    obtain ⟨c₁, hp, hrest⟩ := pageSeq_cons_ok hok
    have hl := hg.pending_reaches List.mem_cons_self
    obtain ⟨hpage, hle⟩ := grown_page next prev rest.isEmpty (h _ List.mem_cons_self) hp hg.place hback
    -- the label of this page is where the next one goes back to
    exact ih (fun p hp => h p (List.mem_cons_of_mem _ hp)) hrest hpage (hl.mono hle)

theorem grows_menu {es : List Entry} (next prev : Option Key)
    (h : ∀ e ∈ es, ∀ action, e.2 = some action → ∀ b ∈ action, b.Grows) :
    (menu es next prev).Grows := by
  intro c c' hok
  obtain ⟨c₁, hp, rfl⟩ := menu_ok hok
  have hlabels := (Grown.refl c).pushLoop.place.newLabels (pages es.length es).length
  have hexit := hlabels.pending_reaches (List.mem_append_right _ List.mem_cons_self)
  rw [← List.map_fst_zip (Nat.le_of_eq (length_newLabels _ _))] at hlabels
  exact (grown_pageSeq next prev (forall_labelled h _ _) hp hlabels hexit).place.popLoop

end Build

open Build

mutual

/-- A construct that expands adds to its context what belongs together. -/
theorem Construct.grows (k : Construct) : k.expand.Grows := by
  cases k with
  | op o => exact grows_op o
  | label name => exact grows_label name
  | block body => exact grows_seq (grows_expandAll body)
  | ifElse cond yes no => exact grows_branch cond (grows_expandAll yes) (grows_expandAll no)
  | loop body => exact grows_loop (grows_seq (grows_expandAll body))
  | switch reg cases default =>
    exact grows_switch reg (grows_expandCases cases) (grows_expandAll default)
  | leave name =>
    exact grows_toLoop name _ fun c lp hlp => (Context.Grown.refl c).jump (.inr ⟨lp, hlp, .inr rfl⟩)
  | again name =>
    exact grows_toLoop name _ fun c lp hlp => (Context.Grown.refl c).jump (.inr ⟨lp, hlp, .inl rfl⟩)
  | leaveIf cond name =>
    exact grows_toLoop name _ fun c lp hlp =>
      (Context.Grown.refl c).jumpIf _ (.inr ⟨lp, hlp, .inr rfl⟩)
  | againIf cond name =>
    exact grows_toLoop name _ fun c lp hlp =>
      (Context.Grown.refl c).jumpIf _ (.inr ⟨lp, hlp, .inl rfl⟩)
  | ifFileExists file yes no =>
    exact grows_ifFileExists file (grows_expandAll yes) (grows_expandAll no)
  | getResult dst => exact grows_getResult dst
  | menuLines lines => exact grows_menuLines lines
  | menuLoop entries next prev => exact grows_menu next prev (grows_expandEntries entries)

theorem grows_expandAll (ks : List Construct) : ∀ b ∈ expandAll ks, b.Grows := by
  cases ks with
  | nil => exact fun b hb => nomatch hb
  | cons k rest =>
    intro b hb
    rcases List.mem_cons.mp hb with rfl | hb
    · exact k.grows
    · exact grows_expandAll rest b hb

theorem grows_expandCases (cs : List Case) : ∀ k ∈ expandCases cs, ∀ b ∈ k.2, b.Grows := by
  rcases cs with _ | ⟨⟨key, body⟩, rest⟩
  · exact fun k hk => nomatch hk
  · intro k hk
    rcases List.mem_cons.mp hk with rfl | hk
    · exact grows_expandAll body
    · exact grows_expandCases rest k hk

theorem grows_expandEntries (es : List MenuEntry) :
    ∀ e ∈ expandEntries es, ∀ action, e.2 = some action → ∀ b ∈ action, b.Grows := by
  rcases es with _ | ⟨⟨text, action⟩, rest⟩
  · exact fun e he => nomatch he
  · intro e he
    rcases List.mem_cons.mp he with rfl | he
    · intro bs hbs
      rcases action with _ | body
      · cases hbs
      · cases hbs
        exact grows_expandAll body
    · exact grows_expandEntries rest e he

end

/-- In whatever context a construct is expanded, and whether or not it succeeds, the open loops and
the free registers are what they were, and instructions are only appended. Where it succeeds, what it
appends places every label that it creates once and no other label, and the appended jumps lead to
these labels or to the entry or the exit of a loop that was open before. -/
theorem Construct.expand_restores (k : Construct) (c : Context) :
    (k.expand c).1.loops = c.loops ∧ (∀ kind, (k.expand c).1.free kind = c.free kind) ∧
      ∃ code, (k.expand c).1.code = c.code ++ code ∧
        ((k.expand c).2 = .ok () →
          (∀ l, (placedLabels code).count l = if l ∈ c.created (k.expand c).1 then 1 else 0) ∧
          ∀ i ∈ code, ∀ t, i.target? = some t →
            t ∈ c.created (k.expand c).1 ∨ ∃ lp ∈ c.loops, t = lp.entry ∨ t = lp.exit) := by
  have hret := k.balanced c
  obtain ⟨code, hcode⟩ := hret.code
  refine ⟨hret.loops, fun kind => Context.free_congr hret.pools kind, code, hcode.symm, ?_⟩
  intro hok
  have hgrown := k.grows c (k.expand c).1 (Prod.ext rfl hok)
  have hadded : c.added (k.expand c).1 = code := Context.added_eq hcode.symm
  have hplaced : (placedLabels code).Perm (c.created (k.expand c).1) := hadded ▸ hgrown.placed
  constructor
  · intro l
    rw [hplaced.count_eq, (Context.nodup_created c _).count]
  · intro i hi t ht
    exact hgrown.targets i (hadded ▸ hi) t ht

/-- A context in the middle of a loop named by a label, with a temporary in use. -/
def Context.halfway : Context where
  code := [.label ⟨1⟩, .label ⟨2⟩]
  labels := ⟨LabelTable.initial.slots ++ List.replicate 3 .blank⟩
  pools := ⟨.full .text, ⟨(Register.pool .int).drop 1, List.drop_sublist 1 _⟩, .full .float⟩
  loops := [⟨⟨2⟩, ⟨3⟩, some ⟨1⟩⟩]
  named := [("outer", ⟨1⟩)]
  log := []

/-- A loop around a menu, one entry of which leaves the loop around them both. -/
def Construct.menuInLoop : Construct :=
  .loop [.menuLoop [.mk .empty (some [.leave (some "outer")]), .mk .empty (some [.again none])] none
    none]

theorem Construct.expand_restores_menuInLoop :
    (menuInLoop.expand .halfway).2 = .ok () ∧
      Context.halfway.created (menuInLoop.expand .halfway).1 = (List.range' 4 9).map Label.mk ∧
      ∃ code, (menuInLoop.expand .halfway).1.code = Context.halfway.code ++ code ∧
        (∀ l, (placedLabels code).count l =
          if l ∈ Context.halfway.created (menuInLoop.expand .halfway).1 then 1 else 0) ∧
        ∀ i ∈ code, ∀ t, i.target? = some t →
          t ∈ Context.halfway.created (menuInLoop.expand .halfway).1 ∨
            ∃ lp ∈ Context.halfway.loops, t = lp.entry ∨ t = lp.exit := by
  have hok : (menuInLoop.expand .halfway).2 = .ok () := by decide +kernel
  obtain ⟨-, -, code, hcode, hrest⟩ := expand_restores menuInLoop .halfway
  exact ⟨hok, by decide +kernel, code, hcode, hrest hok⟩

end Handheld
