import Handheld.Proofs.Construct.Depth

namespace Handheld

mutual

/-- The operations that are written in a construct; the status is copied by four assignments. -/
def Construct.operations : Construct → List Operation
  | .op o => [o]
  | .getResult dst => [0, -1, -2, -3].map fun n => .assign dst (.value (.int n))
  | .block body | .loop body => operationsAll body
  | .ifElse _ yes no | .ifFileExists _ yes no => operationsAll yes ++ operationsAll no
  | .switch _ cases default => operationsCases cases ++ operationsAll default
  | .menuLoop entries _ _ => operationsEntries entries
  | .label _ | .leave _ | .again _ | .leaveIf _ _ | .againIf _ _ | .menuLines _ => []

def operationsAll : List Construct → List Operation
  | [] => []
  | k :: rest => k.operations ++ operationsAll rest

def operationsCases : List Case → List Operation
  | [] => []
  | .mk _ body :: rest => operationsAll body ++ operationsCases rest

def operationsEntries : List MenuEntry → List Operation
  | [] => []
  | .mk _ action :: rest => operationsAction action ++ operationsEntries rest

def operationsAction : Option (List Construct) → List Operation
  | none => []
  | some body => operationsAll body

end

/-- What constructs can emit if these operations are written in them and their menus read keys into these
registers. -/
inductive Emitted (ops : List Operation) (temps : List Register) : Instruction → Prop where
  | label (l : Label) : Emitted ops temps (.label l)
  | jump (t : Label) : Emitted ops temps (.jump t)
  | test (cond : Condition) (t : Label) : Emitted ops temps (.jumpIf cond.normalize t)
  | testNot (cond : Condition) (t : Label) : Emitted ops temps (.jumpIf cond.normalize.negate t)
  | operation {o o' : Operation} (ho : o ∈ ops) (hcheck : Build.check o = .ok o') :
    Emitted ops temps (.op o')
  | lookup (file : FileName) : Emitted ops temps (.op (.fileExists file))
  | clear : Emitted ops temps (.op .displayClear)
  | line (row : Nat) (l : MenuLine) : Emitted ops temps (.op (Build.menuLine row l))
  | key {r : Register} (hr : r ∈ temps) : Emitted ops temps (.op (.noEchoInput r))
  | digit {r : Register} (hr : r ∈ temps) (n : Int32) (t : Label) :
    Emitted ops temps (.jumpIf ⟨r, .eq, .value (.int n)⟩ t)

namespace Context

variable {ops : List Operation} {temps : List Register} {c c' c'' : Context}

/-- Only such instructions have been added. -/
def Adds (ops : List Operation) (temps : List Register) (c c' : Context) : Prop :=
  ∀ i ∈ c'.code, i ∈ c.code ∨ Emitted ops temps i

namespace Adds

theorem refl (c : Context) : Adds ops temps c c := fun _ hi => .inl hi

theorem congr (h : Adds ops temps c c') (hcode : c''.code = c'.code) : Adds ops temps c c'' := by
  intro i hi
  exact h i (hcode ▸ hi)

theorem trans (h : Adds ops temps c c') (h' : Adds ops temps c' c'') : Adds ops temps c c'' := by
  intro i hi
  rcases h' i hi with hi | hi
  · exact h i hi
  · exact .inr hi

theorem emit (h : Adds ops temps c c') {i : Instruction} (hi : Emitted ops temps i) :
    Adds ops temps c (c'.emit i) := by
  intro j hj
  rcases List.mem_append.mp hj with hj | hj
  · exact h j hj
  · exact .inr (List.mem_singleton.mp hj ▸ hi)

theorem place (h : Adds ops temps c c') (l : Label) : Adds ops temps c (c'.place l) := h.emit (.label l)

theorem jump (h : Adds ops temps c c') (t : Label) : Adds ops temps c (c'.jump t) := h.emit (.jump t)

theorem jumpIf (h : Adds ops temps c c') (cond : Condition) (t : Label) :
    Adds ops temps c (c'.jumpIf cond.normalize t) :=
  h.emit (.test cond t)

theorem jumpIfNot (h : Adds ops temps c c') (cond : Condition) (t : Label) :
    Adds ops temps c (c'.jumpIf cond.normalize.negate t) :=
  h.emit (.testNot cond t)

theorem newLabels (h : Adds ops temps c c') (n : Nat) : Adds ops temps c (c'.newLabels n).2 :=
  h.congr (c'.code_newLabels n)

end Adds

end Context

namespace Build

open Context

/-- A successful step adds only such instructions, where the first `d` registers that are free are among
those that menus read keys into. -/
structure Emits (ops : List Operation) (temps : List Register) (d : Nat) (b : Build) : Prop where
  balanced : b.Balanced
  adds : ∀ {c c' : Context}, (c.free .int).take d ⊆ temps → b c = (c', .ok ()) → c.Adds ops temps c'

variable {ops : List Operation} {temps : List Register} {d : Nat} {c c' c₁ : Context}

/-- A step behind others, which have given back what they took. -/
theorem Emits.follow {b : Build} (h : b.Emits ops temps d) (hfree : (c.free .int).take d ⊆ temps)
    (hadds : c.Adds ops temps c₁) (hpools : c₁.pools = c.pools) (hok : b c₁ = (c', .ok ())) :
    c.Adds ops temps c' :=
  hadds.trans (h.adds (by rwa [free_congr hpools]) hok)

theorem emits_op {o : Operation} (ho : o ∈ ops) : (op o).Emits ops temps d := by
  refine ⟨balanced_op o, fun {c c'} _ hok => ?_⟩
  unfold op at hok
  cases hcheck : check o with
  | error e =>
    rw [hcheck] at hok
    cases hok
  | ok o' =>
    rw [hcheck] at hok
    obtain rfl : c.op o' = c' := (Prod.mk.inj hok).1
    exact (Adds.refl c).emit (.operation ho hcheck)

theorem emits_label (name : String) : (label name).Emits ops temps d := by
  refine ⟨balanced_label name, fun {c c'} _ hok => ?_⟩
  obtain ⟨-, rfl⟩ := label_ok hok
  exact Adds.place ((Adds.refl c).congr rfl) _

theorem emits_toLoop (name : Option String) (construct : String) {jump : Loop → Context → Context}
    (hreturns : ∀ lp c, Context.Returns c (jump lp c))
    (hadds : ∀ lp c, Context.Adds ops temps c (jump lp c)) :
    (toLoop name construct jump).Emits ops temps d := by
  refine ⟨balanced_toLoop name construct jump hreturns, fun {c c'} _ hok => ?_⟩
  obtain ⟨lp, -, rfl⟩ := toLoop_ok hok
  exact hadds lp c

theorem emits_seq {bs : List Build} (h : ∀ b ∈ bs, b.Emits ops temps d) :
    (seq bs).Emits ops temps d := by
  refine ⟨balanced_seq fun b hb => (h b hb).balanced, fun {c c'} hfree hok => ?_⟩
  induction bs generalizing c with
  | nil =>
    rw [seq_nil_ok hok]
    exact .refl c
  | cons b rest ih =>
    obtain ⟨c₁, hb, hrest⟩ := seq_cons_ok hok
    have hfirst := (h b List.mem_cons_self).adds hfree hb
    have hpools := ((h b List.mem_cons_self).balanced.of_eq hb).pools
    have hothers := ih (fun b' hb' => h b' (List.mem_cons_of_mem b hb'))
      (by rwa [free_congr hpools]) hrest
    exact hfirst.trans hothers

theorem emits_loop {body : Build} (h : body.Emits ops temps d) : (loop body).Emits ops temps d := by
  refine ⟨balanced_loop h.balanced, fun {c c'} hfree hok => ?_⟩
  obtain ⟨c₁, hb, rfl⟩ := loop_ok hok
  have hentry : c.Adds ops temps (c.pushLoop.2.place c.pushLoop.1.entry) :=
    Adds.place ((Adds.refl c).congr rfl) _
  have hbody := h.follow hfree hentry rfl hb
  exact ((hbody.jump _).place _).congr rfl

theorem emits_branch (cond : Condition) {yes no : List Build} (hy : ∀ b ∈ yes, b.Emits ops temps d)
    (hn : ∀ b ∈ no, b.Emits ops temps d) : (branch cond yes no).Emits ops temps d := by
  refine ⟨balanced_branch cond (fun b hb => (hy b hb).balanced) fun b hb => (hn b hb).balanced,
    fun {c c'} hfree hok => ?_⟩
  have hnew : c.Adds ops temps c.newLabel.2 := (Adds.refl c).congr rfl
  rcases branch_ok hok with ⟨-, -, rfl⟩ | ⟨-, -, c₁, h₁, rfl⟩ | ⟨-, -, c₁, h₁, rfl⟩ |
    ⟨-, -, c₁, c₂, h₁, h₂, rfl⟩
  · exact .refl _
  · exact ((emits_seq hy).follow hfree (hnew.jumpIfNot cond _) rfl h₁).place _
  · exact ((emits_seq hn).follow hfree (hnew.jumpIf cond _) rfl h₁).place _
  · have hboth : c.Adds ops temps c.newLabel.2.newLabel.2 := (Adds.refl c).congr rfl
    have hyes := (emits_seq hy).follow hfree (hboth.jumpIfNot cond _) rfl h₁
    have hpools := ((emits_seq hy).balanced.of_eq h₁).pools
    exact ((emits_seq hn).follow hfree ((hyes.jump _).place _) hpools h₂).place _

theorem adds_tests (reg : Register) (ts : List (Operand × Label)) (h : c.Adds ops temps c') :
    c.Adds ops temps (tests reg c' ts) := by
  induction ts generalizing c' with
  | nil => exact h
  | cons t rest ih => exact ih (h.jumpIf ⟨reg, .eq, t.1⟩ t.2)

theorem emits_bodies (exit : Label) {targets : List (Label × List Build)}
    (h : ∀ t ∈ targets, ∀ b ∈ t.2, b.Emits ops temps d) : (bodies exit targets).Emits ops temps d := by
  refine ⟨balanced_bodies exit fun t ht b hb => (h t ht b hb).balanced, fun {c c'} hfree hok => ?_⟩
  induction targets generalizing c with
  | nil =>
    rw [bodies_nil_ok hok]
    exact .refl c
  | cons t rest ih =>
    obtain ⟨l, body⟩ := t
    obtain ⟨c₁, hb, hrest⟩ := bodies_cons_ok hok
    have hseq := emits_seq (h _ List.mem_cons_self)
    have hbody := hseq.follow hfree ((Adds.refl c).place l) rfl hb
    have hpools : (c₁.jump exit).pools = c.pools := (hseq.balanced.of_eq hb).pools
    have hothers := ih (fun t ht => h t (List.mem_cons_of_mem _ ht))
      (c := c₁.jump exit) (by rwa [free_congr hpools]) hrest
    exact (hbody.jump exit).trans hothers

theorem adds_dispatch (reg : Register) (cases : List (Operand × List Build)) (default : List Build)
    (c : Context) : c.Adds ops temps (dispatch reg cases default c).2.2 := by
  have hexit : c.Adds ops temps c.newLabel.2 := (Adds.refl c).congr rfl
  have hlabels := hexit.newLabels cases.length
  have htests := adds_tests reg
    ((cases.map (·.1)).zip (c.newLabel.2.newLabels cases.length).1) hlabels
  unfold dispatch
  simp only
  split
  · exact htests.jump _
  · exact Adds.jump (htests.congr rfl) _

theorem emits_switch (reg : Register) {cases : List (Operand × List Build)} {default : List Build}
    (hcases : ∀ k ∈ cases, ∀ b ∈ k.2, b.Emits ops temps d)
    (hd : ∀ b ∈ default, b.Emits ops temps d) : (switch reg cases default).Emits ops temps d := by
  refine ⟨balanced_switch reg (fun k hk b hb => (hcases k hk b hb).balanced)
    fun b hb => (hd b hb).balanced, fun {c c'} hfree hok => ?_⟩
  obtain ⟨-, c₁, hb, rfl⟩ := switch_ok hok
  have hmem := forall_dispatch hcases hd reg c
  have hpools := (returns_dispatch reg cases default c).pools
  exact ((emits_bodies _ hmem).follow hfree (adds_dispatch reg cases default c) hpools hb).place _

theorem adds_lines (i : Nat) (ls : List MenuLine) (h : c.Adds ops temps c') :
    c.Adds ops temps (lines i c' ls) := by
  induction ls generalizing i c' with
  | nil => exact h
  | cons l rest ih => exact ih _ (h.emit (.line _ l))

theorem emits_menuLines (ls : List MenuLine) : (menuLines ls).Emits ops temps d := by
  refine ⟨balanced_menuLines ls, fun {c c'} _ hok => ?_⟩
  rw [menuLines_ok hok]
  exact adds_lines 0 ls ((Adds.refl c).emit .clear)

theorem emits_ifFileExists (file : FileName) {yes no : List Build}
    (hy : ∀ b ∈ yes, b.Emits ops temps d) (hn : ∀ b ∈ no, b.Emits ops temps d) :
    (ifFileExists file yes no).Emits ops temps d := by
  have hbranch := emits_branch succeeded hy hn
  refine ⟨balanced_ifFileExists file (fun b hb => (hy b hb).balanced) fun b hb => (hn b hb).balanced,
    fun {c c'} hfree hok => ?_⟩
  exact hbranch.follow hfree ((Adds.refl c).emit (.lookup file)) rfl hok

theorem emits_getResult {dst : Register}
    (h : ([0, -1, -2, -3].map fun n => Operation.assign dst (.value (.int n))) ⊆ ops) :
    (getResult dst).Emits ops temps d := by
  have hassign (n : Int32) (hn : n ∈ [0, -1, -2, -3]) :
      ∀ b ∈ [assignInt dst n], b.Emits ops temps d := by
    intro b hb
    exact List.mem_singleton.mp hb ▸ emits_op (h (List.mem_map_of_mem hn))
  refine emits_switch .rslt (fun k hk => ?_) (hassign (-3) (by decide))
  obtain ⟨n, hn, rfl⟩ := List.mem_map.mp hk
  exact hassign n (List.mem_append_left [-3] hn)

theorem adds_keyTest (key : Register) (k : Option Key) (target : Label) (h : c.Adds ops temps c') :
    c.Adds ops temps (keyTest key k target c') := by
  cases k with
  | none => exact h
  | some k => exact h.jumpIf _ _

theorem adds_digitTests {key : Register} (hkey : key ∈ temps) (digit : Nat) (es : List Entry)
    (h : c.Adds ops temps c') : c.Adds ops temps (digitTests key digit c' es).2 := by
  induction es generalizing digit c' with
  | nil => exact h
  | cons e rest ih =>
    rcases e with ⟨text, _ | action⟩
    · exact ih digit h
    · have hlabel : c.Adds ops temps c'.newLabel.2 := h.congr rfl
      exact ih (digit + 1) (hlabel.emit (.digit hkey _ _))

theorem emits_actions (top : Label) {targets : List (Label × List Build)}
    (h : ∀ t ∈ targets, ∀ b ∈ t.2, b.Emits ops temps d) : (actions top targets).Emits ops temps d :=
  ⟨balanced_actions top fun t ht b hb => (h t ht b hb).balanced,
    fun hfree hok => (emits_bodies top h).adds hfree (bodies_of_actions hok)⟩

theorem adds_asked (next prev : Option Key) (back : Label) (last : Bool) (es : List Entry)
    {key : Register} (hkey : key ∈ temps) : c.Adds ops temps (asked next prev back last es key c) := by
  have hlabels : c.Adds ops temps c.newLabel.2.newLabel.2 := (Adds.refl c).congr rfl
  have hclear : c.Adds ops temps ((c.newLabel.2.newLabel.2.place c.newLabel.1).op .displayClear) :=
    (hlabels.place _).emit .clear
  have hshown : c.Adds ops temps (shown es key c) :=
    (adds_lines 0 _ hclear).emit (.key hkey)
  exact (adds_keyTest key next _ (adds_keyTest key prev back (adds_digitTests hkey 1 es hshown))).jump _

theorem emits_pageBody (next prev : Option Key) (back : Label) (last : Bool) {es : List Entry}
    (h : ∀ e ∈ es, ∀ action, e.2 = some action → ∀ b ∈ action, b.Emits ops temps d) {key : Register}
    (hkey : key ∈ temps) : (pageBody next prev back last es key).Emits ops temps d := by
  refine ⟨balanced_pageBody next prev back last (fun e he a ha b hb => (h e he a ha b hb).balanced) key,
    fun {c c'} hfree hok => ?_⟩
  obtain ⟨c₁, hactions, rfl⟩ := pageBody_ok hok
  have htargets := forall_digitTests h key 1 (shown es key c)
  have hpools := (returns_asked next prev back last es key c).pools
  exact ((emits_actions _ htargets).follow hfree (adds_asked next prev back last es hkey) hpools
    hactions).place _

/-- A menu's key is one more of the free registers than its actions take. -/
theorem emits_page (next prev : Option Key) (back : Label) (last : Bool) {es : List Entry}
    (h : ∀ e ∈ es, ∀ action, e.2 = some action → ∀ b ∈ action, b.Emits ops temps d) :
    (page next prev back last es).Emits ops temps (d + 1) := by
  refine ⟨balanced_withTemporary .int (balanced_pageBody next prev back last
    fun e he a ha b hb => (h e he a ha b hb).balanced), fun {c c'} hfree hok => ?_⟩
  obtain ⟨key, c₁, c₂, ha, hbody, hr⟩ := withTemporary_ok hok
  rw [free_allocate ha, List.take_succ_cons, List.cons_subset] at hfree
  have hadds := (emits_pageBody next prev back last h hfree.1).adds hfree.2 hbody
  have htaken : c.Adds ops temps c₁ := (Adds.refl c).congr (allocate_ok ha).1
  exact (htaken.trans hadds).congr (release_ok hr).1

theorem emits_pageSeq (next prev : Option Key) (back : Label) {ps : List (Label × List Entry)}
    (h : ∀ p ∈ ps, ∀ e ∈ p.2, ∀ action, e.2 = some action → ∀ b ∈ action, b.Emits ops temps d) :
    (pageSeq next prev back ps).Emits ops temps (d + 1) := by
  refine ⟨balanced_pageSeq next prev back fun p hp e he a ha b hb => (h p hp e he a ha b hb).balanced,
    fun {c c'} hfree hok => ?_⟩
  induction ps generalizing back c with
  | nil =>
    rw [← (Prod.mk.inj hok).1]
    exact .refl c
  | cons p rest ih =>
    obtain ⟨l, es⟩ := p
    obtain ⟨c₁, hp, hrest⟩ := pageSeq_cons_ok hok
    have hpage := emits_page next prev back rest.isEmpty (h _ List.mem_cons_self)
    have hfirst := hpage.follow hfree ((Adds.refl c).place l) rfl hp
    have hpools : c₁.pools = c.pools := (hpage.balanced.of_eq hp).pools
    exact hfirst.trans (ih l (fun p hp => h p (List.mem_cons_of_mem _ hp))
      (by rwa [free_congr hpools]) hrest)

theorem emits_menu {es : List Entry} (next prev : Option Key)
    (h : ∀ e ∈ es, ∀ action, e.2 = some action → ∀ b ∈ action, b.Emits ops temps d) :
    (menu es next prev).Emits ops temps (d + 1) := by
  refine ⟨balanced_menu next prev fun e he a ha b hb => (h e he a ha b hb).balanced,
    fun {c c'} hfree hok => ?_⟩
  obtain ⟨c₁, hp, rfl⟩ := menu_ok hok
  have hentry : c.Adds ops temps (c.pushLoop.2.place c.pushLoop.1.entry) :=
    Adds.place ((Adds.refl c).congr rfl) _
  have hpools := (Returns.newLabels (c.pushLoop.2.place c.pushLoop.1.entry)
    (pages es.length es).length).pools
  have hseq := emits_pageSeq next prev c.pushLoop.1.exit (forall_labelled h es.length
    ((c.pushLoop.2.place c.pushLoop.1.entry).newLabels (pages es.length es).length).1)
  exact ((hseq.follow hfree (hentry.newLabels _) hpools hp).place _).congr rfl

end Build

open Build Context

variable {ops : List Operation} {temps : List Register}

mutual

/-- By induction on the construct: an operation that it appends is written in it, and it takes as many
registers for keys as menus stand inside one another. -/
theorem Construct.emits {d : Nat} (k : Construct) (hops : k.operations ⊆ ops) (hdepth : k.menuDepth ≤ d) :
    k.expand.Emits ops temps d := by
  cases k with
  | op o => exact emits_op (hops List.mem_cons_self)
  | label name => exact emits_label name
  | block body => exact emits_seq (emits_expandAll body hops hdepth)
  | ifElse cond yes no =>
    obtain ⟨hyes, hno⟩ := List.append_subset.mp hops
    obtain ⟨hy, hn⟩ := Nat.max_le.mp hdepth
    exact emits_branch cond (emits_expandAll yes hyes hy) (emits_expandAll no hno hn)
  | loop body => exact emits_loop (emits_seq (emits_expandAll body hops hdepth))
  | switch reg cases default =>
    obtain ⟨hcases, hdefault⟩ := List.append_subset.mp hops
    obtain ⟨hc, hd⟩ := Nat.max_le.mp hdepth
    exact emits_switch reg (emits_expandCases cases hcases hc) (emits_expandAll default hdefault hd)
  | leave name => exact emits_toLoop name _ (fun _ c => .emit c _) fun _ c => (Adds.refl c).jump _
  | again name => exact emits_toLoop name _ (fun _ c => .emit c _) fun _ c => (Adds.refl c).jump _
  | leaveIf cond name =>
    exact emits_toLoop name _ (fun _ c => .emit c _) fun _ c => (Adds.refl c).jumpIf cond _
  | againIf cond name =>
    exact emits_toLoop name _ (fun _ c => .emit c _) fun _ c => (Adds.refl c).jumpIf cond _
  | ifFileExists file yes no =>
    obtain ⟨hyes, hno⟩ := List.append_subset.mp hops
    obtain ⟨hy, hn⟩ := Nat.max_le.mp hdepth
    exact emits_ifFileExists file (emits_expandAll yes hyes hy) (emits_expandAll no hno hn)
  | getResult dst => exact emits_getResult hops
  | menuLines lines => exact emits_menuLines lines
  | menuLoop entries next prev =>
    cases d with
    | zero => exact absurd hdepth (Nat.not_succ_le_zero _)
    | succ d =>
      exact emits_menu next prev (emits_expandEntries entries hops (Nat.le_of_succ_le_succ hdepth))

theorem emits_expandAll {d : Nat} (ks : List Construct) (hops : operationsAll ks ⊆ ops)
    (hdepth : menuDepthAll ks ≤ d) : ∀ b ∈ expandAll ks, b.Emits ops temps d := by
  cases ks with
  | nil => exact fun b hb => nomatch hb
  | cons k rest =>
    obtain ⟨hk, hrest⟩ := List.append_subset.mp hops
    obtain ⟨hdk, hdrest⟩ := Nat.max_le.mp hdepth
    intro b hb
    rcases List.mem_cons.mp hb with rfl | hb
    · exact k.emits hk hdk
    · exact emits_expandAll rest hrest hdrest b hb

theorem emits_expandCases {d : Nat} (cs : List Case) (hops : operationsCases cs ⊆ ops)
    (hdepth : menuDepthCases cs ≤ d) : ∀ k ∈ expandCases cs, ∀ b ∈ k.2, b.Emits ops temps d := by
  rcases cs with _ | ⟨⟨key, body⟩, rest⟩
  · exact fun k hk => nomatch hk
  · obtain ⟨hbody, hrest⟩ := List.append_subset.mp hops
    obtain ⟨hdbody, hdrest⟩ := Nat.max_le.mp hdepth
    intro k hk
    rcases List.mem_cons.mp hk with rfl | hk
    · exact emits_expandAll body hbody hdbody
    · exact emits_expandCases rest hrest hdrest k hk

theorem emits_expandEntries {d : Nat} (es : List MenuEntry) (hops : operationsEntries es ⊆ ops)
    (hdepth : menuDepthEntries es ≤ d) :
    ∀ e ∈ expandEntries es, ∀ action, e.2 = some action → ∀ b ∈ action, b.Emits ops temps d := by
  rcases es with _ | ⟨⟨text, action⟩, rest⟩
  · exact fun e he => nomatch he
  · obtain ⟨haction, hrest⟩ := List.append_subset.mp hops
    obtain ⟨hdaction, hdrest⟩ := Nat.max_le.mp hdepth
    intro e he
    rcases List.mem_cons.mp he with rfl | he
    · intro bs hbs
      rcases action with _ | body
      · cases hbs
      · cases hbs
        exact emits_expandAll body haction hdaction
    · exact emits_expandEntries rest hrest hdrest e he

end

end Handheld
