import Handheld.Proofs.Compiler.Scopes

namespace Handheld

namespace Build

open Context

variable {c c₁ : Context} {sc : Scope}

/-- What a step comes to: it fails at the first obstacle. Where there is none it succeeds in the
scope, and gives no name to a label that had none. -/
inductive Comes (c : Context) (sc : Scope) : List Obstacle → Result → Prop
  | fine {c' : Context} (hc : c'.Known sc) (hu : ∀ l, c.Unnamed l → c'.Unnamed l) :
    Comes c sc [] (c', .ok ())
  | stuck {r : Result} (o : Obstacle) (rest : List Obstacle) (h : r.2 = .error o.error) :
    Comes c sc (o :: rest) r

namespace Comes

variable {obs obs' : List Obstacle} {r : Result}

theorem base (h : Comes c₁ sc obs r) (hu : ∀ l, c.Unnamed l → c₁.Unnamed l) : Comes c sc obs r := by
  cases h with
  | fine hc hc₁ => exact .fine hc fun l hl => hc₁ l (hu l hl)
  | stuck o rest h => exact .stuck o rest h

/-- Only the first obstacle counts. -/
theorem congr (h : Comes c sc obs r) (he : obs'.head? = obs.head?) : Comes c sc obs' r := by
  cases h with
  | fine hc hu =>
    rw [List.head?_eq_none_iff.mp he]
    exact .fine hc hu
  | stuck o rest h =>
    obtain ⟨rest', rfl⟩ := List.head?_eq_some_iff.mp he
    exact .stuck o rest' h

/-- What comes next when the step has succeeded. -/
theorem follow {sc' : Scope} (h : Comes c sc obs r) {next : Context → Result} (undo : Context → Context)
    (hnext : ∀ c', c'.Known sc → (∀ l, c.Unnamed l → c'.Unnamed l) → Comes c' sc' obs' (next c')) :
    Comes c sc' (obs ++ obs') (r.follow next undo) := by
  cases h with
  | fine hc hu => exact (hnext _ hc hu).base hu
  | stuck o rest h =>
    obtain ⟨c', res⟩ := r
    obtain rfl : res = .error o.error := h
    exact .stuck o (rest ++ obs') rfl

/-- What is done to the context whether the step has succeeded or failed. -/
theorem finish {sc' : Scope} (h : Comes c sc obs r) (last : Context → Context)
    (hlast : ∀ c', c'.Known sc → (∀ l, c.Unnamed l → c'.Unnamed l) →
      (last c').Known sc' ∧ ∀ l, c'.Unnamed l → (last c').Unnamed l) :
    Comes c sc' obs (last r.1, r.2) := by
  cases h with
  | fine hc hu =>
    obtain ⟨hc', hu'⟩ := hlast _ hc hu
    exact .fine hc' fun l hl => hu' l (hu l hl)
  | stuck o rest h => exact .stuck o rest h

end Comes

/-- Wherever the scope is this one, the step comes to these obstacles or places these names. -/
def Meets (sc : Scope) (b : Build) (obs : List Obstacle) (names : List String) (after : Option String) :
    Prop :=
  ∀ c : Context, c.Known sc → Comes c (sc.past names after) obs (b c)

/-- The same of steps one behind the other. -/
inductive MeetsAll : Scope → List Build → List Obstacle → List String → Option String → Prop
  | nil (sc : Scope) : MeetsAll sc [] [] [] sc.before
  | cons {sc : Scope} {b : Build} {rest : List Build} {obs obs' : List Obstacle}
    {names names' : List String} {after after' : Option String} (h : Meets sc b obs names after)
    (hrest : MeetsAll (sc.past names after) rest obs' names' after') :
    MeetsAll sc (b :: rest) (obs ++ obs') (names ++ names') after'

/-- The same of bodies that each stand behind a label without a name. -/
inductive MeetsEach : Scope → List (List Build) → List Obstacle → List String → Prop
  | nil (sc : Scope) : MeetsEach sc [] [] []
  | cons {sc : Scope} {body : List Build} {rest : List (List Build)} {obs obs' : List Obstacle}
    {names names' : List String} {after : Option String} (h : MeetsAll sc.inside body obs names after)
    (hrest : MeetsEach (sc.past names none) rest obs' names') :
    MeetsEach sc (body :: rest) (obs ++ obs') (names ++ names')

variable {obs obs' : List Obstacle} {names names' : List String} {after after' : Option String}

theorem meets_op (o : Operation) : Meets sc (op o) (o.mistakes.map .mistake) [] none := by
  intro c hc
  unfold op
  rw [o.check_eq]
  cases o.mistakes with
  | nil =>
    rw [← sc.inside_eq]
    exact .fine (hc.emit rfl) fun l hl => hl.emit _
  | cons e rest => exact .stuck _ _ rfl

theorem meets_label (name : String) :
    Meets sc (label name) (if name ∈ sc.names then [.mistake (.duplicateLabel name)] else []) [name]
      (some name) := by
  intro c hc
  unfold label placeNamed
  cases hname : c.find? name with
  | some l =>
    rw [if_pos ((hc.names name).mpr ⟨l, hname⟩)]
    exact .stuck _ _ rfl
  | none =>
    have hnot : name ∉ sc.names := by
      intro hmem
      obtain ⟨l, hl⟩ := (hc.names name).mp hmem
      rw [hname] at hl
      cases hl
    rw [if_neg hnot]
    obtain ⟨hknown, hunnamed⟩ := hc.label hname rfl
    exact .fine hknown hunnamed

theorem meets_toLoop (target : Option String) (construct : String) {jump : Loop → Context → Context}
    (hjump : ∀ lp (c : Context), ∃ i, jump lp c = c.emit i ∧ i.label? = none) :
    Meets sc (toLoop target construct jump) (sc.exit construct target) [] none := by
  intro c hc
  have hloop := hc.findLoop construct target
  unfold toLoop
  cases hexit : sc.exit construct target with
  | nil =>
    rw [hexit] at hloop
    obtain ⟨lp, hlp⟩ := hloop
    obtain ⟨i, hi, hlabel⟩ := hjump lp c
    rw [hlp, ← sc.inside_eq]
    simp only [hi]
    exact .fine (hc.emit hlabel) fun l hl => hl.emit i
  | cons o rest =>
    rw [hexit] at hloop
    obtain ⟨e, he, ho⟩ := hloop
    rw [he]
    exact .stuck o rest (congrArg Except.error ho.symm)

/-- By induction on the steps. -/
theorem MeetsAll.seq {bs : List Build} (h : MeetsAll sc bs obs names after) :
    Meets sc (seq bs) obs names after := by
  induction h with
  | nil sc =>
    intro c hc
    rw [sc.past_nil]
    exact .fine hc fun _ hl => hl
  | @cons sc b rest _ _ _ _ _ _ hb _ ih =>
    intro c hc
    rw [← sc.past_past]
    show Comes c _ _ (Result.follow (b c) (Build.seq rest) id)
    exact (hb c hc).follow id fun c₁ hc₁ _ => ih c₁ hc₁

theorem meets_loop {body : Build} (h : Meets sc.inLoop body obs names after) :
    Meets sc (loop body) obs names none := by
  intro c hc
  obtain ⟨hpushed, hentry, hexit⟩ := hc.pushLoop
  have hbody := h _ (hpushed.place hentry)
  have hloop : Comes (c.pushLoop.2.place c.pushLoop.1.entry) (sc.past names none) obs (loop body c) := by
    refine hbody.finish (fun c₁ => ((c₁.jump c.pushLoop.1.entry).place c.pushLoop.1.exit).popLoop) ?_
    intro c₁ hc₁ hu
    have hjump : (c₁.jump c.pushLoop.1.entry).Known _ := hc₁.emit rfl
    exact ⟨(hjump.place (hu _ hexit)).popLoop, fun l hl => hl⟩
  exact hloop.base fun l hl => hl.newLabel.newLabel

/-- What is built in front of a label. -/
theorem Comes.placed {r : Result} {l : Label} (h : Comes c (sc.past names after) obs r)
    (hl : c.Unnamed l) :
    Comes c (sc.past names none) obs (r.follow (fun c' => (c'.place l, .ok ())) id) := by
  rw [← obs.append_nil]
  refine h.follow id fun c' hc' hu => ?_
  exact .fine (hc'.place (hu l hl)) fun l hl => hl

/-- A test with one branch that takes code: the branch stands behind a jump to the label behind it. -/
theorem comes_guarded {bs : List Build} (h : MeetsAll sc.inside bs obs names after) (hc : c.Known sc)
    (cond : Condition) :
    Comes c (sc.past names none) obs
      (Result.follow (seq bs (c.newLabel.2.jumpIf cond c.newLabel.1))
        (fun c₁ => (c₁.place c.newLabel.1, .ok ())) id) := by
  have hstart : c.newLabel.2.Placed sc := hc.of_returns (.newLabel c) rfl
  have hbody := h.seq _ (hstart.emit (i := .jumpIf cond c.newLabel.1) rfl)
  exact (hbody.placed hc.unnamed_newLabel).base fun l hl => hl.newLabel

theorem meets_branch (cond : Condition) {yes no : List Build}
    (hy : MeetsAll sc.inside yes obs names after)
    (hn : MeetsAll (sc.past names none) no obs' names' after') :
    Meets sc (branch cond yes no) (obs ++ obs') (names ++ names')
      (if yes.isEmpty && no.isEmpty then sc.before else none) := by
  intro c hc
  cases hy with
  | nil =>
    rw [← sc.inside_eq] at hn
    cases hn with
    | nil =>
      show Comes c (sc.past [] sc.before) [] (c, .ok ())
      rw [sc.past_nil]
      exact .fine hc fun l hl => hl
    | cons hb hrest =>
      have hbranch := comes_guarded (.cons hb hrest) hc cond.normalize
      exact hbranch
  | cons hb hrest =>
    have hyes := MeetsAll.cons hb hrest
    cases hn with
    | nil =>
      rw [List.append_nil, List.append_nil]
      exact comes_guarded hyes hc cond.normalize.negate
    | cons hb' hrest' =>
      have hno := MeetsAll.cons hb' hrest'
      rw [branch_both cond rfl rfl, ← sc.past_past _ _ none]
      have hstart : c.newLabel.2.newLabel.2.Placed sc :=
        hc.of_returns ((Returns.newLabel c).trans (.newLabel _)) rfl
      have hother : c.newLabel.2.newLabel.2.Unnamed c.newLabel.1 := hc.unnamed_newLabel.newLabel
      have hexit : c.newLabel.2.newLabel.2.Unnamed c.newLabel.2.newLabel.1 :=
        (hc.of_returns (.newLabel c) rfl).unnamed_newLabel
      have hfirst := hyes.seq _ (hstart.emit (i := .jumpIf cond.normalize.negate c.newLabel.1) rfl)
      refine Comes.base (hfirst.follow id fun c₁ hc₁ hu => ?_) fun l hl => hl.newLabel.newLabel
      have hsecond := (hc₁.emit (i := .jump c.newLabel.2.newLabel.1) rfl).place (hu _ hother)
      exact ((hno.seq _ hsecond).placed (hu _ hexit)).base fun l hl => hl

theorem meets_ifFileExists (file : FileName) {yes no : List Build}
    (hy : MeetsAll sc.inside yes obs names after)
    (hn : MeetsAll (sc.past names none) no obs' names' after') :
    Meets sc (ifFileExists file yes no) (obs ++ obs') (names ++ names') none := by
  intro c hc
  have hmeets : Meets sc.inside (branch succeeded yes no) (obs ++ obs') (names ++ names') none := by
    have hyes : MeetsAll sc.inside.inside yes obs names after := hy
    have hbranch := meets_branch succeeded hyes hn
    have hnone : (if yes.isEmpty && no.isEmpty then sc.inside.before else none) = none := ite_self none
    rw [hnone] at hbranch
    exact hbranch
  exact (hmeets (c.op (.fileExists file)) (hc.emit rfl)).base fun l hl => hl.emit _

namespace MeetsEach

variable {bs bs' : List (List Build)}

/-- The label right in front does not count. -/
theorem inside_iff : MeetsEach sc.inside bs obs names ↔ MeetsEach sc bs obs names := by
  constructor
  · intro h
    cases h with
    | nil => exact .nil sc
    | cons hb hrest => exact .cons hb hrest
  · intro h
    cases h with
    | nil => exact .nil sc.inside
    | cons hb hrest => exact .cons hb hrest

theorem append (h : MeetsEach sc bs obs names) (h' : MeetsEach (sc.past names none) bs' obs' names') :
    MeetsEach sc (bs ++ bs') (obs ++ obs') (names ++ names') := by
  induction h with
  | nil sc =>
    rw [← sc.inside_eq] at h'
    exact inside_iff.mp h'
  | cons hb _ ih =>
    rw [List.cons_append, List.append_assoc, List.append_assoc]
    rw [← Scope.past_past] at h'
    exact .cons hb (ih h')

/-- The bodies of one list behind those of another. -/
theorem split (h : MeetsEach sc (bs ++ bs') obs names) :
    ∃ o o' n n', obs = o ++ o' ∧ names = n ++ n' ∧ MeetsEach sc bs o n ∧
      MeetsEach (sc.past n none) bs' o' n' := by
  induction bs generalizing sc obs names with
  | nil =>
    refine ⟨[], obs, [], names, rfl, rfl, .nil sc, ?_⟩
    rw [← sc.inside_eq]
    exact inside_iff.mpr h
  | cons body rest ih =>
    cases h with
    | cons hb hrest =>
      obtain ⟨o, o', n, n', rfl, rfl, hfirst, hsecond⟩ := ih hrest
      rw [Scope.past_past] at hsecond
      exact ⟨_, o', _, n', (List.append_assoc ..).symm, (List.append_assoc ..).symm,
        .cons hb hfirst, hsecond⟩

end MeetsEach

/-- By induction on the bodies, for any way to build them one behind the other. -/
theorem comes_each {build : List (Label × List Build) → Build} (behind : Label) (undo : Context → Context)
    (hnil : build [] = done)
    (hcons : ∀ l body rest c, build ((l, body) :: rest) c =
      Result.follow (seq body (c.place l)) (fun c₁ => build rest (c₁.jump behind)) undo)
    {targets : List (Label × List Build)} (h : MeetsEach sc (targets.map (·.2)) obs names)
    (hc : c.Known sc.inside) (hl : ∀ t ∈ targets, c.Unnamed t.1) :
    Comes c (sc.past names none) obs (build targets c) := by
  induction targets generalizing sc obs names c with
  | nil =>
    cases h with
    | nil =>
      rw [hnil, ← sc.inside_eq]
      exact .fine hc fun l hl => hl
  | cons t rest ih =>
    obtain ⟨l, body⟩ := t
    cases h with
    | cons hb hrest =>
      rw [hcons, ← sc.past_past]
      have hbody := hb.seq _ (hc.place (hl _ List.mem_cons_self))
      refine Comes.base (hbody.follow undo fun c₁ hc₁ hu => ?_) fun l hl => hl.emit _
      have htargets := fun t ht => hu _ (hl t (List.mem_cons_of_mem _ ht))
      have hjump : (c₁.jump behind).Known _ := hc₁.emit rfl
      exact (ih hrest hjump htargets).base fun l hl => hl.emit _

theorem comes_bodies (exit : Label) {targets : List (Label × List Build)}
    (h : MeetsEach sc (targets.map (·.2)) obs names) (hc : c.Known sc.inside)
    (hl : ∀ t ∈ targets, c.Unnamed t.1) : Comes c (sc.past names none) obs (bodies exit targets c) :=
  comes_each exit id rfl (fun _ _ _ _ => rfl) h hc hl

theorem comes_actions (top : Label) {targets : List (Label × List Build)}
    (h : MeetsEach sc (targets.map (·.2)) obs names) (hc : c.Known sc.inside)
    (hl : ∀ t ∈ targets, c.Unnamed t.1) : Comes c (sc.past names none) obs (actions top targets c) :=
  comes_each top (·.jump top) rfl (fun _ _ _ _ => rfl) h hc hl

theorem named_tests (reg : Register) (ts : List (Operand × Label)) (c : Context) :
    (tests reg c ts).named = c.named := by
  induction ts generalizing c with
  | nil => rfl
  | cons t rest ih => exact ih _

/-- The head of a switch leads to its bodies; neither their labels nor its exit have names. -/
theorem known_dispatch (reg : Register) (cases : List (Operand × List Build)) (default : List Build)
    (h : c.Placed sc) :
    (dispatch reg cases default c).2.2.Known sc.inside ∧
      (dispatch reg cases default c).2.2.Unnamed (dispatch reg cases default c).1 ∧
      ∀ t ∈ (dispatch reg cases default c).2.1, (dispatch reg cases default c).2.2.Unnamed t.1 := by
  have hnew := h.of_returns (.newLabel c) rfl
  have hlabels := hnew.unnamed_newLabels cases.length
  have hnamed := named_newLabels c.newLabel.2 cases.length
  have hreturns := Returns.newLabels c.newLabel.2 cases.length
  unfold dispatch
  simp only
  generalize c.newLabel.2.newLabels cases.length = new at hlabels hnamed hreturns ⊢
  generalize htested : tests reg new.2 ((cases.map (·.1)).zip new.1) = c₁
  have hplaced := hnew.of_returns hreturns hnamed
  have htests : new.2.Returns c₁ := htested ▸ returns_tests reg _ new.2
  have hsame : c₁.named = new.2.named := htested ▸ named_tests reg _ new.2
  have hpast := hplaced.of_returns htests hsame
  have hexit : c₁.Unnamed c.newLabel.1 :=
    (h.unnamed_newLabel.mono hreturns.size hnamed).mono htests.size hsame
  have hzip : ∀ t ∈ new.1.zip (cases.map (·.2)), c₁.Unnamed t.1 := by
    intro t ht
    exact (hlabels t.1 (List.of_mem_zip ht).1).mono htests.size hsame
  split
  · exact ⟨hpast.emit rfl, hexit, hzip⟩
  · refine ⟨(hpast.of_returns (.newLabel c₁) rfl).emit rfl, hexit.newLabel, ?_⟩
    intro t ht
    rcases List.mem_append.mp ht with ht | ht
    · exact (hzip t ht).newLabel
    · obtain rfl := List.mem_singleton.mp ht
      exact hpast.unnamed_newLabel

theorem unnamed_dispatch (reg : Register) (cases : List (Operand × List Build)) (default : List Build)
    {l : Label} (h : c.Unnamed l) : (dispatch reg cases default c).2.2.Unnamed l := by
  have hlabels := named_newLabels c.newLabel.2 cases.length
  refine h.mono (returns_dispatch reg cases default c).size ?_
  unfold dispatch
  simp only
  split
  · exact (named_tests reg _ _).trans hlabels
  · exact (named_tests reg _ _).trans hlabels

/-- The bodies behind the head of a switch are those of its cases, and its default if it has one. -/
theorem bodies_dispatch (reg : Register) (cases : List (Operand × List Build))
    (default : List Build) (c : Context) :
    (dispatch reg cases default c).2.1.map (·.2) =
      cases.map (·.2) ++ if default.isEmpty then [] else [default] := by
  have hlen : ((c.newLabel.2.newLabels cases.length).1.zip (cases.map (·.2))).map (·.2) =
      cases.map (·.2) := List.map_snd_zip (by simp [length_newLabels])
  unfold dispatch
  simp only
  split
  · simp only [hlen, List.append_nil]
  · simp only [List.map_append, hlen, List.map_cons, List.map_nil]

theorem meets_switch (reg : Register) {cases : List (Operand × List Build)} {default : List Build}
    (hcases : MeetsEach sc (cases.map (·.2)) obs names)
    (hdefault : MeetsAll (sc.past names none) default obs' names' after') :
    Meets sc (switch reg cases default)
      ((if reg.kind = .int then [] else [.mistake (.typeMismatch "switch" reg "integer")]) ++ (obs ++ obs'))
      (names ++ names') none := by
  intro c hc
  unfold switch
  by_cases hkind : reg.kind = .int
  · rw [if_neg (not_not.mpr hkind), if_pos hkind]
    obtain ⟨hknown, hexit, htargets⟩ := known_dispatch reg cases default hc.toPlaced
    have hbodies := bodies_dispatch reg cases default c
    have hlast : MeetsEach (sc.past names none) (if default.isEmpty then [] else [default])
        obs' names' := by
      cases hdefault with
      | nil => exact .nil _
      | cons hb hrest =>
        have hbody : MeetsAll (sc.past names none).inside _ _ _ _ := .cons hb hrest
        have hone := MeetsEach.cons hbody (.nil _)
        rw [List.append_nil, List.append_nil] at hone
        exact hone
    have heach := hcases.append hlast
    rw [← hbodies] at heach
    have hswitch := (comes_bodies (dispatch reg cases default c).1 heach hknown htargets).placed hexit
    exact hswitch.base fun l hl => unnamed_dispatch reg cases default hl
  · rw [if_pos hkind, if_neg hkind]
    exact .stuck _ _ rfl

/-- The four assignments have the same mistakes. -/
theorem meets_getResult (dst : Register) :
    Meets sc (getResult dst) ((Operation.assign dst (.value (.int 0))).mistakes.map .mistake) [] none := by
  generalize hm : (Operation.assign dst (.value (.int 0))).mistakes.map Obstacle.mistake = obs
  have hassign (sc : Scope) (n : Int32) : MeetsAll sc [assignInt dst n] obs [] none := by
    have hone := MeetsAll.cons (meets_op (.assign dst (.value (.int n)))) (.nil (sc.past [] none))
    rw [List.append_nil] at hone
    exact hm ▸ hone
  let cases : List (Operand × List Build) := [0, -1, -2].map fun n => (.value (.int n), [assignInt dst n])
  have hcases : MeetsEach sc (cases.map (·.2)) (obs ++ (obs ++ (obs ++ []))) [] :=
    .cons (hassign _ 0) (.cons (hassign _ (-1)) (.cons (hassign _ (-2)) (.nil _)))
  have hswitch := meets_switch .rslt hcases (hassign _ (-3))
  have hkind : Register.rslt.kind = .int := rfl
  rw [if_pos hkind] at hswitch
  intro c hc
  refine (hswitch c hc).congr ?_
  cases obs with
  | nil => rfl
  | cons o rest => rfl

theorem named_lines (i : Nat) (ls : List MenuLine) (c : Context) : (lines i c ls).named = c.named := by
  induction ls generalizing i c with
  | nil => rfl
  | cons l rest ih => exact ih _ _

theorem last?_lines (i : Nat) (ls : List MenuLine) (h : c.last? = none) : (lines i c ls).last? = none := by
  induction ls generalizing i c with
  | nil => exact h
  | cons l rest ih => exact ih _ (last?_emit c _)

theorem meets_menuLines (ls : List MenuLine) : Meets sc (menuLines ls) [] [] none := by
  intro c hc
  rw [← sc.inside_eq]
  have hclear : (c.op .displayClear).Known sc.inside := hc.emit rfl
  have hreturns := returns_lines 0 ls (c.op .displayClear)
  have hnamed := named_lines 0 ls (c.op .displayClear)
  have hlast := last?_lines 0 ls (last?_emit c (.op .displayClear))
  exact .fine ((hclear.of_returns hreturns hnamed).known hlast) fun l hl => hl.mono hreturns.size hnamed

theorem named_keyTest (key : Register) (k : Option Key) (target : Label) (c : Context) :
    (keyTest key k target c).named = c.named := by
  cases k with
  | none => rfl
  | some k => rfl

theorem named_digitTests (key : Register) (digit : Nat) (es : List Entry) (c : Context) :
    (digitTests key digit c es).2.named = c.named := by
  induction es generalizing digit c with
  | nil => rfl
  | cons e rest ih =>
    rcases e with ⟨text, _ | action⟩
    · exact ih digit c
    · exact ih (digit + 1) _

/-- The labels that the digits lead to have no names. -/
theorem unnamed_digitTests (key : Register) (digit : Nat) (es : List Entry) (h : c.Placed sc) :
    ∀ t ∈ (digitTests key digit c es).1, (digitTests key digit c es).2.Unnamed t.1 := by
  induction es generalizing digit c with
  | nil => exact nofun
  | cons e rest ih =>
    rcases e with ⟨text, _ | action⟩
    · exact ih digit h
    · have hnew := h.of_returns (.newLabel c) rfl
      let test : Condition := ⟨key, .eq, .value (.int (Int32.ofNat (48 + digit)))⟩
      have hjump := hnew.of_returns (.emit _ (.jumpIf test c.newLabel.1)) rfl
      intro t ht
      rcases List.mem_cons.mp ht with rfl | ht
      · exact (h.unnamed_newLabel.emit (.jumpIf test c.newLabel.1)).mono
          (returns_digitTests key (digit + 1) rest _).size (named_digitTests key (digit + 1) rest _)
      · exact ih (digit + 1) hjump t ht

theorem named_shown (es : List Entry) (key : Register) (c : Context) : (shown es key c).named = c.named :=
  named_lines 0 _ _

theorem named_asked (next prev : Option Key) (back : Label) (last : Bool) (es : List Entry)
    (key : Register) (c : Context) : (asked next prev back last es key c).named = c.named := by
  have hkeys := (named_keyTest key next (if last then c.newLabel.1 else c.newLabel.2.newLabel.1) _).trans
    (named_keyTest key prev back (digitTests key 1 (shown es key c) es).2)
  exact hkeys.trans ((named_digitTests key 1 es _).trans (named_shown es key c))

theorem comes_pageBody (next prev : Option Key) (back : Label) (last : Bool) {es : List Entry}
    (h : MeetsEach sc (es.filterMap (·.2)) obs names) (key : Register) (hc : c.Known sc.inside) :
    Comes c (sc.past names none) obs (pageBody next prev back last es key c) := by
  have hasked := returns_asked next prev back last es key c
  have hnamed := named_asked next prev back last es key c
  have hknown : (asked next prev back last es key c).Known sc.inside :=
    (hc.of_returns hasked hnamed).known (last?_emit _ _)
  -- the labels of the actions are new where the digits are tested
  have htested := unnamed_digitTests key 1 es
    (hc.of_returns (returns_shown es key c) (named_shown es key c))
  have htargets : ∀ t ∈ (digitTests key 1 (shown es key c) es).1,
      (asked next prev back last es key c).Unnamed t.1 := by
    intro t ht
    have hprev := (htested t ht).mono (returns_keyTest key prev back _).size (named_keyTest key prev back _)
    exact hprev.mono (returns_keyTest key next _ _).size (named_keyTest key next _ _)
  have hbottom : (asked next prev back last es key c).Unnamed c.newLabel.2.newLabel.1 := by
    have hnew : c.newLabel.2.newLabel.2.Unnamed c.newLabel.2.newLabel.1 :=
      (hc.of_returns (.newLabel c) rfl).unnamed_newLabel
    have hsize := ((returns_drawn es key c).trans (returns_dispatched next prev back last es key c)).size
    exact hnew.mono hsize hnamed
  rw [← bodies_digitTests key 1 es (shown es key c)] at h
  have hactions := comes_actions c.newLabel.1 h hknown htargets
  refine Comes.base (hactions.finish (·.place c.newLabel.2.newLabel.1) fun c₁ hc₁ hu => ?_)
    fun l hl => hl.mono hasked.size hnamed
  exact ⟨hc₁.place (hu _ hbottom), fun l hl => hl⟩

theorem comes_page (next prev : Option Key) (back : Label) (last : Bool) {es : List Entry}
    (hb : ∀ e ∈ es, ∀ action, e.2 = some action → ∀ b ∈ action, b.Balanced)
    (h : MeetsEach sc.deeper (es.filterMap (·.2)) obs names) (hn : sc.depth < menuLimit)
    (hc : c.Known sc.inside) : Comes c (sc.past names none) obs (page next prev back last es c) := by
  obtain ⟨r, pools, htake⟩ := hc.holding.exists_take? hn
  let c₁ := { c with pools }.note ("allocate " ++ r.name)
  have halloc : c.allocate .int = .ok (r, c₁) := by
    unfold allocate
    rw [htake]
  have hknown : c₁.Known sc.deeper.inside := hc.mono (hc.holding.allocate halloc) rfl (Nat.le_refl _) rfl rfl
  have hbody := comes_pageBody next prev back last h r hknown
  have hreturns := balanced_pageBody next prev back last hb r c₁
  obtain ⟨c₃, hrelease, hback, -, -⟩ := release_allocate halloc hreturns
  have hnamed := named_release hrelease
  obtain ⟨hcode, hlabels, hloops⟩ := release_ok hrelease
  unfold page withTemporary
  simp only [halloc, hrelease]
  generalize pageBody next prev back last es r c₁ = res at hbody hnamed hcode hlabels hloops
  cases hbody with
  | stuck o rest h => exact .stuck o rest h
  | fine hc₂ hu =>
    have hsize := Nat.le_of_eq (congrArg LabelTable.size hlabels.symm)
    exact .fine (hc₂.mono (hc.holding.congr hback.pools) hcode hsize hnamed hloops) fun l hl =>
      (hu l hl).mono hsize hnamed

theorem comes_pageSeq (next prev : Option Key) (back : Label) {ps : List (Label × List Entry)}
    (hb : ∀ p ∈ ps, ∀ e ∈ p.2, ∀ action, e.2 = some action → ∀ b ∈ action, b.Balanced)
    (h : MeetsEach sc.deeper ((ps.flatMap (·.2)).filterMap (·.2)) obs names) (hn : sc.depth < menuLimit)
    (hc : c.Known sc.inside) (hl : ∀ p ∈ ps, c.Unnamed p.1) :
    Comes c (sc.past names none) obs (pageSeq next prev back ps c) := by
  induction ps generalizing sc obs names back c with
  | nil =>
    cases h with
    | nil =>
      rw [← sc.inside_eq]
      exact .fine hc fun l hl => hl
  | cons p rest ih =>
    obtain ⟨l, es⟩ := p
    rw [List.flatMap_cons, List.filterMap_append] at h
    obtain ⟨o, o', n, n', rfl, rfl, hfirst, hrest⟩ := h.split
    have hpage := comes_page next prev back rest.isEmpty (hb _ List.mem_cons_self) hfirst hn
      (hc.place (hl _ List.mem_cons_self))
    rw [← sc.past_past]
    show Comes c _ _
      (Result.follow (page next prev back rest.isEmpty es (c.place l)) (pageSeq next prev l rest) id)
    refine Comes.base (hpage.follow id fun c₁ hc₁ hu => ?_) fun l hl => hl
    exact ih l (fun p hp => hb p (List.mem_cons_of_mem _ hp)) hrest hn hc₁
      fun p hp => hu _ (hl p (List.mem_cons_of_mem _ hp))

/-- The pages hold the entries in their order. -/
theorem flatten_pages {n : Nat} {es : List Entry} (h : es.length ≤ n) : (pages n es).flatten = es := by
  induction n generalizing es with
  | zero => exact (List.length_eq_zero_iff.mp (Nat.le_zero.mp h)).symm
  | succ n ih =>
    cases es with
    | nil => rfl
    | cons e es =>
      have hrest : ((e :: es).drop pageSize).length ≤ n := by
        rw [List.length_drop, List.length_cons, pageSize]
        rw [List.length_cons] at h
        omega
      rw [pages, List.flatten_cons, ih hrest, List.take_append_drop]
      exact nofun

theorem meets_menu (next prev : Option Key) {es : List Entry} (hes : es.isEmpty = false)
    (hb : ∀ e ∈ es, ∀ action, e.2 = some action → ∀ b ∈ action, b.Balanced)
    (h : MeetsEach sc.inMenu (es.filterMap (·.2)) obs names) (hn : sc.depth < menuLimit) :
    Meets sc (menu es next prev) obs names none := by
  intro c hc
  obtain ⟨hpushed, hentry, hexit⟩ := hc.pushLoop
  have hstart : (c.pushLoop.2.place c.pushLoop.1.entry).Known sc.inLoop := hpushed.place hentry
  have hlabels := hstart.unnamed_newLabels (pages es.length es).length
  have hreturns := Returns.newLabels (c.pushLoop.2.place c.pushLoop.1.entry) (pages es.length es).length
  have hnamed := named_newLabels (c.pushLoop.2.place c.pushLoop.1.entry) (pages es.length es).length
  have hknown := hstart.newLabels (pages es.length es).length
  have hlength := length_newLabels (c.pushLoop.2.place c.pushLoop.1.entry) (pages es.length es).length
  unfold menu
  rw [hes]
  simp only [Bool.false_eq_true, if_false]
  generalize (c.pushLoop.2.place c.pushLoop.1.entry).newLabels (pages es.length es).length = new
    at hlabels hreturns hnamed hknown hlength ⊢
  -- the pages together hold the entries
  have hentries : (new.1.zip (pages es.length es)).flatMap (·.2) = es := by
    rw [List.flatMap_def, List.map_snd_zip (Nat.le_of_eq hlength.symm), flatten_pages (Nat.le_refl _)]
  rw [← hentries] at h
  have hpages := comes_pageSeq next prev c.pushLoop.1.exit (forall_labelled hb es.length new.1) h hn
    hknown fun p hp => hlabels _ (List.of_mem_zip hp).1
  have hmenu := hpages.finish (fun c₁ => (c₁.place c.pushLoop.1.exit).popLoop) fun c₁ hc₁ hu => by
    have hend := hu _ (hexit.mono hreturns.size hnamed)
    exact ⟨(hc₁.place hend).popLoop, fun l hl => hl⟩
  exact hmenu.base fun l hl => (hl.newLabel.newLabel).mono hreturns.size hnamed

/-- The first page of a menu fails when no temporary is left for it. -/
theorem pageSeq_exhausted (next prev : Option Key) (back : Label) {ps : List (Label × List Entry)}
    (hps : ps ≠ []) (hc : c.Holding menuLimit) :
    (pageSeq next prev back ps c).2 = .error (.fault (.poolExhausted .int)) := by
  cases ps with
  | nil => exact absurd rfl hps
  | cons p rest =>
    obtain ⟨l, es⟩ := p
    have hplace : (c.place l).Holding menuLimit := hc.congr rfl
    simp only [pageSeq, page, withTemporary, hplace.allocate_error]

theorem menu_exhausted {es : List Entry} (next prev : Option Key) (hes : es.isEmpty = false)
    (hc : c.Holding menuLimit) :
    (menu es next prev c).2 = .error (.fault (.poolExhausted .int)) := by
  have hpages : pages es.length es ≠ [] := by
    cases es with
    | nil => cases hes
    | cons e es => exact nofun
  let c₁ := c.pushLoop.2.place c.pushLoop.1.entry
  have hstart := Returns.newLabels c₁ (pages es.length es).length
  have hlabels : ((c₁.newLabels (pages es.length es).length).1.zip (pages es.length es)) ≠ [] := by
    intro h
    have hlength := congrArg List.length h
    rw [length_zip_newLabels] at hlength
    exact hpages (List.length_eq_zero_iff.mp hlength)
  unfold menu
  rw [hes]
  exact pageSeq_exhausted next prev c.pushLoop.1.exit hlabels (hc.congr hstart.pools)

end Build

open Build

theorem isEmpty_expandEntries (entries : List MenuEntry) :
    (expandEntries entries).isEmpty = entries.isEmpty := by
  rcases entries with _ | ⟨⟨text, action⟩, rest⟩ <;> rfl

mutual

/-- By induction on the construct: its expansion fails at its first obstacle, and succeeds where it
has none. -/
theorem Construct.meets {sc : Scope} (k : Construct) :
    Meets sc k.expand (k.obstacles sc) k.labels (k.trail sc.before) := by
  cases k with
  | op o => exact meets_op o
  | label name => exact meets_label name
  | block body => exact (meetsAll_expandAll body).seq
  | ifElse cond yes no =>
    have hyes : MeetsAll sc.inside _ _ _ _ := meetsAll_expandAll yes
    have hbranch := meets_branch cond hyes (meetsAll_expandAll no)
    cases yes with
    | nil =>
      cases no with
      | nil => exact hbranch
      | cons k no => exact hbranch
    | cons k yes => exact hbranch
  | loop body => exact meets_loop (meetsAll_expandAll body).seq
  | switch reg cases default =>
    exact meets_switch reg (meetsEach_expandCases cases) (meetsAll_expandAll default)
  | leave name => exact meets_toLoop name _ fun lp c => ⟨_, rfl, rfl⟩
  | again name => exact meets_toLoop name _ fun lp c => ⟨_, rfl, rfl⟩
  | leaveIf cond name => exact meets_toLoop name _ fun lp c => ⟨_, rfl, rfl⟩
  | againIf cond name => exact meets_toLoop name _ fun lp c => ⟨_, rfl, rfl⟩
  | ifFileExists file yes no =>
    exact meets_ifFileExists file (meetsAll_expandAll yes) (meetsAll_expandAll no)
  | getResult dst => exact meets_getResult dst
  | menuLines lines => exact meets_menuLines lines
  | menuLoop entries next prev =>
    have hempty := isEmpty_expandEntries entries
    rw [Construct.expand, Construct.obstacles, Construct.labels]
    split
    · next he =>
      intro c hc
      rw [List.isEmpty_iff.mp (hempty.trans he)]
      exact .stuck _ _ rfl
    · next he =>
      have hes : (expandEntries entries).isEmpty = false := hempty.trans (Bool.eq_false_iff.mpr he)
      split
      · next hdepth =>
        exact meets_menu next prev hes (balanced_expandEntries entries)
          (meetsEach_expandEntries entries) hdepth
      · next hdepth =>
        intro c hc
        have hfull : sc.depth = menuLimit := Nat.le_antisymm hc.holding.le (Nat.not_lt.mp hdepth)
        exact .stuck _ _ (menu_exhausted next prev hes (hfull ▸ hc.holding))

theorem meetsAll_expandAll {sc : Scope} (ks : List Construct) :
    MeetsAll sc (expandAll ks) (obstaclesAll sc ks) (labelsAll ks) (trailAll sc.before ks) := by
  cases ks with
  | nil => exact .nil sc
  | cons k rest => exact .cons k.meets (meetsAll_expandAll rest)

theorem meetsEach_expandCases {sc : Scope} (cs : List Case) :
    MeetsEach sc ((expandCases cs).map (·.2)) (obstaclesCases sc.inside cs) (labelsCases cs) := by
  rcases cs with _ | ⟨⟨key, body⟩, rest⟩
  · exact .nil sc
  · exact .cons (meetsAll_expandAll body) (meetsEach_expandCases rest)

theorem meetsEach_expandEntries {sc : Scope} (es : List MenuEntry) :
    MeetsEach sc ((expandEntries es).filterMap (·.2)) (obstaclesEntries sc.inside es)
      (labelsEntries es) := by
  rcases es with _ | ⟨⟨text, action⟩, rest⟩
  · exact .nil sc
  · cases action with
    | none =>
      rw [obstaclesEntries, labelsAction, Scope.past_inside, ← sc.inside_eq]
      exact meetsEach_expandEntries rest
    | some body => exact .cons (meetsAll_expandAll body) (meetsEach_expandEntries rest)

end

end Handheld
