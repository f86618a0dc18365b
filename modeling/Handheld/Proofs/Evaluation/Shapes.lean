import Handheld.Proofs.Evaluation.Framed
import Mathlib.Data.List.Forall2

namespace Handheld.Build

open Context Handheld.Flow Machine

variable {σ : Type} (code : List Instruction) (link : Link σ) (n : Nat) (free : List Register)

/-- Where the step stands in the complete list, a run does what the evaluation tells; `before` and
`after` are the names of the labels right in front of the step and right behind it. -/
def Means (b : Build) (before after : Option String) (e : Evaluation σ) : Prop :=
  ∀ ⦃c c' : Context⦄ ⦃frames : List Frame⦄, b c = (c', .ok ()) → c'.code <+: code →
    c.Framed free frames before → c'.Framed free frames after ∧
      ∀ v s, Fate code link n frames (c.here code) (c'.here code) v s (e v s)

/-- The steps in order mean the evaluation, behind something without a name. -/
def MeansAll (bs : List Build) (e : Evaluation σ) : Prop :=
  ∃ after, Means code link n free (seq bs) none after e

variable {code} {link} {n} {free}
variable {before after last : Option String} {c c' : Context} {frames : List Frame}

theorem means_op (o : Operation) :
    Means code link n free (op o) before none (.perform link o.normalize) := by
  intro c c' frames hok hp hf
  obtain ⟨rfl, -⟩ := op_ok hok
  exact ⟨hf.op _, fun v s => fate_op hp v s⟩

theorem means_label (hc : Closed code) (name : String) :
    Means code link n free (label name) before (some name) .skip := by
  intro c c' frames hok hp hf
  obtain ⟨hn, rfl⟩ := label_ok hok
  have hnew : c.newLabel.1 ∉ placedLabels c.code := new_of_place hc hp
  refine ⟨hf.label hn hnew, fun v s => ?_⟩
  exact .skip (leads_place hp) v s

theorem means_nil : Means code link n free (seq []) before before .skip := by
  intro c c' frames hok hp hf
  obtain rfl := seq_nil_ok hok
  exact ⟨hf, fun v s => .skip (.refl _) v s⟩

theorem means_cons {b : Build} {rest : List Build} {e e' : Evaluation σ}
    (hb : Means code link n free b before after e) (hr : Means code link n free (seq rest) after last e')
    (hbal : ∀ b ∈ rest, b.Balanced) :
    Means code link n free (seq (b :: rest)) before last (e.andThen e') := by
  intro c c' frames hok hp hf
  obtain ⟨c₁, h₁, h₂⟩ := seq_cons_ok hok
  have hp₁ : c₁.code <+: code := ((balanced_seq hbal).of_eq h₂).code.trans hp
  obtain ⟨hf₁, hrun₁⟩ := hb h₁ hp₁ hf
  obtain ⟨hf₂, hrun₂⟩ := hr h₂ hp hf₁
  exact ⟨hf₂, fun v s => (hrun₁ v s).andThen hrun₂⟩

/-- An exit goes to the loop that its evaluation picks. -/
theorem exit_ok {target : Option String} {construct : String} {jump : Loop → Context → Context}
    (h : toLoop target construct jump c = (c', .ok ())) (hf : c.Framed free frames before) :
    ∃ f, frames.find? (fun f => picks target f.2) = some f ∧ c' = jump f.1 c := by
  obtain ⟨lp, hl, rfl⟩ := toLoop_ok h
  obtain ⟨f, hfind, rfl⟩ := hf.findLoop hl
  exact ⟨f, hfind, rfl⟩

theorem means_leave (target : Option String) (construct : String) :
    Means code link n free (toLoop target construct fun lp c => c.jump lp.exit) before none
      (.exit (.leave target)) := by
  intro c c' frames hok hp hf
  obtain ⟨f, hfind, rfl⟩ := exit_ok hok hf
  exact ⟨hf.jump _, fun v s => ⟨f, hfind, .of_leads (leads_jump hp) v s⟩⟩

theorem means_again (target : Option String) (construct : String) :
    Means code link n free (toLoop target construct fun lp c => c.jump lp.entry) before none
      (.exit (.again target)) := by
  intro c c' frames hok hp hf
  obtain ⟨f, hfind, rfl⟩ := exit_ok hok hf
  exact ⟨hf.jump _, fun v s => ⟨f, hfind, .of_leads (leads_jump hp) v s⟩⟩

theorem means_leaveIf (cond : Condition) (target : Option String) (construct : String) :
    Means code link n free (toLoop target construct fun lp c => c.jumpIf cond.normalize lp.exit) before
      none (.branch cond (.exit (.leave target)) .skip) := by
  intro c c' frames hok hp hf
  obtain ⟨f, hfind, rfl⟩ := exit_ok hok hf
  refine ⟨hf.jumpIf _ _, fun v s => ?_⟩
  exact fate_test hp v s (fun hj => ⟨f, hfind, hj⟩) (.skip (.refl _) v s)

theorem means_againIf (cond : Condition) (target : Option String) (construct : String) :
    Means code link n free (toLoop target construct fun lp c => c.jumpIf cond.normalize lp.entry) before
      none (.branch cond (.exit (.again target)) .skip) := by
  intro c c' frames hok hp hf
  obtain ⟨f, hfind, rfl⟩ := exit_ok hok hf
  refine ⟨hf.jumpIf _ _, fun v s => ?_⟩
  exact fate_test hp v s (fun hj => ⟨f, hfind, hj⟩) (.skip (.refl _) v s)

theorem means_loop (hc : Closed code) {body : Build} (hbal : body.Balanced) {e : Evaluation σ}
    (hb : Means code link n free body none after e) :
    Means code link n free (loop body) before none (.loop before e n) := by
  intro c c' frames hok hp hf
  obtain ⟨c₁, hbody, rfl⟩ := loop_ok hok
  have hp : ((c₁.jump c.pushLoop.1.entry).place c.pushLoop.1.exit).code <+: code := hp
  have hjump : (c₁.jump c.pushLoop.1.entry).code <+: code := prefix_emit hp
  have hp₁ : c₁.code <+: code := prefix_emit hjump
  have hplace : (c.pushLoop.2.place c.pushLoop.1.entry).code <+: code :=
    (hbal.of_eq hbody).code.trans hp₁
  have hnew := new_of_place hc hplace
  have hpush := hf.pushLoop
  obtain ⟨hf₁, hrun⟩ := hb hbody hp₁ (hpush.place hnew)
  have hexit := new_of_place hc hp
  refine ⟨((hf₁.jump _).place hexit).popLoop, fun v s => ?_⟩
  have hentry := follow_place hc hplace
  have hback : Leads code (c₁.here code) (c.pushLoop.2.here code) := by
    rw [← hentry]
    exact leads_jump hjump
  have hloop := Fate.loop (next?_place hplace) hback hentry (follow_place hc hp) hrun n
    (Nat.le_refl n) v s
  exact hloop.leads (leads_place hp)

/-- A test of a condition; an empty branch does nothing. -/
theorem means_branch (hc : Closed code) (cond : Condition) {yes no : List Build}
    {y e : Evaluation σ} (hy : MeansAll code link n free yes y) (he : MeansAll code link n free no e)
    (hyes : yes = [] → y = .skip) (hno : no = [] → e = .skip) (hby : ∀ b ∈ yes, b.Balanced)
    (hbn : ∀ b ∈ no, b.Balanced) :
    Means code link n free (branch cond yes no) before
      (if yes.isEmpty && no.isEmpty then before else none) (.branch cond y e) := by
  obtain ⟨ty, hy⟩ := hy
  obtain ⟨tn, he⟩ := he
  intro c c' frames hok hp hf
  rcases branch_ok hok with ⟨rfl, rfl, rfl⟩ | ⟨hne, rfl, c₁, h₁, rfl⟩ | ⟨rfl, hne, c₁, h₁, rfl⟩ |
    ⟨hne, hne', c₁, c₂, h₁, h₂, rfl⟩
  · refine ⟨hf, fun v s => ?_⟩
    have hstay : Fate code link n frames (c'.here code) (c'.here code) v s
        (Evaluation.skip v s) := .skip (.refl _) v s
    rw [hyes rfl, hno rfl]
    exact Fate.branch v s (fun _ => hstay) fun _ => hstay
  · have hp₁ : c₁.code <+: code := prefix_emit hp
    have hjump := ((balanced_seq hby).of_eq h₁).code.trans hp₁
    obtain ⟨hf₁, hrun⟩ := hy h₁ hp₁ (hf.newLabel.jumpIf _ _)
    refine ⟨?_, fun v s => ?_⟩
    · rw [List.isEmpty_eq_false_iff.mpr hne]
      exact hf₁.place (new_of_place hc hp)
    · refine fate_test_negate hjump v s ((hrun v s).leads (leads_place hp)) ?_
      rw [follow_place hc hp, hno rfl]
      exact .skip (leads_place hp) v s
  · have hp₁ : c₁.code <+: code := prefix_emit hp
    have hjump := ((balanced_seq hbn).of_eq h₁).code.trans hp₁
    obtain ⟨hf₁, hrun⟩ := he h₁ hp₁ (hf.newLabel.jumpIf _ _)
    refine ⟨?_, fun v s => ?_⟩
    · rw [List.isEmpty_eq_false_iff.mpr hne]
      exact hf₁.place (new_of_place hc hp)
    · refine fate_test hjump v s (fun hj => ?_) ((hrun v s).leads (leads_place hp))
      rw [follow_place hc hp] at hj
      rw [hyes rfl]
      exact .of_passes hj (.skip (leads_place hp) v s)
  · have hp₂ : c₂.code <+: code := prefix_emit hp
    have hother := ((balanced_seq hbn).of_eq h₂).code.trans hp₂
    have hexit := prefix_emit hother
    have hp₁ : c₁.code <+: code := prefix_emit hexit
    have hjump := ((balanced_seq hby).of_eq h₁).code.trans hp₁
    obtain ⟨hf₁, hrun₁⟩ := hy h₁ hp₁ (hf.newLabel.newLabel.jumpIf _ _)
    obtain ⟨hf₂, hrun₂⟩ := he h₂ hp₂ ((hf₁.jump _).place (new_of_place hc hother))
    refine ⟨?_, fun v s => ?_⟩
    · rw [List.isEmpty_eq_false_iff.mpr hne]
      exact hf₂.place (new_of_place hc hp)
    · have hend := leads_place hp
      have hout := leads_jump hexit
      rw [follow_place hc hp] at hout
      refine fate_test_negate hjump v s ((hrun₁ v s).leads (hout.trans hend)) ?_
      rw [follow_place hc hother]
      exact .of_leads (leads_place hother) ((hrun₂ v s).leads hend)

theorem framed_tests (reg : Register) (ts : List (Operand × Label)) (hf : c.Framed free frames before) :
    ∃ after, (tests reg c ts).Framed free frames after := by
  induction ts generalizing c before with
  | nil => exact ⟨before, hf⟩
  | cons t rest ih => exact ih (hf.jumpIf _ _)

/-- The tests of a switch lead to the first body whose key equals the register, or go on. -/
theorem fate_tests {reg : Register} {ts : List (Operand × Label)}
    {es : List (Operand × Evaluation σ)} {default : Evaluation σ} {z : Spot}
    (hts : List.Forall₂ (fun t e => t.1 = e.1 ∧
      ∀ v s, Fate code link n frames (follow code t.2) z v s (e.2 v s)) ts es)
    (hd : ∀ v s, Fate code link n frames ((tests reg c ts).here code) z v s (default v s))
    (hp : (tests reg c ts).code <+: code) (v : View) (s : σ) :
    Fate code link n frames (c.here code) z v s (Evaluation.select reg es default v s) := by
  induction hts generalizing c v s with
  | nil => exact hd v s
  | @cons t e ts es ht _ ih =>
    obtain ⟨key, l⟩ := t
    obtain ⟨key', body⟩ := e
    obtain ⟨hkey, hrun⟩ := ht
    obtain rfl : key = key' := hkey
    have hjump := (returns_tests reg ts (c.jumpIf (Condition.mk reg .eq key).normalize l)).code
    exact fate_test (hjump.trans hp) v s (fun hj => .of_passes hj (hrun v s)) (ih hd hp v s)

/-- Every body of a switch runs from its label to the exit. -/
theorem fate_bodies (hc : Closed code) {exit : Label} {targets : List (Label × List Build)}
    {es : List (Evaluation σ)}
    (hm : List.Forall₂ (fun t e => MeansAll code link n free t.2 e) targets es)
    (hbal : ∀ t ∈ targets, ∀ b ∈ t.2, b.Balanced) (hok : bodies exit targets c = (c', .ok ()))
    (hp : c'.code <+: code) (hf : c.Framed free frames none) :
    c'.Framed free frames none ∧ List.Forall₂ (fun t e =>
      ∀ v s, Fate code link n frames (follow code t.1) (follow code exit) v s (e v s)) targets es := by
  induction hm generalizing c with
  | nil =>
    obtain rfl := bodies_nil_ok hok
    exact ⟨hf, .nil⟩
  | @cons t e targets es ht _ ih =>
    obtain ⟨l, body⟩ := t
    obtain ⟨after, hbody⟩ := ht
    obtain ⟨c₁, h₁, h₂⟩ := bodies_cons_ok hok
    have hrest : ∀ t ∈ targets, ∀ b ∈ t.2, b.Balanced := fun t ht => hbal t (List.mem_cons_of_mem _ ht)
    have hexit : (c₁.jump exit).code <+: code := ((balanced_bodies exit hrest).of_eq h₂).code.trans hp
    have hp₁ : c₁.code <+: code := prefix_emit hexit
    have hplace := ((balanced_seq (hbal _ List.mem_cons_self)).of_eq h₁).code.trans hp₁
    obtain ⟨hf₁, hrun⟩ := hbody h₁ hp₁ (hf.place (new_of_place hc hplace))
    obtain ⟨hf', hfates⟩ := ih hrest h₂ (hf₁.jump _)
    refine ⟨hf', .cons (fun v s => ?_) hfates⟩
    rw [follow_place hc hplace]
    exact .of_leads (leads_place hplace) ((hrun v s).leads (leads_jump hexit))

/-- Labels beside keys and labels beside bodies go together. -/
theorem forall₂_zip {α β γ ε : Type} {R : γ → ε → Prop} {labels : List γ} {cases : List (α × β)}
    {es : List (α × ε)} (hlen : labels.length = cases.length)
    (hkeys : cases.map (·.1) = es.map (·.1))
    (h : List.Forall₂ (fun t e => R t.1 e) (labels.zip (cases.map (·.2))) (es.map (·.2))) :
    List.Forall₂ (fun t e => t.1 = e.1 ∧ R t.2 e.2) ((cases.map (·.1)).zip labels) es := by
  induction cases generalizing labels es with
  | nil =>
    obtain rfl : es = [] := by simpa using hkeys.symm
    exact .nil
  | cons k rest ih =>
    cases labels with
    | nil => simp at hlen
    | cons l labels =>
      cases es with
      | nil => simp at hkeys
      | cons e es =>
        simp only [List.map_cons, List.cons.injEq] at hkeys
        simp only [List.map_cons, List.zip_cons_cons] at h ⊢
        cases h with
        | cons hl h => exact .cons ⟨hkeys.1, hl⟩ (ih (by simpa using hlen) hkeys.2 h)

/-- The bodies of the cases, each beside its label. -/
theorem forall₂_bodies {cases : List (Operand × List Build)} {es : List (Operand × Evaluation σ)}
    {labels : List Label} (hlen : labels.length = cases.length)
    (hm : List.Forall₂ (fun k e => k.1 = e.1 ∧ MeansAll code link n free k.2 e.2) cases es) :
    cases.map (·.1) = es.map (·.1) ∧
      List.Forall₂ (fun t e => MeansAll code link n free t.2 e) (labels.zip (cases.map (·.2)))
        (es.map (·.2)) := by
  induction hm generalizing labels with
  | nil =>
    obtain rfl : labels = [] := List.eq_nil_of_length_eq_zero hlen
    exact ⟨rfl, .nil⟩
  | cons hk _ ih =>
    cases labels with
    | nil => simp at hlen
    | cons l labels =>
      have hlen : labels.length = _ := Nat.succ.inj hlen
      obtain ⟨hkeys, hm⟩ := ih hlen
      exact ⟨by rw [List.map_cons, List.map_cons, hkeys, hk.1], .cons hk.2 hm⟩

/-- The head of a switch leads to the bodies: if each of them runs to the exit, so does the whole. -/
theorem fate_dispatch (reg : Register) {cases : List (Operand × List Build)}
    {default : List Build} {es : List (Operand × Evaluation σ)} {d : Evaluation σ}
    (hm : List.Forall₂ (fun k e => k.1 = e.1 ∧ MeansAll code link n free k.2 e.2) cases es)
    (hd : MeansAll code link n free default d) (hempty : default = [] → d = .skip)
    (hp : (dispatch reg cases default c).2.2.code <+: code) (hf : c.Framed free frames before) :
    (dispatch reg cases default c).2.2.Framed free frames none ∧ ∃ bs : List (Evaluation σ),
      List.Forall₂ (fun t e => MeansAll code link n free t.2 e) (dispatch reg cases default c).2.1 bs ∧
      (List.Forall₂ (fun t e => ∀ v s, Fate code link n frames (follow code t.1)
          (follow code (dispatch reg cases default c).1) v s (e v s))
        (dispatch reg cases default c).2.1 bs →
      ∀ v s, Fate code link n frames (c.here code) (follow code (dispatch reg cases default c).1) v s
        (Evaluation.select reg es d v s)) := by
  have hlen := c.newLabel.2.length_newLabels cases.length
  have hhere : (c.newLabel.2.newLabels cases.length).2.here code = c.here code :=
    here_congr (c.newLabel.2.code_newLabels cases.length)
  obtain ⟨hkeys, hbodies⟩ := forall₂_bodies hlen hm
  obtain ⟨after, hf⟩ := framed_tests reg ((cases.map (·.1)).zip
    (c.newLabel.2.newLabels cases.length).1) (hf.newLabel.newLabels cases.length)
  have tests (exit : Label) := @forall₂_zip _ _ _ _
    (fun l e => ∀ v s, Fate code link n frames (follow code l) (follow code exit) v s (e v s))
    _ _ _ hlen hkeys
  unfold dispatch at hp ⊢
  dsimp only at hp ⊢
  by_cases hde : default.isEmpty
  · rw [if_pos hde] at hp ⊢
    refine ⟨hf.jump _, es.map (·.2), hbodies, fun hfates v s => ?_⟩
    rw [← hhere]
    refine fate_tests (tests _ hfates) (fun v s => ?_) (prefix_emit hp) v s
    rw [hempty (List.isEmpty_iff.mp hde)]
    exact .skip (leads_jump hp) v s
  · rw [if_neg hde] at hp ⊢
    refine ⟨hf.newLabel.jump _, es.map (·.2) ++ [d], ?_, fun hfates v s => ?_⟩
    · exact List.rel_append hbodies (.cons hd .nil)
    · have hsame := hbodies.length_eq
      have hcases := List.forall₂_take (es.map (·.2)).length hfates
      have hlast := List.forall₂_drop (es.map (·.2)).length hfates
      rw [List.take_left' hsame, List.take_left' rfl] at hcases
      rw [List.drop_left' hsame, List.drop_left' rfl] at hlast
      rw [← hhere]
      refine fate_tests (tests _ hcases) (fun v s => ?_) (prefix_emit hp) v s
      exact .of_leads (leads_jump hp) ((List.forall₂_cons.mp hlast).1 v s)

/-- A switch runs the body of the first case whose key equals the register, else the default. -/
theorem means_switch (hc : Closed code) (reg : Register) {cases : List (Operand × List Build)}
    {default : List Build} {es : List (Operand × Evaluation σ)} {d : Evaluation σ}
    (hm : List.Forall₂ (fun k e => k.1 = e.1 ∧ MeansAll code link n free k.2 e.2) cases es)
    (hd : MeansAll code link n free default d) (hempty : default = [] → d = .skip)
    (hbal : ∀ k ∈ cases, ∀ b ∈ k.2, b.Balanced) (hbd : ∀ b ∈ default, b.Balanced) :
    Means code link n free (switch reg cases default) before none (.select reg es d) := by
  intro c c' frames hok hp hf
  obtain ⟨-, c₁, hb, rfl⟩ := switch_ok hok
  have hp₁ : c₁.code <+: code := prefix_emit hp
  have hmem := forall_dispatch hbal hbd reg c
  have hhead := ((balanced_bodies _ hmem).of_eq hb).code.trans hp₁
  obtain ⟨hf₀, bs, hbs, hrun⟩ := fate_dispatch reg hm hd hempty hhead hf
  obtain ⟨hf₁, hfates⟩ := fate_bodies hc hbs hmem hb hp₁ hf₀
  refine ⟨hf₁.place (new_of_place hc hp), fun v s => ?_⟩
  have hfate := hrun hfates v s
  rw [follow_place hc hp] at hfate
  exact hfate.leads (leads_place hp)

theorem prefix_ops (os : List Operation) (c : Context) : c.code <+: (os.foldl Context.op c).code := by
  induction os generalizing c with
  | nil => exact List.prefix_refl _
  | cons o os ih => exact (Returns.emit c (.op o)).code.trans (ih _)

theorem framed_ops (os : List Operation) (hf : c.Framed free frames none) :
    (os.foldl Context.op c).Framed free frames none := by
  induction os generalizing c with
  | nil => exact hf
  | cons o os ih => exact ih (hf.op o)

/-- Operations in a row are performed in their order. -/
theorem fate_ops {os : List Operation} (hp : (os.foldl Context.op c).code <+: code) (v : View)
    (s : σ) :
    Fate code link n frames (c.here code) ((os.foldl Context.op c).here code) v s
      (Evaluation.performAll link os v s) := by
  induction os generalizing c v s with
  | nil => exact .skip (.refl _) v s
  | cons o os ih =>
    have ho : (c.op o).code <+: code := (prefix_ops os _).trans hp
    exact (fate_op ho v s).andThen fun v s => ih hp v s

theorem lines_eq (i : Nat) (ls : List MenuLine) (c : Context) :
    lines i c ls = (menuLineOps i ls).foldl Context.op c := by
  induction ls generalizing i c with
  | nil => rfl
  | cons l ls ih => exact ih _ _

theorem means_menuLines (ls : List MenuLine) :
    Means code link n free (menuLines ls) before none
      (.performAll link (.displayClear :: menuLineOps 0 ls)) := by
  intro c c' frames hok hp hf
  have hc : c' = (Operation.displayClear :: menuLineOps 0 ls).foldl Context.op c :=
    (menuLines_ok hok).trans (lines_eq 0 ls _)
  subst hc
  refine ⟨?_, fun v s => fate_ops hp v s⟩
  exact framed_ops (menuLineOps 0 ls) (hf.op .displayClear)

theorem means_ifFileExists (hc : Closed code) (file : FileName) {yes no : List Build}
    {y e : Evaluation σ} (hy : MeansAll code link n free yes y) (he : MeansAll code link n free no e)
    (hyes : yes = [] → y = .skip) (hno : no = [] → e = .skip) (hby : ∀ b ∈ yes, b.Balanced)
    (hbn : ∀ b ∈ no, b.Balanced) :
    Means code link n free (ifFileExists file yes no) before none
      (.andThen (.perform link (.fileExists file)) (.branch succeeded y e)) := by
  intro c c' frames hok hp hf
  have hok : branch succeeded yes no (c.op (.fileExists file)) = (c', .ok ()) := hok
  have hbranch := @means_branch _ code link n free none hc succeeded _ _ _ _ hy he hyes hno hby hbn
  have ho := ((balanced_branch succeeded hby hbn).of_eq hok).code.trans hp
  obtain ⟨hf', hrun⟩ := hbranch hok hp (hf.op _)
  rw [ite_self] at hf'
  exact ⟨hf', fun v s => (fate_op ho v s).andThen hrun⟩

theorem means_getResult (hc : Closed code) (dst : Register) :
    Means code link n free (getResult dst) before none (.copyStatus link dst) := by
  have store (k : Int32) : MeansAll code link n free [assignInt dst k]
      (.perform link (Operation.assign dst (.value (.int k))).normalize) := by
    have h := means_cons (@means_op _ code link n free none (.assign dst (.value (.int k)))) means_nil
      (by simp)
    rw [Evaluation.andThen_skip] at h
    exact ⟨none, h⟩
  have hbal (k : Int32) : ∀ b ∈ [assignInt dst k], b.Balanced := by
    intro b hb
    exact List.mem_singleton.mp hb ▸ balanced_op _
  rw [Evaluation.copyStatus_eq]
  refine means_switch hc .rslt ?_ (store (-3)) (by simp) ?_ (hbal (-3))
  · rw [List.forall₂_map_left_iff, List.forall₂_map_right_iff, List.forall₂_same]
    exact fun k _ => ⟨rfl, store k⟩
  · intro k hk
    obtain ⟨m, -, rfl⟩ := List.mem_map.mp hk
    exact hbal m

end Handheld.Build
