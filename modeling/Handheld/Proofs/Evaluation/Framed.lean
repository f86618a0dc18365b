import Handheld.Proofs.Construct.Success
import Handheld.Proofs.Evaluation.Fate
import Mathlib.Data.List.Find

namespace Handheld.Context

open Handheld.Flow Machine

/-- The label that the list so far ends with. -/
def last? (c : Context) : Option Label := c.code.getLast?.bind Instruction.label?

/-- The name of a label, if it has one. -/
def Names (c : Context) (l? : Option Label) (name? : Option String) : Prop :=
  ∀ name, name? = some name ↔ ∃ l, l? = some l ∧ c.find? name = some l

/-- The free registers for keys, and the open loops and the last label with their names. Every label
that counts has been placed. -/
structure Framed (c : Context) (free : List Register) (frames : List Frame) (before : Option String) :
    Prop where
  free : c.free .int = free
  loops : c.loops = frames.map (·.1)
  named : ∀ name l, c.find? name = some l → l ∈ placedLabels c.code
  labels : ∀ f ∈ frames, ∀ l, f.1.label = some l → l ∈ placedLabels c.code
  frames : ∀ f ∈ frames, c.Names f.1.label f.2
  before : c.Names c.last? before

/-- The place behind what has been built so far. -/
def here (code : List Instruction) (c : Context) : Spot := .before (code.drop c.code.length)

variable {c c' : Context} {free : List Register} {frames : List Frame} {before : Option String}

theorem placedLabels_emit (c : Context) (i : Instruction) :
    placedLabels (c.emit i).code = placedLabels c.code ++ i.label?.toList := by
  cases i <;> simp [placedLabels, emit, Instruction.label?]

theorem last?_emit (c : Context) (i : Instruction) : (c.emit i).last? = i.label? := by
  simp [last?, emit]

theorem find?_congr (h : c'.named = c.named) : c'.find? = c.find? := by
  funext name
  rw [find?, find?, h]

/-- A new label with a name is found by it. -/
theorem find?_label (c : Context) (name other : String) :
    find? ({ c.newLabel.2 with named := (name, c.newLabel.1) :: c.named }.place c.newLabel.1) other =
      if name = other then some c.newLabel.1 else c.find? other := by
  by_cases he : name = other
  · simp [find?, Context.place, Context.emit, he]
  · simp [find?, Context.place, Context.emit, he]

namespace Names

variable {l? : Option Label} {name? : Option String} {name : String}

theorem congr (h : c.Names l? name?) (hn : c'.named = c.named) : c'.Names l? name? := by
  intro name
  rw [find?_congr hn]
  exact h name

/-- A new name is none of the names that there have been, and its label none of the labels. -/
theorem label (h : c.Names l? name?) (hname : c.find? name = none) (hnew : l? ≠ some c.newLabel.1) :
    ({ c.newLabel.2 with named := (name, c.newLabel.1) :: c.named }.place c.newLabel.1).Names l? name? := by
  intro other
  rw [h other, find?_label]
  by_cases he : name = other
  · subst he
    rw [if_pos rfl, hname]
    refine iff_of_false (fun ⟨l, _, hl⟩ => nomatch hl) ?_
    rintro ⟨l, hl, hsame⟩
    exact hnew (hl.trans hsame.symm)
  · rw [if_neg he]

theorem newLabel (name : String) (hnew : ∀ other, c.find? other ≠ some c.newLabel.1) :
    ({ c.newLabel.2 with named := (name, c.newLabel.1) :: c.named }.place c.newLabel.1).Names
      (some c.newLabel.1) (some name) := by
  intro other
  rw [find?_label]
  by_cases he : name = other
  · rw [if_pos he]
    exact iff_of_true (congrArg some he) ⟨_, rfl, rfl⟩
  · rw [if_neg he]
    refine iff_of_false (fun h => he (Option.some.inj h)) ?_
    rintro ⟨l, hl, hother⟩
    exact hnew other (hother.trans hl.symm)

end Names

namespace Framed

theorem initial : Framed Context.initial (Register.pool .int) [] none := by
  refine ⟨free_initial .int, rfl, ?_, by simp, by simp, ?_⟩
  · intro name l h
    simp [Context.initial, find?] at h
  · intro name
    simp [last?, Context.initial]

theorem congr {free' : List Register} (h : c.Framed free frames before) (hcode : c'.code = c.code)
    (hnamed : c'.named = c.named) (hloops : c'.loops = c.loops) (hfree : c'.free .int = free') :
    c'.Framed free' frames before := by
  have hfind := find?_congr hnamed
  refine ⟨hfree, hloops.trans h.loops, ?_, ?_, fun f hf => (h.frames f hf).congr hnamed, ?_⟩
  · rw [hfind, hcode]
    exact h.named
  · rw [hcode]
    exact h.labels
  · have hlast : c'.last? = c.last? := by simp [last?, hcode]
    rw [hlast]
    exact h.before.congr hnamed

theorem newLabel (h : c.Framed free frames before) : c.newLabel.2.Framed free frames before :=
  h.congr rfl rfl rfl h.free

theorem newLabels (h : c.Framed free frames before) (k : Nat) :
    (c.newLabels k).2.Framed free frames before := by
  induction k generalizing c with
  | zero => exact h
  | succ k ih => exact ih h.newLabel

/-- An instruction behind which no loop has a name. -/
theorem emit (h : c.Framed free frames before) {i : Instruction}
    (hi : ∀ l, i.label? = some l → l ∉ placedLabels c.code) : (c.emit i).Framed free frames none := by
  have hmem {l : Label} (hl : l ∈ placedLabels c.code) : l ∈ placedLabels (c.emit i).code := by
    rw [placedLabels_emit]
    exact List.mem_append_left _ hl
  refine ⟨h.free, h.loops, ?_, ?_, h.frames, ?_⟩
  · intro name l hl
    exact hmem (h.named name l hl)
  · intro f hf l hl
    exact hmem (h.labels f hf l hl)
  · intro name
    rw [last?_emit]
    constructor
    · intro hn
      cases hn
    · rintro ⟨l, hl, hf⟩
      exact absurd (h.named name l hf) (hi l hl)

theorem op (h : c.Framed free frames before) (o : Operation) : (c.op o).Framed free frames none :=
  h.emit (by simp [Instruction.label?])

theorem jump (h : c.Framed free frames before) (t : Label) : (c.jump t).Framed free frames none :=
  h.emit (by simp [Instruction.label?])

theorem jumpIf (h : c.Framed free frames before) (cond : Condition) (t : Label) :
    (c.jumpIf cond t).Framed free frames none :=
  h.emit (by simp [Instruction.label?])

/-- A new label without a name. -/
theorem place (h : c.Framed free frames before) {l : Label} (hl : l ∉ placedLabels c.code) :
    (c.place l).Framed free frames none := by
  refine h.emit ?_
  intro l' he
  cases he
  exact hl

/-- A new label with a name. -/
theorem label (h : c.Framed free frames before) {name : String} (hn : c.find? name = none)
    (hl : c.newLabel.1 ∉ placedLabels c.code) :
    ({ c.newLabel.2 with named := (name, c.newLabel.1) :: c.named }.place c.newLabel.1).Framed
      free frames (some name) := by
  have hfind := c.find?_label name
  have hcode : placedLabels
      ({ c.newLabel.2 with named := (name, c.newLabel.1) :: c.named }.place c.newLabel.1).code =
        placedLabels c.code ++ [c.newLabel.1] := placedLabels_emit _ _
  refine ⟨h.free, h.loops, ?_, ?_, ?_, ?_⟩
  · intro name' l hf
    rw [hfind] at hf
    rw [hcode]
    split at hf
    · cases hf
      exact List.mem_append_right _ (List.mem_singleton_self _)
    · exact List.mem_append_left _ (h.named name' l hf)
  · intro f hf l hlab
    rw [hcode]
    exact List.mem_append_left _ (h.labels f hf l hlab)
  · intro f hf
    exact (h.frames f hf).label hn fun he => hl (h.labels f hf _ he)
  · rw [Context.place, last?_emit]
    exact Names.newLabel name fun other hother => hl (h.named other _ hother)

theorem pushLoop (h : c.Framed free frames before) :
    c.pushLoop.2.Framed free ((c.pushLoop.1, before) :: frames) before := by
  refine ⟨h.free, ?_, h.named, ?_, ?_, h.before⟩
  · show c.pushLoop.1 :: c.loops = _
    rw [h.loops]
    rfl
  · intro f hf l hl
    rcases List.mem_cons.mp hf with rfl | hf
    · have hlast : c.last? = some l := hl
      obtain ⟨i, hi, hil⟩ := Option.bind_eq_some_iff.mp hlast
      exact List.mem_filterMap.mpr ⟨i, List.mem_of_getLast? hi, hil⟩
    · exact h.labels f hf l hl
  · intro f hf
    rcases List.mem_cons.mp hf with rfl | hf
    · exact h.before
    · exact h.frames f hf

theorem popLoop {f : Frame} (h : c.Framed free (f :: frames) before) :
    c.popLoop.Framed free frames before := by
  refine ⟨h.free, ?_, h.named, ?_, ?_, h.before⟩
  · rw [Context.popLoop, h.loops]
    rfl
  · intro g hg
    exact h.labels g (List.mem_cons_of_mem f hg)
  · intro g hg
    exact h.frames g (List.mem_cons_of_mem f hg)

/-- The first free register is taken. -/
theorem allocate {key r : Register} (h : c.Framed (key :: free) frames before)
    (ha : c.allocate .int = .ok (r, c')) : r = key ∧ c'.Framed free frames before := by
  have hfree := h.free.symm.trans (free_allocate ha)
  obtain ⟨hr, hrest⟩ := List.cons.inj hfree
  obtain ⟨hcode, -, hloops, -⟩ := Build.allocate_ok ha
  exact ⟨hr.symm, h.congr hcode (named_allocate ha) hloops hrest.symm⟩

/-- The loop that an exit finds is the innermost one that the exit picks. -/
theorem findLoop (h : c.Framed free frames before) {target : Option String} {construct : String}
    {lp : Loop} (hl : c.findLoop target construct = .ok lp) :
    ∃ f, frames.find? (fun f => picks target f.2) = some f ∧ f.1 = lp := by
  cases target with
  | none =>
    unfold Context.findLoop currentLoop at hl
    rw [h.loops] at hl
    cases frames with
    | nil => cases hl
    | cons f rest =>
      cases hl
      exact ⟨f, rfl, rfl⟩
  | some name =>
    unfold Context.findLoop labeledLoop at hl
    dsimp only at hl
    split at hl
    · next lp' hf =>
      cases hl
      obtain ⟨l, hname, hfind⟩ := Option.bind_eq_some_iff.mp hf
      rw [h.loops, List.find?_map] at hfind
      obtain ⟨f, hf, hlp⟩ := Option.map_eq_some_iff.mp hfind
      refine ⟨f, ?_, hlp⟩
      -- both searches ask the same of every open loop
      rw [← hf]
      apply List.find?_congr
      intro g hg
      have hnames := h.frames g hg name
      simp only [hname, Option.some.injEq, exists_eq_right'] at hnames
      by_cases hg : g.2 = some name
      · simp [picks, hg, hnames.mp hg]
      · have hne : g.1.label ≠ some l := fun he => hg (hnames.mpr he)
        simp [picks, Ne.symm hg, hne]
    · cases hl

end Framed

section Here

variable {code : List Instruction} {σ : Type} {link : Link σ} {n : Nat}

theorem here_congr (h : c'.code = c.code) : c'.here code = c.here code := by
  simp only [here, h]

/-- An instruction of the complete list stands at its place. -/
theorem here_emit {i : Instruction} (h : (c.emit i).code <+: code) :
    ∃ rest, c.here code = .before (i :: rest) ∧ (c.emit i).here code = .before rest := by
  obtain ⟨rest, rfl⟩ := h
  refine ⟨rest, ?_, ?_⟩
  · simp [here, emit]
  · simp [here]

theorem prefix_emit {i : Instruction} (h : (c.emit i).code <+: code) : c.code <+: code :=
  (List.prefix_append _ _).trans h

/-- A label is new where it is placed. -/
theorem new_of_place (hc : Closed code) {l : Label} (h : (c.place l).code <+: code) :
    l ∉ placedLabels c.code := by
  have hn : (placedLabels (c.place l).code).Nodup := hc.once.sublist (h.sublist.filterMap _)
  rw [Context.place, placedLabels_emit] at hn
  intro hmem
  exact (List.nodup_append.mp hn).2.2 l hmem l (by simp [Instruction.label?]) rfl

/-- A jump to a label leads to the place of the label. -/
theorem follow_place (hc : Closed code) {l : Label} (h : (c.place l).code <+: code) :
    follow code l = c.here code := by
  obtain ⟨rest, hrest⟩ := h
  have hcode : code = c.code ++ .label l :: rest := by
    rw [← hrest]
    simp [Context.place, emit]
  have hmem : l ∈ placedLabels code := by
    rw [mem_placedLabels, hcode]
    simp
  have hl : l ≠ .entry := by
    rintro rfl
    exact hc.outside hmem
  have hafter : Optimizer.after? l code = some rest :=
    Optimizer.after?_of_suffix hc.once ⟨c.code, hcode.symm⟩
  rw [follow_some hl hafter, here, hcode, List.drop_left]

theorem next?_place {l : Label} (h : (c.place l).code <+: code) :
    next? code (c.here code) = some ((c.place l).here code) := by
  obtain ⟨rest, hc, hp⟩ := here_emit h
  rw [hc]
  exact congrArg some hp.symm

theorem leads_place {l : Label} (h : (c.place l).code <+: code) :
    Leads code (c.here code) ((c.place l).here code) := .step (next?_place h)

/-- The place behind a label. -/
def past (code : List Instruction) (l : Label) : Spot := (next? code (follow code l)).getD .entry

theorem past_place (hc : Closed code) {l : Label} (h : (c.place l).code <+: code) :
    past code l = (c.place l).here code := by
  rw [past, follow_place hc h, next?_place h]
  rfl

theorem leads_jump {t : Label} (h : (c.jump t).code <+: code) :
    Leads code (c.here code) (follow code t) := by
  obtain ⟨rest, hc, -⟩ := here_emit h
  rw [hc]
  exact .jump t rest

theorem passes_jumpIf {cond : Condition} {t : Label} (h : (c.jumpIf cond t).code <+: code)
    (v : View) (s : σ) :
    Passes code link (c.here code) v s []
      (if v.holds cond then follow code t else (c.jumpIf cond t).here code) v s := by
  obtain ⟨rest, hc, hj⟩ := here_emit h
  have hp : Passes code link (c.here code) v s []
      (if v.holds cond then follow code t else .before rest) v s := by
    rw [hc]
    exact Fate.decide cond t rest v s
  rwa [← hj] at hp

/-- A jump on a condition of the source is a test of it: where the condition holds, the run goes to
the target. -/
theorem fate_test {cond : Condition} {t : Label} {z : Spot} {yes no : Evaluation σ}
    (h : (c.jumpIf cond.normalize t).code <+: code) (v : View) (s : σ)
    (hy : Passes code link (c.here code) v s [] (follow code t) v s →
      Fate code link n frames (c.here code) z v s (yes v s))
    (hn : Fate code link n frames ((c.jumpIf cond.normalize t).here code) z v s (no v s)) :
    Fate code link n frames (c.here code) z v s (Evaluation.branch cond yes no v s) := by
  have hj := @passes_jumpIf _ _ _ link _ _ h v s
  rw [v.holds_normalize] at hj
  refine Fate.branch v s (fun hc => ?_) fun hc => ?_
  · simp only [hc, if_true] at hj
    exact hy hj
  · simp only [hc, Bool.false_eq_true, if_false] at hj
    exact .of_passes hj hn

/-- The same of the opposite condition: where the condition holds, the run goes on. -/
theorem fate_test_negate {cond : Condition} {t : Label} {z : Spot} {yes no : Evaluation σ}
    (h : (c.jumpIf cond.normalize.negate t).code <+: code) (v : View) (s : σ)
    (hy : Fate code link n frames ((c.jumpIf cond.normalize.negate t).here code) z v s (yes v s))
    (hn : Fate code link n frames (follow code t) z v s (no v s)) :
    Fate code link n frames (c.here code) z v s (Evaluation.branch cond yes no v s) := by
  have hj := @passes_jumpIf _ _ _ link _ _ h v s
  rw [v.holds_negate, v.holds_normalize] at hj
  refine Fate.branch v s (fun hc => ?_) fun hc => ?_
  · simp only [hc, Bool.not_true, Bool.false_eq_true, if_false] at hj
    exact .of_passes hj hy
  · simp only [hc, Bool.not_false, if_true] at hj
    exact .of_passes hj hn

theorem fate_op {o : Operation} (h : (c.op o).code <+: code) (v : View) (s : σ) :
    Fate code link n frames (c.here code) ((c.op o).here code) v s
      (Evaluation.perform link o v s) := by
  obtain ⟨rest, hc, ho⟩ := here_emit h
  have hf : Fate code link n frames (.before (.op o :: rest)) (.before rest) v s
      (Evaluation.perform link o v s) := Fate.perform o rest v s
  rwa [← hc, ← ho] at hf

end Here

end Handheld.Context
