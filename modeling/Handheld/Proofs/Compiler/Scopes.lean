import Handheld.Proofs.Compiler.Obstacles

namespace Handheld

namespace Scope

theorem past_past (sc : Scope) (a b : List String) (x y : Option String) :
    (sc.past a x).past b y = sc.past (a ++ b) y := by
  simp only [past, List.append_assoc]

theorem past_nil (sc : Scope) : sc.past [] sc.before = sc := by
  simp only [past, List.append_nil]

theorem past_inside (sc : Scope) (names : List String) (x : Option String) :
    sc.inside.past names x = sc.past names x := rfl

theorem inside_eq (sc : Scope) : sc.inside = sc.past [] none := by
  simp only [inside, past, List.append_nil]

end Scope

namespace Context

variable {c c' : Context} {sc : Scope} {l : Label}

/-- There is the label, and it belongs to no name. -/
def Unnamed (c : Context) (l : Label) : Prop := l.id < c.labels.size ∧ ∀ name, c.find? name ≠ some l

/-- Everything in the scope of the context but the label right in front. -/
structure Placed (c : Context) (sc : Scope) : Prop where
  holding : c.Holding sc.depth
  names : ∀ name, name ∈ sc.names ↔ ∃ l, c.find? name = some l
  named : ∀ name l, c.find? name = some l → l.id < c.labels.size
  loops : List.Forall₂ (fun lp name => c.Names lp.label name) c.loops sc.loops
  labels : ∀ lp ∈ c.loops, ∀ l, lp.label = some l → l.id < c.labels.size

/-- The context stands in the scope. -/
structure Known (c : Context) (sc : Scope) : Prop extends c.Placed sc where
  before : c.Names c.last? sc.before
  last : ∀ l, c.last? = some l → l.id < c.labels.size

theorem Known.initial : Context.initial.Known .outset := by
  have hlast : Context.initial.last? = none := rfl
  refine { holding := .initial, names := ?_, named := nofun, loops := .nil, labels := nofun, before := ?_,
           last := nofun }
  · exact fun name => iff_of_false nofun fun ⟨l, hl⟩ => nomatch hl
  · exact fun name => iff_of_false nofun fun ⟨l, hl, _⟩ => nomatch hl

/-- Where no temporary is in use none is found. -/
theorem Holding.checkAllFree (h : c.Holding 0) : c.checkAllFree = .ok () := by
  have hnone : Register.all.find? c.isHeld = none := by
    rw [List.find?_eq_none]
    intro r _ hheld
    obtain ⟨hpooled, hfree⟩ := Bool.and_eq_true_iff.mp hheld
    have hmem : r ∈ c.free r.kind := by
      rw [Context.free, h.pools_eq, Pools.get_full]
      exact Register.mem_pool.mpr ⟨hpooled, rfl⟩
    simp [hmem] at hfree
  simp only [Context.checkAllFree, hnone]

theorem Unnamed.mono (h : c.Unnamed l) (hsize : c.labels.size ≤ c'.labels.size)
    (hn : c'.named = c.named) : c'.Unnamed l := by
  refine ⟨Nat.lt_of_lt_of_le h.1 hsize, ?_⟩
  rw [find?_congr hn]
  exact h.2

theorem Unnamed.emit (h : c.Unnamed l) (i : Instruction) : (c.emit i).Unnamed l := h

theorem Unnamed.newLabel (h : c.Unnamed l) : c.newLabel.2.Unnamed l :=
  h.mono (Returns.newLabel c).size rfl

namespace Placed

/-- The names and the loops are the same, and the labels that there have been are still there. -/
theorem mono {n : Nat} (h : c.Placed sc) (hc : c'.Holding n) (hsize : c.labels.size ≤ c'.labels.size)
    (hn : c'.named = c.named) (hloops : c'.loops = c.loops) : c'.Placed { sc with depth := n } := by
  refine ⟨hc, ?_, ?_, ?_, ?_⟩
  · rw [find?_congr hn]
    exact h.names
  · intro name l hl
    rw [find?_congr hn] at hl
    exact Nat.lt_of_lt_of_le (h.named name l hl) hsize
  · rw [hloops]
    exact h.loops.imp fun lp name hlp => hlp.congr hn
  · rw [hloops]
    intro lp hlp l hl
    exact Nat.lt_of_lt_of_le (h.labels lp hlp l hl) hsize

theorem of_returns (h : c.Placed sc) (hr : c.Returns c') (hn : c'.named = c.named) : c'.Placed sc :=
  h.mono (h.holding.congr hr.pools) hr.size hn hr.loops

/-- The label right in front does not count. -/
theorem rebefore (h : c.Placed sc) (x : Option String) : c.Placed { sc with before := x } :=
  ⟨h.holding, h.names, h.named, h.loops, h.labels⟩

theorem unnamed_newLabel (h : c.Placed sc) : c.newLabel.2.Unnamed c.newLabel.1 := by
  refine ⟨?_, ?_⟩
  · rw [size_newLabel]
    exact Nat.lt_succ_self _
  · intro name hl
    exact Nat.lt_irrefl _ (h.named name _ hl)

/-- Where there is no label right in front. -/
theorem known (h : c.Placed sc) (hlast : c.last? = none) : c.Known sc.inside := by
  refine { toPlaced := h.rebefore none, before := ?_, last := ?_ }
  · intro name
    rw [hlast]
    exact iff_of_false nofun fun ⟨l, hl, _⟩ => nomatch hl
  · intro l hl
    rw [hlast] at hl
    cases hl

theorem emit (h : c.Placed sc) {i : Instruction} (hi : i.label? = none) : (c.emit i).Known sc.inside :=
  (h.of_returns (.emit c i) rfl).known ((last?_emit c i).trans hi)

/-- A label without a name. -/
theorem place (h : c.Placed sc) (hl : c.Unnamed l) : (c.place l).Known sc.inside := by
  have hlast : (c.place l).last? = some l := last?_emit c _
  refine { toPlaced := (h.of_returns (.emit c _) rfl).rebefore none, before := ?_, last := ?_ }
  · intro name
    rw [hlast]
    refine iff_of_false nofun ?_
    rintro ⟨l', hl', hname⟩
    cases hl'
    exact hl.2 name hname
  · intro l' hl'
    rw [hlast] at hl'
    cases hl'
    exact hl.1

/-- A new label with a new name. -/
theorem label (h : c.Placed sc) {name : String} (hname : c.find? name = none)
    (hc' : { c.newLabel.2 with named := (name, c.newLabel.1) :: c.named }.place c.newLabel.1 = c') :
    c'.Known (sc.past [name] (some name)) ∧ ∀ l, c.Unnamed l → c'.Unnamed l := by
  have hsize : c'.labels.size = c.labels.size + 1 := hc' ▸ size_newLabel c
  have hfind : ∀ other, c'.find? other = if name = other then some c.newLabel.1 else c.find? other :=
    hc' ▸ c.find?_label name
  have hlast : c'.last? = some c.newLabel.1 := hc' ▸ last?_emit _ _
  have hloops : c'.loops = c.loops := hc' ▸ rfl
  have hpools : c'.pools = c.pools := hc' ▸ rfl
  refine ⟨{ holding := h.holding.congr hpools, names := ?_, named := ?_, loops := ?_, labels := ?_,
            before := ?_, last := ?_ }, ?_⟩
  · intro other
    show other ∈ sc.names ++ [name] ↔ _
    rw [List.mem_append, List.mem_singleton, h.names, hfind]
    by_cases he : name = other
    · rw [if_pos he]
      exact iff_of_true (.inr he.symm) ⟨_, rfl⟩
    · rw [if_neg he]
      exact or_iff_left (Ne.symm he)
  · intro other l hl
    rw [hfind] at hl
    rw [hsize]
    split at hl
    · cases hl
      exact Nat.lt_succ_self _
    · exact Nat.lt_succ_of_lt (h.named other l hl)
  · rw [hloops]
    have hold := (List.forall₂_and_left c.loops sc.loops).mpr ⟨h.labels, h.loops⟩
    refine hold.imp fun lp x hlp => ?_
    obtain ⟨hlabels, hnames⟩ := hlp
    exact hc' ▸ hnames.label hname fun he => Nat.lt_irrefl _ (hlabels _ he)
  · rw [hloops, hsize]
    intro lp hlp l hl
    exact Nat.lt_succ_of_lt (h.labels lp hlp l hl)
  · rw [hlast]
    exact hc' ▸ Names.newLabel name fun other hother => Nat.lt_irrefl _ (h.named other _ hother)
  · intro l hl
    rw [hlast] at hl
    cases hl
    rw [hsize]
    exact Nat.lt_succ_self _
  · intro l hl
    refine ⟨?_, fun other hother => ?_⟩
    · rw [hsize]
      exact Nat.lt_succ_of_lt hl.1
    · rw [hfind] at hother
      split at hother
      · cases hother
        exact Nat.lt_irrefl _ hl.1
      · exact hl.2 other hother

/-- A loop has a name if the label in front of it belongs to the name. -/
theorem mem_loops (h : c.Placed sc) (name : String) :
    some name ∈ sc.loops ↔ ∃ lp ∈ c.loops, ∃ l, lp.label = some l ∧ c.find? name = some l := by
  have hloops := h.loops
  clear h
  generalize c.loops = loops at hloops ⊢
  generalize sc.loops = names at hloops ⊢
  induction hloops with
  | nil => exact iff_of_false nofun fun ⟨lp, hlp, _⟩ => nomatch hlp
  | @cons lp x loops names hlp hrest ih =>
    have hfirst : some name = x ↔ ∃ l, lp.label = some l ∧ c.find? name = some l :=
      eq_comm.trans (hlp name)
    refine List.mem_cons.trans ((or_congr hfirst ih).trans ?_)
    simp only [List.mem_cons, exists_eq_or_imp]

/-- An exit finds a loop where the scope has one for it. -/
theorem findLoop (h : c.Placed sc) (construct : String) (target : Option String) :
    match sc.exit construct target with
    | [] => ∃ lp, c.findLoop target construct = .ok lp
    | o :: _ => ∃ e, c.findLoop target construct = .error e ∧ o.error = .source e := by
  unfold Scope.exit Context.findLoop
  cases target with
  | none =>
    have hloops := h.loops
    unfold currentLoop
    generalize c.loops = loops at hloops ⊢
    generalize sc.loops = names at hloops ⊢
    cases hloops with
    | nil => exact ⟨_, rfl, rfl⟩
    | @cons lp x => exact ⟨lp, rfl⟩
  | some name =>
    have hany : sc.loops.any (picks (some name)) = true ↔ some name ∈ sc.loops := by
      simp [picks]
    unfold labeledLoop
    cases hl : (c.find? name).bind fun l => c.loops.find? fun lp => lp.label = some l with
    | some lp =>
      obtain ⟨l, hname, hloop⟩ := Option.bind_eq_some_iff.mp hl
      obtain ⟨hlabel, -⟩ := List.find?_eq_some_iff_append.mp hloop
      have hmem := (h.mem_loops name).mpr
        ⟨lp, List.mem_of_find?_eq_some hloop, l, of_decide_eq_true hlabel, hname⟩
      simp only [hany.mpr hmem, hl, if_true]
      exact ⟨lp, rfl⟩
    | none =>
      have hpicked : ¬ sc.loops.any (picks (some name)) = true := by
        intro hmem
        obtain ⟨lp, hlp, l, hlabel, hname⟩ := (h.mem_loops name).mp (hany.mp hmem)
        rw [hname] at hl
        exact List.find?_eq_none.mp hl lp hlp (decide_eq_true hlabel)
      simp only [hpicked, hl]
      exact ⟨_, rfl, rfl⟩

end Placed

/-- The label right in front becomes that of the loop. -/
theorem Known.pushLoop (h : c.Known sc) :
    c.pushLoop.2.Placed { sc with loops := sc.before :: sc.loops } ∧
      c.pushLoop.2.Unnamed c.pushLoop.1.entry ∧ c.pushLoop.2.Unnamed c.pushLoop.1.exit := by
  have hreturns : c.Returns c.newLabel.2.newLabel.2 := (Returns.newLabel c).trans (.newLabel _)
  have hplaced := h.of_returns hreturns rfl
  have hentry : c.newLabel.2.newLabel.2.Unnamed c.pushLoop.1.entry :=
    h.unnamed_newLabel.mono (Returns.newLabel _).size rfl
  have hexit : c.newLabel.2.newLabel.2.Unnamed c.pushLoop.1.exit :=
    (h.of_returns (.newLabel c) rfl).unnamed_newLabel
  refine ⟨⟨hplaced.holding.congr rfl, hplaced.names, hplaced.named, .cons h.before hplaced.loops, ?_⟩,
    hentry, hexit⟩
  intro lp hlp l hl
  rcases List.mem_cons.mp hlp with rfl | hlp
  · exact Nat.lt_of_lt_of_le (h.last l hl) hreturns.size
  · exact hplaced.labels lp hlp l hl

theorem Placed.popLoop (h : c.Placed sc) : c.popLoop.Placed { sc with loops := sc.loops.tail } := by
  refine ⟨h.holding.congr rfl, h.names, h.named, ?_, ?_⟩
  · have hrest := List.forall₂_drop 1 h.loops
    rw [List.drop_one, List.drop_one] at hrest
    exact hrest
  · intro lp hlp
    exact h.labels lp (List.mem_of_mem_tail hlp)

/-- Closing a loop leaves the label right in front. -/
theorem Known.popLoop (h : c.Known sc) : c.popLoop.Known { sc with loops := sc.loops.tail } :=
  { toPlaced := h.toPlaced.popLoop, before := h.before, last := h.last }

theorem Known.mono {n : Nat} (h : c.Known sc) (hc : c'.Holding n) (hcode : c'.code = c.code)
    (hsize : c.labels.size ≤ c'.labels.size) (hn : c'.named = c.named) (hloops : c'.loops = c.loops) :
    c'.Known { sc with depth := n } := by
  have hlast : c'.last? = c.last? := by rw [last?, last?, hcode]
  refine { toPlaced := h.toPlaced.mono hc hsize hn hloops, before := ?_, last := ?_ }
  · rw [hlast]
    exact h.before.congr hn
  · intro l hl
    rw [hlast] at hl
    exact Nat.lt_of_lt_of_le (h.last l hl) hsize

theorem named_newLabels (c : Context) (k : Nat) : (c.newLabels k).2.named = c.named := by
  induction k generalizing c with
  | zero => rfl
  | succ k ih => exact ih _

/-- New labels change nothing of the scope. -/
theorem Known.newLabels (h : c.Known sc) (k : Nat) : (c.newLabels k).2.Known sc := by
  have hreturns := Returns.newLabels c k
  exact h.mono (h.holding.congr hreturns.pools) (code_newLabels c k) hreturns.size (named_newLabels c k)
    hreturns.loops

/-- New labels have no names. -/
theorem Placed.unnamed_newLabels (h : c.Placed sc) (k : Nat) :
    ∀ l ∈ (c.newLabels k).1, (c.newLabels k).2.Unnamed l := by
  induction k generalizing c with
  | zero => exact nofun
  | succ k ih =>
    intro l hl
    rcases List.mem_cons.mp hl with rfl | hl
    · exact h.unnamed_newLabel.mono (Returns.newLabels _ k).size (named_newLabels _ k)
    · exact ih (h.of_returns (.newLabel c) rfl) l hl

end Context

end Handheld
