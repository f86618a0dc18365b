import Handheld.Proofs.Construct.Balance

namespace Handheld

namespace Operation

/-- The literal of an assignment converted to the kind of the destination. -/
def normalize : Operation → Operation
  | .assign dst src => .assign dst (src.normalize dst.kind)
  | o => o

theorem written_normalize (o : Operation) : o.normalize.written = o.written := by
  cases o <;> rfl

/-- The operation writes no system register. -/
def Proper (o : Operation) : Prop := ∀ r, o.written = some r → r.isSystem = false

end Operation

namespace Register

theorem length_pool (k : Kind) : (pool k).length = 10 := by
  cases k <;> decide +kernel

end Register

namespace Context

variable {c c' : Context}

theorem free_congr (h : c'.pools = c.pools) (k : Kind) : c'.free k = c.free k := by
  rw [free, free, h]

theorem free_initial (k : Kind) : initial.free k = Register.pool k :=
  congrArg Pool.free (Pools.get_full k)

theorem kind_pool {k : Kind} {r : Register} (h : r ∈ Register.pool k) : r.kind = k :=
  (Register.mem_pool.mp h).2

theorem isSystem_pool {k : Kind} {r : Register} (h : r ∈ Register.pool k) : r.isSystem = false := by
  have hpooled : r.role = .pooled := of_decide_eq_true (Register.mem_pool.mp h).1
  simp [Register.isSystem, hpooled]

theorem pool_of_free {k : Kind} {r : Register} (h : r ∈ c.free k) : r ∈ Register.pool k :=
  (c.pools.get k).within.subset h

theorem take?_allocate {k : Kind} {r : Register} (h : c.allocate k = .ok (r, c')) :
    ∃ pools, c.pools.take? k = some (r, pools) ∧
      c' = { c with pools }.note ("allocate " ++ r.name) := by
  unfold allocate at h
  split at h
  · cases h
  · next r' pools htake =>
    obtain ⟨rfl, rfl⟩ := Prod.mk.inj (Except.ok.inj h)
    exact ⟨pools, htake, rfl⟩

theorem give?_release {r : Register} (h : c.release r = .ok c') :
    ∃ pools, c.pools.give? r = some pools ∧
      c' = { c with pools }.note ("release " ++ r.name) := by
  unfold release at h
  split at h
  · cases h
  · next pools hgive => exact ⟨pools, hgive, (Except.ok.inj h).symm⟩

/-- Taking a temporary leaves the other free ones. -/
theorem free_allocate {k : Kind} {r : Register} (h : c.allocate k = .ok (r, c')) :
    c.free k = r :: c'.free k := by
  obtain ⟨pools, htake, rfl⟩ := take?_allocate h
  exact (Pools.free_take? htake).1

theorem named_allocate {k : Kind} {r : Register} (h : c.allocate k = .ok (r, c')) :
    c'.named = c.named := by
  obtain ⟨pools, -, rfl⟩ := take?_allocate h
  rfl

theorem named_release {r : Register} (h : c.release r = .ok c') : c'.named = c.named := by
  obtain ⟨pools, -, rfl⟩ := give?_release h
  rfl

end Context

namespace Build

open Context

variable {c c' : Context}

theorem bind_ok {α β ε : Type} {x : Except ε α} {f : α → Except ε β} {b : β} :
    x.bind f = .ok b ↔ ∃ a, x = .ok a ∧ f a = .ok b := by
  cases x with
  | error e => exact ⟨nofun, fun ⟨_, h, _⟩ => nomatch h⟩
  | ok a => exact ⟨fun h => ⟨a, rfl, h⟩, fun ⟨_, h, hf⟩ => Except.ok.inj h ▸ hf⟩

theorem map_ok {α β ε : Type} {x : Except ε α} {f : α → β} {b : β} :
    x.map f = .ok b ↔ ∃ a, x = .ok a ∧ f a = b := by
  cases x with
  | error e => exact ⟨nofun, fun ⟨_, h, _⟩ => nomatch h⟩
  | ok a =>
    exact ⟨fun h => ⟨a, rfl, Except.ok.inj h⟩, fun ⟨_, h, hf⟩ => by cases h; rw [← hf]; rfl⟩

/-- An accepted operation has its literal converted and nothing else changed. -/
theorem check_ok {o o' : Operation} (h : check o = .ok o') : o' = o.normalize ∧ o.Proper := by
  have hproper (hf : o.written.filter (·.isSystem) = none) : o.Proper := by
    intro r hr
    simpa [hr, Option.filter] using hf
  unfold check at h
  simp only at h
  split at h
  · cases h
  · next hf =>
    refine ⟨?_, hproper hf⟩
    split at h
    · cases h
    · cases o with
      | assign dst src =>
        simp only at h
        split at h
        · cases h
        · exact (Except.ok.inj h).symm
      | stringConcat dst pos first second =>
        simp only [bind_ok] at h
        obtain ⟨-, -, -, -, h⟩ := h
        split at h
        · obtain ⟨-, -, h⟩ := map_ok.mp h
          exact h.symm
        · exact (Except.ok.inj h).symm
      | extractCopy dst pos src =>
        simp only [bind_ok, map_ok] at h
        obtain ⟨-, -, -, -, h⟩ := h
        exact h.symm
      | stringShift reg size align fill =>
        obtain ⟨-, -, h⟩ := map_ok.mp h
        exact h.symm
      | numberToString dst src =>
        obtain ⟨-, -, h⟩ := bind_ok.mp h
        split at h
        · cases h
        · exact (Except.ok.inj h).symm
      | barcodeInput row col dst columns special full flags =>
        simp only at h
        split at h
        · exact (Except.ok.inj h).symm
        · cases h
      | noEchoInput dst =>
        obtain ⟨-, -, h⟩ := map_ok.mp h
        exact h.symm
      | _ => exact (Except.ok.inj h).symm

theorem op_ok {o : Operation} (h : op o c = (c', .ok ())) :
    c' = c.op o.normalize ∧ o.normalize.Proper := by
  unfold op at h
  cases hc : check o with
  | error e =>
    rw [hc] at h
    cases h
  | ok o' =>
    rw [hc] at h
    obtain ⟨rfl, hp⟩ := check_ok hc
    exact ⟨(Prod.mk.inj h).1.symm, fun r hr => hp r (o.written_normalize ▸ hr)⟩

theorem label_ok {name : String} (h : label name c = (c', .ok ())) :
    c.find? name = none ∧
      c' = { c.newLabel.2 with named := (name, c.newLabel.1) :: c.named }.place c.newLabel.1 := by
  unfold label placeNamed at h
  cases hn : c.find? name with
  | some l =>
    rw [hn] at h
    cases h
  | none =>
    rw [hn] at h
    exact ⟨rfl, (Prod.mk.inj h).1.symm⟩

theorem toLoop_ok {name : Option String} {construct : String} {jump : Loop → Context → Context}
    (h : toLoop name construct jump c = (c', .ok ())) :
    ∃ lp, c.findLoop name construct = .ok lp ∧ c' = jump lp c := by
  unfold toLoop at h
  cases hl : c.findLoop name construct with
  | error e =>
    rw [hl] at h
    cases h
  | ok lp =>
    rw [hl] at h
    exact ⟨lp, rfl, (Prod.mk.inj h).1.symm⟩

/-- What follows a step runs only if the step succeeds. -/
theorem andThen_ok {a b : Build} (h : a.andThen b c = (c', .ok ())) :
    ∃ c₁, a c = (c₁, .ok ()) ∧ b c₁ = (c', .ok ()) := by
  unfold andThen at h
  rcases ha : a c with ⟨c₁, e | _⟩
  · rw [ha] at h
    cases h
  · rw [ha] at h
    exact ⟨c₁, rfl, h⟩

theorem seq_nil_ok (h : seq [] c = (c', .ok ())) : c' = c := (Prod.mk.inj h).1.symm

theorem seq_cons_ok {b : Build} {rest : List Build} (h : seq (b :: rest) c = (c', .ok ())) :
    ∃ c₁, b c = (c₁, .ok ()) ∧ seq rest c₁ = (c', .ok ()) := andThen_ok h

theorem loop_ok {body : Build} (h : loop body c = (c', .ok ())) :
    ∃ c₁, body (c.pushLoop.2.place c.pushLoop.1.entry) = (c₁, .ok ()) ∧
      c' = ((c₁.jump c.pushLoop.1.entry).place c.pushLoop.1.exit).popLoop := by
  unfold loop at h
  rcases hb : body (c.pushLoop.2.place c.pushLoop.1.entry) with ⟨c₁, r⟩
  simp only [hb] at h
  obtain ⟨hc, rfl⟩ := Prod.mk.inj h
  exact ⟨c₁, rfl, hc.symm⟩

/-- A step that places a label when it has succeeded. -/
theorem placed_ok {p : Context × Except CompileError Unit} {l : Label}
    (h : (match p with
      | (c, .ok ()) => (c.place l, .ok ())
      | (c, .error e) => (c, .error e)) = (c', Except.ok ())) :
    p = (p.1, .ok ()) ∧ c' = p.1.place l := by
  rcases p with ⟨c₁, e | _⟩
  · cases h
  · exact ⟨rfl, (Prod.mk.inj h).1.symm⟩

/-- The ways through a test, by which of its branches are empty. -/
theorem branch_ok {cond : Condition} {yes no : List Build} (h : branch cond yes no c = (c', .ok ())) :
    (yes = [] ∧ no = [] ∧ c' = c) ∨
      (yes ≠ [] ∧ no = [] ∧ ∃ c₁,
        seq yes (c.newLabel.2.jumpIf cond.normalize.negate c.newLabel.1) = (c₁, .ok ()) ∧
        c' = c₁.place c.newLabel.1) ∨
      (yes = [] ∧ no ≠ [] ∧ ∃ c₁,
        seq no (c.newLabel.2.jumpIf cond.normalize c.newLabel.1) = (c₁, .ok ()) ∧
        c' = c₁.place c.newLabel.1) ∨
      (yes ≠ [] ∧ no ≠ [] ∧ ∃ c₁ c₂,
        seq yes (c.newLabel.2.newLabel.2.jumpIf cond.normalize.negate c.newLabel.1) =
          (c₁, .ok ()) ∧
        seq no ((c₁.jump c.newLabel.2.newLabel.1).place c.newLabel.1) = (c₂, .ok ()) ∧
        c' = c₂.place c.newLabel.2.newLabel.1) := by
  unfold branch at h
  cases yes with
  | nil =>
    cases no with
    | nil => exact .inl ⟨rfl, rfl, (Prod.mk.inj h).1.symm⟩
    | cons b no =>
      obtain ⟨hs, hc⟩ := placed_ok h
      exact .inr (.inr (.inl ⟨rfl, nofun, _, hs, hc⟩))
  | cons b yes =>
    cases no with
    | nil =>
      obtain ⟨hs, hc⟩ := placed_ok h
      exact .inr (.inl ⟨nofun, rfl, _, hs, hc⟩)
    | cons b' no =>
      simp only [List.isEmpty_cons] at h
      split at h
      · cases h
      · next c₁ hs =>
        obtain ⟨hs', hc⟩ := placed_ok h
        exact .inr (.inr (.inr ⟨nofun, nofun, c₁, _, hs, hs', hc⟩))

theorem bodies_nil_ok {exit : Label} (h : bodies exit [] c = (c', .ok ())) : c' = c :=
  (Prod.mk.inj h).1.symm

theorem bodies_cons_ok {exit l : Label} {body : List Build} {rest : List (Label × List Build)}
    (h : bodies exit ((l, body) :: rest) c = (c', .ok ())) :
    ∃ c₁, seq body (c.place l) = (c₁, .ok ()) ∧ bodies exit rest (c₁.jump exit) = (c', .ok ()) := by
  simp only [bodies] at h
  split at h
  · next c₁ hs => exact ⟨c₁, hs, h⟩
  · cases h

theorem switch_ok {reg : Register} {cases : List (Operand × List Build)} {default : List Build}
    (h : switch reg cases default c = (c', .ok ())) :
    reg.kind = .int ∧ ∃ c₁,
      bodies (dispatch reg cases default c).1 (dispatch reg cases default c).2.1
        (dispatch reg cases default c).2.2 = (c₁, .ok ()) ∧
      c' = c₁.place (dispatch reg cases default c).1 := by
  unfold switch at h
  split at h
  · cases h
  · next hk =>
    obtain ⟨hs, hc⟩ := placed_ok h
    exact ⟨Decidable.not_not.mp hk, _, hs, hc⟩

theorem menuLines_ok {ls : List MenuLine} (h : menuLines ls c = (c', .ok ())) :
    c' = lines 0 (c.op .displayClear) ls := (Prod.mk.inj h).1.symm

/-- Taking a temporary changes neither instructions nor labels nor loops. -/
theorem allocate_ok {k : Kind} {r : Register} (h : c.allocate k = .ok (r, c')) :
    c'.code = c.code ∧ c'.labels = c.labels ∧ c'.loops = c.loops ∧ r.isSystem = false := by
  obtain ⟨pools, htake, rfl⟩ := take?_allocate h
  exact ⟨rfl, rfl, rfl, isSystem_pool (Pools.mem_pool_of_take? htake)⟩

theorem release_ok {r : Register} (h : c.release r = .ok c') :
    c'.code = c.code ∧ c'.labels = c.labels ∧ c'.loops = c.loops := by
  obtain ⟨pools, -, rfl⟩ := give?_release h
  exact ⟨rfl, rfl, rfl⟩

theorem withTemporary_ok {k : Kind} {body : Register → Build}
    (h : withTemporary k body c = (c', .ok ())) :
    ∃ r c₁ c₂, c.allocate k = .ok (r, c₁) ∧ body r c₁ = (c₂, .ok ()) ∧ c₂.release r = .ok c' := by
  unfold withTemporary at h
  cases ha : c.allocate k with
  | error f =>
    rw [ha] at h
    cases h
  | ok a =>
    obtain ⟨r, c₁⟩ := a
    rcases hb : body r c₁ with ⟨c₂, result⟩
    simp only [ha, hb] at h
    split at h
    · cases h
    · next c₃ hr =>
      obtain ⟨rfl, rfl⟩ := Prod.mk.inj h
      exact ⟨r, c₁, c₂, rfl, hb, hr⟩

theorem actions_cons_ok {top l : Label} {body : List Build} {rest : List (Label × List Build)}
    (h : actions top ((l, body) :: rest) c = (c', .ok ())) :
    ∃ c₁, seq body (c.place l) = (c₁, .ok ()) ∧ actions top rest (c₁.jump top) = (c', .ok ()) := by
  simp only [actions] at h
  split at h
  · next c₁ hs => exact ⟨c₁, hs, h⟩
  · cases h

/-- Actions that succeed are built like the bodies of a switch. -/
theorem bodies_of_actions {top : Label} {targets : List (Label × List Build)}
    (h : actions top targets c = (c', .ok ())) : bodies top targets c = (c', .ok ()) := by
  induction targets generalizing c with
  | nil => exact h
  | cons t rest ih =>
    obtain ⟨l, body⟩ := t
    obtain ⟨c₁, hbody, hrest⟩ := actions_cons_ok h
    simp only [bodies, hbody]
    exact ih hrest

theorem pageBody_ok {next prev : Option Key} {back : Label} {last : Bool} {es : List Entry}
    {key : Register} (h : pageBody next prev back last es key c = (c', .ok ())) :
    ∃ c₁, actions c.newLabel.1 (digitTests key 1 (shown es key c) es).1
        (asked next prev back last es key c) = (c₁, .ok ()) ∧
      c' = c₁.place c.newLabel.2.newLabel.1 := by
  obtain ⟨hc, hr⟩ := Prod.mk.inj h
  exact ⟨_, Prod.ext rfl hr, hc.symm⟩

theorem pageSeq_cons_ok {next prev : Option Key} {back l : Label} {es : List Entry}
    {rest : List (Label × List Entry)} (h : pageSeq next prev back ((l, es) :: rest) c = (c', .ok ())) :
    ∃ c₁, page next prev back rest.isEmpty es (c.place l) = (c₁, .ok ()) ∧
      pageSeq next prev l rest c₁ = (c', .ok ()) := by
  simp only [pageSeq] at h
  split at h
  · next c₁ hs => exact ⟨c₁, hs, h⟩
  · cases h

theorem menu_ne_nil {es : List Entry} {next prev : Option Key}
    (h : menu es next prev c = (c', .ok ())) : es ≠ [] := by
  rintro rfl
  cases h

theorem menu_ok {es : List Entry} {next prev : Option Key} (h : menu es next prev c = (c', .ok ())) :
    ∃ c₁, pageSeq next prev c.pushLoop.1.exit
        (((c.pushLoop.2.place c.pushLoop.1.entry).newLabels (pages es.length es).length).1.zip
          (pages es.length es))
        ((c.pushLoop.2.place c.pushLoop.1.entry).newLabels (pages es.length es).length).2 =
          (c₁, .ok ()) ∧
      c' = (c₁.place c.pushLoop.1.exit).popLoop := by
  unfold menu at h
  split at h
  · cases h
  · obtain ⟨hc, hr⟩ := Prod.mk.inj h
    exact ⟨_, Prod.ext rfl hr, hc.symm⟩

abbrev Result := Context × Except CompileError Unit

/-- What comes next when a step has succeeded, and what is done to the context when it has failed. -/
def Result.follow (r : Result) (next : Context → Result) (undo : Context → Context) : Result :=
  match r with
  | (c, .ok ()) => next c
  | (c, .error e) => (undo c, .error e)

/-- A test with two branches that take code. -/
theorem branch_both (cond : Condition) {yes no : List Build} (hy : yes.isEmpty = false)
    (hn : no.isEmpty = false) (c : Context) :
    branch cond yes no c =
      Result.follow
        (seq yes (c.newLabel.2.newLabel.2.jumpIf cond.normalize.negate c.newLabel.1))
        (fun c₁ => Result.follow
          (seq no ((c₁.jump c.newLabel.2.newLabel.1).place c.newLabel.1))
          (fun c₂ => (c₂.place c.newLabel.2.newLabel.1, .ok ())) id) id := by
  unfold branch
  rw [hy, hn]
  simp only
  split
  · next c₁ e hs =>
    rw [hs]
    rfl
  · next c₁ hs =>
    rw [hs]
    rfl

end Build
end Handheld
