import Handheld.Proofs.Compiler.Compile
import Handheld.Proofs.Construct.Converted

namespace Handheld

namespace Optimizer

variable {P : Instruction → Prop} {code : List Instruction}

/-- What retargeting does not change, correcting the jumps does not change. -/
theorem forall_correctFrom (hP : ∀ i u, P i → P (i.retarget u)) {before rest : List Instruction}
    (h : ∀ i ∈ before ++ rest, P i) : ∀ i ∈ (correctFrom before rest).code, P i := by
  induction rest generalizing before with
  | nil =>
    rw [List.append_nil] at h
    exact h
  | cons i rest ih =>
    have hstay : ∀ j ∈ (before ++ [i]) ++ rest, P j := by
      rw [List.append_assoc]
      exact h
    have hmoved (u : Label) : ∀ j ∈ (before ++ [i.retarget u]) ++ rest, P j := by
      intro j hj
      have hi : P i := h i (by simp)
      simp only [List.append_assoc, List.mem_append, List.mem_cons, List.not_mem_nil,
        or_false] at hj h
      rcases hj with hj | rfl | hj
      · exact h j (.inl hj)
      · exact hP i u hi
      · exact h j (.inr (.inr hj))
    rw [correctFrom]
    split
    · exact ih hstay
    · split
      · exact ih hstay
      · exact ih (hmoved _)

theorem forall_round (hP : ∀ i u, P i → P (i.retarget u)) (h : ∀ i ∈ code, P i) :
    ∀ i ∈ (round code).code, P i := by
  have hjumps : ∀ i ∈ (correctFrom [] code).code, P i := forall_correctFrom hP h
  intro i hi
  have hdead := (withoutFallthrough_sublist _).subset hi
  have hlabels := (withoutDeadJumps_sublist false _).subset hdead
  exact hjumps i (List.mem_of_mem_filter hlabels)

/-- The clean-up keeps what retargeting does not change. -/
theorem forall_optimize (hP : ∀ i u, P i → P (i.retarget u)) (h : ∀ i ∈ code, P i) :
    ∀ i ∈ (optimize code).code, P i := by
  have hrounds (fuel n : Nat) (code : List Instruction) (h : ∀ i ∈ code, P i) :
      ∀ i ∈ (roundsFrom fuel n code).code, P i := by
    induction fuel generalizing n code with
    | zero => exact h
    | succ fuel ih =>
      have hround := forall_round hP h
      rw [roundsFrom]
      dsimp only
      split
      · exact ih (n + 1) _ hround
      · exact hround
  exact hrounds _ 0 code h

end Optimizer

/-- The operations that a source configures the barcode reader with, and those of its constructs. -/
def Source.operations (s : Source) : List Operation :=
  s.barcode.map .barcodeSetup ++ operationsAll s.body

/-- The registers that the menus of a source read their keys into. -/
def Source.temporaries (s : Source) : List Register := (Register.pool .int).take (menuDepthAll s.body)

/-- An emitted instruction could have been emitted with any target. -/
theorem Emitted.retarget {ops : List Operation} {temps : List Register} {i : Instruction}
    (h : Emitted ops temps i) (t : Label) : Emitted ops temps (i.retarget t) := by
  cases h with
  | label l => exact .label l
  | jump _ => exact .jump t
  | test cond _ => exact .test cond t
  | testNot cond _ => exact .testNot cond t
  | operation ho hcheck => exact .operation ho hcheck
  | lookup file => exact .lookup file
  | clear => exact .clear
  | line row l => exact .line row l
  | key hr => exact .key hr
  | digit hr n _ => exact .digit hr n t

namespace Compiler

variable {s : Source} {optimize : Bool} {p : Program}

theorem adds_barcode {ops : List Operation} {temps : List Register} {bs : List BarcodeSetup}
    (h : bs.map .barcodeSetup ⊆ ops) (c : Context) :
    c.Adds ops temps (bs.foldl (fun c b => c.op (.barcodeSetup b)) c) :=
  bs.foldlRecOn (motive := c.Adds ops temps) _ (.refl c) fun _ hc _ hb =>
    hc.emit (.operation (h (List.mem_map_of_mem hb)) rfl)

theorem returns_barcode (bs : List BarcodeSetup) (c : Context) :
    c.Returns (bs.foldl (fun c b => c.op (.barcodeSetup b)) c) :=
  bs.foldlRecOn (motive := c.Returns) _ (.refl c) fun _ hc _ _ => hc.trans (.emit _ _)

/-- Every instruction of a compiled program is one that its constructs can emit. -/
theorem compile_emitted (h : (compile s optimize).1 = .ok p) :
    ∀ i ∈ p.code, Emitted s.operations s.temporaries i := by
  obtain ⟨c, t, he, -, rfl⟩ := compile_ok h
  obtain ⟨hbarcode, hbody⟩ := List.append_subset.mp (List.Subset.refl s.operations)
  have hconfig : Context.initial.Adds s.operations s.temporaries _ := adds_barcode hbarcode _
  have hpools := (returns_barcode s.barcode .initial).pools
  have hfree : (Context.initial.free .int).take (menuDepthAll s.body) ⊆ s.temporaries := by
    rw [Context.free_initial]
    exact List.Subset.refl _
  have hadds := (Build.emits_seq (emits_expandAll s.body hbody (Nat.le_refl _))).follow hfree hconfig hpools
    (expand_ok he)
  have hcode : ∀ i ∈ c.code, Emitted s.operations s.temporaries i := fun i hi =>
    (hadds i hi).resolve_left (List.not_mem_nil)
  have htidy : ∀ i ∈ (tidy optimize c.code).1, Emitted s.operations s.temporaries i := by
    cases optimize with
    | false => exact hcode
    | true => exact Optimizer.forall_optimize (fun _ t hi => hi.retarget t) hcode
  intro i hi
  rcases List.mem_append.mp hi with hi | hi
  · exact htidy i hi
  · exact List.mem_singleton.mp hi ▸ .jump .entry

/-- Every literal of a compiled program has the kind of the register that it goes with. -/
theorem compile_converted (h : (compile s optimize).1 = .ok p) : ∀ i ∈ p.code, i.Converted := by
  intro i hi
  exact (compile_emitted h i hi).converted fun r hr => Context.kind_pool (List.mem_of_mem_take hr)

end Compiler
end Handheld
