import Handheld.Proofs.Compiler.Encounters
import Handheld.Proofs.ProgramFile.Encoded

namespace Handheld.Compiler

/-- The parts of a title that are too long. -/
def titleMistakes (t : Title) : List SourceError :=
  (if Title.titleMax < t.title.length then [.titleTooLong "title" t.title.length Title.titleMax] else []) ++
    if Title.versionMax < t.version.length then
      [.titleTooLong "version" t.version.length Title.versionMax]
    else []

/-- What stands in the way of compiling a source, in the order in which it is found. -/
def obstacles (s : Source) : List Obstacle :=
  (titleMistakes s.title).map .mistake ++ obstaclesAll .outset s.body

/-- The source has this mistake in front of its other mistakes and of its menus that nest too deep. -/
def FailsBefore (s : Source) (e : SourceError) : Prop := (obstacles s).head? = some (.mistake e)

variable {s : Source}

theorem checkTitle_eq (t : Title) :
    checkTitle t = match titleMistakes t with
      | [] => .ok ()
      | e :: _ => .error e := by
  unfold checkTitle titleMistakes
  split
  · rfl
  · split
    · rfl
    · rfl

theorem known_barcode (bs : List BarcodeSetup) {c : Context} (h : c.Known .outset) :
    (bs.foldl (fun c b => c.op (.barcodeSetup b)) c).Known .outset :=
  bs.foldlRecOn (motive := (Context.Known · .outset)) _ h fun _ hc _ _ => hc.emit rfl

/-- The expansion of a source fails at its first obstacle, and succeeds where it has none. -/
theorem expand_outcome (s : Source) :
    (expand s).2 = match obstacles s with
      | [] => .ok ()
      | o :: _ => .error o.error := by
  unfold expand obstacles
  rw [checkTitle_eq]
  cases titleMistakes s.title with
  | cons e rest => rfl
  | nil =>
    have hbody := (meetsAll_expandAll s.body).seq _ (known_barcode s.barcode .initial)
    simp only [List.map_nil, List.nil_append]
    generalize Build.seq (expandAll s.body) _ = r at hbody ⊢
    generalize obstaclesAll .outset s.body = obs at hbody ⊢
    cases hbody with
    | stuck o rest h =>
      obtain ⟨c, res⟩ := r
      obtain rfl : res = .error o.error := h
      rfl
    | fine hc hu =>
      have hfree := hc.holding.checkAllFree
      simp only [hfree]

/-- Where a menu is too deep, menus nest deeper than `menuLimit`. -/
theorem depth_of_obstacles (h : .tooDeep ∈ obstacles s) : menuLimit < menuDepthAll s.body := by
  rcases List.mem_append.mp h with h | h
  · obtain ⟨e, -, he⟩ := List.mem_map.mp h
    cases he
  · have hdepth := depthAll_of_tooDeep s.body h
    rw [Scope.outset, Nat.zero_add] at hdepth
    exact hdepth

theorem depth_le_of_obstacles (h : obstacles s = []) : menuDepthAll s.body ≤ menuLimit := by
  have hbody := (List.append_eq_nil_iff.mp h).2
  have hdepth := depthAll_le s.body hbody (Nat.zero_le _)
  rw [Scope.outset, Nat.zero_add] at hdepth
  exact hdepth

/-- Writing a compiled program does not fault. -/
theorem encode_compiled {optimize : Bool} {p : Program} (h : (compile s optimize).1 = .ok p)
    (f : Fault) : ProgramFile.encode p ≠ .error (.fault f) := by
  obtain ⟨hw, -, hn⟩ := compile_writable h
  have hnumber : ∀ l ∈ placedLabels p.code, ∃ n, p.labels.get .number l = .ok n := by
    intro l hl
    obtain ⟨n, hs⟩ := hn l hl
    exact ⟨n, LabelTable.get_of_slot? hs rfl⟩
  unfold ProgramFile.encode
  rcases ProgramFile.encodeParts_written hw hnumber with ⟨e, he⟩ | ⟨t, title, header, body, he, -⟩
  · rw [he]
    exact nofun
  · rw [he]
    exact nofun

/-- The only fault of the compiler is that no integer register is left. There is that fault exactly
when menus stand inside one another's actions more than `menuLimit` deep and the source has no
mistake that comes before them; such a mistake is reported instead. Writing a compiled program does
not fault. -/
theorem compile_faults_deep (s : Source) (optimize : Bool) :
    (∀ f, (compile s optimize).1 = .error (.fault f) → f = .poolExhausted .int) ∧
      ((compile s optimize).1 = .error (.fault (.poolExhausted .int)) ↔
        menuLimit < menuDepthAll s.body ∧ ∀ e, ¬ FailsBefore s e) ∧
      (∀ e, FailsBefore s e → (compile s optimize).1 = .error (.source e)) ∧
      ∀ p, (compile s optimize).1 = .ok p → ∀ f, ProgramFile.encode p ≠ .error (.fault f) := by
  obtain ⟨hfail, hok⟩ := compile_of_expand (s := s) optimize
  have hencode : ∀ p, (compile s optimize).1 = .ok p → ∀ f,
      ProgramFile.encode p ≠ .error (.fault f) := fun _ hp => encode_compiled hp
  have houtcome := expand_outcome s
  cases hobs : obstacles s with
  | nil =>
    rw [hobs] at houtcome
    obtain ⟨p, hp⟩ := hok houtcome
    have hdepth := depth_le_of_obstacles hobs
    rw [hp] at hencode ⊢
    refine ⟨nofun, ⟨nofun, fun h => absurd h.1 (Nat.not_lt.mpr hdepth)⟩, fun e he => ?_, hencode⟩
    rw [FailsBefore, hobs] at he
    cases he
  | cons o rest =>
    rw [hobs] at houtcome
    have hfailed := hfail _ houtcome
    rw [hfailed] at hencode ⊢
    cases o with
    | mistake e =>
      have hfirst : FailsBefore s e := congrArg List.head? hobs
      refine ⟨nofun, ⟨nofun, fun h => absurd hfirst (h.2 e)⟩, fun e' he => ?_, hencode⟩
      obtain rfl := Obstacle.mistake.inj (Option.some.inj (hfirst.symm.trans he))
      rfl
    | tooDeep =>
      have hdepth : menuLimit < menuDepthAll s.body :=
        depth_of_obstacles (hobs ▸ List.mem_cons_self)
      have hnone : ∀ e, ¬ FailsBefore s e := by
        intro e he
        rw [FailsBefore, hobs] at he
        cases he
      refine ⟨fun f hf => ?_, ⟨fun _ => ⟨hdepth, hnone⟩, fun _ => rfl⟩,
        fun e he => absurd he (hnone e), hencode⟩
      cases hf
      rfl

/-- Menus one inside the action of the other, `n` deep. -/
def nestedMenus : Nat → List Construct
  | 0 => []
  | n + 1 => [.menuLoop [.mk .empty (some (nestedMenus n))] none none]

example : obstacles { keyLoop with body := nestedMenus 11 ++ [.leave none] } =
    [.tooDeep, .mistake (.noEnclosingLoop "break")] := by decide +kernel

example : (compile { keyLoop with body := nestedMenus 10 } true).1.isOk = true := by decide +kernel

example : (compile { keyLoop with body := nestedMenus 11 } true).1 =
    .error (.fault (.poolExhausted .int)) := by decide +kernel

end Handheld.Compiler
