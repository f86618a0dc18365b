import Handheld.Line.Frame
import Handheld.Proofs.Line.Number

namespace Handheld.Line

variable {number start : Nat} {line bytes : List UInt8} {fs : List Frame}

theorem ofLine_eq_ok {f : Frame} (h : Frame.ofLine number start line = .ok f) :
    f.start = start ∧ f.number = number ∧ prefixWidth ≤ line.length := by
  unfold Frame.ofLine at h
  split at h
  · cases h
  · next hlen =>
    split at h
    · cases h
    · dsimp only at h
      split at h
      · cases h
        exact ⟨rfl, rfl, by omega⟩
      · cases h

theorem ofLine_flaw {e : DecodeError} (h : Frame.ofLine number start line = .error e) :
    e.flaw ≠ .overflow := by
  unfold Frame.ofLine at h
  split at h
  · cases h; simp
  · split at h
    · cases h; simp
    · dsimp only at h
      split at h
      · cases h
      · cases h; simp

/-- No line starts before `start`, and each starts behind the one before it. -/
theorem framesFrom_starts (h : framesFrom number start line bytes = .ok fs) :
    (∀ f ∈ fs, start ≤ f.start) ∧ fs.Pairwise fun f g => f.start < g.start := by
  fun_induction framesFrom number start line bytes generalizing fs with
  | case1 number start line hempty =>
    cases h
    exact ⟨by simp, .nil⟩
  | case2 => cases h
  | case3 => cases h
  | case4 number start line r f hf ih =>
    cases hr : framesFrom (number + 1) (start + line.length + crlf.length) [] r with
    | error e => simp [hr, Except.map] at h
    | ok gs =>
      simp only [hr, Except.map, Except.ok.injEq] at h
      subst h
      obtain ⟨hstart, -, -⟩ := ofLine_eq_ok hf
      obtain ⟨hbehind, hsorted⟩ := ih hr
      have hgap : 0 < crlf.length := by decide
      refine ⟨?_, List.pairwise_cons.mpr ⟨?_, hsorted⟩⟩
      · rintro g hg
        rcases List.mem_cons.mp hg with rfl | hg
        · exact Nat.le_of_eq hstart.symm
        · have := hbehind g hg
          omega
      · intro g hg
        have := hbehind g hg
        omega
  | case5 number start line b r _ ih => exact ih h

theorem framesFrom_flaw {e : DecodeError} (h : framesFrom number start line bytes = .error e) :
    e.flaw ≠ .overflow := by
  fun_induction framesFrom number start line bytes generalizing e with
  | case1 => cases h
  | case2 => cases h; simp
  | case3 number start line r e' he => cases h; exact ofLine_flaw he
  | case4 number start line r f hf ih =>
    cases hr : framesFrom (number + 1) (start + line.length + crlf.length) [] r with
    | error e' => simp only [hr, Except.map, Except.error.injEq] at h; exact h ▸ ih hr
    | ok gs => simp [hr, Except.map] at h
  | case5 number start line b r _ ih => exact ih h

end Handheld.Line
