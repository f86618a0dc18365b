import Handheld.Proofs.Line.Number
import Mathlib.Data.Nat.Digits.Defs

namespace Handheld

namespace Decimal

variable {limit n m d : Nat} {bs : List UInt8} {ds : List Nat}

/-- The bytes are the digits of the number, perhaps behind a plus sign. -/
def Spells (bs : List UInt8) (n : Nat) : Prop :=
  ∃ ds : List Nat, ds ≠ [] ∧ (∀ d ∈ ds, d < 10) ∧ n = Nat.ofDigits 10 ds.reverse ∧
    (bs = ds.map digit ∨ bs = 0x2B :: ds.map digit)

theorem eq_digit_of_digit? {b : UInt8} (h : digit? b = some d) : b = digit d := by
  have hd := digit?_lt h
  unfold digit? at h
  split at h
  · next hb =>
    obtain rfl : b.toNat - 0x30 = d := Option.some.inj h
    have hlow : 0x30 ≤ b.toNat := hb.1
    refine UInt8.toNat_inj.mp ?_
    rw [toNat_digit hd]
    omega
  · cases h

theorem ofDigits_reverse_cons (d : Nat) (ds : List Nat) :
    Nat.ofDigits 10 (d :: ds).reverse = d * 10 ^ ds.length + Nat.ofDigits 10 ds.reverse := by
  rw [List.reverse_cons, Nat.ofDigits_append, Nat.ofDigits_singleton, List.length_reverse]
  ring

/-- The digits that have been read, behind those of `n`. -/
theorem digits_of_readFrom (h : readFrom limit n bs = .ok m) :
    ∃ ds : List Nat, (∀ d ∈ ds, d < 10) ∧ bs = ds.map digit ∧
      m = n * 10 ^ ds.length + Nat.ofDigits 10 ds.reverse := by
  induction bs generalizing n with
  | nil =>
    obtain rfl : n = m := Except.ok.inj h
    exact ⟨[], nofun, rfl, by simp⟩
  | cons b rest ih =>
    rw [readFrom] at h
    cases hd : digit? b with
    | none => simp [hd] at h
    | some d =>
      simp only [hd] at h
      split at h
      · obtain ⟨ds, hds, rfl, rfl⟩ := ih h
        refine ⟨d :: ds, List.forall_mem_cons.mpr ⟨digit?_lt hd, hds⟩, ?_, ?_⟩
        · rw [List.map_cons, eq_digit_of_digit? hd]
        · rw [ofDigits_reverse_cons, List.length_cons]
          ring
      · cases h

theorem readFrom_digits (hds : ∀ d ∈ ds, d < 10)
    (hl : n * 10 ^ ds.length + Nat.ofDigits 10 ds.reverse ≤ limit) :
    readFrom limit n (ds.map digit) = .ok (n * 10 ^ ds.length + Nat.ofDigits 10 ds.reverse) := by
  induction ds generalizing n with
  | nil => simp [readFrom]
  | cons d ds ih =>
    obtain ⟨hd, hds⟩ := List.forall_mem_cons.mp hds
    have hsum : n * 10 ^ (d :: ds).length + Nat.ofDigits 10 (d :: ds).reverse =
        (10 * n + d) * 10 ^ ds.length + Nat.ofDigits 10 ds.reverse := by
      rw [ofDigits_reverse_cons, List.length_cons]
      ring
    rw [hsum] at hl ⊢
    have hfront : 10 * n + d ≤ (10 * n + d) * 10 ^ ds.length :=
      Nat.le_mul_of_pos_right _ (Nat.pow_pos (by decide))
    rw [List.map_cons, readFrom, digit?_digit hd]
    dsimp only
    rw [if_pos (by omega)]
    exact ih hds hl

theorem read_eq_ok_iff : read limit bs = .ok n ↔ n ≤ limit ∧
    ∃ ds : List Nat, ds ≠ [] ∧ (∀ d ∈ ds, d < 10) ∧ n = Nat.ofDigits 10 ds.reverse ∧
      bs = ds.map digit := by
  constructor
  · intro h
    have hle := read_le h
    unfold read at h
    split at h
    · cases h
    · next hne =>
      obtain ⟨ds, hds, rfl, hn⟩ := digits_of_readFrom h
      exact ⟨hle, ds, by simpa using hne, hds, by simpa using hn, rfl⟩
  · rintro ⟨hle, ds, hne, hds, rfl, rfl⟩
    have hread := readFrom_digits (n := 0) hds (by simpa using hle)
    rw [read, if_neg (by simpa using hne)]
    simpa using hread

theorem readUnsigned?_eq_some_iff : readUnsigned? limit bs = some n ↔ n ≤ limit ∧ Spells bs n := by
  have hplus (d : Nat) (hd : d < 10) : (0x2B : UInt8) ≠ digit d := by
    intro he
    have := congrArg UInt8.toNat he
    rw [toNat_digit hd] at this
    change 43 = _ at this
    omega
  unfold readUnsigned?
  split
  · next rest =>
    rw [Except.toOption_eq_some, read_eq_ok_iff]
    refine and_congr_right fun _ => exists_congr fun ds => and_congr_right fun hne =>
      and_congr_right fun hds => and_congr_right fun _ => ?_
    -- a digit is no plus sign
    have hfirst : (0x2B : UInt8) :: rest ≠ ds.map digit := by
      cases ds with
      | nil => exact absurd rfl hne
      | cons d ds => exact fun he => hplus d (hds d List.mem_cons_self) (List.cons.inj he).1
    simp [hfirst]
  · next hsign =>
    rw [Except.toOption_eq_some, read_eq_ok_iff]
    refine and_congr_right fun _ => exists_congr fun ds => and_congr_right fun _ =>
      and_congr_right fun _ => and_congr_right fun _ => ?_
    have hother : bs ≠ 0x2B :: ds.map digit := fun he => hsign _ he
    simp [hother]

/-- What is spelled by a few bytes is below their power of ten. -/
theorem Spells.lt (h : Spells bs n) : n < 10 ^ bs.length := by
  obtain ⟨ds, -, hds, rfl, hbs⟩ := h
  have hlt : Nat.ofDigits 10 ds.reverse < 10 ^ ds.length := by
    have := Nat.ofDigits_lt_base_pow_length (b := 10) (l := ds.reverse) (by decide)
      fun d hd => hds d (List.mem_reverse.mp hd)
    rwa [List.length_reverse] at this
  have hlen : ds.length ≤ bs.length := by rcases hbs with rfl | rfl <;> simp
  exact Nat.lt_of_lt_of_le hlt (Nat.pow_le_pow_right (by decide) hlen)

end Decimal
end Handheld
