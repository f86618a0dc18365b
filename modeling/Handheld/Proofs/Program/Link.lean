import Handheld.Proofs.Flow.Linked

namespace Handheld

namespace LabelTable

/-- The table with another slot for a label. -/
def put (t : LabelTable) (l : Label) (s : Slot) : LabelTable := ⟨t.slots.set l.id s⟩

theorem slot?_put {t : LabelTable} {l : Label} {s₀ : Slot} (h : t.slot? l = some s₀) (s : Slot)
    (l' : Label) : (t.put l s).slot? l' = if l' = l then some s else t.slot? l' := by
  have hl : l.id < t.slots.length := (List.getElem?_eq_some_iff.mp h).1
  simp only [slot?, put, List.getElem?_set]
  by_cases he : l' = l
  · subst he
    simp [hl]
  · have hid : ¬ l.id = l'.id := fun hid => he (Label.ext hid.symm)
    rw [if_neg hid, if_neg he]

/-- Writing an attribute for the first time. -/
theorem set_blank {t : LabelTable} {a : Label.Attribute} {l : Label} {s : Slot}
    (h : t.slot? l = some s) (hb : s.get a = none) (n : Nat) :
    t.set a l n = .ok (t.put l (s.set a n)) := by
  simp only [set, h, hb, put]

theorem get_of_slot? {t : LabelTable} {a : Label.Attribute} {l : Label} {s : Slot} {n : Nat}
    (h : t.slot? l = some s) (ha : s.get a = some n) : t.get a l = .ok n := by
  simp only [get, h, ha]

theorem get_eq_ok_iff {t : LabelTable} {a : Label.Attribute} {l : Label} {n : Nat} :
    t.get a l = .ok n ↔ ∃ s, t.slot? l = some s ∧ s.get a = some n := by
  unfold get
  cases t.slot? l with
  | none => simp
  | some s => cases h : s.get a <;> simp [h]

theorem put_self {t : LabelTable} {l : Label} {s : Slot} (h : t.slot? l = some s) : t.put l s = t := by
  apply LabelTable.ext
  apply List.ext_getElem?
  intro k
  rw [put, List.getElem?_set]
  split
  · next hk =>
    subst hk
    rw [if_pos (List.getElem?_eq_some_iff.mp h).1]
    exact h.symm
  · rfl

/-- An attribute can be written where it is blank, and where it has that value already. -/
theorem set_eq_ok_iff {t t' : LabelTable} {a : Label.Attribute} {l : Label} {n : Nat} :
    t.set a l n = .ok t' ↔
      ∃ s, t.slot? l = some s ∧ (s.get a = none ∨ s.get a = some n) ∧ t' = t.put l (s.set a n) := by
  cases hs : t.slot? l with
  | none => simp [set, hs]
  | some s =>
    cases hget : s.get a with
    | none => simp [set_blank hs hget, hget, eq_comm]
    | some old =>
      by_cases hold : old = n
      · subst hold
        have hself : s.set a old = s := by
          cases a <;> cases s <;> simp_all [Slot.get, Slot.set]
        simp [set, hs, hget, hself, put_self hs, eq_comm]
      · simp [set, hs, hget, hold]

end LabelTable

/-- The labels placed in a list, in order. -/
def placedLabels (code : List Instruction) : List Label := code.filterMap Instruction.label?

@[simp] theorem placedLabels_append (p q : List Instruction) : placedLabels (p ++ q) = placedLabels p ++ placedLabels q :=
  List.filterMap_append

theorem mem_placedLabels {l : Label} {code : List Instruction} : l ∈ placedLabels code ↔ .label l ∈ code := by
  simp only [placedLabels, List.mem_filterMap]
  constructor
  · rintro ⟨i, hi, hl⟩
    cases i with
    | label m => cases hl; exact hi
    | _ => cases hl
  · exact fun h => ⟨_, h, rfl⟩

/-- Every label is placed once at most, the entry nowhere, and every jump leads to the entry or to a
placed label. -/
structure Closed (body : List Instruction) : Prop where
  once : (placedLabels body).Nodup
  outside : Label.entry ∉ placedLabels body
  placed : ∀ i ∈ body, ∀ t, i.target? = some t → t = .entry ∨ t ∈ placedLabels body

/-- The table has the entry and a slot without an index for every label of the body. -/
structure LabelTable.Fits (t : LabelTable) (body : List Instruction) : Prop where
  entry : t.get .index .entry = .ok 0
  blank : ∀ l ∈ placedLabels body, ∃ s, t.slot? l = some s ∧ s.index = none

namespace Optimizer

/-- What follows a label stands behind it. -/
theorem after?_eq_some {l : Label} {code rest : List Instruction} (h : after? l code = some rest) :
    ∃ before, code = before ++ .label l :: rest := by
  induction code with
  | nil => cases h
  | cons i code ih =>
    rw [after?] at h
    cases ha : after? l code with
    | some s =>
      rw [ha] at h
      obtain rfl : s = rest := Option.some.inj h
      obtain ⟨before, hb⟩ := ih ha
      exact ⟨i :: before, by rw [hb]; rfl⟩
    | none =>
      rw [ha] at h
      simp only at h
      split at h
      · next hi =>
        obtain rfl : code = rest := Option.some.inj h
        exact ⟨[], by rw [hi]; rfl⟩
      · cases h

theorem after?_eq_none {l : Label} {code : List Instruction} :
    after? l code = none ↔ l ∉ placedLabels code := by
  rw [mem_placedLabels]
  induction code with
  | nil => simp [after?]
  | cons i code ih =>
    rw [after?, List.mem_cons, not_or, ← ih]
    cases after? l code with
    | some s => simp
    | none => simp [eq_comm]

theorem after?_suffix {l : Label} {code rest : List Instruction} (h : after? l code = some rest) :
    .label l :: rest <:+ code := by
  obtain ⟨before, hb⟩ := after?_eq_some h
  exact ⟨before, hb.symm⟩

theorem after?_cons (l : Label) (i : Instruction) (rest : List Instruction) :
    after? l (i :: rest) = (after? l rest).or (if i = .label l then some rest else none) := by
  rw [after?]
  cases after? l rest <;> rfl

/-- Where a label is placed once, what follows it is what stands behind that place. -/
theorem after?_of_suffix {t : Label} {code rest : List Instruction}
    (hn : (placedLabels code).Nodup) (h : .label t :: rest <:+ code) :
    after? t code = some rest := by
  obtain ⟨before, rfl⟩ := h
  induction before with
  | nil =>
    have hnot : t ∉ placedLabels rest := (List.nodup_cons.mp hn).1
    rw [List.nil_append, after?_cons, if_pos rfl, after?_eq_none.mpr hnot]
    rfl
  | cons i before ih =>
    have hn : (placedLabels (before ++ .label t :: rest)).Nodup :=
      hn.sublist ((List.sublist_cons_self _ _).filterMap _)
    rw [List.cons_append, after?_cons, ih hn]
    rfl

end Optimizer

namespace Flow

theorem follow_some {body rest : List Instruction} {t : Label} (ht : t ≠ .entry)
    (h : Optimizer.after? t body = some rest) : follow body t = .before (.label t :: rest) := by
  rw [follow, if_neg ht, h]

theorem follow_none {body : List Instruction} {t : Label} (h : t ∉ placedLabels body) :
    follow body t = .entry := by
  rw [follow, Optimizer.after?_eq_none.mpr h]
  split <;> rfl

end Flow

namespace Program

/-- The label is placed there in the list. -/
def PlacedAt (code : List Instruction) (k : Nat) (l : Label) : Prop := code[k]? = some (.label l)

theorem mem_placedLabels_iff {l : Label} {code : List Instruction} :
    l ∈ placedLabels code ↔ ∃ k, PlacedAt code k l := by
  rw [mem_placedLabels]
  exact List.mem_iff_getElem?

/-- Every label of the list has a slot without another index than its place, counted from `i`, and it
has one place only. -/
structure Room (t : LabelTable) (i : Nat) (code : List Instruction) : Prop where
  free : ∀ k l, PlacedAt code k l →
    ∃ s, t.slot? l = some s ∧ (s.index = none ∨ s.index = some (i + k))
  once : ∀ j k l, PlacedAt code j l → PlacedAt code k l → j = k

/-- The second table has the places of the labels, counted from `i`, for their indexes, of which the
first table has no other ones; everything else is the same. -/
structure Indexes (t t' : LabelTable) (i : Nat) (code : List Instruction) : Prop where
  placed : ∀ k l, PlacedAt code k l → ∃ s, t.slot? l = some s ∧
    (s.index = none ∨ s.index = some (i + k)) ∧ t'.slot? l = some (s.set .index (i + k))
  unplaced : ∀ l ∉ placedLabels code, t'.slot? l = t.slot? l
  size : t'.size = t.size

variable {t t' : LabelTable} {i : Nat} {code : List Instruction}

theorem Room.tail {inst : Instruction} (h : Room t i (inst :: code)) : Room t (i + 1) code := by
  refine ⟨fun k l hk => ?_, fun j k l hj hk => ?_⟩
  · have hplace : i + 1 + k = i + (k + 1) := by omega
    rw [hplace]
    exact h.free (k + 1) l hk
  · have hsucc := h.once (j + 1) (k + 1) l hj hk
    omega

/-- An instruction that places no label leaves the table to those behind it. -/
theorem Indexes.skip {inst : Instruction} (h : Indexes t t' (i + 1) code) (hnot : ∀ l, inst ≠ .label l)
    (hlabels : placedLabels (inst :: code) = placedLabels code) : Indexes t t' i (inst :: code) := by
  refine ⟨fun k l hk => ?_, hlabels ▸ h.unplaced, h.size⟩
  cases k with
  | zero =>
    simp only [PlacedAt, List.getElem?_cons_zero, Option.some.injEq] at hk
    exact absurd hk (hnot l)
  | succ k =>
    have hplace : i + (k + 1) = i + 1 + k := by omega
    rw [hplace]
    exact h.placed k l hk

/-- A label in front of a list gets its index first; so it is not placed behind, where it would need
another one. -/
theorem Indexes.label {l : Label} {s : LabelTable.Slot} (hs : t.slot? l = some s)
    (hfree : s.index = none ∨ s.index = some i)
    (h : Indexes (t.put l (s.set .index i)) t' (i + 1) code) : Indexes t t' i (.label l :: code) := by
  have hput := LabelTable.slot?_put hs (s.set .index i)
  have hfirst : (t.put l (s.set .index i)).slot? l = some (s.set .index i) := by
    rw [hput, if_pos rfl]
  have honce : l ∉ placedLabels code := by
    intro hmem
    obtain ⟨k, hk⟩ := mem_placedLabels_iff.mp hmem
    obtain ⟨s', hs', hindex, -⟩ := h.placed k l hk
    obtain rfl : s.set .index i = s' := Option.some.inj (hfirst.symm.trans hs')
    simp only [LabelTable.Slot.set, reduceCtorEq, Option.some.injEq, false_or] at hindex
    omega
  refine ⟨fun k l' hk => ?_, fun l' hl' => ?_, h.size.trans List.length_set⟩
  · cases k with
    | zero =>
      obtain rfl : l = l' := by simpa [PlacedAt] using hk
      exact ⟨s, hs, hfree, (h.unplaced l honce).trans hfirst⟩
    | succ k =>
      have hne : l' ≠ l := by
        rintro rfl
        exact honce (mem_placedLabels_iff.mpr ⟨k, hk⟩)
      have hplace : i + (k + 1) = i + 1 + k := by omega
      obtain ⟨s', hs', hindex, hplaced⟩ := h.placed k l' hk
      rw [hput, if_neg hne] at hs'
      rw [hplace]
      exact ⟨s', hs', hindex, hplaced⟩
  · have hl : placedLabels (.label l :: code) = l :: placedLabels code := rfl
    rw [hl, List.mem_cons, not_or] at hl'
    rw [h.unplaced l' hl'.2, hput, if_neg hl'.1]

theorem indexes_of_indexLabels (h : indexLabels t i code = (t', none)) : Indexes t t' i code := by
  induction code generalizing t i with
  | nil =>
    obtain rfl : t = t' := congrArg Prod.fst h
    exact ⟨fun k l hk => by simp [PlacedAt] at hk, fun _ _ => rfl, rfl⟩
  | cons inst code ih =>
    cases inst with
    | label l =>
      rw [indexLabels] at h
      cases hset : t.set .index l i with
      | error f => simp [hset] at h
      | ok t₁ =>
        obtain ⟨s, hs, hfree, rfl⟩ := LabelTable.set_eq_ok_iff.mp hset
        rw [hset] at h
        exact .label hs hfree (ih h)
    | jump l => exact (ih h).skip nofun rfl
    | jumpIf c l => exact (ih h).skip nofun rfl
    | op o => exact (ih h).skip nofun rfl

/-- A table with room gets its indexes. -/
theorem indexLabels_of_room (h : Room t i code) :
    ∃ t', indexLabels t i code = (t', none) ∧ Indexes t t' i code := by
  suffices hruns : ∃ t', indexLabels t i code = (t', none) by
    obtain ⟨t', hindexed⟩ := hruns
    exact ⟨t', hindexed, indexes_of_indexLabels hindexed⟩
  induction code generalizing t i with
  | nil => exact ⟨t, rfl⟩
  | cons inst code ih =>
    cases inst with
    | label l =>
      obtain ⟨s, hs, hfree⟩ := h.free 0 l rfl
      have hset : t.set .index l i = .ok (t.put l (s.set .index i)) :=
        LabelTable.set_eq_ok_iff.mpr ⟨s, hs, hfree, rfl⟩
      have hrest : Room (t.put l (s.set .index i)) (i + 1) code := by
        refine ⟨fun k l' hk => ?_, h.tail.once⟩
        have hne : l' ≠ l := by
          rintro rfl
          exact absurd (h.once 0 (k + 1) l' rfl hk) (by omega)
        rw [LabelTable.slot?_put hs, if_neg hne]
        exact h.tail.free k l' hk
      rw [indexLabels, hset]
      exact ih hrest
    | jump l => exact ih h.tail
    | jumpIf c l => exact ih h.tail
    | op o => exact ih h.tail

theorem once_of_nodup (hn : (placedLabels code).Nodup) {j k : Nat} {l : Label} (hj : PlacedAt code j l)
    (hk : PlacedAt code k l) : j = k := by
  induction code generalizing j k with
  | nil => simp [PlacedAt] at hj
  | cons inst code ih =>
    -- a label in front and behind would be in the list of labels twice
    have hfront (n : Nat) (h₀ : PlacedAt (inst :: code) 0 l) (hbehind : PlacedAt code n l) : False := by
      have hinst : inst = .label l := by simpa [PlacedAt] using h₀
      rw [hinst] at hn
      have hnot : l ∉ placedLabels code := (List.nodup_cons.mp hn).1
      exact hnot (mem_placedLabels_iff.mpr ⟨n, hbehind⟩)
    have hn' : (placedLabels code).Nodup := hn.sublist ((List.sublist_cons_self _ _).filterMap _)
    cases j with
    | zero =>
      cases k with
      | zero => rfl
      | succ k => exact (hfront k hj hk).elim
    | succ j =>
      cases k with
      | zero => exact (hfront j hk hj).elim
      | succ k => exact congrArg (· + 1) (ih hn' hj hk)

/-- Blank labels get the indexes of their places; no other slot changes. -/
theorem indexLabels_ok {t : LabelTable} (i : Nat) {code : List Instruction}
    (hn : (placedLabels code).Nodup) (hb : ∀ l ∈ placedLabels code, ∃ s, t.slot? l = some s ∧ s.index = none) :
    ∃ t', indexLabels t i code = (t', none) ∧ (∀ l ∉ placedLabels code, t'.slot? l = t.slot? l) ∧
      ∀ before l rest, code = before ++ .label l :: rest →
        t'.get .index l = .ok (i + before.length) := by
  have hroom : Room t i code := by
    refine ⟨fun k l hk => ?_, fun j k l => once_of_nodup hn⟩
    obtain ⟨s, hs, hblank⟩ := hb l (mem_placedLabels_iff.mpr ⟨k, hk⟩)
    exact ⟨s, hs, .inl hblank⟩
  obtain ⟨t', hindexed, hindexes⟩ := indexLabels_of_room hroom
  refine ⟨t', hindexed, hindexes.unplaced, fun before l rest hcode => ?_⟩
  have hplace : PlacedAt code before.length l := by
    simp [PlacedAt, hcode]
  obtain ⟨s, -, -, hslot⟩ := hindexes.placed before.length l hplace
  exact LabelTable.get_of_slot? hslot rfl

theorem checkTargets_eq_ok_iff : checkTargets t code = .ok () ↔
    ∀ i ∈ code, ∀ l, i.target? = some l → ∃ k, t.get .index l = .ok k := by
  induction code with
  | nil => simp [checkTargets]
  | cons inst code ih =>
    rw [checkTargets, List.forall_mem_cons, ← ih]
    cases inst.target? with
    | none => simp
    | some l => cases h : t.get .index l <;> simp [h]

/-- A closed list links under every table with room for its labels, which get their places. -/
theorem link_closed {p : Program} (hc : Closed p.code) (ht : p.labels.Fits p.code) :
    ∃ t, link p = .ok { p with labels := t } ∧
      (∀ l ∉ placedLabels p.code, t.slot? l = p.labels.slot? l) ∧ t.get .index .entry = .ok 0 ∧
      ∀ before l rest, p.code = before ++ .label l :: rest → t.get .index l = .ok before.length := by
  obtain ⟨t, hi, hk, hp⟩ := indexLabels_ok 0 hc.once ht.blank
  have hentry : t.get .index .entry = .ok 0 := by
    have hs := hk .entry hc.outside
    rw [← ht.entry]
    simp only [LabelTable.get, hs]
  have hplaced (before : List Instruction) (l : Label) (rest : List Instruction)
      (h : p.code = before ++ .label l :: rest) : t.get .index l = .ok before.length := by
    rw [hp before l rest h, Nat.zero_add]
  have hcheck : checkTargets t p.code = .ok () := by
    refine checkTargets_eq_ok_iff.mpr fun i hi l hl => ?_
    rcases hc.placed i hi l hl with rfl | hmem
    · exact ⟨0, hentry⟩
    · obtain ⟨before, rest, hcode⟩ := List.append_of_mem (mem_placedLabels.mp hmem)
      exact ⟨before.length, hplaced before l rest hcode⟩
  exact ⟨t, by simp only [link, linkLabels, hi, hcheck], hk, hentry, hplaced⟩

/-- A final jump to the entry places nothing. -/
theorem closed_append_jump {body : List Instruction} (hc : Closed body) :
    Closed (body ++ [.jump .entry]) := by
  have hl : placedLabels (body ++ [.jump .entry]) = placedLabels body := by
    rw [placedLabels_append]
    exact List.append_nil _
  refine ⟨hl ▸ hc.once, hl ▸ hc.outside, fun i hi t ht => ?_⟩
  rw [hl]
  rcases List.mem_append.mp hi with hi | hi
  · exact hc.placed i hi t ht
  · cases List.mem_singleton.mp hi
    exact .inl (Option.some.inj ht).symm

theorem fits_append_jump {body : List Instruction} {t : LabelTable} (ht : t.Fits body) :
    t.Fits (body ++ [.jump .entry]) := by
  refine ⟨ht.entry, fun l hl => ht.blank l ?_⟩
  rw [placedLabels_append, List.mem_append] at hl
  exact hl.resolve_right (by simp [placedLabels, Instruction.label?])

/-- A closed body links under every table with room for its labels. -/
theorem link_ok {body : List Instruction} {t : LabelTable} (hc : Closed body) (ht : t.Fits body)
    (title : Title) :
    ∃ p, link ⟨title, body ++ [.jump .entry], t⟩ = .ok p ∧ p.title = title ∧ p.Linked body := by
  obtain ⟨t', hlink, -, hentry, hp⟩ := @link_closed ⟨title, body ++ [.jump .entry], t⟩
    (closed_append_jump hc) (fits_append_jump ht)
  have hplaced : ∀ i ∈ body, ∀ l, i.target? = some l → l ≠ .entry →
      ∃ k, t'.get .index l = .ok k ∧ Flow.follow body l = .before (body.drop k) ∧
        k ≤ body.length := by
    intro i hi l hl he
    have hmem := (hc.placed i hi l hl).resolve_left he
    cases ha : Optimizer.after? l body with
    | none => exact absurd hmem (Optimizer.after?_eq_none.mp ha)
    | some rest =>
      obtain ⟨before, hb⟩ := Optimizer.after?_eq_some ha
      refine ⟨before.length, ?_, ?_, ?_⟩
      · exact hp before l (rest ++ [.jump .entry]) (by rw [hb]; simp)
      · rw [Flow.follow_some he ha, hb, List.drop_left]
      · rw [hb, List.length_append]
        exact Nat.le_add_right _ _
  exact ⟨_, hlink, rfl, rfl, hentry, hplaced⟩

end Program
end Handheld
