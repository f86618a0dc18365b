import Handheld.Proofs.Program.Link

namespace Handheld

namespace LabelTable

variable {t t' : LabelTable} {l : Label}

/-- The entry has the beginning for its index, and no other label has an index. -/
def OnlyEntry (t : LabelTable) : Prop := ∀ l n, t.get .index l = .ok n ↔ l = .entry ∧ n = 0

theorem onlyEntry_initial : initial.OnlyEntry := by
  intro l n
  rw [get_eq_ok_iff]
  constructor
  · rintro ⟨s, hs, hn⟩
    have hid : l.id = 0 := by
      have hlt := (List.getElem?_eq_some_iff.mp hs).1
      simp only [initial, List.length_singleton] at hlt
      omega
    obtain rfl : l = .entry := Label.ext hid
    obtain rfl : ⟨some entryNumber, some 0, some 0⟩ = s := Option.some.inj hs
    exact ⟨rfl, (Option.some.inj hn).symm⟩
  · rintro ⟨rfl, rfl⟩
    exact ⟨_, rfl, rfl⟩

/-- A new label has no index. -/
theorem OnlyEntry.create (h : t.OnlyEntry) : t.create.2.OnlyEntry := by
  intro l n
  rw [← h l n, get_eq_ok_iff, get_eq_ok_iff]
  rcases Nat.lt_trichotomy l.id t.slots.length with hold | hnew | hbeyond
  · have hslot : t.create.2.slot? l = t.slot? l := List.getElem?_append_left hold
    rw [hslot]
  · have hslot : t.create.2.slot? l = some .blank := by
      simp [LabelTable.create, slot?, hnew]
    have hnone : t.slot? l = none := List.getElem?_eq_none (by omega)
    simp [hslot, hnone, Slot.blank, Slot.get]
  · have hslot : t.create.2.slot? l = none := by
      simp only [LabelTable.create, slot?]
      exact List.getElem?_eq_none (by simp; omega)
    have hnone : t.slot? l = none := List.getElem?_eq_none (by omega)
    rw [hslot, hnone]

theorem slot?_isSome_iff : (∃ s, t.slot? l = some s) ↔ l.id < t.size := by
  rw [← Option.isSome_iff_exists]
  simp [slot?, size]

theorem ext_slot? (h : ∀ l, t.slot? l = t'.slot? l) : t = t' := by
  apply LabelTable.ext
  apply List.ext_getElem?
  intro k
  exact h ⟨k⟩

end LabelTable

namespace Program

variable {t t' : LabelTable} {i : Nat} {code : List Instruction} {p q : Program}

theorem link_eq_ok_iff : link p = .ok q ↔ ∃ t, indexLabels p.labels 0 p.code = (t, none) ∧
    checkTargets t p.code = .ok () ∧ q = { p with labels := t } := by
  unfold link linkLabels
  rcases indexLabels p.labels 0 p.code with ⟨t, _ | f⟩
  · cases h : checkTargets t p.code <;> simp [h, eq_comm]
  · simp

/-- Every label that is placed or jumped to exists; no label has two places, and the entry has none but
the beginning; every jump goes to the entry or to a label with a place. -/
structure WellLabeled (t : LabelTable) (code : List Instruction) : Prop where
  placedExists : ∀ l ∈ placedLabels code, l.id < t.size
  targetExists : ∀ i ∈ code, ∀ l, i.target? = some l → l.id < t.size
  once : ∀ j k l, PlacedAt code j l → PlacedAt code k l → j = k
  entry : ∀ k, PlacedAt code k .entry → k = 0
  leads : ∀ i ∈ code, ∀ l, i.target? = some l → l = .entry ∨ l ∈ placedLabels code

/-- The same program with the places of its labels for their indexes, which links to itself. -/
structure LinksTo (p q : Program) : Prop where
  title : q.title = p.title
  code : q.code = p.code
  size : q.labels.size = p.labels.size
  placed : ∀ k l, PlacedAt p.code k l → q.labels.get .index l = .ok k
  entry : q.labels.get .index .entry = .ok 0
  unplaced : ∀ l ∉ placedLabels p.code, l ≠ .entry → ∀ n, q.labels.get .index l ≠ .ok n
  others : ∀ a ≠ .index, ∀ l, q.labels.get a l = p.labels.get a l
  again : link q = .ok q

namespace Indexes

theorem get_placed (h : Indexes t t' 0 code) {k : Nat} {l : Label} (hk : PlacedAt code k l) :
    t'.get .index l = .ok k := by
  obtain ⟨s, -, -, hs⟩ := h.placed k l hk
  rw [Nat.zero_add] at hs
  exact LabelTable.get_of_slot? hs rfl

theorem get_unplaced (h : Indexes t t' 0 code) {l : Label} (hl : l ∉ placedLabels code)
    (a : Label.Attribute) : t'.get a l = t.get a l := by
  unfold LabelTable.get
  rw [h.unplaced l hl]

theorem get_other (h : Indexes t t' 0 code) {a : Label.Attribute} (ha : a ≠ .index) (l : Label) :
    t'.get a l = t.get a l := by
  by_cases hl : l ∈ placedLabels code
  · obtain ⟨k, hk⟩ := mem_placedLabels_iff.mp hl
    obtain ⟨s, hs, -, hs'⟩ := h.placed k l hk
    have hget : (s.set .index (0 + k)).get a = s.get a := by
      rw [LabelTable.Slot.get_set, if_neg (Ne.symm ha)]
    unfold LabelTable.get
    rw [hs, hs']
    dsimp only
    rw [hget]
  · exact h.get_unplaced hl a

/-- The entry keeps its index: where it is placed, this is its place. -/
theorem entry_placed (h : Indexes t t' 0 code) (ht : t.OnlyEntry) {k : Nat}
    (hk : PlacedAt code k .entry) : k = 0 := by
  obtain ⟨s, hs, hindex, -⟩ := h.placed k .entry hk
  obtain ⟨s', hs', hzero⟩ := LabelTable.get_eq_ok_iff.mp ((ht .entry 0).mpr ⟨rfl, rfl⟩)
  obtain rfl : s = s' := Option.some.inj (hs.symm.trans hs')
  have hsome : s.index = some 0 := hzero
  rw [hsome] at hindex
  simp only [reduceCtorEq, Option.some.injEq, false_or] at hindex
  omega

theorem get_entry (h : Indexes t t' 0 code) (ht : t.OnlyEntry) : t'.get .index .entry = .ok 0 := by
  by_cases hl : Label.entry ∈ placedLabels code
  · obtain ⟨k, hk⟩ := mem_placedLabels_iff.mp hl
    obtain rfl := h.entry_placed ht hk
    exact h.get_placed hk
  · rw [h.get_unplaced hl]
    exact (ht .entry 0).mpr ⟨rfl, rfl⟩

/-- Of the labels without a place only the entry has an index. -/
theorem get_unplaced_ne (h : Indexes t t' 0 code) (ht : t.OnlyEntry) {l : Label}
    (hl : l ∉ placedLabels code) (hne : l ≠ .entry) (n : Nat) : t'.get .index l ≠ .ok n := by
  rw [h.get_unplaced hl]
  intro hget
  exact hne ((ht l n).mp hget).1

/-- Indexed labels are indexed again with the same outcome. -/
theorem again (h : Indexes t t' 0 code) (hroom : Room t 0 code) :
    indexLabels t' 0 code = (t', none) := by
  have hroom' : Room t' 0 code := by
    refine ⟨fun k l hk => ?_, hroom.once⟩
    obtain ⟨s, -, -, hs⟩ := h.placed k l hk
    exact ⟨_, hs, .inr rfl⟩
  obtain ⟨t₂, hindexed, h₂⟩ := indexLabels_of_room hroom'
  have hsame : t₂ = t' := by
    apply LabelTable.ext_slot?
    intro l
    by_cases hl : l ∈ placedLabels code
    · obtain ⟨k, hk⟩ := mem_placedLabels_iff.mp hl
      obtain ⟨s, -, -, hs⟩ := h.placed k l hk
      obtain ⟨s', hs', -, hs₂⟩ := h₂.placed k l hk
      obtain rfl : s.set .index (0 + k) = s' := Option.some.inj (hs.symm.trans hs')
      exact hs₂.trans hs.symm
    · exact h₂.unplaced l hl
  rw [hindexed, hsame]

end Indexes

theorem Indexes.room (h : Indexes t t' 0 code) : Room t 0 code := by
  refine ⟨fun k l hk => ?_, fun j k l hj hk => ?_⟩
  · obtain ⟨s, hs, hfree, -⟩ := h.placed k l hk
    exact ⟨s, hs, hfree⟩
  · exact Except.ok.inj ((h.get_placed hj).symm.trans (h.get_placed hk))

/-- Indexes that lead all jumps somewhere are those of a well-labeled list. -/
theorem Indexes.wellLabeled (h : Indexes t t' 0 code) (ht : t.OnlyEntry)
    (htargets : ∀ i ∈ code, ∀ l, i.target? = some l → ∃ k, t'.get .index l = .ok k) :
    WellLabeled t code := by
  refine ⟨fun l hl => ?_, fun i hi l hl => ?_, h.room.once, fun k hk => h.entry_placed ht hk,
    fun i hi l hl => ?_⟩
  · obtain ⟨k, hk⟩ := mem_placedLabels_iff.mp hl
    obtain ⟨s, hs, -⟩ := h.placed k l hk
    exact LabelTable.slot?_isSome_iff.mp ⟨s, hs⟩
  · obtain ⟨k, hk⟩ := htargets i hi l hl
    obtain ⟨s, hs, -⟩ := LabelTable.get_eq_ok_iff.mp hk
    rw [← h.size]
    exact LabelTable.slot?_isSome_iff.mp ⟨s, hs⟩
  · obtain ⟨k, hk⟩ := htargets i hi l hl
    by_cases hne : l = .entry
    · exact .inl hne
    · by_cases hmem : l ∈ placedLabels code
      · exact .inr hmem
      · exact absurd hk (h.get_unplaced_ne ht hmem hne k)

/-- A table in which only the entry has an index has room for a well-labeled list. -/
theorem WellLabeled.room (h : WellLabeled t code) (ht : t.OnlyEntry) : Room t 0 code := by
  refine ⟨fun k l hk => ?_, h.once⟩
  obtain ⟨s, hs⟩ := LabelTable.slot?_isSome_iff.mpr
    (h.placedExists l (mem_placedLabels_iff.mpr ⟨k, hk⟩))
  refine ⟨s, hs, ?_⟩
  cases hindex : s.index with
  | none => exact .inl rfl
  | some n =>
    obtain ⟨rfl, rfl⟩ := (ht l n).mp (LabelTable.get_of_slot? hs hindex)
    have hfirst := h.entry k hk
    exact .inr (by rw [hfirst])

theorem WellLabeled.targets (h : WellLabeled t code) (ht : t.OnlyEntry) (hindexes : Indexes t t' 0 code) :
    ∀ i ∈ code, ∀ l, i.target? = some l → ∃ k, t'.get .index l = .ok k := by
  intro i hi l hl
  rcases h.leads i hi l hl with rfl | hmem
  · exact ⟨0, hindexes.get_entry ht⟩
  · obtain ⟨k, hk⟩ := mem_placedLabels_iff.mp hmem
    exact ⟨k, hindexes.get_placed hk⟩

/-- Over a table in which only the entry has an index, exactly the well-labeled programs link, and they
link once for all. -/
theorem link_iff_wellLabeled (p : Program) (ht : p.labels.OnlyEntry) :
    ((∃ q, link p = .ok q) ↔ WellLabeled p.labels p.code) ∧ ∀ q, link p = .ok q → p.LinksTo q := by
  refine ⟨⟨?_, fun h => ?_⟩, fun q hq => ?_⟩
  · rintro ⟨q, hq⟩
    obtain ⟨t, hindexed, htargets, -⟩ := link_eq_ok_iff.mp hq
    exact (indexes_of_indexLabels hindexed).wellLabeled ht (checkTargets_eq_ok_iff.mp htargets)
  · obtain ⟨t, hindexed, hindexes⟩ := indexLabels_of_room (h.room ht)
    have htargets := checkTargets_eq_ok_iff.mpr (h.targets ht hindexes)
    exact ⟨_, link_eq_ok_iff.mpr ⟨t, hindexed, htargets, rfl⟩⟩
  · obtain ⟨t, hindexed, htargets, rfl⟩ := link_eq_ok_iff.mp hq
    have h := indexes_of_indexLabels hindexed
    exact
      { title := rfl
        code := rfl
        size := h.size
        placed := fun k l hk => h.get_placed hk
        entry := h.get_entry ht
        unplaced := fun l hl hne n => h.get_unplaced_ne ht hl hne n
        others := fun a ha l => h.get_other ha l
        again := link_eq_ok_iff.mpr ⟨t, h.again h.room, htargets, rfl⟩ }

/-- A loop behind the entry, which is placed at the beginning, and a label that is placed nowhere. -/
def looping : Program where
  title := ⟨.ofString "LOOP", .ofString "1", .none, true, .small12⟩
  code := [.label .entry, .op .displayClear, .label ⟨1⟩, .jumpIf ⟨.rslt, .eq, .value (.int 0)⟩ ⟨1⟩,
    .jump .entry]
  labels := LabelTable.initial.create.2.create.2

theorem link_iff_wellLabeled_looping :
    looping.labels.OnlyEntry ∧ WellLabeled looping.labels looping.code ∧
      ∃ q, link looping = .ok q ∧ looping.LinksTo q := by
  have ht : looping.labels.OnlyEntry := LabelTable.onlyEntry_initial.create.create
  have hlinks : ∃ q, link looping = .ok q := ⟨_, rfl⟩
  obtain ⟨hiff, hlinked⟩ := link_iff_wellLabeled looping ht
  obtain ⟨q, hq⟩ := hlinks
  exact ⟨ht, hiff.mp ⟨q, hq⟩, q, hq, hlinked q hq⟩

end Program
end Handheld
