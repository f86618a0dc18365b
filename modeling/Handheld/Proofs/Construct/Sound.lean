import Handheld.Proofs.Construct.Growth

namespace Handheld

/-- The entry and some labels that nothing is recorded about. -/
def LabelTable.fresh (n : Nat) : LabelTable := ⟨initial.slots ++ List.replicate n .blank⟩

namespace Context

/-- Of `n` labels besides the entry, some are pending and every other one is placed once. -/
structure Sound (c : Context) (n : Nat) (pending : List Label) : Prop where
  table : c.labels = .fresh n
  placed : (pending ++ placedLabels c.code).Perm ((List.range n).map fun i => ⟨i + 1⟩)
  targets : ∀ i ∈ c.code, ∀ t, i.target? = some t → t.id ≤ n
  loops : ∀ lp ∈ c.loops, lp.entry.id ≤ n ∧ lp.exit.id ≤ n
  ops : ∀ o, .op o ∈ c.code → o.Proper

namespace Sound

variable {c : Context} {n : Nat} {pending : List Label}

/-- What has grown from nothing has all its labels from there. -/
theorem of_grown (h : Context.initial.Grown c pending) : ∃ n, c.Sound n pending := by
  obtain ⟨n, hn⟩ := h.table
  have hsize : c.labels.size = n + 1 := by
    simp [hn, LabelTable.size, Context.initial, LabelTable.initial]
  have hcreated : Context.initial.created c = (List.range n).map fun i => ⟨i + 1⟩ := by
    rw [created, hsize, List.range'_eq_map_range, List.map_map]
    exact List.map_congr_left fun i _ => congrArg Label.mk (Nat.add_comm 1 i)
  have hreaches (t : Label) (ht : Context.initial.Reaches c t) : t.id ≤ n := by
    rcases ht with ht | ⟨lp, hlp, -⟩
    · have hlt := (mem_created.mp ht).2
      omega
    · cases hlp
  have hadded : Context.initial.added c = c.code := rfl
  have hplaced := h.placed
  have htargets := h.targets
  have hops := h.ops
  rw [hadded] at hplaced htargets hops
  rw [hcreated] at hplaced
  exact ⟨n, hn, hplaced, fun i hi t ht => hreaches t (htargets i hi t ht),
    fun lp hlp => ⟨hreaches _ (h.loops lp hlp).1, hreaches _ (h.loops lp hlp).2⟩, hops⟩

/-- A complete list is closed. -/
theorem closed (h : c.Sound n []) : Closed c.code := by
  have hp : (placedLabels c.code).Perm ((List.range n).map fun i => ⟨i + 1⟩) := h.placed
  refine ⟨?_, fun hmem => ?_, fun i hi t ht => ?_⟩
  · refine hp.nodup_iff.mpr (List.Nodup.map (fun i j he => ?_) List.nodup_range)
    exact Nat.succ.inj (Label.mk.inj he)
  · obtain ⟨i, -, he⟩ := List.mem_map.mp (hp.subset hmem)
    cases he
  · obtain ⟨k⟩ := t
    cases k with
    | zero => exact .inl rfl
    | succ k =>
      have hk : k + 1 ≤ n := h.targets i hi ⟨k + 1⟩ ht
      exact .inr (hp.symm.subset (List.mem_map.mpr ⟨k, List.mem_range.mpr hk, rfl⟩))

end Sound
end Context
end Handheld
