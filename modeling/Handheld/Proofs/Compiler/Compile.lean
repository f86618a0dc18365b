import Handheld.Compiler
import Handheld.Proofs.Construct.Sound
import Handheld.Proofs.Machine.Reached
import Handheld.Proofs.Optimizer.Optimize

namespace Handheld

namespace LabelTable

theorem slot?_fresh {n : Nat} {l : Label} (h : l ∈ (List.range n).map fun i => (⟨i + 1⟩ : Label)) :
    (fresh n).slot? l = some .blank := by
  obtain ⟨i, hi, rfl⟩ := List.mem_map.mp h
  simp [slot?, fresh, initial, List.mem_range.mp hi]

end LabelTable

namespace Compiler

/-- The slot of a label that has got a number and nothing else. -/
def numbered (k : Nat) : LabelTable.Slot := ⟨some k, none, none⟩

/-- Blank labels get ascending numbers; no other slot changes. -/
theorem numberLabels_ok {t : LabelTable} (n : Nat) {ls : List Label} (hn : ls.Nodup)
    (hb : ∀ l ∈ ls, t.slot? l = some .blank) :
    ∃ t', numberLabels t n ls = .ok t' ∧ (∀ l ∉ ls, t'.slot? l = t.slot? l) ∧
      (∀ l ∈ ls, ∃ k, t'.slot? l = some (numbered k)) ∧
      ls.map (t'.get .number) = (List.range' n ls.length).map .ok := by
  induction ls generalizing t n with
  | nil => exact ⟨t, rfl, fun _ _ => rfl, nofun, rfl⟩
  | cons l ls ih =>
    obtain ⟨hnot, hn⟩ := List.nodup_cons.mp hn
    have hblank := hb l List.mem_cons_self
    have hput := LabelTable.slot?_put hblank (numbered n)
    have hother : ∀ l' ∈ ls, (t.put l (numbered n)).slot? l' = some .blank := by
      intro l' hl'
      have hne : l' ≠ l := fun he => hnot (he ▸ hl')
      rw [hput, if_neg hne]
      exact hb l' (List.mem_cons_of_mem l hl')
    obtain ⟨t', hok, hkeep, hslots, hmap⟩ := ih (n + 1) hn hother
    have hslot : t'.slot? l = some (numbered n) := by rw [hkeep l hnot, hput, if_pos rfl]
    refine ⟨t', ?_, fun l' hl' => ?_, fun l' hl' => ?_, ?_⟩
    · have hset := LabelTable.set_blank (a := .number) hblank rfl n
      simp only [numberLabels, hset]
      exact hok
    · obtain ⟨hne, hl'⟩ := not_or.mp (mt List.mem_cons.mpr hl')
      rw [hkeep l' hl', hput, if_neg hne]
    · rcases List.mem_cons.mp hl' with rfl | hl'
      · exact ⟨n, hslot⟩
      · exact hslots l' hl'
    · rw [List.map_cons, hmap, LabelTable.get_of_slot? hslot rfl]
      rfl

variable {s : Source} {optimize : Bool} {p : Program}

/-- The compiler expands the source, tidies the instructions and numbers the labels. -/
theorem compile_ok (h : (compile s optimize).1 = .ok p) :
    ∃ c t, expand s = (c, .ok ()) ∧
      numberLabels c.labels firstNumber (placedLabels (tidy optimize c.code).1) = .ok t ∧
      p = ⟨s.title, (tidy optimize c.code).1 ++ [.jump .entry], t⟩ := by
  unfold compile at h
  rcases he : expand s with ⟨c, e | _⟩
  · rw [he] at h
    cases h
  · simp only [he] at h
    split at h
    · cases h
    · next t ht => exact ⟨c, t, rfl, ht, (Except.ok.inj h).symm⟩

theorem compile_title (h : (compile s optimize).1 = .ok p) : p.title = s.title := by
  obtain ⟨c, t, -, -, rfl⟩ := compile_ok h
  rfl

theorem grown_barcode (bs : List BarcodeSetup) (c : Context) :
    c.Grown (bs.foldl (fun c b => c.op (.barcodeSetup b)) c) [] :=
  bs.foldlRecOn (motive := (c.Grown · [])) _ (.refl c) fun _ hc _ _ => hc.op fun _ hr => nomatch hr

/-- The body of an expanded source stands behind its barcode configuration. -/
theorem expand_ok {c : Context} (h : expand s = (c, .ok ())) :
    Build.seq (expandAll s.body)
      (s.barcode.foldl (fun c b => c.op (.barcodeSetup b)) Context.initial) = (c, .ok ()) := by
  unfold expand at h
  split at h
  · cases h
  · rcases hb : Build.seq (expandAll s.body)
      (s.barcode.foldl (fun c b => c.op (.barcodeSetup b)) Context.initial) with ⟨c₁, e | _⟩
    · simp only [hb] at h
      cases h
    · simp only [hb] at h
      split at h
      · cases h
      · rw [(Prod.mk.inj h).1]

/-- An expanded source is complete. -/
theorem expand_sound {c : Context} (h : expand s = (c, .ok ())) : ∃ n, c.Sound n [] := by
  have hbody := Build.grows_seq (grows_expandAll s.body) _ _ (expand_ok h)
  exact Context.Sound.of_grown ((grown_barcode s.barcode .initial).follow hbody)

open Optimizer in
theorem keeps_tidy (optimize : Bool) {code : List Instruction} (h : Closed code) :
    Keeps code (tidy optimize code).1 := by
  cases optimize with
  | false => exact .refl h
  | true => exact .optimize h

/-- The labels that are left of an expanded source can be numbered: none is left that the source has
not placed, and the entry is none of them. -/
theorem numberLabels_tidy (optimize : Bool) {c : Context} {n : Nat} (hs : c.Sound n []) :
    ∃ t, numberLabels c.labels firstNumber (placedLabels (tidy optimize c.code).1) = .ok t ∧
      t.slot? .entry = LabelTable.initial.slot? .entry ∧
      (∀ l ∈ placedLabels (tidy optimize c.code).1, ∃ k, t.slot? l = some (numbered k)) ∧
      (placedLabels (tidy optimize c.code).1).map (t.get .number) =
        (List.range' firstNumber (placedLabels (tidy optimize c.code).1).length).map .ok := by
  have hk := keeps_tidy optimize hs.closed
  have hblank : ∀ l ∈ placedLabels (tidy optimize c.code).1, c.labels.slot? l = some .blank := by
    intro l hl
    have hmem : l ∈ placedLabels c.code := hk.labels l hl
    rw [hs.table]
    exact LabelTable.slot?_fresh (hs.placed.subset hmem)
  obtain ⟨t, hok, hkeep, hslots, hmap⟩ := numberLabels_ok firstNumber hk.closed.once hblank
  have hentry := hkeep .entry hk.closed.outside
  rw [hs.table] at hentry
  exact ⟨t, hok, hentry, hslots, hmap⟩

/-- What the expansion of a source fails with, compilation fails with; else there is a program. -/
theorem compile_of_expand (optimize : Bool) :
    (∀ e, (expand s).2 = .error e → (compile s optimize).1 = .error e) ∧
      ((expand s).2 = .ok () → ∃ p, (compile s optimize).1 = .ok p) := by
  rcases he : expand s with ⟨c, e | _⟩
  · refine ⟨fun e' he' => ?_, nofun⟩
    obtain rfl : e = e' := Except.error.inj he'
    simp only [compile, he]
  · refine ⟨nofun, fun _ => ?_⟩
    obtain ⟨n, hs⟩ := expand_sound he
    obtain ⟨t, hok, -⟩ := numberLabels_tidy optimize hs
    change numberLabels c.labels firstNumber
      ((tidy optimize c.code).1.filterMap Instruction.label?) = .ok t at hok
    exact ⟨⟨s.title, (tidy optimize c.code).1 ++ [.jump .entry], t⟩, by simp only [compile, he, hok]⟩

/-- The body of a compiled program is closed, and the table has room and numbers for its labels. -/
structure Compiled (p : Program) (body : List Instruction) : Prop where
  code : p.code = body ++ [.jump .entry]
  closed : Closed body
  fits : p.labels.Fits body
  proper : ∀ o, .op o ∈ body → o.Proper
  numbers : (placedLabels body).map (p.labels.get .number) =
    (List.range' firstNumber (placedLabels body).length).map .ok

theorem compile_compiled (h : (compile s optimize).1 = .ok p) :
    ∃ c, expand s = (c, .ok ()) ∧ Compiled p (tidy optimize c.code).1 := by
  obtain ⟨c, t, he, ht, rfl⟩ := compile_ok h
  obtain ⟨n, hs⟩ := expand_sound he
  have hk := keeps_tidy optimize hs.closed
  obtain ⟨t', hok, hentry, hslots, hmap⟩ := numberLabels_tidy optimize hs
  obtain rfl : t = t' := Except.ok.inj (ht.symm.trans hok)
  refine ⟨c, he, rfl, hk.closed, ⟨?_, fun l hl => ?_⟩, fun o ho => hs.ops o (hk.ops o ho), hmap⟩
  · exact LabelTable.get_of_slot? hentry rfl
  · obtain ⟨k, hk⟩ := hslots l hl
    exact ⟨numbered k, hk, rfl⟩

/-- A compiled program links. -/
theorem Compiled.link {body : List Instruction} (h : Compiled p body) :
    ∃ q, p.link = .ok q ∧ q.title = p.title ∧ q.Linked body := by
  have hp : (⟨p.title, body ++ [.jump .entry], p.labels⟩ : Program) = p :=
    Program.ext rfl h.code.symm rfl
  have hlink := Program.link_ok h.closed h.fits p.title
  rwa [hp] at hlink

theorem placedLabels_code {body : List Instruction} (h : Compiled p body) :
    placedLabels p.code = placedLabels body := by
  rw [h.code, placedLabels_append]
  exact List.append_nil _

/-- The labels of a compiled program are numbered in order from 4 on, it loads, and in whatever state a
terminal runs it: the terminal stands at an instruction, and its next step does not end with a fault,
since every jump of the program leads to an instruction and no operation writes a system register. -/
theorem compile_never_faults (h : (compile s optimize).1 = .ok p) :
    (placedLabels p.code).map (p.labels.get .number) =
        (List.range' 4 (placedLabels p.code).length).map .ok ∧
      ∃ q, q.code = p.code ∧ q.title = p.title ∧
        (∀ clock screen, ∃ m, Machine.load p clock screen = .ok m ∧ m.program = q ∧ m.pc = 0) ∧
        (∀ i ∈ q.code, ∀ t, i.target? = some t →
          ∃ k, q.labels.get .index t = .ok k ∧ k < q.code.length) ∧
        (∀ o, .op o ∈ q.code → ∀ r, o.written = some r → r.isSystem = false) ∧
        ∀ m, Machine.Reached q m →
          (∃ i, q.code[m.pc]? = some i) ∧ ∀ reply f, (m.step reply).1 ≠ .error (.fault f) := by
  obtain ⟨c, -, hp⟩ := compile_compiled h
  obtain ⟨q, hlink, htitle, hq⟩ := hp.link
  have hlen : q.code.length = (tidy optimize c.code).1.length + 1 := by
    rw [hq.code, List.length_append, List.length_singleton]
  have hops : ∀ o, .op o ∈ q.code → ∀ r, o.written = some r → r.isSystem = false := by
    intro o ho
    rw [hq.code] at ho
    rcases List.mem_append.mp ho with ho | ho
    · exact hp.proper o ho
    · cases List.mem_singleton.mp ho
  refine ⟨?_, q, hq.code.trans hp.code.symm, htitle, fun clock screen => ?_, fun i hi t ht => ?_,
    hops, fun m hm => ?_⟩
  · rw [placedLabels_code hp]
    exact hp.numbers
  · exact ⟨_, by rw [Machine.load, hlink]; rfl, rfl, rfl⟩
  · rw [hq.code] at hi
    rcases List.mem_append.mp hi with hi | hi
    · rcases hq.follow hi ht with ⟨-, -, hk⟩ | ⟨-, k, hk, -, hle⟩
      · exact ⟨0, hk, by omega⟩
      · exact ⟨k, hk, by omega⟩
    · cases List.mem_singleton.mp hi
      cases ht
      exact ⟨0, hq.entry, by omega⟩
  · obtain ⟨hin, hprog⟩ := hm.inside hq hp.proper
    have hplace := hin.place
    exact ⟨⟨_, List.getElem?_eq_getElem (by omega)⟩, fun reply => (hin.stays_step reply).faultless⟩

/-- Where the sources below read their keys. -/
def keyRegister : Register := .int 0

/-- A loop that reads keys until one of them is zero, behind a menu that starts it. -/
def keyLoop : Source where
  title := ⟨.empty, .empty, .none, false, .small12⟩
  barcode := []
  body :=
    [.menuLoop [.mk .empty (some [.leave none])] none none,
      .label "keys",
      .loop
        [.op (.noEchoInput keyRegister),
          .ifElse ⟨keyRegister, .eq, .value (.int 48)⟩ [.leave (some "keys")] [.op .displayClear]]]

theorem compile_never_faults_keyLoop :
    ∃ p, (compile keyLoop true).1 = .ok p ∧
      (placedLabels p.code).map (p.labels.get .number) =
        (List.range' 4 (placedLabels p.code).length).map .ok ∧
      ∃ q, q.code = p.code ∧ q.title = p.title ∧
        (∀ clock screen, ∃ m, Machine.load p clock screen = .ok m ∧ m.program = q ∧ m.pc = 0) ∧
        (∀ i ∈ q.code, ∀ t, i.target? = some t →
          ∃ k, q.labels.get .index t = .ok k ∧ k < q.code.length) ∧
        (∀ o, .op o ∈ q.code → ∀ r, o.written = some r → r.isSystem = false) ∧
        ∀ m, Machine.Reached q m →
          (∃ i, q.code[m.pc]? = some i) ∧ ∀ reply f, (m.step reply).1 ≠ .error (.fault f) := by
  have hok : (compile keyLoop true).1.isOk = true := by decide +kernel
  cases hp : (compile keyLoop true).1 with
  | error e =>
    rw [hp] at hok
    cases hok
  | ok p => exact ⟨p, rfl, compile_never_faults hp⟩

end Compiler
end Handheld
