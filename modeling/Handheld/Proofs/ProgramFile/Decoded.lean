import Handheld.Machine.Basic
import Handheld.Proofs.Line.Frames
import Handheld.Proofs.ProgramFile.Header

namespace Handheld

namespace ProgramFile

open Line

section Body

/-- A body line with its labels and its instruction. -/
structure Block where
  frame : Frame
  labels : List Label
  instruction : Instruction

def Block.code (b : Block) : List Instruction := b.labels.map .label ++ [b.instruction]

/-- The header gives the line its labels and its instruction. -/
structure Block.Laid (h : Header) (start : Nat) (b : Block) : Prop where
  behind : start ≤ b.frame.start
  labels : b.labels = (h.pending.filter fun p => p.1 = b.frame.start - start).map (·.2)
  reads : ProgramFile.instruction h b.frame = .ok b.instruction

variable {h : Header} {start last : Nat} {body : List Frame} {code : List Instruction}

/-- Which labels still wait does not matter for what a line says. -/
theorem instruction_congr {h' : Header} (hl : h.labels = h'.labels) (f : Frame) :
    instruction h f = instruction h' f := by
  simp only [instruction, hl]

theorem instruction_target {f : Frame} {i : Instruction} (hi : instruction h f = .ok i) :
    i.label? = none ∧ ∀ t, i.target? = some t → ∃ n, h.labels.byNumber? n = some t := by
  unfold instruction at hi
  dsimp only at hi
  split at hi
  · cases hi
  · next n _ =>
    cases hn : h.labels.byNumber? n with
    | none => simp [hn, Except.map] at hi
    | some l =>
      simp only [hn, Except.map, Except.ok.injEq] at hi
      subst hi
      exact ⟨rfl, fun t ht => ⟨n, Option.some.inj ht ▸ hn⟩⟩
  · next cond n _ =>
    cases hn : h.labels.byNumber? n with
    | none => simp [hn, Except.map] at hi
    | some l =>
      simp only [hn, Except.map, Except.ok.injEq] at hi
      subst hi
      exact ⟨rfl, fun t ht => ⟨n, Option.some.inj ht ▸ hn⟩⟩
  · cases hi
    exact ⟨rfl, by simp [Instruction.target?]⟩
  · cases hi

theorem instruction_bounded {f : Frame} {o : Operation} (hi : instruction h f = .ok (.op o)) :
    o.Bounded := by
  have hline := decode_yields f.number f.payload
  unfold instruction at hi
  dsimp only at hi
  split at hi
  · cases hi
  · next n _ => cases hn : h.labels.byNumber? n <;> simp [hn, Except.map] at hi
  · next cond n _ => cases hn : h.labels.byNumber? n <;> simp [hn, Except.map] at hi
  · next o' ho =>
    rw [ho] at hline
    cases hi
    exact hline
  · cases hi

theorem instruction_flaw {f : Frame} {e : DecodeError} (hi : instruction h f = .error e) :
    e.flaw ≠ .overflow := by
  have hline := decode_yields f.number f.payload
  unfold instruction at hi
  dsimp only at hi
  split at hi
  · next e' he =>
    rw [he] at hline
    cases hi
    exact hline.2
  · next n _ =>
    cases hn : h.labels.byNumber? n with
    | none => simp only [hn, Except.map, Except.error.injEq] at hi; exact hi ▸ by simp
    | some l => simp [hn, Except.map] at hi
  · next cond n _ =>
    cases hn : h.labels.byNumber? n with
    | none => simp only [hn, Except.map, Except.error.injEq] at hi; exact hi ▸ by simp
    | some l => simp [hn, Except.map] at hi
  · cases hi
  · cases hi; simp

/-- Every body line gets the labels that wait for its offset, and none is left over. -/
theorem readBody_ok (hs : ∀ f ∈ body, start ≤ f.start)
    (hp : body.Pairwise fun f g => f.start < g.start) (hr : readBody h start last body = .ok code) :
    ∃ blocks : List Block, code = blocks.flatMap Block.code ∧ blocks.map (·.frame) = body ∧
      (∀ b ∈ blocks, b.Laid h start) ∧ ∀ p ∈ h.pending, ∃ f ∈ body, p.1 = f.start - start := by
  induction body generalizing h last code with
  | nil =>
    rw [readBody] at hr
    split at hr
    · cases hr
    · next hmin =>
      cases hr
      have hnil : h.pending = [] := by simpa using hmin
      exact ⟨[], rfl, rfl, by simp, by simp [hnil]⟩
  | cons f rest ih =>
    simp only [readBody] at hr
    split at hr
    · cases hr
    · next i hi =>
      let h' : Header := { h with pending := h.pending.filter fun p => p.1 ≠ f.start - start }
      change (readBody h' start f.number rest).map _ = _ at hr
      cases hb : readBody h' start f.number rest with
      | error e => rw [hb] at hr; cases hr
      | ok more =>
        simp only [hb, Except.map, Except.ok.injEq] at hr
        obtain ⟨hbehind, hs⟩ := List.forall_mem_cons.mp hs
        obtain ⟨hfirst, hp⟩ := List.pairwise_cons.mp hp
        obtain ⟨blocks, hcode, hframes, hlaid, hleft⟩ := ih hs hp hb
        let first : Block := ⟨f, (h.pending.filter fun p => p.1 = f.start - start).map (·.2), i⟩
        refine ⟨first :: blocks, ?_, by simp [first, hframes], ?_, ?_⟩
        · rw [← hr, hcode]
          simp [first, Block.code]
        · refine List.forall_mem_cons.mpr ⟨⟨hbehind, rfl, instruction_congr rfl f ▸ hi⟩, fun b hb => ?_⟩
          have hmem : b.frame ∈ rest := hframes ▸ List.mem_map_of_mem hb
          have hlater := hfirst b.frame hmem
          -- a later line has another offset, so that it does not miss what was taken out
          have hkept : (h'.pending.filter fun p => p.1 = b.frame.start - start) =
              h.pending.filter fun p => p.1 = b.frame.start - start := by
            rw [List.filter_filter]
            refine List.filter_congr fun p _ => ?_
            by_cases ho : p.1 = b.frame.start - start
            · simp [ho]
              omega
            · simp [ho]
          have hreads : ProgramFile.instruction h b.frame = ProgramFile.instruction h' b.frame :=
            instruction_congr rfl b.frame
          exact ⟨(hlaid b hb).behind, hkept ▸ (hlaid b hb).labels, hreads ▸ (hlaid b hb).reads⟩
        · intro p hp
          by_cases ho : p.1 = f.start - start
          · exact ⟨f, List.mem_cons_self, ho⟩
          · obtain ⟨g, hg, hgo⟩ := hleft p (by simpa [h', hp] using ho)
            exact ⟨g, List.mem_cons_of_mem f hg, hgo⟩

theorem readBody_flaw {e : DecodeError} (hr : readBody h start last body = .error e) :
    e.flaw ≠ .overflow := by
  induction body generalizing h last with
  | nil =>
    rw [readBody] at hr
    split at hr
    · cases hr; simp
    · cases hr
  | cons f rest ih =>
    simp only [readBody] at hr
    split at hr
    · next he => cases hr; exact instruction_flaw he
    · next i hi =>
      generalize ({ h with pending := h.pending.filter fun p => p.1 ≠ f.start - start } : Header) = h' at hr
      cases hb : readBody h' start f.number rest with
      | error e' =>
        simp only [hb, Except.map, Except.error.injEq] at hr
        obtain rfl := hr
        exact ih hb
      | ok more => simp [hb, Except.map] at hr

end Body

section Program

/-- Where the body of a file starts: at its first line, or at the end of a file without a body. -/
def bodyStart (bytes : List UInt8) : List Frame → Nat
  | [] => bytes.length
  | f :: _ => f.start

/-- The blocks are the body lines of the file in order; each holds the labels that are declared at
its offset and the instruction of its line. -/
structure Laying (bytes : List UInt8) (p : Program) (blocks : List Block) : Prop where
  lines : ∃ title header, frames bytes = .ok (title :: header ++ blocks.map (·.frame)) ∧
    (∀ f ∈ header, IsDeclaration f) ∧ ∀ f ∈ (blocks.map (·.frame)).head?, ¬ IsDeclaration f
  code : p.code = blocks.flatMap Block.code
  reads : ∀ b ∈ blocks, b.instruction.label? = none ∧
    instruction ⟨p.labels, []⟩ b.frame = .ok b.instruction
  labels : ∀ b ∈ blocks, bodyStart bytes (blocks.map (·.frame)) ≤ b.frame.start ∧
    ∀ l, l ∈ b.labels ↔ l ≠ .entry ∧
      p.labels.get .offset l = .ok (b.frame.start - bodyStart bytes (blocks.map (·.frame)))

/-- A program whose labels all have their own numbers and one place each, where the file says, and
whose jumps lead to them, so that it can be run. -/
structure Linkable (bytes : List UInt8) (p : Program) : Prop where
  sized : p.labels.size ≤ Word.limit32
  numbered : ∀ l, l ≠ .entry → l.id < p.labels.size →
    ∃ n, p.labels.get .number l = .ok n ∧ n ≠ LabelTable.entryNumber
  distinct : ∀ l l' n, p.labels.get .number l = .ok n → p.labels.get .number l' = .ok n → l = l'
  once : (placedLabels p.code).Nodup
  placed : ∀ l, l ∈ placedLabels p.code ↔ l ≠ .entry ∧ l.id < p.labels.size
  laid : ∃ blocks, Laying bytes p blocks
  targets : ∀ i ∈ p.code, ∀ t, i.target? = some t → t = .entry ∨ t ∈ placedLabels p.code
  loads : ∀ clock screen, ∃ m, Machine.load p clock screen = .ok m

variable {h : Header} {ds : List (Nat × Nat)} {start : Nat} {blocks : List Block}

theorem mem_labels {b : Block} (hb : b.Laid h start) (l : Label) :
    l ∈ b.labels ↔ (b.frame.start - start, l) ∈ h.pending := by
  rw [hb.labels]
  simp

theorem placedLabels_labels (ls : List Label) : placedLabels (ls.map .label) = ls := by
  rw [placedLabels, List.filterMap_map]
  exact List.filterMap_some

theorem placedLabels_blocks (hl : ∀ b ∈ blocks, b.instruction.label? = none) :
    placedLabels (blocks.flatMap Block.code) = blocks.flatMap Block.labels := by
  induction blocks with
  | nil => rfl
  | cons b rest ih =>
    obtain ⟨hb, hrest⟩ := List.forall_mem_cons.mp hl
    have hlast : placedLabels [b.instruction] = [] := by simp [placedLabels, hb]
    have hrun : placedLabels b.code = b.labels := by
      rw [Block.code, placedLabels_append, placedLabels_labels, hlast, List.append_nil]
    rw [List.flatMap_cons, placedLabels_append, hrun, ih hrest, List.flatMap_cons]

/-- No label stands before two lines. -/
theorem Header.Declared.once (hd : h.Declared ds) (hlaid : ∀ b ∈ blocks, b.Laid h start)
    (hp : (blocks.map (·.frame)).Pairwise fun f g => f.start < g.start) :
    (blocks.flatMap Block.labels).Nodup := by
  rw [List.nodup_flatMap]
  refine ⟨fun b hb => ?_, ?_⟩
  · rw [(hlaid b hb).labels]
    exact hd.pending_nodup.sublist (List.filter_sublist.map _)
  · rw [List.pairwise_map] at hp
    refine hp.imp_of_mem fun {b c} hb hc hlt l hlb hlc => ?_
    obtain ⟨-, hb'⟩ := (hd.mem_pending _ l).mp ((mem_labels (hlaid b hb) l).mp hlb)
    obtain ⟨-, hc'⟩ := (hd.mem_pending _ l).mp ((mem_labels (hlaid c hc) l).mp hlc)
    have hsame : b.frame.start - start = c.frame.start - start :=
      Except.ok.inj (hb'.symm.trans hc')
    have := (hlaid b hb).behind
    omega

/-- The lines of the blocks say the instructions that stand in them, none of which is a label. -/
theorem reads_blocks (hlaid : ∀ b ∈ blocks, b.Laid h start) :
    ∀ b ∈ blocks, b.instruction.label? = none ∧
      ∀ t, b.instruction.target? = some t → ∃ n, h.labels.byNumber? n = some t :=
  fun b hb => instruction_target (hlaid b hb).reads

/-- Where nothing is left waiting, the labels that are placed are those that have waited. -/
theorem mem_placedLabels_blocks (hlaid : ∀ b ∈ blocks, b.Laid h start)
    (hleft : ∀ q ∈ h.pending, ∃ f ∈ blocks.map (·.frame), q.1 = f.start - start) (l : Label) :
    l ∈ placedLabels (blocks.flatMap Block.code) ↔ ∃ k, (k, l) ∈ h.pending := by
  rw [placedLabels_blocks fun b hb => (reads_blocks hlaid b hb).1, List.mem_flatMap]
  constructor
  · rintro ⟨b, hb, hl⟩
    exact ⟨_, (mem_labels (hlaid b hb) l).mp hl⟩
  · rintro ⟨k, hk⟩
    obtain ⟨f, hf, ho⟩ := hleft _ hk
    obtain ⟨b, hb, rfl⟩ := List.mem_map.mp hf
    exact ⟨b, hb, (mem_labels (hlaid b hb) l).mpr (ho ▸ hk)⟩

/-- The labels that have waited are those of the table but the entry. -/
theorem Header.Declared.waited_iff (hd : h.Declared ds) (l : Label) :
    (∃ k, (k, l) ∈ h.pending) ↔ l ≠ .entry ∧ l.id < h.labels.size := by
  constructor
  · rintro ⟨k, hk⟩
    exact ⟨((hd.mem_pending k l).mp hk).1, hd.id_lt hk⟩
  · exact fun ⟨he, hl⟩ => hd.exists_offset he hl

/-- A jump of the blocks leads to a label of the table. -/
theorem target_blocks (hlaid : ∀ b ∈ blocks, b.Laid h start) {i : Instruction}
    (hi : i ∈ blocks.flatMap Block.code) {t : Label} (ht : i.target? = some t) :
    t.id < h.labels.size := by
  obtain ⟨b, hb, hi⟩ := List.mem_flatMap.mp hi
  rcases List.mem_append.mp hi with hi | hi
  · obtain ⟨l, -, rfl⟩ := List.mem_map.mp hi
    cases ht
  · cases List.mem_singleton.mp hi
    obtain ⟨n, hn⟩ := (reads_blocks hlaid b hb).2 t ht
    obtain ⟨s, hs, -⟩ := slot?_of_byNumber? hn
    exact (List.getElem?_eq_some_iff.mp hs).1

variable {t : Title} {p : Program} {bytes : List UInt8}

/-- What is read behind a header is a linkable program. -/
theorem linkable_of_blocks {title : Frame} {header : List Frame} (hd : h.Declared ds)
    (hframes : frames bytes = .ok (title :: header ++ blocks.map (·.frame)))
    (hheader : ∀ f ∈ header, IsDeclaration f)
    (hbody : ∀ f ∈ (blocks.map (·.frame)).head?, ¬ IsDeclaration f)
    (hlaid : ∀ b ∈ blocks, b.Laid h (bodyStart bytes (blocks.map (·.frame))))
    (hleft : ∀ q ∈ h.pending, ∃ f ∈ blocks.map (·.frame),
      q.1 = f.start - bodyStart bytes (blocks.map (·.frame))) :
    Linkable bytes ⟨t, blocks.flatMap Block.code, h.labels⟩ := by
  have hsorted := (framesFrom_starts hframes).2
  have hp : (blocks.map (·.frame)).Pairwise fun f g => f.start < g.start :=
    hsorted.sublist (List.sublist_append_right _ _)
  have hreads := reads_blocks hlaid
  have hlabels : placedLabels (blocks.flatMap Block.code) = blocks.flatMap Block.labels :=
    placedLabels_blocks fun b hb => (hreads b hb).1
  have hmem := mem_placedLabels_blocks hlaid hleft
  have hplaced (l : Label) : l ∈ placedLabels (blocks.flatMap Block.code) ↔
      l ≠ .entry ∧ l.id < h.labels.size := (hmem l).trans (hd.waited_iff l)
  have honce := hd.once hlaid hp
  have htargets : ∀ i ∈ blocks.flatMap Block.code, ∀ t, i.target? = some t →
      t = .entry ∨ t ∈ placedLabels (blocks.flatMap Block.code) := by
    intro i hi t ht
    by_cases he : t = .entry
    · exact .inl he
    · exact .inr ((hplaced t).mpr ⟨he, target_blocks hlaid hi ht⟩)
  have hclosed : Closed (blocks.flatMap Block.code) :=
    ⟨hlabels ▸ honce, fun he => ((hplaced _).mp he).1 rfl, htargets⟩
  refine ⟨hd.sized, fun l he hl => hd.numbered he hl, fun l l' n => hd.get_distinct,
    hlabels ▸ honce, hplaced, ⟨blocks, ⟨⟨title, header, hframes, hheader, hbody⟩, rfl, ?_, ?_⟩⟩,
    htargets, fun clock screen => ?_⟩
  · exact fun b hb => ⟨(hreads b hb).1, instruction_congr (h := h) rfl b.frame ▸ (hlaid b hb).reads⟩
  · exact fun b hb => ⟨(hlaid b hb).behind, fun l => (mem_labels (hlaid b hb) l).trans (hd.mem_pending _ l)⟩
  · obtain ⟨t', hlink, -⟩ := @Program.link_closed ⟨t, blocks.flatMap Block.code, h.labels⟩ hclosed
      (hd.fits_code fun l hl => (hmem l).mp hl)
    exact ⟨_, by rw [Machine.load, hlink]; rfl⟩

/-- The program of the lines behind the title: what its labels are, and how they were read. -/
theorem linkable_of_read {h' : Header} {title : Frame} {rest body : List Frame}
    {code : List Instruction} {last : Nat} (hframes : frames bytes = .ok (title :: rest))
    (hheader : readHeader ⟨.initial, []⟩ rest = .ok (h', body))
    (hbody : readBody h' (bodyStart bytes body) last body = .ok code) :
    Linkable bytes ⟨t, code, h'.labels⟩ := by
  obtain ⟨ds, header, hd, hrest, hdecl, hnot⟩ := readHeader_ok declared_initial hheader
  have hsorted := (framesFrom_starts hframes).2
  have hp : body.Pairwise fun f g => f.start < g.start :=
    hsorted.sublist (by rw [hrest]; exact (List.sublist_append_right _ _).cons _)
  have hstart : ∀ f ∈ body, bodyStart bytes body ≤ f.start := by
    cases body with
    | nil => simp
    | cons g more =>
      refine List.forall_mem_cons.mpr ⟨Nat.le_refl _, fun f hf => ?_⟩
      exact Nat.le_of_lt ((List.pairwise_cons.mp hp).1 f hf)
  obtain ⟨blocks, hcode, hblocks, hlaid, hleft⟩ := readBody_ok hstart hp hbody
  subst hcode hblocks hrest
  exact linkable_of_blocks hd hframes hdecl hnot hlaid hleft

/-- Behind a title and a header, the file is what its body is. -/
theorem decode_of_lines {h' : Header} {f : Frame} {rest body : List Frame}
    (hframes : frames bytes = .ok (f :: rest)) (htitle : Line.decode f.number f.payload = .ok (.title t))
    (hheader : readHeader ⟨.initial, []⟩ rest = .ok (h', body)) :
    decode bytes =
      (readBody h' (bodyStart bytes body) f.number body).map fun code => ⟨t, code, h'.labels⟩ := by
  simp only [decode, hframes, htitle, hheader]
  cases body <;> rfl

/-- The parts that a file is read in. -/
theorem decode_eq_ok (hp : decode bytes = .ok p) :
    ∃ f rest h' body, frames bytes = .ok (f :: rest) ∧
      Line.decode f.number f.payload = .ok (.title p.title) ∧
      readHeader ⟨.initial, []⟩ rest = .ok (h', body) ∧
      readBody h' (bodyStart bytes body) f.number body = .ok p.code ∧ p.labels = h'.labels := by
  have hdecode := hp
  unfold decode at hp
  split at hp
  · cases hp
  · cases hp
  · next f rest hframes =>
    split at hp
    · cases hp
    · next t htitle =>
      split at hp
      · cases hp
      · next h' body hheader =>
        rw [decode_of_lines hframes htitle hheader] at hdecode
        cases hbody : readBody h' (bodyStart bytes body) f.number body with
        | error e => rw [hbody] at hdecode; cases hdecode
        | ok code =>
          rw [hbody] at hdecode
          cases hdecode
          exact ⟨f, rest, h', body, hframes, htitle, hheader, hbody, rfl⟩
    · cases hp

theorem decode_flaw {e : DecodeError} (he : decode bytes = .error e) : e.flaw ≠ .overflow := by
  have hdecode := he
  unfold decode at he
  split at he
  · next hframes => cases he; exact framesFrom_flaw hframes
  · cases he; simp
  · next f rest hframes =>
    split at he
    · next htitle =>
      have hline := decode_yields f.number f.payload
      rw [htitle] at hline
      cases he
      exact hline.2
    · next t htitle =>
      split at he
      · next hheader => cases he; exact readHeader_flaw hheader
      · next h' body hheader =>
        rw [decode_of_lines hframes htitle hheader] at hdecode
        cases hbody : readBody h' (bodyStart bytes body) f.number body with
        | error e =>
          rw [hbody] at hdecode
          cases hdecode
          exact readBody_flaw hbody
        | ok code => rw [hbody] at hdecode; cases hdecode
    · cases he; simp

theorem linkable_of_decode (hp : decode bytes = .ok p) : Linkable bytes p := by
  obtain ⟨f, rest, h', body, hframes, -, hheader, hbody, hlabels⟩ := decode_eq_ok hp
  obtain ⟨t, code, labels⟩ := p
  obtain rfl : labels = h'.labels := hlabels
  exact linkable_of_read hframes hheader hbody

/-- A linked program has the code of the program that it is linked from. -/
theorem Linkable.links (h : Linkable bytes p) : ∃ q, p.link = .ok q ∧ q.code = p.code := by
  obtain ⟨m, hm⟩ := h.loads ⟨0, 0, 0, 0, 0, 0⟩ (.blank 0 0)
  cases hlink : p.link with
  | error f => rw [Machine.load, hlink] at hm; cases hm
  | ok q =>
    refine ⟨q, rfl, ?_⟩
    unfold Program.link at hlink
    split at hlink
    · cases hlink
    · cases hlink
      rfl

/-- The numbers of every operation in a file have three digits. -/
theorem bounded_of_decode (hp : decode bytes = .ok p) {o : Operation} (ho : .op o ∈ p.code) :
    o.Bounded := by
  obtain ⟨blocks, hlaid⟩ := (linkable_of_decode hp).laid
  rw [hlaid.code] at ho
  obtain ⟨b, hb, hmem⟩ := List.mem_flatMap.mp ho
  have hi : b.instruction = .op o := by
    rcases List.mem_append.mp hmem with hmem | hmem
    · obtain ⟨l, -, hl⟩ := List.mem_map.mp hmem
      cases hl
    · exact (List.mem_singleton.mp hmem).symm
  have hreads := (hlaid.reads b hb).2
  rw [hi] at hreads
  exact instruction_bounded hreads

/-- Whatever the bytes are, they are refused for a reason of the file, or they are a linkable
program. -/
theorem decode_linkable (bytes : List UInt8) :
    (∃ p, decode bytes = .ok p ∧ Linkable bytes p) ∨
      ∃ e, decode bytes = .error e ∧ e.flaw ≠ .overflow := by
  cases hp : decode bytes with
  | error e => exact .inr ⟨e, rfl, decode_flaw hp⟩
  | ok p => exact .inl ⟨p, rfl, linkable_of_decode hp⟩

end Program

end ProgramFile
end Handheld
