import Handheld.Proofs.Compiler.Legible
import Handheld.Proofs.Machine.Renamed
import Handheld.Proofs.ProgramFile.RoundTrip

namespace Handheld.Compiler

open ProgramFile

variable {s : Source} {optimize : Bool} {p : Program}

/-- The labels of a compiled program can be told apart in its file. -/
theorem compile_numbered (h : (compile s optimize).1 = .ok p)
    (hfits : ∀ l n, p.labels.get .number l = .ok n → n < Word.limit32) : p.Numbered := by
  obtain ⟨c, -, hp⟩ := compile_compiled h
  obtain ⟨-, hentry, hslots⟩ := compile_writable h
  have hnumbered : ∀ l ∈ placedLabels p.code, ∃ n, p.labels.get .number l = .ok n := by
    intro l hl
    obtain ⟨k, hk⟩ := hslots l hl
    exact ⟨k, LabelTable.get_of_slot? hk rfl⟩
  have hvalues : (placedLabels p.code).map (p.labels.value .number) =
      List.range' firstNumber (placedLabels p.code).length := by
    have hget := hp.numbers
    rw [← placedLabels_code hp] at hget
    have hread := congrArg (List.map fun r : Except Fault Nat => r.toOption.getD 0) hget
    rw [List.map_map, List.map_map] at hread
    exact hread.trans (List.map_id _)
  refine ⟨hp.code ▸ Program.closed_append_jump hp.closed, hentry, hnumbered, ?_, ?_, ?_⟩
  · rw [hvalues, List.nodup_cons]
    refine ⟨fun hmem => ?_, List.nodup_range'⟩
    obtain ⟨i, -, hi⟩ := List.mem_range'.mp hmem
    have hlow : LabelTable.entryNumber < firstNumber := by decide
    omega
  · intro l hl
    obtain ⟨n, hn⟩ := hnumbered l hl
    rw [LabelTable.value_of_get hn]
    exact hfits l n hn
  · intro l hl
    rw [hp.code, List.getLast?_append_of_ne_nil _ (List.cons_ne_nil _ _)] at hl
    cases hl

/-- Decoding undoes encoding. What a compiled program is written as is read as the program with its
labels renamed: the entry stays what it is, and each other label has the name that its number has in
the file. Whatever state a terminal is in, it runs both programs alike, step for step. Label numbers
and offsets have 32 bits. -/
theorem decode_encode (h : (compile s optimize).1 = .ok p) (hplain : p.Plain)
    (hnumbers : ∀ l n, p.labels.get .number l = .ok n → n < Word.limit32)
    (hbody : ∀ header body, encodeParts p = .ok (header, body) → body.length < Word.limit32)
    {bytes : List UInt8} (he : encode p = .ok bytes) :
    ∃ q f, decode bytes = .ok q ∧ q.title = p.title ∧ q.code = p.code.map (Instruction.rename f) ∧
      f .entry = .entry ∧ Set.InjOn f {l | l = .entry ∨ l ∈ placedLabels p.code} ∧
      (∀ l ∈ placedLabels p.code, ∃ n, p.labels.get .number l = .ok n ∧
        q.labels.byNumber? n = some (f l)) ∧
      ∃ p' q', p.link = .ok p' ∧ q.link = .ok q' ∧
        ∀ (m : Machine) {σ : Type} (link : Machine.Link σ) (n : Nat) (t : σ),
          Machine.steps link n (m.running p') t = Machine.steps link n (m.running q') t := by
  have hp := compile_numbered h hnumbers
  obtain ⟨c, -, hcompiled⟩ := compile_compiled h
  obtain ⟨hwritable, -, -⟩ := compile_writable h
  have hconverted := compile_converted h
  obtain ⟨htitle, hversion⟩ := compile_title_fits h
  obtain ⟨e, hparts⟩ | ⟨t, title, header, body, hparts, hw⟩ :=
    encodeParts_written hwritable hp.numbered
  · rw [encode, hparts] at he
    cases he
  · rw [encode, hparts] at he
    obtain rfl : title ++ header ++ body = bytes := Except.ok.inj he
    obtain ⟨q, hdecode, hrenames, hfits, hlabels⟩ := decode_written hw hp
      (hplain.legible_title htitle hversion)
      (fun i hi line hline => hplain.legible_line hi (hconverted i hi) hline) (hbody _ _ hparts)
    have hpfits : p.labels.Fits p.code := hcompiled.code ▸ Program.fits_append_jump hcompiled.fits
    obtain ⟨p', q', hlink, hlink', -, -, hmirrors⟩ := hrenames.link hp.closed hpfits hfits
    refine ⟨q, p.renaming, hdecode, hrenames.title, hrenames.code, hrenames.entry,
      hrenames.injective, fun l hl => ?_, p', q', hlink, hlink', fun m σ link n t => ?_⟩
    · obtain ⟨n, hn⟩ := hp.numbered l hl
      exact ⟨n, hn, hlabels l (.inr hl) n hn⟩
    · have hb : Machine.Beside p' q' (m.running p') (m.running q') := ⟨rfl, rfl, rfl, rfl⟩
      exact hb.steps hmirrors link n t

/-- The register that the source below scans into. -/
def scanRegister : Register := .dat (Fin.last 9)

/-- A loop that records scanned codes until one is empty, behind a file that starts it. -/
def stocktaking : Source where
  title := ⟨.ofString "STOCK", .ofString "1.0", .twoSeconds, true, .small12⟩
  barcode := BarcodeSetup.standard
  body :=
    [.op (.fileExists (.register scanRegister)),
      .op (.assign keyRegister (.key .enter)),
      .label "scan",
      .loop
        [.op (.barcodeInput 2 0 scanRegister 13 .empty .immediate .standard),
          .ifElse ⟨scanRegister, .eq, .value (.text .empty)⟩ [.leave (some "scan")]
            [.op (.recordWrite (.literal (.ofString "ITEMS")) 13 scanRegister false true)],
          .leaveIf ⟨keyRegister, .ne, .value (.text (.ofString "13"))⟩ none]]

theorem decode_encode_stocktaking :
    ∃ p bytes, (compile stocktaking false).1 = .ok p ∧ encode p = .ok bytes ∧
      ∃ q f, decode bytes = .ok q ∧ q.title = p.title ∧ q.code = p.code.map (Instruction.rename f) ∧
        f .entry = .entry ∧ Set.InjOn f {l | l = .entry ∨ l ∈ placedLabels p.code} ∧
        (∀ l ∈ placedLabels p.code, ∃ n, p.labels.get .number l = .ok n ∧
          q.labels.byNumber? n = some (f l)) ∧
        ∃ p' q', p.link = .ok p' ∧ q.link = .ok q' ∧
          ∀ (m : Machine) {σ : Type} (link : Machine.Link σ) (n : Nat) (t : σ),
            Machine.steps link n (m.running p') t = Machine.steps link n (m.running q') t := by
  have hchecks : ∃ p ∈ (compile stocktaking false).1.toOption, p.Plain ∧
      (∀ slot ∈ p.labels.slots, ∀ n ∈ slot.number, n < Word.limit32) ∧
      ∃ parts ∈ (encodeParts p).toOption, parts.2.length < Word.limit32 := by
    decide +kernel
  obtain ⟨p, hp, hplain, hslots, ⟨header, body⟩, hparts, hbody⟩ := hchecks
  have hcompiled := Except.toOption_eq_some.mp hp
  have hwritten := Except.toOption_eq_some.mp hparts
  have hnumbers : ∀ l n, p.labels.get .number l = .ok n → n < Word.limit32 := by
    intro l n hn
    unfold LabelTable.get at hn
    split at hn
    · cases hn
    · next slot hslot =>
      split at hn
      · cases hn
      · next k hk => exact Except.ok.inj hn ▸ hslots slot (List.mem_of_getElem? hslot) k hk
  have hshort : ∀ header body, encodeParts p = .ok (header, body) → body.length < Word.limit32 := by
    intro header' body' h'
    obtain ⟨-, rfl⟩ := Prod.mk.inj (Except.ok.inj (hwritten.symm.trans h'))
    exact hbody
  have hencode : encode p = .ok (header ++ body) := by rw [encode, hwritten]; rfl
  exact ⟨p, header ++ body, hcompiled, hencode,
    decode_encode hcompiled hplain hnumbers hshort hencode⟩

end Handheld.Compiler
