import Handheld.Proofs.Machine.Faultless
import Handheld.Proofs.Machine.Safe
import Handheld.Proofs.Record.Sequence

namespace Handheld.Machine

/-- The content of the named file, wherever its pointer stands. -/
def Holds (m : Machine) (name : FileName) (content : Text) : Prop :=
  (m.files.get? (m.fileNamed name)).map (·.content) = some content

/-- Where the pointer of the named file stands. -/
def pointer? (m : Machine) (name : FileName) : Option Nat :=
  (m.files.get? (m.fileNamed name)).map (·.pointer)

namespace Act

/-- Appends the text of the source register, once the registers are those of the store. -/
def appendFrom (reply : LinkReply) (name : FileName) (len : Nat) (src : Register) (s : RegisterStore) :
    Act Unit := do
  update fun m => { m with registers := s }
  execute reply (.recordWrite name len src false false)

/-- Appends a record for each of the stores; what happens to the registers in between does not
matter. -/
def appendEach (reply : LinkReply) (name : FileName) (len : Nat) (src : Register) :
    List RegisterStore → Act Unit
  | [] => pure ()
  | s :: rest => do
    appendFrom reply name len src s
    appendEach reply name len src rest

/-- Reads with one movement after the other, and tells what the destination and the status register
hold behind each. -/
def readEach (reply : LinkReply) (name : FileName) (len : Nat) (dst : Register) :
    List FilePosition → Act (List (Value × Value))
  | [] => pure []
  | pos :: rest => do
    execute reply (.recordRead name len dst pos)
    let held ← read fun m => (m.registers.get dst, m.registers.get .rslt)
    return held :: (← readEach reply name len dst rest)

end Act

variable {m : Machine} {name : FileName} {file content : Text} {len : Nat} {src dst cnt : Register}

section Registers

theorem status_eq (code : Int32) (m : Machine) :
    Act.status code m = (.ok (), { m with registers := m.registers.store .rslt (.int code) }) := rfl

/-- A register that does not hold the name may change. -/
theorem fileNamed_store (h : name ≠ .register dst) (v : Value) :
    ({ m with registers := m.registers.store dst v } : Machine).fileNamed name = m.fileNamed name := by
  cases name with
  | literal t => rfl
  | register r =>
    have hr : dst ≠ r := fun e => h (e ▸ rfl)
    exact congrArg Value.toText ((m.registers.get_store dst r v).trans (if_neg hr))

/-- An operation changes two registers that do not hold the name. -/
theorem fileNamed_outcome (h : ∀ r ∈ [dst, .rslt], name ≠ .register r) (v : Value) (code : Int32)
    (files : FileArea) :
    ({ m with
      files, registers := (m.registers.store dst v).store .rslt (.int code) } : Machine).fileNamed name =
      m.fileNamed name := by
  have hrslt : name ≠ .register .rslt := h _ (by simp)
  have hdst : name ≠ .register dst := h _ (by simp)
  calc _ = ({ m with registers := m.registers.store dst v } : Machine).fileNamed name :=
        fileNamed_store hrslt (.int code)
    _ = m.fileNamed name := fileNamed_store hdst v

end Registers

section Writing

/-- The records of the source register, cut or padded to their length. -/
def recordsOf (len : Nat) (src : Register) (stores : List RegisterStore) : List Text :=
  stores.map fun s => (s.text src).forceSize len Text.fill

theorem fileNamed_congr {m m' : Machine} (h : m.registers = m'.registers) (name : FileName) :
    m.fileNamed name = m'.fileNamed name := by
  cases name with
  | literal t => rfl
  | register r => exact congrArg (·.text r) h

/-- One record more. -/
theorem appendFrom_holds (reply : LinkReply) (src : Register) {s : RegisterStore}
    (hname : ({ m with registers := s } : Machine).fileNamed name = file)
    (hcontent : (m.files.ensure file).content = content)
    (hfits : content.length + len < Text.sizeLimit) :
    ∃ m', Act.appendFrom reply name len src s m = (.ok (), m') ∧ m'.registers = s ∧
      (m'.files.get? file).map (·.content) = some (content ++ (s.text src).forceSize len Text.fill) := by
  have hrecord : ({ m with registers := s } : Machine).recordOf len src false =
      (s.text src).forceSize len Text.fill := Text.append_empty _
  have hplace : ({ m with registers := s } : Machine).placeOf name false = content.length := by
    rw [placeOf, hname, ← hcontent]
    rfl
  have hwritten : ({ m with registers := s } : Machine).written name len src false false =
      (m.files.ensure file).append ((s.text src).forceSize len Text.fill) := by
    rw [written, hrecord, hname]
    rfl
  have hwrite := recordWrite_eq { m with registers := s } name len src false false
  rw [hrecord, hplace, Text.length_forceSize, if_pos hfits, hname] at hwrite
  refine ⟨_, hwrite, rfl, ?_⟩
  show ((m.files.put file _).get? file).map _ = _
  rw [FileArea.get?_put, if_pos rfl, hwritten, Option.map_some, RecordFile.content_append, hcontent]

/-- A record for every store. -/
theorem appendEach_holds (reply : LinkReply) (src : Register) {s : RegisterStore} {rest : List RegisterStore}
    (hname : ∀ t ∈ s :: rest, ({ m with registers := t } : Machine).fileNamed name = file)
    (hcontent : (m.files.ensure file).content = content)
    (hfits : content.length + (s :: rest).length * len < Text.sizeLimit) :
    ∃ m', Act.appendEach reply name len src (s :: rest) m = (.ok (), m') ∧
      m'.fileNamed name = file ∧ m'.Holds name (content ++ .join (recordsOf len src (s :: rest))) := by
  induction rest generalizing m s content with
  | nil =>
    have hfirst : content.length + len < Text.sizeLimit := by simpa using hfits
    have hnow := hname s List.mem_cons_self
    obtain ⟨m', hwrite, hregisters, hfile⟩ := appendFrom_holds reply src hnow hcontent hfirst
    have hnamed : m'.fileNamed name = file := (fileNamed_congr hregisters name).trans hnow
    refine ⟨m', ?_, hnamed, ?_⟩
    · simp only [Act.appendEach, Act.run_bind, hwrite, Act.run_pure]
    · rw [Holds, hnamed, hfile, recordsOf, List.map_cons, ← Text.append_join]
      exact congrArg some (Text.append_empty _).symm
  | cons t rest ih =>
    have hlen : (s :: t :: rest).length * len = len + (t :: rest).length * len := by
      rw [List.length_cons, Nat.succ_mul, Nat.add_comm]
    have hfirst : content.length + len < Text.sizeLimit := by omega
    have hnow := hname s List.mem_cons_self
    obtain ⟨m₁, hwrite, -, hfile⟩ := appendFrom_holds reply src hnow hcontent hfirst
    obtain ⟨f, hf, hfcontent⟩ := Option.map_eq_some_iff.mp hfile
    have hensure : (m₁.files.ensure file).content =
        content ++ (s.text src).forceSize len Text.fill := by
      rw [FileArea.ensure, hf]
      exact hfcontent
    have hlonger : (content ++ (s.text src).forceSize len Text.fill).length = content.length + len :=
      calc _ = content.length + ((s.text src).forceSize len Text.fill).length := List.length_append
        _ = content.length + len := by rw [Text.length_forceSize]
    have hlater : ∀ u ∈ t :: rest, ({ m₁ with registers := u } : Machine).fileNamed name = file := by
      intro u hu
      have hu := hname u (List.mem_cons_of_mem s hu)
      exact Eq.trans (fileNamed_congr rfl name) hu
    obtain ⟨m', hrest, hnamed, hholds⟩ := ih hlater hensure (by rw [hlonger]; omega)
    refine ⟨m', ?_, hnamed, ?_⟩
    · rw [Act.appendEach, Act.run_bind, hwrite]
      exact hrest
    · rw [recordsOf, List.map_cons, ← Text.append_join]
      exact hholds

/-- The file is created by its first record. -/
theorem appendEach_records (reply : LinkReply) (src : Register) {stores : List RegisterStore}
    (habsent : m.files.get? file = none) (hsome : 1 ≤ stores.length)
    (hname : ∀ s ∈ stores, ({ m with registers := s } : Machine).fileNamed name = file)
    (hsize : stores.length * len < Text.sizeLimit) :
    ∃ m', Act.appendEach reply name len src stores m = (.ok (), m') ∧ m'.fileNamed name = file ∧
      m'.Holds name (.join (recordsOf len src stores)) := by
  cases stores with
  | nil => cases hsome
  | cons s rest =>
    have hfresh : (m.files.ensure file).content = .empty := by
      rw [FileArea.ensure, habsent]
      rfl
    exact appendEach_holds reply src hname hfresh (by simpa [Text.empty, Text.length] using hsize)

/-- The whole records are counted. -/
theorem recordCount_eq {f : RecordFile} (hf : m.files.get? (m.fileNamed name) = some f)
    (hlen : 0 < len) (hcnt : cnt.isSystem = false) :
    Act.recordCount name len cnt m = (.ok (), { m with
      registers := (m.registers.store cnt (.int (Int32.ofNat (f.count len)))).store .rslt
        (.int Act.success) }) := by
  simp only [Act.recordCount, Act.run_bind, nameOf_eq, Act.file?, Act.read, hf, if_neg (Nat.ne_of_gt hlen),
    set_eq hcnt, status_eq]

theorem uniform_recordsOf {stores : List RegisterStore} (hlen : 0 < len)
    (hsize : stores.length * len < Text.sizeLimit) :
    RecordFile.Uniform (recordsOf len src stores) len := by
  refine ⟨hlen, ?_, ?_⟩
  · intro r hr
    obtain ⟨s, -, rfl⟩ := List.mem_map.mp hr
    exact Text.length_forceSize _ _ _
  · rw [recordsOf, List.length_map]
    exact hsize

/-- Counting the records leaves them as they are. -/
theorem recordCount_holds {records : List Text} (h : RecordFile.Uniform records len)
    (hm : m.Holds name (.join records)) (hcnt : cnt.isSystem = false)
    (hfree : ∀ r ∈ [cnt, .rslt], name ≠ .register r) :
    ∃ m', Act.recordCount name len cnt m = (.ok (), m') ∧
      m'.registers.get cnt = (Value.int (Int32.ofNat records.length)).coerce cnt.kind ∧
      m'.registers.get .rslt = .int 0 ∧ m'.fileNamed name = m.fileNamed name ∧
      m'.Holds name (.join records) := by
  obtain ⟨f, hf, hcontent⟩ := Option.map_eq_some_iff.mp hm
  have hcount := recordCount_eq hf h.pos hcnt
  have hnamed := fileNamed_outcome (m := m) hfree (.int (Int32.ofNat (f.count len))) Act.success m.files
  have hne : Register.rslt ≠ cnt := fun e => nomatch (e ▸ hcnt : Register.rslt.isSystem = false)
  refine ⟨_, hcount, ?_, ?_, hnamed, ?_⟩
  · rw [RegisterStore.get_store, if_neg hne, RegisterStore.get_store, if_pos rfl, h.count_eq hcontent]
  · rw [RegisterStore.get_store, if_pos rfl]
    rfl
  · rw [Holds, hnamed]
    exact hm

end Writing

section Reading

/-- A read that finds something to show. -/
theorem recordRead_eq {f g : RecordFile} {pos : FilePosition} {ok : Bool} {record : Text}
    (hf : m.files.get? (m.fileNamed name) = some f) (hmoved : Act.moved f len pos = .ok (ok, g))
    (hread : g.read len = .ok (some record)) (hdst : dst.isSystem = false) :
    Act.recordRead name len dst pos m = (.ok (), { m with
      files := m.files.put (m.fileNamed name) g
      registers := (m.registers.store dst (.text record)).store .rslt
        (.int (if ok then Act.success else Act.badPosition)) }) := by
  simp only [Act.recordRead, Act.run_bind, nameOf_eq, Act.file?, Act.read, hf, hmoved, hread, Act.checked,
    Act.run_pure, Act.putFile, Act.update, set_eq hdst, Act.statusIf, status_eq]

/-- What two registers hold behind a read. -/
def held (shown : Text × Bool) : Value × Value :=
  (.text shown.1, .int (if shown.2 then Act.success else Act.badPosition))

/-- The registers show what one movement passes. -/
theorem recordRead_holds {f g : RecordFile} {pos : FilePosition} {ok : Bool} {record : Text}
    (hf : m.files.get? (m.fileNamed name) = some f) (hmoved : Act.moved f len pos = .ok (ok, g))
    (hread : g.read len = .ok (some record)) (hdst : dst.isSystem = false) (hkind : dst.kind = .text)
    (hfree : ∀ r ∈ [dst, .rslt], name ≠ .register r) :
    ∃ m', Act.recordRead name len dst pos m = (.ok (), m') ∧
      (m'.registers.get dst, m'.registers.get .rslt) = held (record, ok) ∧
      m'.files.get? (m'.fileNamed name) = some g := by
  have hne : Register.rslt ≠ dst := fun e => nomatch (e ▸ hdst : Register.rslt.isSystem = false)
  refine ⟨_, recordRead_eq hf hmoved hread hdst, ?_, ?_⟩
  · dsimp only
    rw [RegisterStore.get_store, if_neg hne, RegisterStore.get_store, if_pos rfl,
      RegisterStore.get_store, if_pos rfl, hkind]
    rfl
  · rw [fileNamed_outcome hfree, FileArea.get?_put, if_pos rfl]

theorem readEach_cons {reply : LinkReply} {pos : FilePosition} {ps : List FilePosition}
    {m₁ m₂ : Machine} {shown : List (Value × Value)}
    (hread : Act.recordRead name len dst pos m = (.ok (), m₁))
    (hrest : Act.readEach reply name len dst ps m₁ = (.ok shown, m₂)) :
    Act.readEach reply name len dst (pos :: ps) m =
      (.ok ((m₁.registers.get dst, m₁.registers.get .rslt) :: shown), m₂) := by
  simp only [Act.readEach, Act.execute, Act.run_bind, hread, Act.read, hrest, Act.run_pure]

/-- The registers show what the movements pass, one after the other. -/
theorem readEach_holds (reply : LinkReply) {f g : RecordFile} {ps : List FilePosition}
    {shown : List (Text × Bool)} (hpasses : f.Passes len ps shown g) (hdst : dst.isSystem = false)
    (hkind : dst.kind = .text) (hfree : ∀ r ∈ [dst, .rslt], name ≠ .register r)
    (hf : m.files.get? (m.fileNamed name) = some f) :
    ∃ m', Act.readEach reply name len dst ps m = (.ok (shown.map held), m') ∧
      m'.files.get? (m'.fileNamed name) = some g := by
  induction hpasses generalizing m with
  | nil f => exact ⟨m, rfl, hf⟩
  | cons hmoved hread _ ih =>
    obtain ⟨m₁, hstep, hheld, hfile⟩ := recordRead_holds hf hmoved hread hdst hkind hfree
    obtain ⟨m', hreads, hlast⟩ := ih hfile
    refine ⟨m', ?_, hlast⟩
    rw [readEach_cons hstep hreads, hheld, List.map_cons]

end Reading

section Sequence

/-- What the destination and the status register hold behind reads that find these records, each with
success, and then none: blanks, and the status of a failed movement. -/
def thenNone (len : Nat) (records : List Text) : List (Value × Value) :=
  records.map (fun r => (.text r, .int 0)) ++ [(.text (.spaces len), .int (-2))]

theorem map_held (records : List Text) (len : Nat) :
    (records.map (·, true) ++ [(Text.spaces len, false)]).map held = thenNone len records := by
  rw [List.map_append, List.map_map]
  rfl

/-- Reading up and down a file of records. -/
theorem readEach_records (reply : LinkReply) {records : List Text}
    (h : RecordFile.Uniform records len) (hn : 0 < records.length) (hdst : dst.isSystem = false)
    (hkind : dst.kind = .text) (hfree : ∀ r ∈ [dst, .rslt], name ≠ .register r)
    (hm : m.Holds name (.join records)) :
    (∃ m', Act.readEach reply name len dst (.top :: List.replicate records.length .next) m =
        (.ok (thenNone len records), m') ∧
      m'.Holds name (.join records) ∧ m'.pointer? name = some ((records.length - 1) * len)) ∧
    (∃ m', Act.readEach reply name len dst (.bottom :: List.replicate records.length .previous) m =
        (.ok (thenNone len records.reverse), m') ∧
      m'.Holds name (.join records) ∧ m'.pointer? name = some 0) := by
  obtain ⟨f, hf, hcontent⟩ := Option.map_eq_some_iff.mp hm
  constructor
  · obtain ⟨m', hreads, hlast⟩ :=
      readEach_holds reply (h.passes_forward hcontent hn) hdst hkind hfree hf
    rw [map_held] at hreads
    refine ⟨m', hreads, ?_, ?_⟩
    · rw [Holds, hlast]
      rfl
    · rw [pointer?, hlast]
      rfl
  · obtain ⟨m', hreads, hlast⟩ :=
      readEach_holds reply (h.passes_backward hcontent hn) hdst hkind hfree hf
    rw [map_held] at hreads
    refine ⟨m', hreads, ?_, ?_⟩
    · rw [Holds, hlast]
      rfl
    · rw [pointer?, hlast]
      exact congrArg some (Nat.zero_mul len)

/-- A file to which records have been appended is the list of them: it counts them, and from wherever
the pointer stands they are read in order from the top and in reverse from the bottom. The movement
past the last one fails and leaves the pointer. -/
theorem records_in_order (reply : LinkReply) (m : Machine) (name : FileName) (file : Text) (len : Nat)
    (src cnt dst : Register) (stores : List RegisterStore) (habsent : m.files.get? file = none)
    (hname : ∀ s ∈ stores, ({ m with registers := s } : Machine).fileNamed name = file)
    (hfree : ∀ r ∈ [cnt, dst, .rslt], name ≠ .register r) (hlen : 1 ≤ len) (hsome : 1 ≤ stores.length)
    (hcount : stores.length < 2 ^ 31) (hsize : stores.length * len < 2 ^ 63)
    (hcnt : cnt.isSystem = false) (hdst : dst.isSystem = false) (hkind : dst.kind = .text) :
    let n := stores.length
    let records := stores.map fun s => (s.text src).forceSize len Text.fill
    ∃ m₁, (do
        Act.appendEach reply name len src stores
        Act.execute reply (.recordCount name len cnt)) m = (.ok (), m₁) ∧
      m₁.registers.get cnt = (Value.int (Int32.ofNat n)).coerce cnt.kind ∧
      (Int32.ofNat n).toInt = n ∧ m₁.registers.get .rslt = .int 0 ∧
      m₁.fileNamed name = file ∧ m₁.Holds name (.join records) ∧
      ∀ m₂ : Machine, m₂.Holds name (.join records) →
        (∃ m₃, Act.readEach reply name len dst (.top :: List.replicate n .next) m₂ =
            (.ok (thenNone len records), m₃) ∧
          m₃.Holds name (.join records) ∧ m₃.pointer? name = some ((n - 1) * len)) ∧
        (∃ m₃, Act.readEach reply name len dst (.bottom :: List.replicate n .previous) m₂ =
            (.ok (thenNone len records.reverse), m₃) ∧
          m₃.Holds name (.join records) ∧ m₃.pointer? name = some 0) := by
  intro n records
  have hn : records.length = n := List.length_map _
  have huniform : RecordFile.Uniform records len := uniform_recordsOf hlen hsize
  have hcounted : ∀ r ∈ [cnt, .rslt], name ≠ .register r := by
    intro r hr
    rcases List.mem_cons.mp hr with rfl | hr
    · exact hfree r List.mem_cons_self
    · exact hfree r (List.mem_cons_of_mem _ (List.mem_cons_of_mem _ hr))
  have hshown : ∀ r ∈ [dst, .rslt], name ≠ .register r :=
    fun r hr => hfree r (List.mem_cons_of_mem cnt hr)
  obtain ⟨m₀, hwrites, hnamed, hholds⟩ := appendEach_records reply src habsent hsome hname hsize
  obtain ⟨m₁, hrun, hcntValue, hstatus, hnamed₁, hholds₁⟩ :=
    recordCount_holds huniform hholds hcnt hcounted
  rw [hn] at hcntValue
  refine ⟨m₁, ?_, hcntValue, Int32.toInt_ofNat_of_lt hcount, hstatus, hnamed₁.trans hnamed, hholds₁, ?_⟩
  · rw [Act.run_bind, hwrites]
    exact hrun
  · intro m₂ hm₂
    have hreads := readEach_records reply huniform (by omega) hdst hkind hshown hm₂
    rw [hn] at hreads
    exact hreads

/-- A machine without files. -/
def idle : Machine :=
  ⟨⟨⟨.empty, .empty, .none, false, .small12⟩, [], .initial⟩, .initial ⟨2020, 1, 1, 0, 0, 0⟩, .empty,
    .blank 8 16, .initial, 0, false, 0, .empty⟩

/-- The registers with a text in the terminal's name. -/
def naming (t : String) : RegisterStore :=
  (RegisterStore.initial ⟨2020, 1, 1, 0, 0, 0⟩).store .htid (.text (.ofString t))

/-- One text is too short, one too long, and one is empty. -/
theorem records_in_order_three :
    ∃ m₁ m₂ m₃, (do
        Act.appendEach ⟨.empty, []⟩ (.literal (.ofString "LOG")) 3 .htid
          [naming "A", naming "BCDE", naming ""]
        Act.execute ⟨.empty, []⟩ (.recordCount (.literal (.ofString "LOG")) 3 (.int 4))) idle =
          (.ok (), m₁) ∧
      m₁.registers.get (.int 4) = .int 3 ∧
      Act.readEach ⟨.empty, []⟩ (.literal (.ofString "LOG")) 3 (.usr 2) [.top, .next, .next, .next] m₁ =
        (.ok [(.text (.ofString "A  "), .int 0), (.text (.ofString "BCD"), .int 0),
          (.text (.ofString "   "), .int 0), (.text (.ofString "   "), .int (-2))], m₂) ∧
      m₂.pointer? (.literal (.ofString "LOG")) = some 6 ∧
      Act.readEach ⟨.empty, []⟩ (.literal (.ofString "LOG")) 3 (.usr 2)
          [.bottom, .previous, .previous, .previous] m₂ =
        (.ok [(.text (.ofString "   "), .int 0), (.text (.ofString "BCD"), .int 0),
          (.text (.ofString "A  "), .int 0), (.text (.ofString "   "), .int (-2))], m₃) ∧
      m₃.pointer? (.literal (.ofString "LOG")) = some 0 := by
  obtain ⟨m₁, hrun, hcount, -, -, -, hholds, hreads⟩ :=
    records_in_order ⟨.empty, []⟩ idle (.literal (.ofString "LOG")) (.ofString "LOG") 3 .htid (.int 4)
      (.usr 2) [naming "A", naming "BCDE", naming ""] rfl (fun _ _ => rfl) (by simp) (by decide)
      (by decide) (by decide) (by decide) rfl rfl rfl
  obtain ⟨⟨m₂, hdown, hheld, hlast⟩, -⟩ := hreads m₁ hholds
  obtain ⟨-, m₃, hup, -, hfirst⟩ := hreads m₂ hheld
  exact ⟨m₁, m₂, m₃, hrun, hcount, hdown, hlast, hup, hfirst⟩

end Sequence

end Handheld.Machine
