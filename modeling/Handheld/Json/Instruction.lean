import Handheld.Json.Operand

namespace Handheld

open Json

namespace Operation

/-- The fields of an operation in order, `none` for the one operation that has none. -/
def fieldsJson : Operation → Option Json
  | assign dst src => some (.object [("dst", dst.toJson), ("src", src.toJson)])
  | stringConcat dst dstPos first second =>
    some (.object [("dst", dst.toJson), ("dst_pos", .ofNat dstPos), ("first", first.toJson),
      ("second", .ofOption Slice.toJson second)])
  | extractCopy dst dstPos src =>
    some (.object [("dst", dst.toJson), ("dst_pos", .ofNat dstPos), ("src", src.toJson)])
  | stringShift reg size align fill =>
    some (.object [("reg", reg.toJson), ("size", .ofNat size), ("align", align.toJson),
      ("fill", .ofNat fill.toNat)])
  | numberToString dst src => some (.object [("dst", dst.toJson), ("src", src.toJson)])
  | variableInit reg => some (.object [("reg", reg.toJson)])
  | recordWrite file recordLen src overwrite crlf =>
    some (.object [("file", file.toJson), ("record_len", .ofNat recordLen), ("src", src.toJson),
      ("overwrite", .bool overwrite), ("crlf", .bool crlf)])
  | recordRead file recordLen dst pos =>
    some (.object [("file", file.toJson), ("record_len", .ofNat recordLen), ("dst", dst.toJson),
      ("pos", pos.toJson)])
  | recordCount file recordLen dst =>
    some (.object [("file", file.toJson), ("record_len", .ofNat recordLen), ("dst", dst.toJson)])
  | fileDelete file => some (.object [("file", file.toJson)])
  | fileExists file => some (.object [("file", file.toJson)])
  | masterSearch file recordLen key key2 method pos result =>
    some (.object [("file", file.toJson), ("record_len", .ofNat recordLen), ("key", key.toJson),
      ("key2", .ofOption Slice.toJson key2), ("method", .ofNat method.toNat), ("pos", pos.toJson),
      ("result", result.toJson)])
  | echoedInput row col dst columns noEcho full special cursor minus =>
    some (.object [("row", .ofNat row), ("col", .ofNat col), ("dst", dst.toJson),
      ("columns", .ofNat columns), ("no_echo", .bool noEcho), ("full", full.toJson),
      ("special", special.toJson), ("cursor", cursor.toJson), ("minus", .bool minus)])
  | barcodeInput row col dst columns special full flags =>
    some (.object [("row", .ofNat row), ("col", .ofNat col), ("dst", dst.toJson),
      ("columns", .ofNat columns), ("special", special.toJson), ("full", full.toJson),
      ("flags", flags.toJson)])
  | barcodeSetup setup => some setup.toJson
  | noEchoInput dst => some (.object [("dst", dst.toJson)])
  | displayString row col clear text =>
    some (.object [("row", .ofNat row), ("col", .ofNat col), ("clear", .ofNat clear),
      ("text", text.toJson)])
  | displayClear => none
  | displayPartClear row col len quarter =>
    some (.object [("row", .ofNat row), ("col", .ofNat col), ("len", .ofNat len),
      ("quarter", .bool quarter)])
  | displayRegister row col reg start len clear quarter reverse =>
    some (.object [("row", .ofNat row), ("col", .ofNat col), ("reg", reg.toJson),
      ("start", .ofNat start), ("len", .ofNat len), ("clear", .ofNat clear),
      ("quarter", .bool quarter), ("reverse", .bool reverse)])
  | upload file gaugeKind gaugeLine stopKey =>
    some (.object [("file", file.toJson), ("gauge_kind", .ofNat gaugeKind.toNat),
      ("gauge_line", .ofNat gaugeLine.toNat), ("stop_key", .ofOption Key.toJson stopKey)])
  | download gaugeKind gaugeLine stopKey =>
    some (.object [("gauge_kind", .ofNat gaugeKind.toNat), ("gauge_line", .ofNat gaugeLine.toNat),
      ("stop_key", .ofOption Key.toJson stopKey)])
  | wait ms => some (.object [("ms", .ofNat ms.toNat)])

def toJson (op : Operation) : Json :=
  match op.fieldsJson with
  | none => .ofString op.name
  | some fields => .object [(op.name, fields)]

/-- The method of a search unless given: binary. -/
def binarySearch : UInt8 := 2

/-- The key that stops a transfer unless given. -/
def stopKey : Option Key := some (.function 0)

/-- An operation with fields, by its name. -/
def ofFields? (name : String) (content : Json) : Option Operation :=
  match name with
  | "assign" =>
    match record? ["dst", "src"] content with
    | some [dst, src] => do some (assign (← required Register.ofJson? dst) (← required Operand.ofJson? src))
    | _ => none
  | "string_concat" =>
    match record? ["dst", "dst_pos", "first", "second"] content with
    | some [dst, dstPos, first, second] => do
      some (stringConcat (← required Register.ofJson? dst) (← optional 0 size? dstPos)
        (← required Slice.ofJson? first) (← optional none (option? Slice.ofJson?) second))
    | _ => none
  | "extract_copy" =>
    match record? ["dst", "dst_pos", "src"] content with
    | some [dst, dstPos, src] => do
      some (extractCopy (← required Register.ofJson? dst) (← optional 0 size? dstPos)
        (← required Slice.ofJson? src))
    | _ => none
  | "string_shift" =>
    match record? ["reg", "size", "align", "fill"] content with
    | some [reg, size, align, fill] => do
      some (stringShift (← required Register.ofJson? reg) (← required size? size)
        (← optional .left Align.ofJson? align) (← optional Text.fill uint8? fill))
    | _ => none
  | "number_to_string" =>
    match record? ["dst", "src"] content with
    | some [dst, src] => do
      some (numberToString (← required Register.ofJson? dst) (← required Register.ofJson? src))
    | _ => none
  | "variable_init" =>
    match record? ["reg"] content with
    | some [reg] => (required Register.ofJson? reg).map variableInit
    | _ => none
  | "record_write" =>
    match record? ["file", "record_len", "src", "overwrite", "crlf"] content with
    | some [file, recordLen, src, overwrite, crlf] => do
      some (recordWrite (← required FileName.ofJson? file) (← required size? recordLen)
        (← required Register.ofJson? src) (← optional false bool? overwrite)
        (← optional false bool? crlf))
    | _ => none
  | "record_read" =>
    match record? ["file", "record_len", "dst", "pos"] content with
    | some [file, recordLen, dst, pos] => do
      some (recordRead (← required FileName.ofJson? file) (← required size? recordLen)
        (← required Register.ofJson? dst) (← optional .next FilePosition.ofJson? pos))
    | _ => none
  | "record_count" =>
    match record? ["file", "record_len", "dst"] content with
    | some [file, recordLen, dst] => do
      some (recordCount (← required FileName.ofJson? file) (← required size? recordLen)
        (← required Register.ofJson? dst))
    | _ => none
  | "file_delete" =>
    match record? ["file"] content with
    | some [file] => (required FileName.ofJson? file).map fileDelete
    | _ => none
  | "file_exists" =>
    match record? ["file"] content with
    | some [file] => (required FileName.ofJson? file).map fileExists
    | _ => none
  | "master_search" =>
    match record? ["file", "record_len", "key", "key2", "method", "pos", "result"] content with
    | some [file, recordLen, key, key2, method, pos, result] => do
      some (masterSearch (← required FileName.ofJson? file) (← required size? recordLen)
        (← required Slice.ofJson? key) (← optional none (option? Slice.ofJson?) key2)
        (← optional binarySearch uint8? method) (← optional .top FilePosition.ofJson? pos)
        (← required Register.ofJson? result))
    | _ => none
  | "echoed_input" =>
    match record? ["row", "col", "dst", "columns", "no_echo", "full", "special", "cursor", "minus"]
      content with
    | some [row, col, dst, columns, noEcho, full, special, cursor, minus] => do
      some (echoedInput (← required size? row) (← required size? col)
        (← required Register.ofJson? dst) (← required size? columns) (← optional false bool? noEcho)
        (← optional .immediate FullAction.ofJson? full) (← optional .empty KeySet.ofJson? special)
        (← optional .underbar CursorShape.ofJson? cursor) (← optional false bool? minus))
    | _ => none
  | "barcode_input" =>
    match record? ["row", "col", "dst", "columns", "special", "full", "flags"] content with
    | some [row, col, dst, columns, special, full, flags] => do
      some (barcodeInput (← required size? row) (← required size? col)
        (← required Register.ofJson? dst) (← required size? columns)
        (← optional .empty KeySet.ofJson? special) (← optional .nothing FullAction.ofJson? full)
        (← optional .standard ScanFlags.ofJson? flags))
    | _ => none
  | "barcode_info" => (BarcodeSetup.ofJson? content).map barcodeSetup
  | "no_echo_input" =>
    match record? ["dst"] content with
    | some [dst] => (required Register.ofJson? dst).map noEchoInput
    | _ => none
  | "display_string" =>
    match record? ["row", "col", "clear", "text"] content with
    | some [row, col, clear, text] => do
      some (displayString (← required size? row) (← required size? col) (← optional 0 size? clear)
        (← required Text.ofJson? text))
    | _ => none
  | "display_part_clear" =>
    match record? ["row", "col", "len", "quarter"] content with
    | some [row, col, len, quarter] => do
      some (displayPartClear (← required size? row) (← required size? col) (← required size? len)
        (← optional false bool? quarter))
    | _ => none
  | "display_register" =>
    match record? ["row", "col", "reg", "start", "len", "clear", "quarter", "reverse"] content with
    | some [row, col, reg, start, len, clear, quarter, reverse] => do
      some (displayRegister (← required size? row) (← required size? col)
        (← required Register.ofJson? reg) (← optional 0 size? start) (← required size? len)
        (← optional 0 size? clear) (← optional false bool? quarter)
        (← optional false bool? reverse))
    | _ => none
  | "comm_upload" =>
    match record? ["file", "gauge_kind", "gauge_line", "stop_key"] content with
    | some [file, kind, line, stop] => do
      some (upload (← required FileName.ofJson? file) (← optional 0 uint8? kind)
        (← optional 0 uint8? line) (← optional stopKey (option? Key.ofJson?) stop))
    | _ => none
  | "comm_download" =>
    match record? ["gauge_kind", "gauge_line", "stop_key"] content with
    | some [kind, line, stop] => do
      some (download (← optional 0 uint8? kind) (← optional 0 uint8? line)
        (← optional stopKey (option? Key.ofJson?) stop))
    | _ => none
  | "wait" =>
    match record? ["ms"] content with
    | some [ms] => (required uint32? ms).map wait
    | _ => none
  | _ => none

def ofJson? (j : Json) : Option Operation :=
  match variant? j with
  | some (name, content) =>
    if name = displayClear.name then (if isUnit content then some displayClear else none)
    else content.bind (ofFields? name)
  | none => none

end Operation

namespace Instruction

def toJson : Instruction → Json
  | label l => .object [("label", l.toJson)]
  | jump t => .object [("jump", t.toJson)]
  | jumpIf c t => .object [("jump_if", .array [c.toJson, t.toJson])]
  | op o => .object [("op", o.toJson)]

def ofJson? (j : Json) : Option Instruction :=
  match variant? j with
  | some ("label", some c) => (Label.ofJson? c).map label
  | some ("jump", some c) => (Label.ofJson? c).map jump
  | some ("jump_if", some (.arr [c, t])) => do
    some (jumpIf (← Condition.ofJson? c) (← Label.ofJson? t))
  | some ("op", some c) => (Operation.ofJson? c).map op
  | _ => none

end Instruction
end Handheld
