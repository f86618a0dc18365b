import Handheld.Construct.Basic
import Handheld.Json.Instruction

namespace Handheld

open Json

namespace MenuLine

def toJson : MenuLine → Json
  | register r => r.reference
  | text t => t.toJson

def ofJson? : Reader MenuLine := whole? fun j =>
  match Register.ofReference? j with
  | some r => some (register r)
  | none => (Text.ofJson? j).map text

end MenuLine

/-- A construct that is a name with its fields. -/
def Json.tagged (name : String) (fields : List (String × Json)) : Json := .object [(name, .object fields)]

/-- The field with the name of a loop. -/
def Json.loopName (name : Option String) : String × Json := ("label", .ofOption .ofString name)

mutual

def Construct.toJson : Construct → Json
  | .op o => .object [("op", o.toJson)]
  | .label name => .object [("label", .ofString name)]
  | .block body => .object [("block", .array (constructsJson body))]
  | .ifElse cond yes no =>
    tagged "if" [("cond", cond.toJson), ("then", .array (constructsJson yes)),
      ("else", .array (constructsJson no))]
  | .loop body => .object [("loop", .array (constructsJson body))]
  | .switch reg cases default =>
    tagged "switch" [("register", reg.toJson), ("cases", .array (casesJson cases)),
      ("default", .array (constructsJson default))]
  | .leave name => tagged "break" [loopName name]
  | .again name => tagged "continue" [loopName name]
  | .leaveIf cond name => tagged "if_break" [("cond", cond.toJson), loopName name]
  | .againIf cond name => tagged "if_continue" [("cond", cond.toJson), loopName name]
  | .ifFileExists file yes no =>
    tagged "if_file_exists" [("file", file.toJson), ("then", .array (constructsJson yes)),
      ("else", .array (constructsJson no))]
  | .getResult dst => tagged "get_result" [("dst", dst.toJson)]
  | .menuLines lines => .object [("menu_lines", .array (lines.map MenuLine.toJson))]
  | .menuLoop entries next prev =>
    tagged "menu_loop" [("entries", .array (entriesJson entries)),
      ("next_key", .ofOption Key.toJson next), ("prev_key", .ofOption Key.toJson prev)]

def constructsJson : List Construct → List Json
  | [] => []
  | k :: rest => k.toJson :: constructsJson rest

def Case.toJson : Case → Json
  | .mk key body => .object [("key", key.toJson), ("body", .array (constructsJson body))]

def casesJson : List Case → List Json
  | [] => []
  | c :: rest => c.toJson :: casesJson rest

def MenuEntry.toJson : MenuEntry → Json
  | .mk text action => .object [("text", text.toJson), ("action", actionJson action)]

def actionJson : Option (List Construct) → Json
  | none => .null
  | some body => .array (constructsJson body)

def entriesJson : List MenuEntry → List Json
  | [] => []
  | e :: rest => e.toJson :: entriesJson rest

end

namespace Construct

/-- The parts that other constructs are made of, given the reading of those inside. -/
def caseOf? (inner : Reader Construct) (j : Json) : Option Case :=
  match record? ["key", "body"] j with
  | some [key, body] => do
    some (.mk (← required Operand.ofJson? key) (← optional [] (list? inner) body))
  | _ => none

def entryOf? (inner : Reader Construct) (j : Json) : Option MenuEntry :=
  match record? ["text", "action"] j with
  | some [text, action] => do
    some (.mk (← required Text.ofJson? text) (← optional none (option? (list? inner)) action))
  | _ => none

/-- The name of a loop, which may be absent or null. -/
def loopName? : Option Json → Option (Option String) := optional none (option? text?)

/-- A construct by its name, given the reading of those inside. -/
def ofContent? (inner : Reader Construct) (name : String) (content : Json) : Option Construct :=
  match name with
  | "op" => (Operation.ofJson? content).map op
  | "label" => (text? content).map label
  | "block" => (list? inner content).map block
  | "if" =>
    match record? ["cond", "then", "else"] content with
    | some [cond, yes, no] => do
      some (ifElse (← required Condition.ofJson? cond) (← optional [] (list? inner) yes)
        (← optional [] (list? inner) no))
    | _ => none
  | "loop" => (list? inner content).map loop
  | "switch" =>
    match record? ["register", "cases", "default"] content with
    | some [reg, cases, default] => do
      some (switch (← required Register.ofJson? reg) (← required (list? (caseOf? inner)) cases)
        (← optional [] (list? inner) default))
    | _ => none
  | "break" =>
    match record? ["label"] content with
    | some [name] => (loopName? name).map leave
    | _ => none
  | "continue" =>
    match record? ["label"] content with
    | some [name] => (loopName? name).map again
    | _ => none
  | "if_break" =>
    match record? ["cond", "label"] content with
    | some [cond, name] => do some (leaveIf (← required Condition.ofJson? cond) (← loopName? name))
    | _ => none
  | "if_continue" =>
    match record? ["cond", "label"] content with
    | some [cond, name] => do some (againIf (← required Condition.ofJson? cond) (← loopName? name))
    | _ => none
  | "if_file_exists" =>
    match record? ["file", "then", "else"] content with
    | some [file, yes, no] => do
      some (ifFileExists (← required FileName.ofJson? file) (← optional [] (list? inner) yes)
        (← optional [] (list? inner) no))
    | _ => none
  | "get_result" =>
    match record? ["dst"] content with
    | some [dst] => (required Register.ofJson? dst).map getResult
    | _ => none
  | "menu_lines" => (list? MenuLine.ofJson? content).map menuLines
  | "menu_loop" =>
    match record? ["entries", "next_key", "prev_key"] content with
    | some [entries, next, prev] => do
      some (menuLoop (← required (list? (entryOf? inner)) entries)
        (← optional none (option? Key.ofJson?) next) (← optional none (option? Key.ofJson?) prev))
    | _ => none
  | _ => none

/-- Reads constructs nested at most as deep as the first argument says. -/
def ofJsonWithin? : Nat → Reader Construct
  | 0, _ => none
  | n + 1, j =>
    match variant? j with
    | some (name, some content) => ofContent? (ofJsonWithin? n) name content
    | _ => none

/-- Every construct is an object, so the depth of the value bounds the nesting. -/
def ofJson? (j : Json) : Option Construct := ofJsonWithin? j.depth j

end Construct

namespace Source

def toJson (s : Source) : Json :=
  .object [("title", s.title.toJson), ("barcode", .array (s.barcode.map BarcodeSetup.toJson)),
    ("body", .array (constructsJson s.body))]

/-- The barcode configuration is the standard one unless given. -/
def ofJson? (j : Json) : Option Source :=
  match record? ["title", "barcode", "body"] j with
  | some [title, barcode, body] => do
    some ⟨← required Title.ofJson? title,
      ← optional BarcodeSetup.standard (list? BarcodeSetup.ofJson?) barcode,
      ← required (list? Construct.ofJson?) body⟩
  | _ => none

end Source
end Handheld
