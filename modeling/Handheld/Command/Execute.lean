import Handheld.Command.Console
import Handheld.Diagnostic.Render
import Handheld.Json.Parser
import Handheld.Json.Source
import Handheld.ProgramFile

namespace Handheld.Command

variable {m : Type → Type} [Monad m]

/-- The steps of a command. -/
abbrev Step (m : Type → Type) := ExceptT CommandError m

/-- The result of an operation of the host, whose failure names the path. -/
def onHost {α : Type} (path : String) (act : m (Except HostError α)) : Step m α := do
  match ← act with
  | .ok a => pure a
  | .error e => throw (.host path e)

def ofExcept {ε α : Type} (wrap : ε → CommandError) : Except ε α → Step m α
  | .ok a => pure a
  | .error e => throw (wrap e)

def readSource (host : Host m) (path : String) : Step m Source := do
  let bytes ← onHost path (host.readFile path)
  match Utf8.decode? bytes with
  | none => throw (.host path .notText)
  | some text =>
    match (Json.parse? text).bind Source.ofJson? with
    | some source => pure source
    | none => throw (.badSource path)

def compile (host : Host m) (s : Settings) (source : Source) (optimize : Bool) : Step m Program := do
  let (result, log) := Compiler.compile source optimize
  host.tellAll s log
  ofExcept .compile result

def info (message : String) : Log.Entry := ⟨.info, .command, message⟩

/-- The extension of program files. -/
def programExtension : String := "htc"

/-- The extension of sources. -/
def sourceExtension : String := "json"

def build (host : Host m) (s : Settings) (path : String) (output : Option String)
    (optimize listing : Bool) : Step m Unit := do
  let program ← compile host s (← readSource host path) optimize
  let (header, body) ← ofExcept .compile (ProgramFile.encodeParts program)
  host.tell s (ProgramFile.encodeNote header body)
  let output := output.getD (Path.withExtension path programExtension)
  onHost output (host.writeFile output (header ++ body))
  host.tell s (info ("wrote " ++ output ++ " (" ++ Decimal.text (header.length + body.length) ++
    " bytes)"))
  if listing then host.output program.listing

/-- A program from a source or from a program file, told apart by the extension. -/
def loadProgram (host : Host m) (s : Settings) (path : String) : Step m Program := do
  if Path.extension? path = some sourceExtension then
    compile host s (← readSource host path) true
  else
    let program ← ofExcept (.decode path)
      (ProgramFile.decode (← onHost path (host.readFile path)))
    host.tell s (ProgramFile.decodeNote program)
    pure program

def dump (host : Host m) (s : Settings) (path : String) : Step m Unit := do
  let program ← loadProgram host s path
  if s.json then
    host.output ((Json.object [("title", program.title.toJson),
      ("code", .array (program.code.map Instruction.toJson))]).pretty ++ "\n")
  else host.output program.listing

/-- Keeps running while keys are typed: up to the first return if `once` is set, else until no key
can come any more. The number bounds the steps and the lines. -/
def runSteps (host : Host m) (s : Settings) (once : Bool) (link : Option String) :
    Nat → Machine → Step m (Machine.Step × Machine)
  | 0, k => pure (.terminated, k)
  | n + 1, k => do
    let (r, k) ← host.step link k
    let k ← host.settle s k
    match r with
    | .ok .running => runSteps host s once link n k
    | .ok .returned =>
      if once then pure (.returned, k)
      else
        let k ← if k.keys.size = 0 ∧ 0 < k.keys.keypads then host.typeLine s k else pure k
        let (ended, k) := k.exhausted
        let k ← host.settle s k
        match ended with
        | .ok true => pure (.returned, k)
        | _ => runSteps host s once link n k
    | .ok .terminated => pure (.terminated, k)
    | .error .waiting => do
      let k ← host.typeLine s k
      runSteps host s once link n k
    | .error (.fault f) => throw (.fault f)
    | .error .overflow => throw .overflow

/-- The files to put into the file area, read in order. -/
def readFiles (host : Host m) (a : FileArea) : List (String × String) → Step m FileArea
  | [] => pure a
  | (name, path) :: rest => do
    let bytes ← onHost path (host.readFile path)
    readFiles host (a.put (.ofString name) (.ofText ⟨bytes⟩)) rest

/-- Writes the file area into a directory. -/
def saveFiles (host : Host m) (dir : String) : List (Text × RecordFile) → Step m Unit
  | [] => pure ()
  | (name, f) :: rest => do
    let path := Path.join dir name.lossy
    onHost path (host.writeFile path f.content.bytes)
    saveFiles host dir rest

/-- The lines of a text: a carriage return right before a line feed goes with it, and so does a last
line without characters. -/
def lines (s : String) : List String := (cut s.toList []).map String.ofList
where
  cut : List Char → List Char → List (List Char)
    | [], [] => []
    | [], line => [line.reverse]
    | '\n' :: r, '\r' :: line => line.reverse :: cut r []
    | '\n' :: r, line => line.reverse :: cut r []
    | c :: r, line => cut r (c :: line)

/-- Puts a field among fields in the order of their names, in the place of one with its name. -/
def insertField (name : String) (j : Json) : List (String × Json) → List (String × Json)
  | [] => [(name, j)]
  | f :: rest =>
    if f.1 = name then (name, j) :: rest
    else if name < f.1 then (name, j) :: f :: rest
    else f :: insertField name j rest

def sorted (fields : List (String × Json)) : Json :=
  .object (fields.foldl (fun fs f => insertField f.1 f.2 fs) [])

/-- What a run leaves: the screen, the registers that hold something, and the files. -/
def reportOf (k : Machine) : Json :=
  .object [("screen", .array ((lines k.screen.render).map .ofString)),
    ("registers", sorted (k.registers.explicit.map fun r => (r.1.name, r.2.toJson))),
    ("files", sorted (k.files.entries.map fun f => (f.1.lossy, f.2.content.toJson)))]

def run (host : Host m) (s : Settings) (path : String) (o : RunOptions) : Step m Unit := do
  let program ← loadProgram host s path
  let files ← readFiles host .empty o.load
  let profile := program.title.profile
  let k ← ofExcept .fault
    (Machine.load program (← host.now) (.blank profile.rows profile.columns))
  let words := Unicode.words ((o.keys.getD "").toList)
  let k ← ofExcept id (pressAll { k with files } words)
  let (step, k) ← runSteps host s o.once o.link Machine.stepLimit k
  if o.once then
    host.tell s (info ("stopped at pc " ++ Decimal.text k.pc ++ ": " ++ step.title))
  else if step = .terminated then host.tell s (Machine.Note.terminated k.pc).entry
  match o.save with
  | none => pure ()
  | some dir =>
    onHost dir (host.makeDirectories (Path.ancestors dir))
    saveFiles host dir k.files.entries
  host.output ((if s.json then (reportOf k).pretty else k.screen.render) ++ "\n")

def explain (host : Host m) (code : Option String) (list : Bool) : Step m Unit :=
  match list, code with
  | false, some code =>
    let code := String.ofList (code.toList.map upper)
    match ErrorCode.ofName? code with
    | some e => host.output e.long
    | none => throw (.unknownCode code)
  | _, _ => host.output (String.join (ErrorCode.all.map fun e => e.name ++ "  " ++ e.short ++ "\n"))

def perform (host : Host m) (s : Settings) : Task → Step m Unit
  | .build source output optimize listing => build host s source output optimize listing
  | .dump program => dump host s program
  | .run program options => run host s program options
  | .explain code list => explain host code list

def usage : String :=
  "Usage: phl [--json] [-v] <build | dump | run | explain> ...\n"

def version : String := "phl 0.1.0\n"

/-- The exit status of arguments that are not understood. -/
def badArguments : UInt8 := 2

/-- Runs the command with its arguments and answers the exit status. -/
def execute (host : Host m) (args : List String) : m UInt8 := do
  match Arguments.request? args with
  | none =>
    host.report usage
    pure badArguments
  | some .version =>
    host.output version
    pure 0
  | some .help =>
    host.output usage
    pure 0
  | some (.task t s) =>
    match ← (perform host s t).run with
    | .ok () => pure 0
    | .error e =>
      host.report (if s.json then e.diagnostic.toJson.compact ++ "\n" else e.diagnostic.render false)
      pure e.status

end Handheld.Command
