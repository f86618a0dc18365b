import Handheld.Command.Execute
import Std.Time

namespace Handheld

/-- The refusal that an error of the operating system stands for. Its code comes with either
sign. -/
def HostError.ofCode (code : UInt32) (e : IO.Error) : HostError :=
  match min code (0 - code) with
  | 2 => .notFound
  | 17 => .alreadyThere
  | 20 => .notDirectory
  | 21 => .isDirectory
  | 36 => .nameTooLong
  | _ => .other (toString e)

def HostError.ofError (e : IO.Error) : HostError :=
  match e with
  | .noFileOrDirectory _ code _ | .alreadyExists _ code _ | .inappropriateType _ code _
  | .invalidArgument _ code _ | .resourceExhausted _ code _ => .ofCode code e
  | e => .other (toString e)

/-- An action whose errors are answers. -/
def attempt {α : Type} (act : IO α) : IO (Except HostError α) := do
  try
    return .ok (← act)
  catch e =>
    return .error (.ofError e)

/-- The regular files of a directory. -/
def filesOf (dir : String) : IO (List (String × List UInt8)) := do
  let entries ← ((← IO.currentDir) / dir).readDir
  let mut files := []
  for entry in entries do
    if (← entry.path.metadata).type matches .file then
      files := (entry.fileName, (← IO.FS.readBinFile entry.path).toList) :: files
  return files

/-- A line without its end; none after the last, and at a line that is no text. -/
def lineOf (input : IO.FS.Stream) : IO (Option (List UInt8)) := do
  try
    let line ← input.getLine
    return if line.isEmpty then none else some (Utf8.encode line)
  catch _ =>
    return none

def clockNow : IO Clock := do
  let t ← Std.Time.PlainDateTime.now
  return ⟨t.date.year.toInt, t.date.month.val.toNat, t.date.day.val.toNat, t.time.hour.val.toNat,
    t.time.minute.val.toNat, t.time.second.val.toNat⟩

def computer (input output errors : IO.FS.Stream) : Host IO where
  readFile path := attempt (return (← IO.FS.readBinFile path).toList)
  writeFile path content := attempt (IO.FS.writeBinFile path ⟨content.toArray⟩)
  makeDirectory path := attempt (IO.FS.createDir path)
  isDirectory path := do ((← IO.currentDir) / path).isDir
  listFiles dir := attempt (filesOf dir)
  readLine := lineOf input
  output s := do
    output.putStr s
    output.flush
  report s := errors.putStr s
  now := clockNow
  pause ms := IO.sleep ms.toUInt32

end Handheld

def main (args : List String) : IO UInt32 := do
  let host := Handheld.computer (← IO.getStdin) (← IO.getStdout) (← IO.getStderr)
  return (← Handheld.Command.execute host args).toUInt32
