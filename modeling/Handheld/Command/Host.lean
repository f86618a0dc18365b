import Handheld.Command.Path
import Handheld.Log
import Handheld.Transfer
import Handheld.Clock

namespace Handheld

/-- Why the host refuses something. -/
inductive HostError where
  | notFound
  | alreadyThere
  | notDirectory
  | isDirectory
  | nameTooLong
  | nulInName
  | notText
  | other (message : String)
  deriving DecidableEq

def HostError.message : HostError → String
  | notFound => "No such file or directory (os error 2)"
  | alreadyThere => "File exists (os error 17)"
  | notDirectory => "Not a directory (os error 20)"
  | isDirectory => "Is a directory (os error 21)"
  | nameTooLong => "File name too long (os error 36)"
  | nulInName => "file name contained an unexpected NUL byte"
  | notText => "stream did not contain valid UTF-8"
  | other message => message

/-- What the command needs from the computer it runs on: files, keyboard lines, output and time. -/
structure Host (m : Type → Type) where
  readFile : String → m (Except HostError (List UInt8))
  /-- Replaces a file, or makes one in a directory that is there. -/
  writeFile : String → List UInt8 → m (Except HostError Unit)
  /-- Makes a directory in a directory that is there. -/
  makeDirectory : String → m (Except HostError Unit)
  isDirectory : String → m Bool
  /-- The regular files of a directory with their names. -/
  listFiles : String → m (Except HostError (List (String × List UInt8)))
  /-- A line typed, without its end; none after the last. -/
  readLine : m (Option (List UInt8))
  output : String → m Unit
  report : String → m Unit
  now : m Clock
  /-- Lets so many milliseconds pass. -/
  pause : Nat → m Unit

namespace Host

variable {m : Type → Type} [Monad m]

/-- Makes a directory, unless it is there. -/
def ensureDirectory (host : Host m) (path : String) : m (Except HostError Unit) := do
  match ← host.makeDirectory path with
  | .error .alreadyThere =>
    return if ← host.isDirectory path then .ok () else .error .alreadyThere
  | r => return r

/-- Makes the first of some directories, each of which is in the next one. Where that one is
missing, it is made before. -/
def makeDirectories (host : Host m) : List String → m (Except HostError Unit)
  | [] => return .ok ()
  | path :: above => do
    match ← host.ensureDirectory path with
    | .error .notFound =>
      match ← host.makeDirectories above with
      | .ok () => host.ensureDirectory path
      | r => return r
    | r => return r

/-- Writes the files of a transfer into a directory, up to the first that fails. -/
def receive (host : Host m) (dir : String) : List TransferFile → m (Option Log.Entry)
  | [] => pure none
  | f :: rest => do
    let path := Path.join dir f.name.lossy
    match ← host.writeFile path f.content.bytes with
    | .ok () => host.receive dir rest
    | .error e => pure (some ⟨.warn, .link, "upload to " ++ path ++ " failed: " ++ e.message⟩)

/-- Adds the files of a directory to a transfer, in the order of their names. -/
def offer (files : List (String × List UInt8)) (t : Transfer) : Transfer :=
  let named : List TransferFile := files.map fun f => ⟨.ofString f.1, ⟨f.2⟩⟩
  (named.mergeSort fun a b => a.name.order b.name ≠ .gt).foldl (fun t f => t.put f.name f.content) t

/-- A directory as the other end of the serial link. -/
def directoryLink (host : Host m) (dir : String) : LinkRequest → m LinkReply
  | .upload t => do
    match ← host.receive dir t.files with
    | none => pure ⟨t, []⟩
    | some warning => pure ⟨{ t with stopped := true }, [warning]⟩
  | .download t => do
    match ← host.listFiles dir with
    | .ok files => pure ⟨offer files t, []⟩
    | .error e =>
      pure ⟨{ t with stopped := true },
        [⟨.warn, .link, "download from " ++ dir ++ " failed: " ++ e.message⟩]⟩

end Host
end Handheld
