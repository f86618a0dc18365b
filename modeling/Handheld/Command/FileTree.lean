import Handheld.Command.Host
import Handheld.Text.Utf8

namespace Handheld

/-- What a name stands for. -/
inductive FileEntry where
  | file (content : List UInt8)
  | directory
  /-- Takes all that is written, and holds nothing. -/
  | sink

/-- Entries by the names on the way from the root, which is not listed. -/
structure FileTree where
  entries : List (List String × FileEntry)
  /-- Where relative paths start. -/
  current : List String

namespace FileTree

def entry? (t : FileTree) (path : List String) : Option FileEntry :=
  if path.isEmpty then some .directory else (t.entries.find? fun e => e.1 = path).map (·.2)

def put (t : FileTree) (path : List String) (entry : FileEntry) : FileTree :=
  { t with entries := t.entries.filter (fun e => e.1 ≠ path) ++ [(path, entry)] }

/-- The longest name, and the longest path, in bytes. -/
def nameLimit : Nat := 255

def pathLimit : Nat := 4095

/-- Goes by a name from a directory. -/
def enter (here : List String) (name : String) : List String :=
  if name = "." then here else if name = ".." then here.dropLast else here ++ [name]

/-- What lies under a name in a directory. -/
def lookup (t : FileTree) (here : List String) (name : String) :
    Except HostError (Option FileEntry) :=
  if nameLimit < name.utf8ByteSize then .error .nameTooLong else .ok (t.entry? (enter here name))

/-- Goes by a name from a directory into a directory. -/
def descend (t : FileTree) (here : List String) (name : String) :
    Except HostError (List String) :=
  (t.lookup here name).bind fun
    | some .directory => .ok (enter here name)
    | some _ => .error .notDirectory
    | none => .error .notFound

/-- The last name of a path, the directory it is looked up in, and whether a slash follows it. -/
structure Place where
  dir : List String
  name : String
  slash : Bool

/-- The name leads to a directory that is there. -/
def Place.isDots (p : Place) : Bool := p.name = "." || p.name = ".."

def Place.path (p : Place) : List String := enter p.dir p.name

/-- The place that a path names; whether something is there is left open. -/
def locate (t : FileTree) (path : String) : Except HostError Place :=
  if path.toList.contains '\x00' then .error .nulInName
  else if path.isEmpty then .error .notFound
  else if pathLimit < path.utf8ByteSize then .error .nameTooLong
  else
    let names := Path.names path
    (names.dropLast.foldlM t.descend (if Path.isAbsolute path then [] else t.current)).map fun dir =>
      ⟨dir, names.getLast?.getD ".", path.toList.getLast? = some '/'⟩

def read (t : FileTree) (path : String) : Except HostError (List UInt8) := do
  let p ← t.locate path
  match ← t.lookup p.dir p.name with
  | none => .error .notFound
  | some .directory => .error .isDirectory
  | some entry =>
    if p.slash then .error .notDirectory
    else
      match entry with
      | .file content => .ok content
      | _ => .ok []

/-- Writes a file. A slash behind its name asks for a directory, which is not made that way. -/
def write (t : FileTree) (path : String) (content : List UInt8) : Except HostError FileTree := do
  let p ← t.locate path
  if p.slash && !p.isDots then .error .isDirectory
  else
    match ← t.lookup p.dir p.name with
    | some .directory => .error .isDirectory
    | some .sink => .ok t
    | _ => .ok (t.put p.path (.file content))

def makeDirectory (t : FileTree) (path : String) : Except HostError FileTree := do
  let p ← t.locate path
  if p.isDots then .error .alreadyThere
  else
    match ← t.lookup p.dir p.name with
    | some _ => .error .alreadyThere
    | none => .ok (t.put p.path .directory)

def isDirectory (t : FileTree) (path : String) : Bool :=
  match (t.locate path).bind fun p => t.lookup p.dir p.name with
  | .ok (some .directory) => true
  | _ => false

/-- The name of an entry that lies right in a directory. -/
def nameIn (dir path : List String) : Option String :=
  match path.getLast? with
  | some name => if path.dropLast = dir then some name else none
  | none => none

def list (t : FileTree) (path : String) : Except HostError (List (String × List UInt8)) := do
  let p ← t.locate path
  match ← t.lookup p.dir p.name with
  | some .directory =>
    .ok (t.entries.filterMap fun e =>
      match nameIn p.path e.1, e.2 with
      | some name, .file content => some (name, content)
      | _, _ => none)
  | some _ => .error .notDirectory
  | none => .error .notFound

/-- An empty directory, which is where relative paths start, and a sink. -/
def empty : FileTree :=
  ⟨[(["dev"], .directory), (["dev", "null"], .sink), (["tmp"], .directory),
    (["tmp", "home"], .directory)], ["tmp", "home"]⟩

/-- Adds a file with the directories it is in, or a directory, whose path ends in a slash. -/
def add (t : FileTree) (path : String) (content : List UInt8) : FileTree :=
  let make (t : FileTree) (dir : String) := ((t.makeDirectory dir).toOption).getD t
  let above := Path.ancestors path
  if path.toList.getLast? = some '/' then above.reverse.foldl make t
  else
    let t := above.tail.reverse.foldl make t
    ((t.write path content).toOption).getD t

/-- Files and directories below the place where relative paths start, in the order of their paths.
The path of a directory ends in a slash. -/
def toList (t : FileTree) : List (String × List UInt8) :=
  let below := t.entries.filterMap fun e =>
    if t.current.isPrefixOf e.1 ∧ e.1 ≠ t.current then
      let path := "/".intercalate (e.1.drop t.current.length)
      match e.2 with
      | .file content => some (path, content)
      | .directory => some (path ++ "/", [])
      | .sink => none
    else none
  below.mergeSort fun a b => a.1 ≤ b.1

end FileTree

/-- A computer in memory: its files, what is still to be typed, and what has been written. -/
structure FileTree.Computer where
  files : FileTree
  input : List UInt8
  output : String
  report : String
  clock : Clock

namespace FileTree

/-- The first line of some bytes without its line feed, and what follows it. -/
def splitLine : List UInt8 → List UInt8 × List UInt8
  | [] => ([], [])
  | 0x0A :: r => ([], r)
  | b :: r => let (line, rest) := splitLine r; (b :: line, rest)

def withoutReturn (line : List UInt8) : List UInt8 :=
  if line.getLast? = some 0x0D then line.dropLast else line

/-- Changes the files unless that is refused. -/
def change (f : FileTree → Except HostError FileTree) : StateM Computer (Except HostError Unit) :=
  modifyGet fun c =>
    match f c.files with
    | .ok files => (.ok (), { c with files })
    | .error e => (.error e, c)

def host : Host (StateM Computer) where
  readFile path := do return (← get).files.read path
  writeFile path content := change (·.write path content)
  makeDirectory path := change (·.makeDirectory path)
  isDirectory path := do return (← get).files.isDirectory path
  listFiles path := do return (← get).files.list path
  readLine := modifyGet fun c =>
    if c.input.isEmpty then (none, c)
    else
      let (line, rest) := splitLine c.input
      (some (withoutReturn line), { c with input := rest })
  output s := modify fun c => { c with output := c.output ++ s }
  report s := modify fun c => { c with report := c.report ++ s }
  now := do return (← get).clock
  pause _ := pure ()

end FileTree
end Handheld
