namespace Handheld.Command

/-- What to do with a program before, during and after a run. -/
structure RunOptions where
  /-- Files to put into the file area first: their names there, and where they come from. -/
  load : List (String × String)
  once : Bool
  keys : Option String
  save : Option String
  link : Option String
  deriving DecidableEq

inductive Task where
  | build (source : String) (output : Option String) (optimize listing : Bool)
  | dump (program : String)
  | run (program : String) (options : RunOptions)
  | explain (code : Option String) (list : Bool)
  deriving DecidableEq

structure Settings where
  json : Bool
  verbosity : Nat
  deriving DecidableEq

/-- What the arguments ask for. -/
inductive Request where
  | task (t : Task) (s : Settings)
  | version
  | help
  deriving DecidableEq

namespace Arguments

/-- Why reading the arguments ends early. -/
inductive Early where
  | refused
  | version
  | help
  deriving DecidableEq

/-- What an option does, and how often it may stand. -/
inductive Arity where
  /-- Takes no value, once. -/
  | flag
  /-- Takes no value; how often it stands counts. -/
  | counter
  /-- Takes a value, once. -/
  | value
  /-- Takes a value each time. -/
  | values
  /-- Ends the reading. -/
  | ends (e : Early)
  deriving DecidableEq

/-- What a value has to be. -/
inductive Form where
  | text
  | path
  /-- A name, an equals sign and a path. -/
  | binding
  deriving DecidableEq

/-- A text cut at its first equals sign. -/
def splitEquals (cs : List Char) : String × Option String :=
  let name := cs.takeWhile (· ≠ '=')
  (String.ofList name,
    if name.length = cs.length then none else some (String.ofList (cs.drop (name.length + 1))))

def binding? (s : String) : Option (String × String) :=
  match splitEquals s.toList with
  | (name, some path) => if name.isEmpty || path.isEmpty then none else some (name, path)
  | (_, none) => none

def Form.accepts : Form → String → Bool
  | text, _ => true
  | path, s => !s.isEmpty
  | binding, s => (binding? s).isSome

/-- An option that is understood: its long name, its letter, what it does, and its values. -/
structure Spec where
  name : String
  letter : Option Char
  arity : Arity
  form : Form
  deriving DecidableEq

def Spec.repeatable (s : Spec) : Bool := s.arity = .counter || s.arity = .values

/-- What is understood: options, and other arguments in their order. -/
structure Grammar where
  options : List Spec
  others : List Form

/-- The options found, in order, with their values; and the other arguments. -/
structure Found where
  options : List (String × String)
  others : List String

namespace Found

def empty : Found := ⟨[], []⟩

def count (f : Found) (name : String) : Nat := (f.options.filter fun o => o.1 = name).length

def has (f : Found) (name : String) : Bool := f.options.any fun o => o.1 = name

def values (f : Found) (name : String) : List String :=
  f.options.filterMap fun o => if o.1 = name then some o.2 else none

def value? (f : Found) (name : String) : Option String := (f.values name).head?

/-- One more option, unless it stands too often or its value is not accepted. -/
def addOption (f : Found) (s : Spec) (value : String) : Except Early Found :=
  if s.form.accepts value && (s.repeatable || !f.has s.name) then
    .ok { f with options := f.options ++ [(s.name, value)] }
  else .error .refused

/-- One more argument, unless it is one too many or not accepted. -/
def addOther (g : Grammar) (f : Found) (a : String) : Except Early Found :=
  match g.others[f.others.length]? with
  | some form => if form.accepts a then .ok { f with others := f.others ++ [a] } else .error .refused
  | none => .error .refused

def addOthers (g : Grammar) (f : Found) (args : List String) : Except Early Found :=
  args.foldlM (addOther g) f

end Found

/-- What has been found so far, and an option that takes the next argument as its value. -/
structure Pending where
  found : Found
  waiting : Option Spec

/-- An argument that cannot be the value of an option in front of it. -/
def isOption (a : String) : Bool := a.toList.head? = some '-' && a ≠ "-"

/-- The letters behind one dash. -/
def readLetters (g : Grammar) (f : Found) : List Char → Except Early Pending
  | [] => .ok ⟨f, none⟩
  | c :: rest =>
    match g.options.find? fun s => s.letter = some c with
    | none => .error .refused
    | some s =>
      match s.arity, rest with
      | .ends e, _ => .error e
      | .flag, _ | .counter, _ => (f.addOption s "").bind (readLetters g · rest)
      | .value, [] | .values, [] => .ok ⟨f, some s⟩
      | .value, '=' :: v | .values, '=' :: v
      | .value, v | .values, v => (f.addOption s (String.ofList v)).map (⟨·, none⟩)

/-- The word behind two dashes. -/
def readWord (g : Grammar) (f : Found) (cs : List Char) : Except Early Pending :=
  let (name, value) := splitEquals cs
  match g.options.find? fun s => s.name = name with
  | none => .error .refused
  | some s =>
    match s.arity, value with
    | .ends e, none => .error e
    | .flag, none | .counter, none => (f.addOption s "").map (⟨·, none⟩)
    | .ends _, some _ | .flag, some _ | .counter, some _ => .error .refused
    | .value, some v | .values, some v => (f.addOption s v).map (⟨·, none⟩)
    | .value, none | .values, none => .ok ⟨f, some s⟩

/-- Reads the arguments from the left. -/
def scan (g : Grammar) : Pending → List String → Except Early Found
  | ⟨f, none⟩, [] => .ok f
  | ⟨_, some _⟩, [] => .error .refused
  | ⟨f, some s⟩, a :: rest =>
    if isOption a then .error .refused
    else (f.addOption s a).bind fun f => scan g ⟨f, none⟩ rest
  | ⟨f, none⟩, a :: rest =>
    match a.toList with
    | ['-', '-'] => f.addOthers g rest
    | '-' :: '-' :: cs => (readWord g f cs).bind (scan g · rest)
    | '-' :: c :: cs => (readLetters g f (c :: cs)).bind (scan g · rest)
    | _ => (f.addOther g a).bind fun f => scan g ⟨f, none⟩ rest

/-- Reads options without values up to the first argument that is none, and answers it with all
that follows. -/
def scanFirst (g : Grammar) (f : Found) : List String → Except Early (Found × String × List String)
  | [] => .error .refused
  | a :: rest =>
    match a.toList with
    | ['-', '-'] => .error .refused
    | '-' :: '-' :: cs => (readWord g f cs).bind fun p => scanFirst g p.found rest
    | '-' :: c :: cs => (readLetters g f (c :: cs)).bind fun p => scanFirst g p.found rest
    | _ => .ok (f, a, rest)

/-- The options understood everywhere. -/
def everywhere : List Spec :=
  [⟨"json", none, .flag, .text⟩, ⟨"verbose", some 'v', .counter, .text⟩,
    ⟨"help", some 'h', .ends .help, .text⟩]

/-- What is understood in front of the name of a subcommand. -/
def first : Grammar := ⟨everywhere ++ [⟨"version", some 'V', .ends .version, .text⟩], []⟩

/-- A subcommand: its name, what it understands, and what it makes of that. -/
structure Subcommand where
  name : String
  grammar : Grammar
  task? : Found → Option Task

def build : Subcommand where
  name := "build"
  grammar := ⟨everywhere ++ [⟨"output", some 'o', .value, .path⟩, ⟨"no-optimize", none, .flag, .text⟩,
    ⟨"listing", none, .flag, .text⟩], [.path]⟩
  task? f := f.others.head?.map fun source =>
    .build source (f.value? "output") (!f.has "no-optimize") (f.has "listing")

def dump : Subcommand where
  name := "dump"
  grammar := ⟨everywhere, [.path]⟩
  task? f := f.others.head?.map .dump

def run : Subcommand where
  name := "run"
  grammar := ⟨everywhere ++ [⟨"load", none, .values, .binding⟩, ⟨"once", none, .flag, .text⟩,
    ⟨"keys", none, .value, .text⟩, ⟨"save", none, .value, .path⟩, ⟨"link", none, .value, .path⟩],
    [.path]⟩
  task? f := f.others.head?.map fun program =>
    .run program ⟨(f.values "load").filterMap binding?, f.has "once", f.value? "keys",
      f.value? "save", f.value? "link"⟩

def explain : Subcommand where
  name := "explain"
  grammar := ⟨everywhere ++ [⟨"list", none, .flag, .text⟩], [.text]⟩
  task? f := some (.explain f.others.head? (f.has "list"))

def subcommands : List Subcommand := [build, dump, run, explain]

/-- The inner of two counts wins if it is given. -/
def settings (outer inner : Found) : Settings :=
  ⟨outer.has "json" || inner.has "json",
    if inner.has "verbose" then inner.count "verbose" else outer.count "verbose"⟩

/-- What the subcommand `help` makes of the names behind it: of one subcommand at most. -/
def readHelp : List String → Early
  | [] => .help
  | [name] => if name = "help" || subcommands.any (·.name = name) then .help else .refused
  | _ => .refused

def readTask (outer : Found) (sub : Subcommand) (args : List String) : Except Early Request :=
  (scan sub.grammar ⟨.empty, none⟩ args).bind fun inner =>
    match sub.task? inner with
    | some t => .ok (.task t (settings outer inner))
    | none => .error .refused

def readRequest (args : List String) : Except Early Request :=
  (scanFirst first .empty args).bind fun (outer, name, rest) =>
    match subcommands.find? fun s => s.name = name with
    | some sub => readTask outer sub rest
    | none => .error (if name = "help" then readHelp rest else .refused)

/-- The request, none if the arguments are not understood. -/
def request? (args : List String) : Option Request :=
  match readRequest args with
  | .ok r => some r
  | .error .version => some .version
  | .error .help => some .help
  | .error .refused => none

end Arguments
end Handheld.Command
