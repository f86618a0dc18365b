import Handheld.Text.Basic

namespace Handheld

/-- How a file instruction moves the record pointer. -/
inductive FilePosition where
  | next
  | top
  | previous
  | current
  | bottom
  deriving DecidableEq

namespace FilePosition

def all : List FilePosition := [next, top, previous, current, bottom]

def name : FilePosition → String
  | next => "NEXT"
  | top => "TOP"
  | previous => "PREV"
  | current => "CUR"
  | bottom => "BOT"

def ofName? (s : String) : Option FilePosition := all.find? fun p => p.name = s

end FilePosition

/-- What line input does once every column is filled. -/
inductive FullAction where
  | immediate
  | oneSecond
  | nothing
  deriving DecidableEq

namespace FullAction

def all : List FullAction := [immediate, oneSecond, nothing]

def code : FullAction → Nat
  | immediate => 0
  | oneSecond => 1
  | nothing => 2

def ofCode? (n : Nat) : Option FullAction := all.find? fun a => a.code = n

def name : FullAction → String
  | immediate => "immediate"
  | oneSecond => "one_second"
  | nothing => "nothing"

/-- The spelling in listings. -/
def label : FullAction → String
  | immediate => "Immediate"
  | oneSecond => "OneSecond"
  | nothing => "Nothing"

end FullAction

/-- How long the title stays on the screen before the program starts. -/
inductive StartScreen where
  | twoSeconds
  | anyKey
  | none
  deriving DecidableEq

namespace StartScreen

def all : List StartScreen := [twoSeconds, anyKey, none]

def code : StartScreen → Nat
  | twoSeconds => 0
  | anyKey => 1
  | none => 2

def ofCode? (n : Nat) : Option StartScreen := all.find? fun s => s.code = n

def name : StartScreen → String
  | twoSeconds => "two_seconds"
  | anyKey => "any_key"
  | none => "none"

end StartScreen

inductive CursorShape where
  | none
  | underbar
  | block
  deriving DecidableEq

namespace CursorShape

def all : List CursorShape := [none, underbar, block]

def code : CursorShape → Nat
  | none => 0
  | underbar => 1
  | block => 2

def ofCode? (n : Nat) : Option CursorShape := all.find? fun c => c.code = n

def name : CursorShape → String
  | none => "none"
  | underbar => "underbar"
  | block => "block"

/-- The spelling in traces. -/
def label : CursorShape → String
  | none => "None"
  | underbar => "Underbar"
  | block => "Block"

end CursorShape

/-- The side on which a shifted text is kept. -/
inductive Align where
  | left
  | right
  deriving DecidableEq

namespace Align

def all : List Align := [left, right]

def name : Align → String
  | left => "left"
  | right => "right"

/-- The spelling in listings. -/
def label : Align → String
  | left => "Left"
  | right => "Right"

end Align

/-- Terminal model and font, which together fix the screen geometry. -/
inductive Profile where
  | small12
  | small16
  | large12
  | large16
  deriving DecidableEq

namespace Profile

def all : List Profile := [small12, small16, large12, large16]

def machine : Profile → Nat
  | small12 | small16 => 1600
  | large12 | large16 => 2600

def fontSize : Profile → Nat
  | small12 | large12 => 12
  | small16 | large16 => 16

def rows : Profile → Nat
  | small12 => 8
  | small16 => 6
  | large12 => 10
  | large16 => 8

def columns : Profile → Nat
  | small12 => 16
  | small16 => 12
  | large12 => 20
  | large16 => 16

def name : Profile → String
  | small12 => "PHL1600_12"
  | small16 => "PHL1600_16"
  | large12 => "PHL2600_12"
  | large16 => "PHL2600_16"

def find? (machine fontSize : Nat) : Option Profile :=
  all.find? fun p => p.machine = machine && p.fontSize = fontSize

end Profile

/-- The program header: what the start screen shows, and the terminal the program is for. -/
@[ext] structure Title where
  title : Text
  version : Text
  startScreen : StartScreen
  click : Bool
  profile : Profile
  deriving DecidableEq

namespace Title

/-- The most bytes of a title. -/
def titleMax : Nat := 20

/-- The most bytes of a version. -/
def versionMax : Nat := 5

end Title
end Handheld
