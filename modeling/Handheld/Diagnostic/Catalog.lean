namespace Handheld

/-- The problems that the program reports. -/
inductive ErrorCode where
  | noEnclosingLoop
  | noLabeledLoop
  | systemTarget
  | unreadableSource
  | typeMismatch
  | tooManyKeys
  | titleTooLong
  | emptyMenu
  | duplicateLabel
  | fault
  | malformedFile
  | doesNotFit
  deriving DecidableEq

namespace ErrorCode

/-- The codes in the order of their listing. -/
def all : List ErrorCode :=
  [noEnclosingLoop, noLabeledLoop, systemTarget, unreadableSource, typeMismatch, tooManyKeys,
    titleTooLong, emptyMenu, duplicateLabel, fault, malformedFile, doesNotFit]

/-- Mistakes in a source have a G, faults an F, and program files a C. -/
def name : ErrorCode → String
  | noEnclosingLoop => "PHL-G001"
  | noLabeledLoop => "PHL-G002"
  | systemTarget => "PHL-G003"
  | unreadableSource => "PHL-G004"
  | typeMismatch => "PHL-G005"
  | tooManyKeys => "PHL-G006"
  | titleTooLong => "PHL-G007"
  | emptyMenu => "PHL-G008"
  | duplicateLabel => "PHL-G009"
  | fault => "PHL-F001"
  | malformedFile => "PHL-C001"
  | doesNotFit => "PHL-C002"

/-- The headline. -/
def short : ErrorCode → String
  | noEnclosingLoop => "break or continue outside of a loop"
  | noLabeledLoop => "no enclosing loop carries that label"
  | systemTarget => "system register used as a destination"
  | unreadableSource => "status register used as an assign source"
  | typeMismatch => "register has the wrong type"
  | tooManyKeys => "too many special keys"
  | titleTooLong => "title or version too long"
  | emptyMenu => "menu without entries"
  | duplicateLabel => "label placed more than once"
  | fault => "internal fault"
  | malformedFile => "malformed program file"
  | doesNotFit => "value does not fit its field"

/-- Lines, each with its end. -/
def unlines (ls : List String) : String := String.join (ls.map fun l => l ++ "\n")

/-- What the explanation says below its heading. -/
def body : ErrorCode → List String
  | noEnclosingLoop =>
    ["`break`, `continue`, `if_break` and `if_continue` jump to the exit or entry",
      "of the innermost enclosing loop. Used at the top level there is nothing to",
      "jump to.",
      "",
      "**Example that triggers this:**",
      "",
      "    \x7b\"body\": [\x7b\"break\": \x7b\x7d\x7d]\x7d",
      "",
      "**Fix:** move the construct inside a `loop` body."]
  | noLabeledLoop =>
    ["A labeled `break` or `continue` names a loop through the `label` construct",
      "placed immediately before it. Either no enclosing loop was given that",
      "label, or something was emitted between the label and the loop.",
      "",
      "**Fix:**",
      "",
      "    \x7b\"label\": \"outer\"\x7d,",
      "    \x7b\"loop\": [ ... \x7b\"break\": \x7b\"label\": \"outer\"\x7d\x7d ... ]\x7d"]
  | systemTarget =>
    ["System registers (`RSLT`, `ENDKY`, `NUMBR`, `BRCOD`, `DATE*`, `TIME*`,",
      "`BST*`, `HTID`) are written by the terminal only. Programs may read them but",
      "never assign to them.",
      "",
      "**Fix:** write to a `DAT`, `INT`, `FLT` or `USR` register."]
  | unreadableSource =>
    ["`RSLT`, `BRCOD`, `NUMBR` and `ENDKY` only have a meaning directly after the",
      "instruction that set them and cannot be copied with `assign`.",
      "",
      "**Fix:** use `get_result` to copy the status into an integer register, or",
      "test it directly with `if`."]
  | typeMismatch =>
    ["The construct needs a register of a particular type: `switch` and",
      "`no_echo_input` need an integer register, string operations need text",
      "registers, `number_to_string` needs a numeric source, and barcode input",
      "needs a `DAT` register."]
  | tooManyKeys =>
    ["An input instruction can end on at most 10 special keys."]
  | titleTooLong =>
    ["The program title is at most 20 bytes and the version at most 5 bytes."]
  | emptyMenu =>
    ["A `menu_loop` needs at least one entry to show."]
  | duplicateLabel =>
    ["A `label` construct names a position in the program, and labeled `break`",
      "and `continue` find their loop by that name. Placing the same name twice",
      "would leave those jumps with two candidate targets.",
      "",
      "**Fix:** rename one of the labels."]
  | fault =>
    ["The compiler or interpreter reached a state correct input never produces:",
      "a label resolved twice, a register pool left unbalanced, a write to the",
      "wrong register category, or a program counter past the last instruction.",
      "",
      "A hand-edited or truncated program file can also cause this at run time.",
      "Otherwise it is a bug in the toolchain."]
  | malformedFile =>
    ["A line of an encoded program could not be decoded. The reported line",
      "number is 1-based and counts the title and label lines.",
      "",
      "Each line starts with its own total length as three digits; a file that was",
      "edited or transferred with changed line endings usually fails that check",
      "first."]
  | doesNotFit =>
    ["Every field of an encoded line has a fixed width. A number with more digits",
      "than its field, or text containing a line break, cannot be written.",
      "",
      "A text literal operand that reads as a register name, such as `\"INT1\"`, is",
      "also rejected: the line format has no way to mark it as a literal, so it would",
      "load back as the register."]

/-- The full explanation: the code and the headline as a heading, and the body. -/
def long (e : ErrorCode) : String :=
  unlines (("## " ++ e.name ++ ": " ++ e.short) :: "" :: e.body)

def ofName? (s : String) : Option ErrorCode := all.find? fun e => e.name = s

theorem mem_all (e : ErrorCode) : e ∈ all := by
  cases e <;> simp [all]

end ErrorCode
end Handheld
