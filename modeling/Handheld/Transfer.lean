import Handheld.Log
import Handheld.Text.Basic

namespace Handheld

@[ext] structure TransferFile where
  name : Text
  content : Text
  deriving DecidableEq

/-- Files that travel over the serial link. Their names are lower-cased on the way. -/
@[ext] structure Transfer where
  files : List TransferFile
  /-- The other end gave up. -/
  stopped : Bool
  deriving DecidableEq

namespace Transfer

def empty : Transfer := ⟨[], false⟩

/-- ASCII letters in lower case. -/
def lower (t : Text) : Text :=
  ⟨t.bytes.map fun b => if 0x41 ≤ b ∧ b ≤ 0x5A then b + 0x20 else b⟩

def put (t : Transfer) (name content : Text) : Transfer :=
  { t with files := t.files ++ [⟨lower name, content⟩] }

end Transfer

/-- What a program asks of the other end of the link: to take files, or to add some. -/
inductive LinkRequest where
  | upload (t : Transfer)
  | download (t : Transfer)
  deriving DecidableEq

/-- The transfer as the other end leaves it, and what there is to tell. -/
structure LinkReply where
  transfer : Transfer
  log : List Log.Entry
  deriving DecidableEq

namespace LinkReply

/-- Nothing is at the other end: uploads are lost, downloads bring nothing. -/
def nobody : LinkRequest → LinkReply
  | .upload t =>
    ⟨t, [⟨.debug, .link,
      "upload of " ++ Decimal.text t.files.length ++ " file(s) discarded"⟩]⟩
  | .download t => ⟨t, []⟩

end LinkReply
end Handheld
