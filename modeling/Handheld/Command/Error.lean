import Handheld.Command.Host
import Handheld.Diagnostic.Basic

namespace Handheld

/-- Why a command fails. -/
inductive CommandError where
  | host (path : String) (e : HostError)
  | badSource (path : String)
  | compile (e : CompileError)
  | decode (path : String) (e : Line.DecodeError)
  | fault (f : Fault)
  /-- The run needs a position or a text of a size that does not exist. -/
  | overflow
  | unknownKey (token : String)
  | unknownCode (code : String)
  deriving DecidableEq

namespace CommandError

def diagnostic : CommandError → Diagnostic
  | host path e => .error (path ++ ": " ++ e.message)
  | badSource path => .error (path ++ ": invalid source: the text does not describe a program")
  | compile e => .ofCompile e
  | decode path e => (Diagnostic.ofDecode e).withPath path
  | fault f => .ofFault f
  | overflow => .error "a position or a size is too large"
  | unknownKey token => .error ("unknown key '" ++ token ++ "'")
  | unknownCode code => .error ("unknown error code '" ++ code ++ "'")

/-- Faults have an exit status of their own. -/
def status : CommandError → UInt8
  | fault _ | compile (.fault _) => 70
  | overflow => 101
  | _ => 1

end CommandError

end Handheld
