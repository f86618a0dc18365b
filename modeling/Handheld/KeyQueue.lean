import Handheld.Key

namespace Handheld

namespace KeyQueue

inductive Event where
  | key (code : Int32)
  | terminate
  deriving DecidableEq

/-- What asking for a key gives. -/
inductive Reading where
  | key (code : Int32)
  /-- No key will come any more. -/
  | ended
  /-- There is no key yet, and some keypad may still send one. -/
  | waiting
  deriving DecidableEq

end KeyQueue

/-- The way of key codes from the keypads to the program. Presses and requests to terminate travel through
a channel in order; keys received while the program sleeps wait aside and come first. -/
structure KeyQueue where
  channel : List KeyQueue.Event
  /-- Codes taken from the channel that the program has not read. -/
  pending : List Int32
  /-- A keypad asked to terminate, or all keypads are gone. -/
  cancelled : Bool
  keypads : Nat
  /-- The program still listens. -/
  listening : Bool
  deriving DecidableEq

namespace KeyQueue

/-- One keypad, nothing pressed. -/
def initial : KeyQueue := ⟨[], [], false, 1, true⟩

/-- The events and codes that have not been read. -/
def size (q : KeyQueue) : Nat := q.pending.length + q.channel.length

/-- Sends a code; false once nobody listens. -/
def press (q : KeyQueue) (code : Int32) : Bool × KeyQueue :=
  if q.listening then (true, { q with channel := q.channel ++ [.key code] }) else (false, q)

def addKeypad (q : KeyQueue) : KeyQueue := { q with keypads := q.keypads + 1 }

def removeKeypad (q : KeyQueue) : KeyQueue := { q with keypads := q.keypads - 1 }

/-- The request takes effect at once, and wakes a program that waits. -/
def terminate (q : KeyQueue) : KeyQueue :=
  { q with cancelled := true, channel := if q.listening then q.channel ++ [.terminate] else q.channel }

def stopListening (q : KeyQueue) : KeyQueue := { q with listening := false, channel := [], pending := [] }

/-- The next code. With the last keypad gone and everything read, the input ends for good. -/
def next (q : KeyQueue) : Reading × KeyQueue :=
  if q.cancelled then (.ended, q)
  else
    match q.pending, q.channel with
    | code :: rest, _ => (.key code, { q with pending := rest })
    | [], .key code :: rest => (.key code, { q with channel := rest })
    | [], .terminate :: rest => (.ended, { q with channel := rest })
    | [], [] => if q.keypads = 0 then (.ended, { q with cancelled := true }) else (.waiting, q)

/-- Whether no key will come any more; a code that is found is set aside. -/
def exhausted (q : KeyQueue) : Bool × KeyQueue :=
  if q.cancelled then (true, q)
  else
    match q.pending, q.channel with
    | _ :: _, _ => (false, q)
    | [], .key code :: rest => (false, { q with channel := rest, pending := [code] })
    | [], .terminate :: rest => (true, { q with channel := rest })
    | [], [] => if q.keypads = 0 then (true, { q with cancelled := true }) else (false, q)

/-- Sets aside the codes of at most `n` events; false at a request to terminate. -/
def receive (q : KeyQueue) : Nat → Bool × KeyQueue
  | 0 => (true, q)
  | n + 1 =>
    match q.channel with
    | [] => (true, q)
    | .key code :: rest => receive { q with channel := rest, pending := q.pending ++ [code] } n
    | .terminate :: rest => (false, { q with channel := rest })

/-- Sleeps while at most `n` events arrive; false if a request to terminate cut it short. -/
def sleepThrough (q : KeyQueue) (n : Nat) : Bool × KeyQueue :=
  if q.cancelled then (false, q) else q.receive n

/-- Sleeps long enough to receive all that has been sent, or for no time at all. -/
def sleep (q : KeyQueue) (ms : Nat) : Bool × KeyQueue :=
  q.sleepThrough (if ms = 0 then 0 else q.channel.length)

end KeyQueue
end Handheld
