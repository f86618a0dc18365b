import Handheld.Machine.Basic
import Mathlib.Data.Fintype.Basic
import Mathlib.Data.List.Sort
import Mathlib.Tactic.FinCases

namespace Handheld.RegisterStore

/-- What can be asked of a store. -/
inductive Call where
  | set (r : Register) (v : Value)
  | setSystem (r : Register) (v : Value)
  | initUser (r : Register)
  | initSystem (r : Register)

namespace Call

def register : Call → Register
  | set r _ | setSystem r _ | initUser r | initSystem r => r

/-- The value that the call stores; a reset stores none. -/
def value? : Call → Option Value
  | set _ v | setSystem _ v => some v
  | initUser _ | initSystem _ => none

/-- Who writes the registers that the call is for: programs or the terminal. -/
def role : Call → Register.Role
  | set .. | initUser _ => .user
  | setSystem .. | initSystem _ => .system

/-- The register is one of those that the call is for. -/
def Fits (c : Call) : Prop := c.register.isSystem = true ↔ c.role = .system

instance : DecidablePred Fits := fun _ => inferInstanceAs (Decidable (_ ↔ _))

/-- The call changes the register. -/
def Touches (c : Call) (r : Register) : Prop := c.Fits ∧ c.register = r

/-- What the call asks for. -/
def perform (c : Call) (s : RegisterStore) : Except Fault RegisterStore :=
  match c with
  | set r v => s.set r v
  | setSystem r v => s.setSystem r v
  | initUser r => s.initUser r
  | initSystem r => s.initSystem r

/-- The answer to a call and the store behind it; where the call is refused, the store stays. -/
def run (c : Call) (s : RegisterStore) : Except Fault Unit × RegisterStore :=
  match c.perform s with
  | .ok s' => (.ok (), s')
  | .error f => (.error f, s)

/-- What a call stores or resets if nothing is checked. -/
def write (c : Call) (s : RegisterStore) : RegisterStore :=
  match c.value? with
  | some v => s.store c.register v
  | none => s.clear c.register

variable {c : Call} {s : RegisterStore}

/-- Each call makes the check that belongs to its role. -/
theorem perform_eq (c : Call) (s : RegisterStore) :
    c.perform s = if c.Fits then .ok (c.write s) else .error (.wrongRole c.register c.role) := by
  cases c with
  | set r v =>
    cases h : r.isSystem <;>
      simp [perform, Fits, register, role, write, value?, RegisterStore.set, checkUser, h, Except.map]
  | setSystem r v =>
    cases h : r.isSystem <;>
      simp [perform, Fits, register, role, write, value?, RegisterStore.setSystem, checkSystem, h,
        Except.map]
  | initUser r =>
    cases h : r.isSystem <;>
      simp [perform, Fits, register, role, write, value?, RegisterStore.initUser, checkUser, h,
        Except.map]
  | initSystem r =>
    cases h : r.isSystem <;>
      simp [perform, Fits, register, role, write, value?, RegisterStore.initSystem, checkSystem, h,
        Except.map]

theorem run_fits (h : c.Fits) : c.run s = (.ok (), c.write s) := by
  simp only [run, perform_eq, if_pos h]

theorem run_misfits (h : ¬ c.Fits) : c.run s = (.error (.wrongRole c.register c.role), s) := by
  simp only [run, perform_eq, if_neg h]

theorem observers_write (c : Call) (s : RegisterStore) :
    (c.write s).observers = s.observers.map (·.tell c.register) := by
  unfold write
  split <;> rfl

end Call

/-- The store behind a sequence of calls. -/
def after (s : RegisterStore) (calls : List Call) : RegisterStore :=
  calls.foldl (fun s c => (c.run s).2) s

/-- A store that nothing has been stored in, with observers. -/
def watched (clock : Clock) (watchers : List Observer) : RegisterStore :=
  watchers.foldl observe (initial clock)

/-- The registers of the calls that fit, in the order of the calls. -/
def changed (calls : List Call) : List Register := (calls.filter (·.Fits)).map Call.register

/-- An observer that has been told of the registers too, one after the other. -/
def hearing (rs : List Register) (o : Observer) : Observer := ⟨o.heard ++ rs⟩

/-- The calls store the value in the register and do not change the register behind that. -/
def LastStored (calls : List Call) (r : Register) (v : Value) : Prop :=
  ∃ earlier c later, calls = earlier ++ c :: later ∧ c.Touches r ∧ c.value? = some v ∧
    ∀ d ∈ later, ¬ d.Touches r

/-- How a store answers a call, alone and within a machine: a call that does not fit is refused and
changes nothing, any other one is told to each observer once. -/
structure Answers (s : RegisterStore) (c : Call) : Prop where
  refused : ¬ c.Fits → c.run s = (.error (.wrongRole c.register c.role), s)
  done : c.Fits → (c.run s).1 = .ok () ∧
    (c.run s).2.observers = s.observers.map (hearing [c.register])
  machine : ∀ m : Machine, m.registers = s → Machine.Act.change c.perform m =
    ((c.run s).1.mapError .fault, { m with registers := (c.run s).2 })

section Formats

/-- A year takes four columns, one of them for its sign if it is negative. -/
def yearDigits (y : Int) : List UInt8 :=
  if y < 0 then [0x2D] ++ Decimal.atLeast 3 y.natAbs else Decimal.atLeast 4 y.natAbs

/-- What a pattern stands for at a time: letters stand for the year, the month, the day, the hour, the
minute and the second, anything else for itself. -/
def spell (t : Clock) : List Char → List UInt8
  | 'Y' :: 'Y' :: 'Y' :: 'Y' :: rest => yearDigits t.year ++ spell t rest
  | 'Y' :: 'Y' :: rest => Decimal.atLeast 2 (t.year % 100).toNat ++ spell t rest
  | 'M' :: 'M' :: rest => Decimal.atLeast 2 t.month ++ spell t rest
  | 'D' :: 'D' :: rest => Decimal.atLeast 2 t.day ++ spell t rest
  | 'h' :: 'h' :: rest => Decimal.atLeast 2 t.hour ++ spell t rest
  | 'm' :: 'm' :: rest => Decimal.atLeast 2 t.minute ++ spell t rest
  | 's' :: 's' :: rest => Decimal.atLeast 2 t.second ++ spell t rest
  | c :: rest => Utf8.encodeChar c ++ spell t rest
  | [] => []

def datePatterns : List String :=
  ["YYYY/MM/DD", "YYYYMMDD", "YYYY/MM", "YYYYMM", "MM/DD", "MMDD", "DD/MM/YYYY", "DDMMYYYY", "MM/YYYY",
    "MMYYYY", "DD/MM", "DDMM", "YYMMDD"]

def timePatterns : List String := ["hh:mm:ss", "hhmmss", "hh:mm", "hhmm"]

/-- What a register shows while it holds nothing: the date or the time, a full battery, the kind of the
last barcode, else an empty text or zero. -/
def shown (t : Clock) : Register → Value
  | .date i => .text ⟨spell t (datePatterns.getD i "").toList⟩
  | .time i => .text ⟨spell t (timePatterns.getD i "").toList⟩
  | .bst _ => .int 1
  | .brcod => .int 3
  | .dat _ | .usr _ | .htid => .text .empty
  | .int _ | .rslt | .numbr | .endky => .int 0
  | .flt _ => .float .zero

end Formats

/-- What a store holds if it began without a value and has been through the calls. -/
structure Holds (s : RegisterStore) (clock : Clock) (calls : List Call) : Prop where
  typed : ∀ r, (s.get r).kind = r.kind
  last : ∀ r v, LastStored calls r v → s.get r = v.coerce r.kind
  unset : ∀ r, (∀ v, ¬ LastStored calls r v) → s.get r = shown clock r
  listed : ∀ r x, (r, x) ∈ s.explicit ↔ ∃ v, LastStored calls r v ∧ x = v.coerce r.kind
  ordered : (s.explicit.map Prod.fst).Sublist Register.all
  once : (s.explicit.map Prod.fst).Nodup

variable {s : RegisterStore} {calls : List Call} {r : Register}

theorem answers (s : RegisterStore) (c : Call) : s.Answers c := by
  refine ⟨Call.run_misfits, fun h => ?_, fun m hm => ?_⟩
  · rw [Call.run_fits h]
    exact ⟨rfl, c.observers_write s⟩
  · subst hm
    simp only [Machine.Act.change, Machine.Act.run_bind, Machine.Act.read, Call.run]
    cases c.perform m.registers with
    | ok s' => rfl
    | error f => rfl

/-- On the seventh of March the kind of the barcode is overwritten and reset, and an observer watches. -/
example :
    let s := (watched ⟨2024, 3, 7, 9, 5, 2⟩ [⟨[]⟩]).after
      [.setSystem .brcod (.int 9), .set .rslt (.int 1), .initSystem .brcod]
    (s.get .brcod, s.text (.date 0), s.text (.date 12), s.text (.time 3), s.observers) =
      (.int 3, .ofString "2024/03/07", .ofString "240307", .ofString "0905", [⟨[.brcod, .brcod]⟩]) := by
  decide

end Handheld.RegisterStore
