import Handheld.Clock
import Handheld.Fault
import Handheld.Value

namespace Handheld

/-- One that watches a store. What it does depends only on the registers that it has been called with so
far, the first one first. -/
structure Observer where
  heard : List Register
  deriving DecidableEq

/-- Calls an observer with a register that has changed. -/
def Observer.tell (o : Observer) (r : Register) : Observer := ⟨o.heard ++ [r]⟩

/-- The registers of a running terminal. Every register reads as something: the value last stored, else
what the terminal computes for it, else the zero of its kind. -/
structure RegisterStore where
  values : List (Register × Value)
  clock : Clock
  /-- Those that are told of every change, in the order in which they have joined. -/
  observers : List Observer
  /-- A register stores values of its kind only. -/
  typed : ∀ e ∈ values, e.2.kind = e.1.kind
  /-- A register stores one value at most. -/
  single : (values.map Prod.fst).Nodup
  deriving DecidableEq

namespace RegisterStore

def initial (clock : Clock) : RegisterStore := ⟨[], clock, [], nofun, List.nodup_nil⟩

/-- The observer is told of every change from now on. -/
def observe (s : RegisterStore) (o : Observer) : RegisterStore := { s with observers := s.observers ++ [o] }

/-- Tells the observers one after the other. -/
def notify (s : RegisterStore) (r : Register) : RegisterStore :=
  { s with observers := s.observers.map (·.tell r) }

def stored? (s : RegisterStore) (r : Register) : Option Value :=
  (s.values.find? fun e => e.1 = r).map (·.2)

/-- The date and time, full batteries, and the kind of the last barcode. -/
def computed? (s : RegisterStore) : Register → Option Value
  | .date i => some (.text (s.clock.date i))
  | .time i => some (.text (s.clock.time i))
  | .bst _ => some (.int 1)
  | .brcod => some (.int 3)
  | _ => none

/-- What a register shows while nothing is stored in it. -/
def unset (s : RegisterStore) (r : Register) : Value := (s.computed? r).getD (.zero r.kind)

def get (s : RegisterStore) (r : Register) : Value := (s.stored? r).getD (s.unset r)

def text (s : RegisterStore) (r : Register) : Text := (s.get r).toText

def int (s : RegisterStore) (r : Register) : Int32 := (s.get r).toInt

/-- The stored values, sorted into catalog order. -/
def explicit (s : RegisterStore) : List (Register × Value) :=
  s.values.mergeSort fun a b => a.1.rank ≤ b.1.rank

theorem nodup_filter {values : List (Register × Value)} (h : (values.map Prod.fst).Nodup)
    (p : Register × Value → Bool) : ((values.filter p).map Prod.fst).Nodup :=
  h.sublist (List.filter_sublist.map Prod.fst)

/-- The store without the value of a register. -/
def remove (s : RegisterStore) (r : Register) : RegisterStore :=
  { s with
    values := s.values.filter fun e => e.1 ≠ r
    typed := fun e he => s.typed e (List.mem_filter.mp he).1
    single := nodup_filter s.single _ }

theorem not_mem_remove (s : RegisterStore) (r : Register) : r ∉ (s.remove r).values.map Prod.fst := by
  intro h
  obtain ⟨e, he, rfl⟩ := List.mem_map.mp h
  exact absurd rfl (of_decide_eq_true (List.mem_filter.mp he).2)

/-- The store with a value in the place of the one that the register has had. -/
def insert (s : RegisterStore) (r : Register) (v : Value) (hv : v.kind = r.kind) : RegisterStore :=
  { s with
    values := (r, v) :: (s.remove r).values
    typed := List.forall_mem_cons.mpr ⟨hv, (s.remove r).typed⟩
    single := List.nodup_cons.mpr ⟨s.not_mem_remove r, (s.remove r).single⟩ }

/-- Forgets the value of a register. -/
def clear (s : RegisterStore) (r : Register) : RegisterStore := (s.remove r).notify r

/-- Stores a value, converted to the kind of the register. -/
def store (s : RegisterStore) (r : Register) (v : Value) : RegisterStore :=
  (s.insert r (v.coerce r.kind) (v.kind_coerce r.kind)).notify r

/-- A register that programs write. -/
def checkUser (r : Register) : Except Fault Unit :=
  if r.isSystem then .error (.wrongRole r .user) else .ok ()

/-- A register that only the terminal writes. -/
def checkSystem (r : Register) : Except Fault Unit :=
  if r.isSystem then .ok () else .error (.wrongRole r .system)

def set (s : RegisterStore) (r : Register) (v : Value) : Except Fault RegisterStore :=
  (checkUser r).map fun _ => s.store r v

def setSystem (s : RegisterStore) (r : Register) (v : Value) : Except Fault RegisterStore :=
  (checkSystem r).map fun _ => s.store r v

def initUser (s : RegisterStore) (r : Register) : Except Fault RegisterStore :=
  (checkUser r).map fun _ => s.clear r

def initSystem (s : RegisterStore) (r : Register) : Except Fault RegisterStore :=
  (checkSystem r).map fun _ => s.clear r

theorem stored?_clear (s : RegisterStore) (r q : Register) :
    (s.clear r).stored? q = if r = q then none else s.stored? q := by
  simp only [stored?, clear, notify, remove, List.find?_filter]
  by_cases h : r = q
  · subst h
    simp
  · rw [if_neg h]
    congr 2
    funext e
    by_cases he : e.1 = q
    · simp [he, Ne.symm h]
    · simp [he]

theorem stored?_store (s : RegisterStore) (r q : Register) (v : Value) :
    (s.store r v).stored? q = if r = q then some (v.coerce r.kind) else s.stored? q := by
  by_cases h : r = q
  · simp [stored?, store, notify, insert, h]
  · have hclear := stored?_clear s r q
    simp only [stored?, clear, notify] at hclear ⊢
    simp [store, notify, insert, h, hclear]

theorem unset_congr {s s' : RegisterStore} (h : s'.clock = s.clock) (r : Register) :
    s'.unset r = s.unset r := by
  have hcomputed : s'.computed? r = s.computed? r := by
    cases r <;> simp only [computed?, h]
  rw [unset, hcomputed, unset]

theorem get_clear (s : RegisterStore) (r q : Register) :
    (s.clear r).get q = if r = q then s.unset q else s.get q := by
  have hunset : (s.clear r).unset q = s.unset q := unset_congr rfl q
  rw [get, stored?_clear, hunset]
  split <;> rfl

theorem get_store (s : RegisterStore) (r q : Register) (v : Value) :
    (s.store r v).get q = if r = q then v.coerce r.kind else s.get q := by
  have hunset : (s.store r v).unset q = s.unset q := unset_congr rfl q
  rw [get, stored?_store, hunset]
  split <;> rfl

theorem kind_unset (s : RegisterStore) (r : Register) : (s.unset r).kind = r.kind := by
  cases r <;> rfl

theorem kind_stored {s : RegisterStore} {r : Register} {v : Value} (h : s.stored? r = some v) :
    v.kind = r.kind := by
  obtain ⟨e, he, rfl⟩ := Option.map_eq_some_iff.mp h
  have hr : e.1 = r := by simpa using List.find?_some he
  exact hr ▸ s.typed e (List.mem_of_find?_eq_some he)

/-- A register reads as a value of its kind. -/
@[simp] theorem kind_get (s : RegisterStore) (r : Register) : (s.get r).kind = r.kind := by
  unfold get
  cases h : s.stored? r with
  | none => exact s.kind_unset r
  | some v => exact kind_stored h

end RegisterStore
end Handheld
