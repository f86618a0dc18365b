import Handheld.Json.Operand
import Handheld.Proofs.Binary.Exact
import Handheld.Proofs.Text.Encoding

namespace Handheld.Json

mutual

/-- The value with doubles for its numbers of single precision. -/
def widen : Json → Json
  | num (some (.single x)) => num (some (.double x.toDouble))
  | arr items => arr (widenItems items)
  | obj fields => obj (widenFields fields)
  | j => j

def widenItems : List Json → List Json
  | [] => []
  | j :: r => j.widen :: widenItems r

def widenFields : List (Option String × Json) → List (Option String × Json)
  | [] => []
  | (k, j) :: r => (k, j.widen) :: widenFields r

end

/-- A way to keep JSON values in which only finite numbers of single precision may change, to numbers
that read as the same. -/
structure Rendering (f : Json → Json) : Prop where
  null : f .null = .null
  bool (b : Bool) : f (.bool b) = .bool b
  integer (n : Int) : f (.num (some (.integer n))) = .num (some (.integer n))
  single (x : Single) (h : x.isFinite) : ∃ n, f (.num (some (.single x))) = .num (some n) ∧
    Value.ofJson? (.num (some n)) = some (.float x)
  str (s : Option String) : f (.str s) = .str s
  arr (items : List Json) : f (.arr items) = .arr (items.map f)
  obj (fields : List (Option String × Json)) : f (.obj fields) = .obj (fields.map fun p => (p.1, f p.2))

theorem widenItems_eq (items : List Json) : widenItems items = items.map widen := by
  induction items with
  | nil => rw [widenItems, List.map_nil]
  | cons j rest ih => rw [widenItems, ih, List.map_cons]

theorem widenFields_eq (fields : List (Option String × Json)) :
    widenFields fields = fields.map fun p => (p.1, p.2.widen) := by
  induction fields with
  | nil => rw [widenFields, List.map_nil]
  | cons p rest ih => rw [widenFields, ih, List.map_cons]

theorem mapM_map_some {α β γ : Type} {read : β → Option γ} {write : α → β} {value : α → γ}
    {as : List α} (h : ∀ a ∈ as, read (write a) = some (value a)) :
    (as.map write).mapM read = some (as.map value) := by
  induction as with
  | nil => rfl
  | cons a rest ih =>
    obtain ⟨ha, hrest⟩ := List.forall_mem_cons.mp h
    rw [List.map_cons, List.mapM_cons, ha, ih hrest]
    rfl

@[simp] theorem required_some {α : Type} (read : Reader α) (j : Json) :
    required read (some j) = read j := rfl

@[simp] theorem optional_some {α : Type} (absent : α) (read : Reader α) (j : Json) :
    optional absent read (some j) = read j := rfl

namespace Rendering

theorem same : Rendering fun j => j where
  null := rfl
  bool _ := rfl
  integer _ := rfl
  single x _ := ⟨.single x, rfl, rfl⟩
  str _ := rfl
  arr items := congrArg Json.arr (List.map_id' items).symm
  obj fields := congrArg Json.obj (List.map_id' fields).symm

/-- A double that has been a single reads as the single. -/
theorem widened : Rendering widen where
  null := by rw [widen]; all_goals nofun
  bool _ := by rw [widen]; all_goals nofun
  integer _ := by rw [widen]; all_goals simp
  single x h := ⟨.double x.toDouble, by rw [widen], by rw [Value.ofJson?, Single.ofDouble_toDouble h]⟩
  str _ := by rw [widen]; all_goals nofun
  arr items := by rw [widen, widenItems_eq]
  obj fields := by rw [widen, widenFields_eq]

variable {f : Json → Json} (hf : Rendering f)
include hf

section Parts

theorem object (fields : List (String × Json)) :
    f (object fields) = Json.obj (fields.map fun p => (some p.1, f p.2)) := by
  rw [Json.object, hf.obj, List.map_map]
  rfl

theorem ofString (s : String) : f (.ofString s) = .str (some s) := hf.str _

theorem text?_ofString (s : String) : text? (f (.ofString s)) = some s := by
  rw [hf.ofString]
  rfl

theorem bool?_bool (b : Bool) : bool? (f (.bool b)) = some b := by
  rw [hf.bool]
  rfl

theorem nat?_ofNat {limit n : Nat} (h : n < limit) : nat? limit (f (.ofNat n)) = some n := by
  have hrange : (0 : Int) ≤ n ∧ (n : Int) ≤ limit - 1 := by omega
  rw [ofNat, hf.integer, nat?, int?, if_pos hrange]
  rfl

theorem list?_array {α : Type} {read : Reader α} {write : α → Json} {as : List α}
    (h : ∀ a ∈ as, read (f (write a)) = some a) :
    list? read (f (.array (as.map write))) = some as := by
  have hall : ((as.map write).map f).mapM read = some (as.map id) := by
    rw [List.map_map]
    exact mapM_map_some h
  rw [array, hf.arr, list?, hall, List.map_id]

/-- What is absent is written as null, as nothing else is. -/
theorem option?_ofOption {α : Type} {read : Reader α} {write : α → Json} {o : Option α}
    (h : ∀ a ∈ o, read (f (write a)) = some a) (hnull : ∀ a ∈ o, f (write a) ≠ .null) :
    option? read (f (.ofOption write o)) = some o := by
  cases o with
  | none =>
    rw [ofOption, hf.null]
    rfl
  | some a =>
    rw [ofOption, option?.eq_2 _ _ (hnull a rfl), h a rfl]
    rfl

theorem choice?_ofString {α : Type} {all : List α} {name : α → String} {a : α}
    (h : (all.find? fun b => name b = name a) = some a) :
    choice? all name (f (.ofString (name a))) = some a := by
  rw [hf.ofString, choice?]
  exact h

end Parts

section Records

variable {fields : List (String × Json)}

omit hf in
theorem occurrences_cons (name k : String) (j : Json) (rest : List (Option String × Json)) :
    occurrences name ((some k, j) :: rest) =
      if k = name then j :: occurrences name rest else occurrences name rest := by
  rw [occurrences, List.filterMap_cons]
  by_cases h : k = name
  · simp [h, occurrences]
  · simp [h, occurrences]

omit hf in
theorem occurrences_eq_nil {k : String} (h : k ∉ fields.map (·.1)) :
    occurrences k (fields.map fun p => (some p.1, f p.2)) = [] := by
  refine List.filterMap_eq_nil_iff.mpr fun p hp => if_neg fun hpk => h ?_
  obtain ⟨q, hq, rfl⟩ := List.mem_map.mp hp
  exact List.mem_map.mpr ⟨q, hq, Option.some.inj hpk⟩

omit hf in
/-- A name that the fields do not repeat has one value. -/
theorem field?_of_mem (h : (fields.map (·.1)).Nodup) {k : String} {j : Json} (hj : (k, j) ∈ fields) :
    field? (fields.map fun p => (some p.1, f p.2)) k = some (some (f j)) := by
  have hone : occurrences k (fields.map fun p => (some p.1, f p.2)) = [f j] := by
    induction fields with
    | nil => cases hj
    | cons p rest ih =>
      obtain ⟨hfresh, hrest⟩ := List.nodup_cons.mp h
      rw [List.map_cons, occurrences_cons]
      cases hj with
      | head => rw [if_pos rfl, occurrences_eq_nil hfresh]
      | tail _ hj =>
        have hother : p.1 ≠ k := by
          rintro rfl
          exact hfresh (List.mem_map.mpr ⟨(p.1, j), hj, rfl⟩)
        rw [if_neg hother, ih hrest hj]
  rw [field?, hone]

theorem namedRecord?_object {names : List String} (hnames : fields.map (·.1) = names)
    (h : names.Nodup) :
    namedRecord? names (f (.object fields)) = some (fields.map fun p => some (f p.2)) := by
  subst hnames
  rw [hf.object, namedRecord?, if_pos (by simp)]
  exact mapM_map_some fun p hp => field?_of_mem h hp

theorem namedRecord?_one (name : String) (j : Json) :
    namedRecord? [name] (f (.object [(name, j)])) = some [some (f j)] :=
  hf.namedRecord?_object rfl (List.nodup_singleton name)

/-- The fields of a record are found by their names, in their order. -/
theorem record?_object {names : List String} (hnames : fields.map (·.1) = names) (h : names.Nodup) :
    record? names (f (.object fields)) = some (fields.map fun p => some (f p.2)) := by
  have hobj := hf.object fields
  rw [record?, hf.namedRecord?_object hnames h]
  simp [hobj]

/-- What is read from an object with another field has no value for the name. -/
theorem namedRecord?_other {k name : String} (h : k ≠ name) (j : Json) :
    namedRecord? [name] (f (.object [(k, j)])) = some [none] := by
  rw [hf.object]
  simp [namedRecord?, field?, occurrences, h]

theorem variant?_object (k : String) (j : Json) :
    variant? (f (.object [(k, j)])) = some (k, some (f j)) := by
  rw [hf.object]
  rfl

end Records

section Settled

theorem settled_object {fields : List (String × Json)} (h : ∀ p ∈ fields, (f p.2).settled) :
    (f (.object fields)).settled := by
  rw [hf.object, settled]
  induction fields with
  | nil => rfl
  | cons p rest ih =>
    obtain ⟨hp, hrest⟩ := List.forall_mem_cons.mp h
    rw [List.map_cons, settledFields, hp, ih hrest]
    rfl

theorem settled_ofString (s : String) : (f (.ofString s)).settled := by
  rw [hf.ofString]
  rfl

end Settled

end Rendering

end Handheld.Json
