import Handheld.Proofs.Evaluation.Shapes

namespace Handheld

open Machine Handheld.Flow

variable {σ : Type}

namespace Key

theorem ofCode32?_code32 (k : Key) : ofCode32? k.code32 = some k := by
  have hall : ∀ k ∈ all, ofCode32? k.code32 = some k := by decide
  exact hall k k.mem_all

theorem ofCode32?_eq_some {code : Int32} {k : Key} : ofCode32? code = some k ↔ code = k.code32 := by
  constructor
  · intro h
    have hcode := List.find?_some h
    exact (of_decide_eq_true hcode).symm
  · rintro rfl
    exact k.ofCode32?_code32

end Key

/-- The codes of the digits from `digit` on, one for each of the list. -/
def digits {α : Type} (digit : Nat) : List α → List (Operand × α)
  | [] => []
  | a :: rest => (.value (.int (Int32.ofNat (48 + digit))), a) :: digits (digit + 1) rest

theorem forall₂_digits {α β : Type} {R : α → β → Prop} {as : List α} {bs : List β}
    (h : List.Forall₂ R as bs) (digit : Nat) :
    List.Forall₂ (fun a b => a.1 = b.1 ∧ R a.2 b.2) (digits digit as) (digits digit bs) := by
  induction h generalizing digit with
  | nil => exact .nil
  | cons hab _ ih => exact .cons ⟨rfl, hab⟩ (ih (digit + 1))

namespace Evaluation

section Keys

variable {key : Register} {k : Key} {v : View}

/-- Tests a register for a key, if there is one. -/
def ifKey (key : Register) (k? : Option Key) (yes no : Evaluation σ) : Evaluation σ :=
  match k? with
  | some k => branch ⟨key, .eq, .key k⟩ yes no
  | none => no

theorem holds_int (hkey : key.kind = .int) (v : View) (n : Int32) :
    v.holds ⟨key, .eq, .value (.int n)⟩ = decide (v.registers.int key = n) :=
  View.order_int ((v.registers.kind_get key).trans hkey) n

theorem ifKey_eq (hkey : key.kind = .int) (k? : Option Key) (yes no : Evaluation σ) (v : View) (s : σ) :
    ifKey key k? yes no v s =
      if ∃ k, k? = some k ∧ Key.ofCode32? (v.registers.int key) = some k then yes v s else no v s := by
  cases k? with
  | none => simp [ifKey]
  | some k =>
    have hholds : v.holds ⟨key, .eq, .key k⟩ = decide (v.registers.int key = k.code32) :=
      View.order_int ((v.registers.kind_get key).trans hkey) k.code32
    simp [ifKey, branch, hholds, Key.ofCode32?_eq_some]

/-- A digit selects what stands beside it. -/
theorem select_digit (hkey : key.kind = .int) {digit d : Nat} (hd : digit ≤ d) (hten : d < 10)
    (hv : v.registers.int key = Int32.ofNat (48 + d)) (as : List (Evaluation σ))
    (default : Evaluation σ) (s : σ) :
    select key (digits digit as) default v s = (as[d - digit]?).getD default v s := by
  induction as generalizing digit with
  | nil => rfl
  | cons a rest ih =>
    simp only [digits, select, branch, holds_int hkey, hv]
    by_cases he : d = digit
    · subst he
      simp
    · have hother : Int32.ofNat (48 + d) ≠ Int32.ofNat (48 + digit) := by
        intro hsame
        have hint := congrArg Int32.toInt hsame
        rw [Int32.toInt_ofNat_of_lt (by omega), Int32.toInt_ofNat_of_lt (by omega)] at hint
        omega
      have hplace : d - digit = (d - (digit + 1)) + 1 := by omega
      rw [if_neg (by simpa using hother), ih (by omega), hplace, List.getElem?_cons_succ]

/-- What is none of the digits selects the default. -/
theorem select_other (hkey : key.kind = .int) {digit : Nat} (as : List (Evaluation σ))
    (hv : ∀ d, digit ≤ d → d < digit + as.length → v.registers.int key ≠ Int32.ofNat (48 + d))
    (default : Evaluation σ) (s : σ) : select key (digits digit as) default v s = default v s := by
  induction as generalizing digit with
  | nil => rfl
  | cons a rest ih =>
    simp only [List.length_cons] at hv
    have hfirst := hv digit (Nat.le_refl _) (by omega)
    simp only [digits, select, branch, holds_int hkey]
    rw [if_neg (by simpa using hfirst)]
    exact ih fun d hd hlt => hv d (by omega) (by omega)

end Keys

/-- Behind the digits: the keys that turn the pages, and those that the menu does not know. -/
theorem ifKey_eq_obey {key : Register} (hkey : key.kind = .int) (name : Option String)
    (m : Menu (Evaluation σ)) (turn : Nat → Evaluation σ) (p : Nat) {k : Key} {v : View}
    (hk : Key.ofCode32? (v.registers.int key) = some k) (s : σ) :
    ifKey key m.prev (if p = 0 then skip else turn (p - 1))
        (ifKey key m.next (turn (if m.isLast p then p else p + 1)) (turn p)) v s =
      obey name turn p (if m.prev = some k then (if p = 0 then .leave else .turn (p - 1))
        else if m.next = some k then .turn (if m.isLast p then p else p + 1) else .turn p) v s := by
  simp only [ifKey_eq hkey, hk, Option.some.injEq, exists_eq_right']
  split
  · split <;> rfl
  · split <;> rfl

/-- The tests behind the read of a key find out what the key asks for. -/
theorem select_eq_obey {key : Register} (hkey : key.kind = .int) (name : Option String)
    (m : Menu (Evaluation σ)) (turn : Nat → Evaluation σ) (p : Nat) (v : View) (s : σ) :
    select key
        (digits 1 ((m.actions p).map (acting name turn p)))
        (ifKey key m.prev (if p = 0 then skip else turn (p - 1))
          (ifKey key m.next (turn (if m.isLast p then p else p + 1)) (turn p))) v s =
      obey name turn p ((Key.ofCode32? (v.registers.int key)).elim (.turn p) (m.choose p)) v s := by
  have hfew : (m.actions p).length ≤ 4 :=
    Nat.le_trans (List.length_filterMap_le _ _) (m.length_page_le p)
  -- a code among the tested ones is that of a digit
  have hnum {d : Nat} (hd : d < 1 + ((m.actions p).map (acting name turn p)).length)
      (hv : v.registers.int key = Int32.ofNat (48 + d)) :
      ∃ h : d < 10, Key.ofCode32? (v.registers.int key) = some (.num ⟨d, h⟩) := by
    rw [List.length_map] at hd
    exact ⟨by omega, Key.ofCode32?_eq_some.mpr hv⟩
  cases hk : Key.ofCode32? (v.registers.int key) with
  | none =>
    rw [select_other hkey]
    · simp [ifKey_eq hkey, hk, obey]
    · intro d hd hlt hv
      obtain ⟨_, hsome⟩ := hnum hlt hv
      rw [hk] at hsome
      cases hsome
  | some k =>
    have hkeys := ifKey_eq_obey hkey name m turn p hk s
    by_cases hdigit : ∃ d : Fin 10, d.val ≠ 0 ∧ k = .num d
    · obtain ⟨d, hd, rfl⟩ := hdigit
      have hpos : 1 ≤ d.val := Nat.one_le_iff_ne_zero.mpr hd
      rw [select_digit hkey hpos d.isLt (Key.ofCode32?_eq_some.mp hk), List.getElem?_map,
        Option.elim_some, Menu.choose, Menu.action?, if_neg hd]
      cases (m.actions p)[d.val - 1]? with
      | none => exact hkeys
      | some action => rfl
    · have hnone : m.action? p k = none := by
        cases k with
        | num d =>
          have hzero : d.val = 0 := by
            by_contra hd
            exact hdigit ⟨d, hd, rfl⟩
          rw [Menu.action?, if_pos hzero]
        | _ => rfl
      rw [select_other hkey, hkeys, Option.elim_some, Menu.choose, hnone]
      intro d hd hlt hv
      obtain ⟨hten, hsome⟩ := hnum hlt hv
      rw [hk] at hsome
      exact hdigit ⟨⟨d, hten⟩, Nat.one_le_iff_ne_zero.mp hd, Option.some.inj hsome⟩

end Evaluation

namespace Build

open Context Evaluation

section Lists

variable {c c' : Context} {key : Register}

theorem code_tests (reg : Register) (ts : List (Operand × Label)) (c : Context) :
    (tests reg c ts).code =
      c.code ++ ts.map fun t => .jumpIf (Condition.mk reg .eq t.1).normalize t.2 := by
  induction ts generalizing c with
  | nil => simp [tests]
  | cons t rest ih =>
    rw [tests, ih]
    simp [Context.jumpIf, emit]

/-- The digits are tested as the keys of a switch are. -/
theorem code_digitTests (hkey : key.kind = .int) (digit : Nat) (es : List Entry) (c : Context) :
    (digitTests key digit c es).2.code =
      (tests key c (digits digit ((digitTests key digit c es).1.map (·.1)))).code := by
  induction es generalizing digit c with
  | nil => rfl
  | cons e rest ih =>
    rcases e with ⟨text, _ | action⟩
    · exact ih digit c
    · have hcond : (Condition.mk key .eq (.value (.int (Int32.ofNat (48 + digit))))).normalize =
          ⟨key, .eq, .value (.int (Int32.ofNat (48 + digit)))⟩ := by
        simp only [Condition.normalize, Operand.normalize, hkey]
        rfl
      simp only [digitTests, List.map_cons, digits, tests, hcond]
      rw [ih, code_tests, code_tests]
      rfl

/-- The pages of enough room for the entries hold them in their order, four on each but the last. -/
theorem getElem?_pages {n : Nat} {es : List Entry} (h : es.length ≤ n) (i : Nat) :
    (pages n es)[i]? = if 4 * i < es.length then some ((es.drop (4 * i)).take 4) else none := by
  induction n generalizing es i with
  | zero =>
    obtain rfl := List.eq_nil_of_length_eq_zero (Nat.le_zero.mp h)
    rfl
  | succ n ih =>
    cases es with
    | nil => rfl
    | cons e rest =>
      have hrest : ((e :: rest).drop pageSize).length ≤ n := by
        rw [List.length_drop, pageSize]
        rw [List.length_cons] at h ⊢
        omega
      cases i with
      | zero => rfl
      | succ i =>
        rw [pages, List.getElem?_cons_succ, ih hrest, List.drop_drop, List.length_drop]
        · have hplace : pageSize + 4 * i = 4 * (i + 1) := by rw [pageSize]; omega
          have hroom : 4 * i < (e :: rest).length - pageSize ↔ 4 * (i + 1) < (e :: rest).length := by
            rw [pageSize]
            omega
          simp only [hplace, hroom]
        · exact nofun

theorem lt_length_pages {n : Nat} {es : List Entry} (h : es.length ≤ n) (i : Nat) :
    i < (pages n es).length ↔ 4 * i < es.length := by
  have hpage := getElem?_pages h i
  by_cases hi : 4 * i < es.length
  · rw [if_pos hi] at hpage
    exact iff_of_true (List.getElem?_eq_some_iff.mp hpage).1 hi
  · rw [if_neg hi] at hpage
    exact iff_of_false (Nat.not_lt.mpr (List.getElem?_eq_none_iff.mp hpage)) hi

theorem menuLineOps_four {ts : List Text} (h : ts.length ≤ 4) :
    menuLineOps 0 (ts.map .text) =
      List.zipWith (fun row t => .displayString row 0 0 t) [1, 3, 5, 7] ts := by
  match ts, h with
  | [], _ => rfl
  | [_], _ => rfl
  | [_, _], _ => rfl
  | [_, _, _], _ => rfl
  | [_, _, _, _], _ => rfl

variable {free : List Register} {frames : List Frame}

theorem framed_digitTests (digit : Nat) (es : List Entry) (h : c.Framed free frames none) :
    (digitTests key digit c es).2.Framed free frames none := by
  induction es generalizing digit c with
  | nil => exact h
  | cons e rest ih =>
    rcases e with ⟨text, _ | action⟩
    · exact ih digit h
    · exact ih (digit + 1) (h.newLabel.jumpIf _ _)

theorem framed_keyTest (k : Option Key) (target : Label) (h : c.Framed free frames none) :
    (keyTest key k target c).Framed free frames none := by
  cases k with
  | none => exact h
  | some k => exact h.jumpIf _ _

end Lists

section Pages

variable {code : List Instruction} {link : Link σ} {n k : Nat} {free : List Register}
  {frames : List Frame} {c c' : Context} {key : Register} {z : Spot}

theorem fate_keyTest {k? : Option Key} {target : Label} {yes no : Evaluation σ}
    (hp : (keyTest key k? target c).code <+: code)
    (hy : ∀ v s, Fate code link k frames (follow code target) z v s (yes v s))
    (hn : ∀ v s, Fate code link k frames ((keyTest key k? target c).here code) z v s (no v s))
    (v : View) (s : σ) : Fate code link k frames (c.here code) z v s (ifKey key k? yes no v s) := by
  cases k? with
  | none => exact hn v s
  | some k => exact fate_test hp v s (fun hj => .of_passes hj (hy v s)) (hn v s)

variable (code link n free) in
/-- The entry of a menu means what it is evaluated to. -/
structure EntryMeans (e : Entry) (a : Text × Option (Evaluation σ)) : Prop where
  text : e.1 = a.1
  action : Option.Rel (MeansAll code link n free) e.2 a.2

theorem forall₂_actions {es : List Entry} {as : List (Text × Option (Evaluation σ))}
    (h : List.Forall₂ (EntryMeans code link n free) es as) :
    List.Forall₂ (MeansAll code link n free) (es.filterMap (·.2)) (as.filterMap (·.2)) := by
  induction h with
  | nil => exact .nil
  | @cons e a es as he _ ih =>
    obtain ⟨text, action⟩ := e
    obtain ⟨text', action'⟩ := a
    cases he.action with
    | none => exact ih
    | some hm => exact .cons hm ih

theorem shown_eq {m : Menu (Evaluation σ)} {p : Nat} {es : List Entry}
    (h : List.Forall₂ (EntryMeans code link n free) es (m.page p)) (c : Context) :
    shown es key c =
      (m.showing p key).foldl Context.op (c.newLabel.2.newLabel.2.place c.newLabel.1) := by
  have htexts : es.map (·.1) = (m.page p).map (·.1) := by
    refine List.forall₂_eq_eq_eq ▸ ?_
    rw [List.forall₂_map_left_iff, List.forall₂_map_right_iff]
    exact h.imp fun _ _ he => he.text
  have hfew : (es.map (·.1)).length ≤ 4 := by
    rw [htexts, List.length_map]
    exact m.length_page_le p
  have hlines : menuLineOps 0 (es.map fun e => .text e.1) =
      List.zipWith (fun row e => .displayString row 0 0 e.1) [1, 3, 5, 7] (m.page p) := by
    have h := menuLineOps_four hfew
    rw [List.map_map] at h
    rw [htexts, List.zipWith_map_right] at h
    exact h
  rw [shown, lines_eq, hlines, Menu.showing, List.foldl_append, List.foldl_cons]
  rfl

/-- Where page `p` can go to: itself at the place `stay`, the page before it or the exit at `back`, the page
behind it at `forth`, and the entry of the menu. There `turn` shows the pages. -/
structure Turns (code : List Instruction) (link : Link σ) (k : Nat) (frames : List Frame) (z : Spot)
    (lp : Loop) (turn : Nat → Evaluation σ) (p : Nat) (stay back : Spot) (forth : Option Spot) : Prop where
  exit : follow code lp.exit = z
  again : ∀ v s, Fate code link k frames (follow code lp.entry) z v s (turn 0 v s)
  stay : ∀ v s, Fate code link k frames stay z v s (turn p v s)
  back : ∀ v s, Fate code link k frames back z v s ((if p = 0 then skip else turn (p - 1)) v s)
  forth : ∀ y ∈ forth, ∀ v s, Fate code link k frames y z v s (turn (p + 1) v s)

variable {lp : Loop} {name : Option String}

/-- The tests behind the read of a key and the jump behind them do what the key asks for, where the actions of
the page are run, and where the places that they go to show the pages. -/
theorem fate_choice (hkey : key.kind = .int) {m : Menu (Evaluation σ)} {p : Nat} {top beyond back : Label}
    {es : List Entry} {turn : Nat → Evaluation σ}
    (hp : ((keyTest key m.next beyond (keyTest key m.prev back (digitTests key 1 c es).2)).jump top).code
      <+: code)
    (hacts : List.Forall₂ (fun l e => ∀ v s, Fate code link k frames (follow code l) z v s (e v s))
      ((digitTests key 1 c es).1.map (·.1)) ((m.actions p).map (acting name turn p)))
    (hstay : ∀ v s, Fate code link k frames (follow code top) z v s (turn p v s))
    (hback : ∀ v s, Fate code link k frames (follow code back) z v s
      ((if p = 0 then skip else turn (p - 1)) v s))
    (hforth : ∀ v s, Fate code link k frames (follow code beyond) z v s
      (turn (if m.isLast p then p else p + 1) v s))
    (v : View) (s : σ) : Fate code link k frames (c.here code) z v s
      (obey name turn p ((Key.ofCode32? (v.registers.int key)).elim (.turn p) (m.choose p)) v s) := by
  have hnext := prefix_emit hp
  have hprev := (returns_keyTest key m.next beyond _).code.trans hnext
  have hdigits := (returns_keyTest key m.prev back _).code.trans hprev
  have htests := code_digitTests hkey 1 es c
  rw [← select_eq_obey hkey]
  refine fate_tests (forall₂_digits hacts 1) ?_ (htests ▸ hdigits) v s
  rw [← here_congr htests]
  exact fate_keyTest hprev hback (fate_keyTest hnext hforth fun v s => .of_leads (leads_jump hp) (hstay v s))

/-- A page is shown, reads a key and does what it asks for, where the pages that it can turn to are
shown. -/
theorem fate_page (hc : Closed code) {m : Menu (Evaluation σ)} {p : Nat} {back : Label} {es : List Entry}
    (hm : List.Forall₂ (EntryMeans code link n free) es (m.page p))
    (hbal : ∀ e ∈ es, ∀ action, e.2 = some action → ∀ b ∈ action, b.Balanced)
    (hok : page m.next m.prev back (m.isLast p) es c = (c', .ok ())) (hp : c'.code <+: code)
    (hf : c.Framed (key :: free) ((lp, name) :: frames) none) :
    c'.Framed (key :: free) ((lp, name) :: frames) none ∧
      ∀ k ≤ n, ∀ (turn : Nat → Evaluation σ) (z : Spot),
        Turns code link k frames z lp turn p (c.here code) (follow code back)
          (if m.isLast p then none else some (c'.here code)) →
        ∀ v s, Fate code link (k + 1) frames (c.here code) z v s
          (Evaluation.page link name key m turn p v s) := by
  have hbalanced := balanced_withTemporary .int
    (balanced_pageBody m.next m.prev back (m.isLast p) hbal)
  have hfree := (free_congr (hbalanced.of_eq hok).pools .int).trans hf.free
  obtain ⟨r, ca, cb, ha, hbody, hr⟩ := withTemporary_ok hok
  obtain ⟨rfl, hfa⟩ := hf.allocate ha
  have hkey : r.kind = .int := kind_pool (pool_of_free (free_allocate ha ▸ List.mem_cons_self))
  obtain ⟨c₁, hactions, rfl⟩ := pageBody_ok hbody
  have hcode := (release_ok hr).1
  -- all parts of the page stand in the complete list
  have htargets := forall_digitTests hbal r 1 (shown es r ca)
  have hbottom : (c₁.place ca.newLabel.2.newLabel.1).code <+: code := hcode ▸ hp
  have hp₁ : c₁.code <+: code := prefix_emit hbottom
  have hasked : (asked m.next m.prev back (m.isLast p) es r ca).code <+: code :=
    ((balanced_actions _ htargets).of_eq hactions).code.trans hp₁
  have hshown := (returns_dispatched m.next m.prev back (m.isLast p) es r ca).code.trans hasked
  have hops : shown es r ca = _ := shown_eq hm ca
  rw [hops] at hshown
  have htop := (prefix_ops _ _).trans hshown
  -- the actions run from their labels to the top of the page
  have hbodies : List.Forall₂ (fun t e => MeansAll code link n free t.2 e)
      (digitTests r 1 (shown es r ca) es).1 (m.actions p) := by
    have h := forall₂_actions hm
    rw [← bodies_digitTests r 1 es (shown es r ca), List.forall₂_map_left_iff] at h
    exact h
  have hfshown : (shown es r ca).Framed free ((lp, name) :: frames) none :=
    hops ▸ framed_ops _ (hfa.newLabel.newLabel.place (new_of_place hc htop))
  have hfasked : (asked m.next m.prev back (m.isLast p) es r ca).Framed free ((lp, name) :: frames)
      none :=
    (framed_keyTest m.next _ (framed_keyTest m.prev back (framed_digitTests 1 es hfshown))).jump _
  obtain ⟨hf₁, hfates⟩ := fate_bodies hc hbodies htargets (bodies_of_actions hactions) hp₁ hfasked
  have hfbottom := hf₁.place (new_of_place hc hbottom)
  refine ⟨hfbottom.congr hcode (named_release hr) (release_ok hr).2.2 hfree, ?_⟩
  intro k hk turn z h v s
  have hhere : ca.newLabel.2.newLabel.2.here code = c.here code := here_congr (allocate_ok ha).1
  have hstay : follow code ca.newLabel.1 = c.here code := (follow_place hc htop).trans hhere
  have hstep : next? code (c.here code) =
      some ((ca.newLabel.2.newLabel.2.place ca.newLabel.1).here code) := hhere ▸ next?_place htop
  have hshow (v : View) (s : σ) :
      Fate code link k frames ((ca.newLabel.2.newLabel.2.place ca.newLabel.1).here code)
        ((shown es r ca).here code) v s (performAll link (m.showing p r) v s) := by
    rw [hops]
    exact fate_ops hshown v s
  refine Fate.step hstep ((hshow v s).andThen fun v s => ?_)
  have hacts : List.Forall₂ (fun l e => ∀ v s, Fate code link k frames (follow code l) z v s (e v s))
      ((digitTests r 1 (shown es r ca) es).1.map (·.1)) ((m.actions p).map (acting name turn p)) := by
    rw [List.forall₂_map_left_iff, List.forall₂_map_right_iff]
    exact hfates.imp fun t e he v s => ((he v s).mono hk).inside h.exit (hstay ▸ h.stay) h.again
  have hagain : ∀ v s, Fate code link k frames (follow code ca.newLabel.1) z v s (turn p v s) :=
    hstay ▸ h.stay
  have hbeyond : ∀ v s, Fate code link k frames
      (follow code (if m.isLast p then ca.newLabel.1 else ca.newLabel.2.newLabel.1)) z v s
      (turn (if m.isLast p then p else p + 1) v s) := by
    intro v s
    have hforth := h.forth
    cases hlast : m.isLast p with
    | true => exact hagain v s
    | false =>
      rw [hlast] at hforth
      have hleads := leads_place hbottom
      rw [← follow_place hc hbottom, ← here_congr hcode] at hleads
      exact .of_leads hleads (hforth _ rfl v s)
  exact fate_choice hkey hasked hacts hagain h.back hbeyond v s

/-- What page `p` of a menu is built from: its entries, and whether it is the last one. -/
structure PageMeans (code : List Instruction) (link : Link σ) (n : Nat) (free : List Register)
    (m : Menu (Evaluation σ)) (p : Nat) (es : List Entry) (last : Bool) : Prop where
  entries : List.Forall₂ (EntryMeans code link n free) es (m.page p)
  last : m.isLast p = last
  balanced : ∀ e ∈ es, ∀ action, e.2 = some action → ∀ b ∈ action, b.Balanced

/-- The labelled pages of a menu from page `p` on. -/
def PagesMean (code : List Instruction) (link : Link σ) (n : Nat) (free : List Register)
    (m : Menu (Evaluation σ)) (p : Nat) (ps : List (Label × List Entry)) : Prop :=
  ∀ i l es, ps[i]? = some (l, es) → PageMeans code link n free m (p + i) es (decide (i + 1 = ps.length))

namespace PagesMean

variable {m : Menu (Evaluation σ)} {p : Nat} {l : Label} {es : List Entry}
  {ps : List (Label × List Entry)}

/-- The first page is the last one if there is no other. -/
theorem head (h : PagesMean code link n free m p ((l, es) :: ps)) :
    PageMeans code link n free m p es ps.isEmpty := by
  have hfirst : PageMeans code link n free m p es (decide (0 + 1 = ps.length + 1)) := h 0 l es rfl
  have hlast : decide (0 + 1 = ps.length + 1) = ps.isEmpty := by cases ps <;> simp
  rwa [hlast] at hfirst

theorem tail (h : PagesMean code link n free m p ((l, es) :: ps)) :
    PagesMean code link n free m (p + 1) ps := by
  intro i l' es' hi
  have hpage := h (i + 1) l' es' hi
  have hplace : p + (i + 1) = p + 1 + i := by omega
  have hend : i + 1 + 1 = ps.length + 1 ↔ i + 1 = ps.length := Nat.succ_inj
  rwa [hplace, List.length_cons, decide_eq_decide.mpr hend] at hpage

theorem balanced (h : PagesMean code link n free m p ps) :
    ∀ q ∈ ps, ∀ e ∈ q.2, ∀ action, e.2 = some action → ∀ b ∈ action, b.Balanced := by
  intro q hq
  obtain ⟨i, hi⟩ := List.mem_iff_getElem?.mp hq
  exact (h i q.1 q.2 hi).balanced

/-- The entries of a menu, cut into pages that have a label each. -/
theorem of_entries {ls : List Label} (hm : List.Forall₂ (EntryMeans code link n free) es m.entries)
    (hbal : ∀ e ∈ es, ∀ action, e.2 = some action → ∀ b ∈ action, b.Balanced)
    (hcount : (ls.zip (pages es.length es)).length = (pages es.length es).length) :
    PagesMean code link n free m 0 (ls.zip (pages es.length es)) := by
  intro i l page hi
  obtain ⟨-, hpage⟩ := List.getElem?_zip_eq_some.mp hi
  rw [getElem?_pages (Nat.le_refl _)] at hpage
  split at hpage
  · next hlt =>
    obtain rfl := Option.some.inj hpage
    rw [Nat.zero_add, hcount]
    refine ⟨List.forall₂_take _ (List.forall₂_drop _ hm), ?_, fun e he => ?_⟩
    · have hthis := lt_length_pages (Nat.le_refl es.length) i
      have hnext := lt_length_pages (Nat.le_refl es.length) (i + 1)
      rw [Menu.isLast, ← hm.length_eq]
      exact decide_eq_decide.mpr (by omega)
    · exact hbal e (List.mem_of_mem_drop (List.mem_of_mem_take he))
  · cases hpage

end PagesMean

/-- The pages from `p` on: where all of them are shown behind their labels by `turn`, each is shown there
with one round more. -/
theorem fate_pageSeq (hc : Closed code) {m : Menu (Evaluation σ)} {p : Nat} {back : Label}
    {ps : List (Label × List Entry)}
    (hm : PagesMean code link n free m p ps)
    (hok : pageSeq m.next m.prev back ps c = (c', .ok ())) (hp : c'.code <+: code)
    (hf : c.Framed (key :: free) ((lp, name) :: frames) none) :
    c'.Framed (key :: free) ((lp, name) :: frames) none ∧
      (∀ l es, ps[0]? = some (l, es) → Leads code (c.here code) (past code l)) ∧
      ∀ k ≤ n, ∀ (turn : Nat → Evaluation σ) (z : Spot), follow code lp.exit = z →
        (∀ v s, Fate code link k frames (follow code lp.entry) z v s (turn 0 v s)) →
        (∀ v s, Fate code link k frames (follow code back) z v s
          ((if p = 0 then skip else turn (p - 1)) v s)) →
        (∀ i l es, ps[i]? = some (l, es) →
          ∀ v s, Fate code link k frames (past code l) z v s (turn (p + i) v s)) →
        ∀ i l es, ps[i]? = some (l, es) → ∀ v s, Fate code link (k + 1) frames (past code l) z v s
          (Evaluation.page link name key m turn (p + i) v s) := by
  induction ps generalizing c p back with
  | nil =>
    obtain rfl : c = c' := (Prod.mk.inj hok).1
    exact ⟨hf, nofun, fun _ _ _ _ _ _ _ _ i => nofun⟩
  | cons q rest ih =>
    obtain ⟨l, es⟩ := q
    obtain ⟨c₁, hpage, hrest⟩ := pageSeq_cons_ok hok
    have hfirst := hm.head
    have hlast : rest.isEmpty = m.isLast p := hfirst.last.symm
    rw [hlast] at hpage
    have hp₁ : c₁.code <+: code := ((balanced_pageSeq _ _ _ hm.tail.balanced).of_eq hrest).code.trans hp
    have hplace : (c.place l).code <+: code :=
      ((balanced_withTemporary .int (balanced_pageBody _ _ _ _ hfirst.balanced)).of_eq hpage).code.trans
        hp₁
    obtain ⟨hf₁, hturn⟩ := fate_page hc hfirst.entries hfirst.balanced hpage hp₁
      (hf.place (new_of_place hc hplace))
    obtain ⟨hf', henter, hround⟩ := ih hm.tail hrest hf₁
    have hpast := past_place hc hplace
    have hthere : Leads code (c.here code) (past code l) := hpast ▸ leads_place hplace
    refine ⟨hf', fun l' es' h => ?_, ?_⟩
    · obtain ⟨rfl, -⟩ := Prod.mk.inj (Option.some.inj h)
      exact hthere
    intro k hk turn z hexit hagain hback hturns i l' es' hi
    have hstay : ∀ v s, Fate code link k frames (past code l) z v s (turn p v s) := hturns 0 l es rfl
    cases i with
    | zero =>
      obtain ⟨rfl, -⟩ := Prod.mk.inj (Option.some.inj hi)
      rw [hpast] at hstay ⊢
      refine hturn k hk turn z ⟨hexit, hagain, hstay, hback, ?_⟩
      intro y hy v s
      cases rest with
      | nil =>
        rw [← hlast] at hy
        cases hy
      | cons q rest =>
        rw [← hlast] at hy
        obtain rfl : c₁.here code = y := Option.some.inj hy
        exact .of_leads (henter q.1 q.2 rfl) (hturns 1 q.1 q.2 rfl v s)
    | succ i =>
      have hreturn : ∀ v s, Fate code link k frames (follow code l) z v s (turn p v s) := by
        rw [follow_place hc hplace]
        exact fun v s => .of_leads hthere (hstay v s)
      have hnext := hround k hk turn z hexit hagain hreturn fun i l es hi => by
        rw [Nat.add_assoc, Nat.add_comm 1 i]
        exact hturns (i + 1) l es hi
      rw [← Nat.add_assoc, Nat.add_right_comm]
      exact hnext i l' es' hi

/-- The entry of a menu leads to its first page, and its pages are shown round after round. -/
theorem means_menu (hc : Closed code) {m : Menu (Evaluation σ)} {es : List Entry} {before : Option String}
    (hm : List.Forall₂ (EntryMeans code link n free) es m.entries)
    (hbal : ∀ e ∈ es, ∀ action, e.2 = some action → ∀ b ∈ action, b.Balanced) :
    Means code link n (key :: free) (menu es m.next m.prev) before none
      (Evaluation.menu link before key m n 0) := by
  intro c c' frames hok hp hf
  obtain ⟨c₁, hseq, rfl⟩ := menu_ok hok
  let cs := c.pushLoop.2.place c.pushLoop.1.entry
  let ps := pages es.length es
  let labels := (cs.newLabels ps.length).1
  have hcount : (labels.zip ps).length = ps.length := cs.length_zip_newLabels ps
  have hcs : (cs.newLabels ps.length).2.code = cs.code := cs.code_newLabels _
  have hpages : PagesMean code link n free m 0 (labels.zip ps) := .of_entries hm hbal hcount
  -- the parts stand in the complete list
  have hp : (c₁.place c.pushLoop.1.exit).code <+: code := hp
  have hp₁ : c₁.code <+: code := prefix_emit hp
  have hentry : cs.code <+: code := by
    have hgrown := ((balanced_pageSeq _ _ _ hpages.balanced).of_eq hseq).code
    exact hcs ▸ hgrown.trans hp₁
  have hfs := (hf.pushLoop.place (new_of_place hc hentry)).newLabels ps.length
  obtain ⟨hf₁, henter, hround⟩ := fate_pageSeq hc hpages hseq hp₁ hfs
  refine ⟨(hf₁.place (new_of_place hc hp)).popLoop, ?_⟩
  -- there is a first page
  obtain ⟨l, page, hfirst⟩ : ∃ l page, (labels.zip ps)[0]? = some (l, page) := by
    have hsome : 0 < es.length := List.length_pos_iff.mpr (menu_ne_nil hok)
    have hroom : 0 < (labels.zip ps).length := by
      rw [hcount]
      exact (lt_length_pages (Nat.le_refl _) 0).mpr hsome
    exact ⟨_, _, List.getElem?_eq_getElem hroom⟩
  have hin : Leads code (c.here code) (past code l) := by
    have hplace : Leads code (c.here code) (cs.here code) := leads_place hentry
    rw [← here_congr hcs] at hplace
    exact hplace.trans (henter l page hfirst)
  have hrounds : ∀ k ≤ n, ∀ i l page, (labels.zip ps)[i]? = some (l, page) → ∀ v s,
      Fate code link k frames (past code l) (follow code c.pushLoop.1.exit) v s
        (Evaluation.menu link before key m k i v s) := by
    intro k hk
    induction k with
    | zero => exact fun i l page _ v s => ⟨0, [], Nat.le_refl _, .nil, rfl⟩
    | succ k ih =>
      have hk := Nat.le_of_succ_le hk
      have hshow := hround k hk (Evaluation.menu link before key m k) _ rfl
        (fun v s => by
          rw [follow_place hc hentry]
          exact .of_leads hin (ih hk 0 l page hfirst v s))
        (fun v s => .skip (.refl _) v s)
        (fun i l page hi => by
          rw [Nat.zero_add]
          exact ih hk i l page hi)
      intro i l page hi v s
      have h := hshow i l page hi v s
      rwa [Nat.zero_add] at h
  intro v s
  have hmenu := hrounds n (Nat.le_refl n) 0 l page hfirst v s
  rw [follow_place hc hp] at hmenu
  exact .of_leads hin (hmenu.leads (leads_place hp))

/-- A menu that is built has taken a free register. -/
theorem means_refused_menu {es : List Entry} {next prev : Option Key} {before : Option String}
    {e : Evaluation σ} : Means code link n [] (menu es next prev) before none e := by
  intro c c' frames hok hp hf
  obtain ⟨c₁, hseq, -⟩ := menu_ok hok
  cases es with
  | nil => exact absurd rfl (menu_ne_nil hok)
  | cons e rest =>
    obtain ⟨c₂, hpage, -⟩ := pageSeq_cons_ok hseq
    obtain ⟨r, c₃, -, ha, -⟩ := withTemporary_ok hpage
    have hpools := (Returns.newLabels (c.pushLoop.2.place c.pushLoop.1.entry)
      (pages (e :: rest).length (e :: rest)).length).pools
    have hfree := (free_allocate ha).symm.trans (free_congr hpools .int)
    cases hfree.trans hf.free

end Pages

end Build

end Handheld
