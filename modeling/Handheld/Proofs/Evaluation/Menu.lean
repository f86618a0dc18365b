import Handheld.Proofs.Evaluation.Basic

namespace Handheld

open Machine

/-- A menu over pages: its entries, with what some of them do, and the keys that turn the pages. -/
structure Menu (α : Type) where
  entries : List (Text × Option α)
  next : Option Key
  prev : Option Key

namespace Menu

/-- What a key asks for. -/
inductive Choice (α : Type) where
  | act (action : α)
  | turn (page : Nat)
  | leave

variable {α : Type} (m : Menu α)

/-- The entries of page `p`, from place `4 * p` on. -/
def page (p : Nat) : List (Text × Option α) := (m.entries.drop (4 * p)).take 4

/-- What the entries of page `p` do, in their order; those that do nothing are not counted. -/
def actions (p : Nat) : List α := (m.page p).filterMap (·.2)

/-- No entry stands behind page `p`. -/
def isLast (p : Nat) : Bool := m.entries.length ≤ 4 * (p + 1)

/-- The action of a digit on page `p`; the first one has the digit one. -/
def action? (p : Nat) : Key → Option α
  | .num d => if d.val = 0 then none else (m.actions p)[d.val - 1]?
  | _ => none

/-- What a key asks for on page `p`. A digit of an action is not used to turn pages. -/
def choose (p : Nat) (k : Key) : Choice α :=
  match m.action? p k with
  | some action => .act action
  | none =>
    if m.prev = some k then (if p = 0 then .leave else .turn (p - 1))
    else if m.next = some k then .turn (if m.isLast p then p else p + 1)
    else .turn p

/-- The operations that show page `p` on every other row of a cleared screen and read a key. -/
def showing (p : Nat) (key : Register) : List Operation :=
  .displayClear :: List.zipWith (fun row e => .displayString row 0 0 e.1) [1, 3, 5, 7] (m.page p) ++
    [.noEchoInput key]

theorem length_page_le (p : Nat) : (m.page p).length ≤ 4 := by
  rw [page, List.length_take]
  exact Nat.min_le_left _ _

end Menu

variable {σ : Type}

namespace Evaluation

/-- What follows a round of a loop with the given name: the next round, the loop again, or what is behind
the loop, unless the round has left more than this loop. -/
def inside (name : Option String) (next again : Evaluation σ) (round : Outcome σ) : Outcome σ :=
  match round.completion with
  | .next => (next round.view round.link).behind round.performed
  | .again target =>
    if picks target name then (again round.view round.link).behind round.performed else round
  | .leave target => if picks target name then { round with completion := .next } else round
  | .ended _ => round

theorem loop_succ (name : Option String) (body : Evaluation σ) (n : Nat) (v : View) (s : σ) :
    loop name body (n + 1) v s = inside name (loop name body n) (loop name body n) (body v s) := rfl

/-- An action of page `p`. Behind it the page is shown again, and the menu begins again on its first page;
`turn` shows a page. -/
def acting (name : Option String) (turn : Nat → Evaluation σ) (p : Nat) (action : Evaluation σ) :
    Evaluation σ :=
  fun v s => inside name (turn p) (turn 0) (action v s)

/-- Does what a key has asked for on page `p`. -/
def obey (name : Option String) (turn : Nat → Evaluation σ) (p : Nat) :
    Menu.Choice (Evaluation σ) → Evaluation σ
  | .act action => acting name turn p action
  | .turn q => turn q
  | .leave => skip

variable (link : Link σ) (name : Option String) (key : Register) (m : Menu (Evaluation σ))

/-- Shows page `p`, reads a key and does what the key asks for. -/
def page (turn : Nat → Evaluation σ) (p : Nat) : Evaluation σ :=
  (performAll link (m.showing p key)).andThen fun v =>
    obey name turn p ((Key.ofCode32? (v.registers.int key)).elim (.turn p) (m.choose p)) v

/-- A menu from page `p` on. The number bounds the pages that are shown. -/
def menu : Nat → Nat → Evaluation σ
  | 0, _ => exit (.ended .unfinished)
  | n + 1, p => page link name key m (menu n) p

/-- The run of a body that returns at its end. It shows the title first if that has not happened yet. -/
def whole (title : Title) (body : Evaluation σ) (v : View) (s : σ) : Tale σ :=
  if v.keys.cancelled then ([], .step .terminated, v, s)
  else if v.started then (body v s).tale
  else
    match v.opening title with
    | (.ok .running, v) => (body v s).tale
    | (.ok step, v) => ([], .step step, v, s)
    | (.error stop, v) => ([], .stop stop, v, s)

end Evaluation

section Play

variable (link : Link σ) (n : Nat)

mutual

/-- The evaluation of a construct with its menus, each of which reads its keys into the first register that
is free there; `before` is the name of the label right in front of the construct. -/
def Construct.play (free : List Register) (before : Option String) : Construct → Evaluation σ
  | .op o => .perform link o.normalize
  | .label _ => .skip
  | .block body => playAll free before body
  | .ifElse cond yes no => .branch cond (playAll free none yes) (playAll free none no)
  | .loop body => .loop before (playAll free none body) n
  | .switch reg cases default => .select reg (playCases free cases) (playAll free none default)
  | .leave name => .exit (.leave name)
  | .again name => .exit (.again name)
  | .leaveIf cond name => .branch cond (.exit (.leave name)) .skip
  | .againIf cond name => .branch cond (.exit (.again name)) .skip
  | .ifFileExists file yes no =>
    .andThen (.perform link (.fileExists file))
      (.branch Build.succeeded (playAll free none yes) (playAll free none no))
  | .getResult dst => .copyStatus link dst
  | .menuLines lines => .performAll link (.displayClear :: menuLineOps 0 lines)
  | .menuLoop entries next prev =>
    match free with
    | key :: free => .menu link before key ⟨playEntries free entries, next, prev⟩ n 0
    -- a menu that is refused
    | [] => .exit (.ended .unfinished)

def playAll (free : List Register) (before : Option String) : List Construct → Evaluation σ
  | [] => .skip
  | k :: rest => (k.play free before).andThen (playAll free (k.trail before) rest)

def playCases (free : List Register) : List Case → List (Operand × Evaluation σ)
  | [] => []
  | .mk key body :: rest => (key, playAll free none body) :: playCases free rest

def playEntries (free : List Register) : List MenuEntry → List (Text × Option (Evaluation σ))
  | [] => []
  | .mk text action :: rest => (text, playAction free action) :: playEntries free rest

def playAction (free : List Register) : Option (List Construct) → Option (Evaluation σ)
  | none => none
  | some body => some (playAll free none body)

end

end Play

namespace Source

/-- The body of a source with its menus, behind its barcode configuration. -/
def playBody (link : Link σ) (n : Nat) (src : Source) : Evaluation σ :=
  (Evaluation.performAll link (src.barcode.map .barcodeSetup)).andThen
    (playAll link n (Register.pool .int) none src.body)

/-- The evaluation of a source with its menus. -/
def play (link : Link σ) (n : Nat) (src : Source) (v : View) (s : σ) : Tale σ :=
  (src.playBody link n).whole src.title v s

end Source

section Contained

variable {name : Option String} {a b : Evaluation σ}

/-- No exit of the evaluation is one from the loop with the given name that it stands in. -/
def Evaluation.Contained (name : Option String) (e : Evaluation σ) : Prop :=
  ∀ v s target, (e v s).completion = .leave target ∨ (e v s).completion = .again target →
    picks target name = false

namespace Evaluation.Contained

theorem skip : (skip : Evaluation σ).Contained name := nofun

theorem perform (link : Link σ) (o : Operation) : (perform link o).Contained name := by
  intro v s target h
  unfold Evaluation.perform at h
  split at h
  · simp at h
  · simp at h

theorem andThen (ha : a.Contained name) (hb : b.Contained name) : (a.andThen b).Contained name := by
  intro v s target h
  unfold Evaluation.andThen at h
  split at h
  · exact hb _ _ target h
  · exact ha v s target h

theorem performAll (link : Link σ) (os : List Operation) : (performAll link os).Contained name := by
  induction os with
  | nil => exact skip
  | cons o rest ih => exact (perform link o).andThen ih

/-- What leaves an action for another place leaves the menu too. -/
theorem acting {turn : Nat → Evaluation σ} (hturn : ∀ p, (turn p).Contained name) (p : Nat)
    (action : Evaluation σ) : (acting name turn p action).Contained name := by
  intro v s target h
  unfold Evaluation.acting inside at h
  split at h
  · exact hturn p _ _ target h
  · next t ht =>
    split at h
    · exact hturn 0 _ _ target h
    · next hpicks =>
      rw [ht] at h
      obtain rfl : t = target := by simpa using h
      exact Bool.eq_false_iff.mpr hpicks
  · next t ht =>
    split at h
    · simp at h
    · next hpicks =>
      rw [ht] at h
      obtain rfl : t = target := by simpa using h
      exact Bool.eq_false_iff.mpr hpicks
  · next e he => simp [he] at h

/-- A menu is left by its previous key, by an action that leaves it, or for an outer loop. -/
theorem menu (link : Link σ) (key : Register) (m : Menu (Evaluation σ)) (n p : Nat) :
    (menu link name key m n p).Contained name := by
  induction n generalizing p with
  | zero => nofun
  | succ n ih =>
    rw [Evaluation.menu, page]
    refine (performAll link (m.showing p key)).andThen fun v s => ?_
    generalize (Key.ofCode32? (v.registers.int key)).elim (.turn p) (m.choose p) = choice
    cases choice with
    | act action => exact acting ih p action v s
    | turn q => exact ih q v s
    | leave => exact skip v s

end Evaluation.Contained

end Contained

section MenuFree

variable (link : Link σ) (n : Nat) (free : List Register)

mutual

theorem Construct.play_menuFree (k : Construct) (hk : k.menuFree = true) (before : Option String) :
    k.play link n free before = k.evaluate link n before := by
  cases k with
  | block body => exact playAll_menuFree body hk before
  | ifElse cond yes no =>
    obtain ⟨hy, hn⟩ := Bool.and_eq_true_iff.mp hk
    rw [Construct.play, Construct.evaluate, playAll_menuFree yes hy, playAll_menuFree no hn]
  | loop body => rw [Construct.play, Construct.evaluate, playAll_menuFree body hk]
  | switch reg cases default =>
    obtain ⟨hcases, hd⟩ := Bool.and_eq_true_iff.mp hk
    rw [Construct.play, Construct.evaluate, playCases_menuFree cases hcases, playAll_menuFree default hd]
  | ifFileExists file yes no =>
    obtain ⟨hy, hn⟩ := Bool.and_eq_true_iff.mp hk
    rw [Construct.play, Construct.evaluate, playAll_menuFree yes hy, playAll_menuFree no hn]
  | menuLoop entries next prev => cases hk
  | _ => rfl

theorem playAll_menuFree (ks : List Construct) (hk : menuFreeAll ks = true) (before : Option String) :
    playAll link n free before ks = evaluateAll link n before ks := by
  cases ks with
  | nil => rfl
  | cons k rest =>
    obtain ⟨hk, hrest⟩ := Bool.and_eq_true_iff.mp hk
    rw [playAll, evaluateAll, k.play_menuFree hk, playAll_menuFree rest hrest]

theorem playCases_menuFree (cs : List Case) (hk : menuFreeCases cs = true) :
    playCases link n free cs = evaluateCases link n cs := by
  rcases cs with _ | ⟨⟨key, body⟩, rest⟩
  · rfl
  · obtain ⟨hb, hrest⟩ := Bool.and_eq_true_iff.mp hk
    rw [playCases, evaluateCases, playAll_menuFree body hb, playCases_menuFree rest hrest]

end

end MenuFree

theorem Source.playBody_menuFree (src : Source) (h : menuFreeAll src.body = true) (link : Link σ) (n : Nat) :
    src.playBody link n = src.evaluateBody link n := by
  rw [playBody, evaluateBody, playAll_menuFree link n _ src.body h]

end Handheld
