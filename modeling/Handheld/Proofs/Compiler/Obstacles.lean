import Handheld.Proofs.Construct.Depth
import Handheld.Proofs.Evaluation.Framed
import Mathlib.Data.List.Forall2

namespace Handheld

/-- What stops the expansion of a source. -/
inductive Obstacle where
  | mistake (e : SourceError)
  /-- A menu that stands inside the actions of `menuLimit` others. -/
  | tooDeep
  deriving DecidableEq

/-- How an obstacle is reported. -/
def Obstacle.error : Obstacle → CompileError
  | mistake e => .source e
  | tooDeep => .fault (.poolExhausted .int)

namespace Operation

/-- What an operation asks of its registers, in order: whether it holds, and how it is worded. -/
def demands : Operation → List (Register × Bool × String)
  | .stringConcat dst _ first second =>
    (dst :: first.reg :: second.toList.map Slice.reg).map fun r => (r, r.kind = .text, "text")
  | .extractCopy dst _ src => [dst, src.reg].map fun r => (r, r.kind = .text, "text")
  | .stringShift reg .. => [(reg, reg.kind = .text, "text")]
  | .numberToString dst src => [(dst, dst.kind = .text, "text"), (src, src.kind ≠ .text, "numeric")]
  | .barcodeInput _ _ dst .. => [(dst, dst.isPooled && dst.kind = .text, "DAT")]
  | .noEchoInput dst => [(dst, dst.kind = .int, "integer")]
  | _ => []

/-- The registers that an assignment may not read. -/
def unreadable : Operation → List Register
  | .assign _ src => src.register?.toList.filter (·.isUnreadable)
  | _ => []

def keyCount (o : Operation) : Nat := (o.specialKeys.map KeySet.size).getD 0

/-- The mistakes of an operation, in the order in which they are looked for. -/
def mistakes (o : Operation) : List SourceError :=
  (o.written.toList.filter (·.isSystem)).map (.systemTarget o.name) ++
    (if KeySet.special < o.keyCount then [.tooManyKeys o.name o.keyCount] else []) ++
    o.unreadable.map .unreadableSource ++
    (o.demands.filter (!·.2.1)).map fun d => .typeMismatch o.name d.1 d.2.2

/-- Checking an operation finds its first mistake. -/
theorem check_eq (o : Operation) :
    Build.check o = match o.mistakes with
      | [] => .ok o.normalize
      | e :: _ => .error e := by
  unfold Build.check mistakes
  rw [← Option.toList_filter]
  simp only
  split
  · next r hr =>
    rw [hr]
    rfl
  · next hr =>
    rw [hr]
    have hcount : (o.specialKeys.map KeySet.size).getD 0 = o.keyCount := rfl
    rw [hcount]
    split
    · rfl
    · cases o with
      | assign dst src =>
        simp only [unreadable, demands]
        cases src with
        | register r => cases h : r.isUnreadable <;> simp [Operand.register?, Option.filter, h, normalize]
        | _ => rfl
      | stringConcat dst pos first second =>
        cases second with
        | none => 
          by_cases h₁ : dst.kind = .text <;> by_cases h₂ : first.reg.kind = .text <;>
            simp [unreadable, demands, h₁, h₂, normalize, Except.bind, Kind.label]
        | some s =>
          by_cases h₁ : dst.kind = .text <;> by_cases h₂ : first.reg.kind = .text <;>
            by_cases h₃ : s.reg.kind = .text <;>
            simp [unreadable, demands, h₁, h₂, h₃, normalize, Except.bind, Except.map, Kind.label]
      | extractCopy dst pos src =>
        by_cases h₁ : dst.kind = .text <;> by_cases h₂ : src.reg.kind = .text <;>
          simp [unreadable, demands, h₁, h₂, normalize, Except.bind, Except.map, Kind.label]
      | stringShift reg size align fill =>
        by_cases h : reg.kind = .text <;> simp [unreadable, demands, h, normalize, Except.map, Kind.label]
      | numberToString dst src =>
        by_cases h₁ : dst.kind = .text <;> by_cases h₂ : src.kind = .text <;>
          simp [unreadable, demands, h₁, h₂, normalize, Except.bind, Kind.label]
      | barcodeInput row col dst columns special full flags =>
        cases h : (dst.isPooled && decide (dst.kind = .text)) <;>
          simp [unreadable, demands, h, normalize]
      | noEchoInput dst =>
        by_cases h : dst.kind = .int <;> simp [unreadable, demands, h, normalize, Except.map, Kind.label]
      | _ => rfl

end Operation

/-- Where a part of a source stands. -/
structure Scope where
  /-- The open loops, the innermost first, each with the name of the label in front of it. -/
  loops : List (Option String)
  /-- The names that have been placed. -/
  names : List String
  /-- The name of the label right in front. -/
  before : Option String
  /-- How many menus are open around it. -/
  depth : Nat

namespace Scope

/-- Where a source begins. -/
def outset : Scope := ⟨[], [], none, 0⟩

/-- Behind something that is no label. -/
def inside (sc : Scope) : Scope := { sc with before := none }

/-- Behind something that places names. -/
def past (sc : Scope) (names : List String) (before : Option String) : Scope :=
  { sc with names := sc.names ++ names, before }

def inLoop (sc : Scope) : Scope := { sc with loops := sc.before :: sc.loops, before := none }

/-- Where one more temporary has been taken for a menu. -/
def deeper (sc : Scope) : Scope := { sc with depth := sc.depth + 1 }

def inMenu (sc : Scope) : Scope := sc.inLoop.deeper

/-- An exit needs an open loop, with its name if it has one. -/
def exit (sc : Scope) (construct : String) (target : Option String) : List Obstacle :=
  if sc.loops.any (picks target) then []
  else match target with
    | none => [.mistake (.noEnclosingLoop construct)]
    | some name => [.mistake (.noLabeledLoop construct name)]

end Scope

mutual

/-- The names of the labels in a construct, in their order. -/
def Construct.labels : Construct → List String
  | .label name => [name]
  | .block body | .loop body => labelsAll body
  | .ifElse _ yes no | .ifFileExists _ yes no => labelsAll yes ++ labelsAll no
  | .switch _ cases default => labelsCases cases ++ labelsAll default
  | .menuLoop entries _ _ => labelsEntries entries
  | _ => []

def labelsAll : List Construct → List String
  | [] => []
  | k :: rest => k.labels ++ labelsAll rest

def labelsCases : List Case → List String
  | [] => []
  | .mk _ body :: rest => labelsAll body ++ labelsCases rest

def labelsEntries : List MenuEntry → List String
  | [] => []
  | .mk _ action :: rest => labelsAction action ++ labelsEntries rest

def labelsAction : Option (List Construct) → List String
  | none => []
  | some body => labelsAll body

end

mutual

/-- What stands in the way of expanding a construct, in the order of the source. -/
def Construct.obstacles (sc : Scope) : Construct → List Obstacle
  | .op o => o.mistakes.map .mistake
  | .label name => if name ∈ sc.names then [.mistake (.duplicateLabel name)] else []
  | .block body => obstaclesAll sc body
  | .ifElse _ yes no | .ifFileExists _ yes no =>
    obstaclesAll sc.inside yes ++ obstaclesAll (sc.past (labelsAll yes) none) no
  | .loop body => obstaclesAll sc.inLoop body
  | .switch reg cases default =>
    (if reg.kind = .int then [] else [.mistake (.typeMismatch "switch" reg "integer")]) ++
      (obstaclesCases sc.inside cases ++ obstaclesAll (sc.past (labelsCases cases) none) default)
  | .leave name => sc.exit "break" name
  | .again name => sc.exit "continue" name
  | .leaveIf _ name => sc.exit "if_break" name
  | .againIf _ name => sc.exit "if_continue" name
  | .getResult dst => (Operation.assign dst (.value (.int 0))).mistakes.map .mistake
  | .menuLines _ => []
  | .menuLoop entries _ _ =>
    if entries.isEmpty then [.mistake .emptyMenu]
    else (if sc.depth < menuLimit then [] else [.tooDeep]) ++ obstaclesEntries sc.inMenu entries

def obstaclesAll (sc : Scope) : List Construct → List Obstacle
  | [] => []
  | k :: rest => k.obstacles sc ++ obstaclesAll (sc.past k.labels (k.trail sc.before)) rest

def obstaclesCases (sc : Scope) : List Case → List Obstacle
  | [] => []
  | .mk _ body :: rest => obstaclesAll sc body ++ obstaclesCases (sc.past (labelsAll body) none) rest

def obstaclesEntries (sc : Scope) : List MenuEntry → List Obstacle
  | [] => []
  | .mk _ action :: rest =>
    obstaclesAction sc action ++ obstaclesEntries (sc.past (labelsAction action) none) rest

def obstaclesAction (sc : Scope) : Option (List Construct) → List Obstacle
  | none => []
  | some body => obstaclesAll sc body

end

section Depth

mutual

/-- A menu is too deep only where that many menus stand inside one another. -/
theorem Construct.depth_of_tooDeep {sc : Scope} (k : Construct) (h : .tooDeep ∈ k.obstacles sc) :
    menuLimit < sc.depth + k.menuDepth := by
  have hmistakes (o : Operation) : .tooDeep ∉ o.mistakes.map Obstacle.mistake := by simp
  have hexit (construct : String) (target : Option String) : .tooDeep ∉ sc.exit construct target := by
    unfold Scope.exit
    split
    · simp
    · cases target <;> simp
  cases k with
  | op o => exact absurd h (hmistakes o)
  | label name =>
    rw [Construct.obstacles] at h
    split at h <;> simp at h
  | block body => exact depthAll_of_tooDeep body h
  | ifElse cond yes no =>
    rw [Construct.menuDepth]
    rcases List.mem_append.mp h with h | h
    · have hyes := depthAll_of_tooDeep yes h
      simp only [Scope.inside] at hyes
      omega
    · have hno := depthAll_of_tooDeep no h
      simp only [Scope.past] at hno
      omega
  | loop body =>
    have hbody : .tooDeep ∈ obstaclesAll sc.inLoop body := h
    have hdepth := depthAll_of_tooDeep body hbody
    exact hdepth
  | switch reg cases default =>
    rw [Construct.menuDepth]
    rw [Construct.obstacles, List.mem_append, List.mem_append] at h
    rcases h with h | h | h
    · split at h <;> simp at h
    · have hcases := depthCases_of_tooDeep cases h
      simp only [Scope.inside] at hcases
      omega
    · have hdefault := depthAll_of_tooDeep default h
      simp only [Scope.past] at hdefault
      omega
  | leave name => exact absurd h (hexit _ name)
  | again name => exact absurd h (hexit _ name)
  | leaveIf cond name => exact absurd h (hexit _ name)
  | againIf cond name => exact absurd h (hexit _ name)
  | ifFileExists file yes no =>
    rw [Construct.menuDepth]
    rcases List.mem_append.mp h with h | h
    · have hyes := depthAll_of_tooDeep yes h
      simp only [Scope.inside] at hyes
      omega
    · have hno := depthAll_of_tooDeep no h
      simp only [Scope.past] at hno
      omega
  | getResult dst => exact absurd h (hmistakes _)
  | menuLines lines => cases h
  | menuLoop entries next prev =>
    rw [Construct.menuDepth]
    rw [Construct.obstacles] at h
    split at h
    · simp at h
    · rcases List.mem_append.mp h with h | h
      · split at h
        · cases h
        · omega
      · have hentries := depthEntries_of_tooDeep entries h
        simp only [Scope.inMenu, Scope.deeper, Scope.inLoop] at hentries
        omega

theorem depthAll_of_tooDeep {sc : Scope} (ks : List Construct) (h : .tooDeep ∈ obstaclesAll sc ks) :
    menuLimit < sc.depth + menuDepthAll ks := by
  cases ks with
  | nil => cases h
  | cons k rest =>
    rw [menuDepthAll]
    rcases List.mem_append.mp h with h | h
    · have hfirst := k.depth_of_tooDeep h
      omega
    · have hrest := depthAll_of_tooDeep rest h
      simp only [Scope.past] at hrest
      omega

theorem depthCases_of_tooDeep {sc : Scope} (cs : List Case) (h : .tooDeep ∈ obstaclesCases sc cs) :
    menuLimit < sc.depth + menuDepthCases cs := by
  rcases cs with _ | ⟨⟨key, body⟩, rest⟩
  · cases h
  · rw [menuDepthCases]
    rcases List.mem_append.mp h with h | h
    · have hbody := depthAll_of_tooDeep body h
      omega
    · have hrest := depthCases_of_tooDeep rest h
      simp only [Scope.past] at hrest
      omega

theorem depthEntries_of_tooDeep {sc : Scope} (es : List MenuEntry)
    (h : .tooDeep ∈ obstaclesEntries sc es) : menuLimit < sc.depth + menuDepthEntries es := by
  rcases es with _ | ⟨⟨text, action⟩, rest⟩
  · cases h
  · rw [menuDepthEntries]
    rcases List.mem_append.mp h with h | h
    · cases action with
      | none => cases h
      | some body =>
        have hbody := depthAll_of_tooDeep body h
        simp only [menuDepthAction]
        omega
    · have hrest := depthEntries_of_tooDeep rest h
      simp only [Scope.past] at hrest
      omega

end

mutual

/-- Where nothing stands in the way, no menu is too deep. -/
theorem Construct.depth_le {sc : Scope} (k : Construct) (h : k.obstacles sc = [])
    (hsc : sc.depth ≤ menuLimit) : sc.depth + k.menuDepth ≤ menuLimit := by
  cases k with
  | block body => exact depthAll_le body h hsc
  | ifElse cond yes no =>
    obtain ⟨hyes, hno⟩ := List.append_eq_nil_iff.mp h
    have hy := depthAll_le yes hyes hsc
    have hn := depthAll_le no hno hsc
    simp only [Scope.inside, Scope.past] at hy hn
    rw [Construct.menuDepth]
    omega
  | loop body =>
    have hbody : obstaclesAll sc.inLoop body = [] := h
    have hdepth := depthAll_le body hbody hsc
    exact hdepth
  | switch reg cases default =>
    obtain ⟨-, hbodies⟩ := List.append_eq_nil_iff.mp h
    obtain ⟨hcases, hdefault⟩ := List.append_eq_nil_iff.mp hbodies
    have hc := depthCases_le cases hcases hsc
    have hd := depthAll_le default hdefault hsc
    simp only [Scope.inside, Scope.past] at hc hd
    rw [Construct.menuDepth]
    omega
  | ifFileExists file yes no =>
    obtain ⟨hyes, hno⟩ := List.append_eq_nil_iff.mp h
    have hy := depthAll_le yes hyes hsc
    have hn := depthAll_le no hno hsc
    simp only [Scope.inside, Scope.past] at hy hn
    rw [Construct.menuDepth]
    omega
  | menuLoop entries next prev =>
    rw [Construct.obstacles] at h
    split at h
    · cases h
    · obtain ⟨hdepth, hentries⟩ := List.append_eq_nil_iff.mp h
      split at hdepth
      · next hlt =>
        have he := depthEntries_le entries hentries (Nat.succ_le_of_lt hlt)
        simp only [Scope.inMenu, Scope.deeper, Scope.inLoop] at he
        rw [Construct.menuDepth]
        omega
      · cases hdepth
  | _ => exact hsc

theorem depthAll_le {sc : Scope} (ks : List Construct) (h : obstaclesAll sc ks = [])
    (hsc : sc.depth ≤ menuLimit) : sc.depth + menuDepthAll ks ≤ menuLimit := by
  cases ks with
  | nil => exact hsc
  | cons k rest =>
    obtain ⟨hfirst, hrest⟩ := List.append_eq_nil_iff.mp h
    have hk := k.depth_le hfirst hsc
    have hr := depthAll_le rest hrest hsc
    simp only [Scope.past] at hr
    rw [menuDepthAll]
    omega

theorem depthCases_le {sc : Scope} (cs : List Case) (h : obstaclesCases sc cs = [])
    (hsc : sc.depth ≤ menuLimit) : sc.depth + menuDepthCases cs ≤ menuLimit := by
  rcases cs with _ | ⟨⟨key, body⟩, rest⟩
  · exact hsc
  · obtain ⟨hbody, hrest⟩ := List.append_eq_nil_iff.mp h
    have hb := depthAll_le body hbody hsc
    have hr := depthCases_le rest hrest hsc
    simp only [Scope.past] at hr
    rw [menuDepthCases]
    omega

theorem depthEntries_le {sc : Scope} (es : List MenuEntry) (h : obstaclesEntries sc es = [])
    (hsc : sc.depth ≤ menuLimit) : sc.depth + menuDepthEntries es ≤ menuLimit := by
  rcases es with _ | ⟨⟨text, action⟩, rest⟩
  · exact hsc
  · obtain ⟨haction, hrest⟩ := List.append_eq_nil_iff.mp h
    have hr := depthEntries_le rest hrest hsc
    simp only [Scope.past] at hr
    rw [menuDepthEntries]
    cases action with
    | none =>
      rw [menuDepthAction]
      omega
    | some body =>
      have hb := depthAll_le body haction hsc
      rw [menuDepthAction]
      omega

end

end Depth

end Handheld
