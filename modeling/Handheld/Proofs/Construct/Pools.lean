import Handheld.Proofs.Construct.Success
import Mathlib.Data.List.Induction
import Mathlib.Data.List.Nodup
import Mathlib.Data.List.ReduceOption
import Mathlib.Data.List.Sort

namespace Handheld.Context

/-- What can be asked of the pools. -/
inductive Request where
  | allocate (k : Kind)
  | release (r : Register)
  | releaseAll (rs : List (Option Register))

/-- A fault, or the register that is handed out if one was asked for. -/
abbrev Answer := Except Fault (Option Register)

/-- The answer to a request and the context behind it. -/
def Request.perform (q : Request) (c : Context) : Answer × Context :=
  match q with
  | allocate k =>
    match c.allocate k with
    | .ok (r, c') => (.ok (some r), c')
    | .error f => (.error f, c)
  | release r =>
    match c.release r with
    | .ok c' => (.ok none, c')
    | .error f => (.error f, c)
  | releaseAll rs => ((c.releaseAll rs).2.map fun _ => none, (c.releaseAll rs).1)

/-- The answers to requests one after the other, and the context behind them. -/
def performAll : List Request → Context → List Answer × Context
  | [], c => ([], c)
  | q :: qs, c =>
    let (a, c) := q.perform c
    let (as, c) := performAll qs c
    (a :: as, c)

inductive Event where
  | handedOut (r : Register)
  | givenBack (r : Register)
  deriving DecidableEq

namespace Event

def register : Event → Register
  | handedOut r | givenBack r => r

def isHandedOut : Event → Bool
  | handedOut _ => true
  | givenBack _ => false

@[simp] theorem isHandedOut_handedOut (r : Register) : (handedOut r).isHandedOut = true := rfl

@[simp] theorem isHandedOut_givenBack (r : Register) : (givenBack r).isHandedOut = false := rfl

/-- How the log tells of it. -/
def entry : Event → Log.Entry
  | handedOut r => ⟨.trace, .context, "allocate " ++ r.name⟩
  | givenBack r => ⟨.trace, .context, "release " ++ r.name⟩

end Event

/-- The register has been handed out and not given back since. -/
def Outstanding (es : List Event) (r : Register) : Prop :=
  (es.filter (·.register = r)).getLast? = some (.handedOut r)

instance (es : List Event) : DecidablePred (Outstanding es) :=
  fun _ => inferInstanceAs (Decidable (_ = _))

/-- All of them can be given back, one after the other. -/
def Returnable (es : List Event) (rs : List Register) : Prop := rs.Nodup ∧ ∀ r ∈ rs, Outstanding es r

/-- What a request is answered, and what happens on it, where `es` has happened before. -/
inductive Does (es : List Event) : Request → Answer → List Event → Prop where
  /-- The first register of the kind that is not outstanding. -/
  | allocate {k : Kind} {front back : List Register} {r : Register}
      (hpool : Register.pool k = front ++ r :: back) (hfront : ∀ q ∈ front, Outstanding es q)
      (hr : ¬ Outstanding es r) : Does es (.allocate k) (.ok (some r)) [.handedOut r]
  | exhausted {k : Kind} (hall : ∀ r ∈ Register.pool k, Outstanding es r) :
      Does es (.allocate k) (.error (.poolExhausted k)) []
  | release {r : Register} (hr : Outstanding es r) : Does es (.release r) (.ok none) [.givenBack r]
  | refuse {r : Register} (hr : ¬ Outstanding es r) :
      Does es (.release r) (.error (.notAllocated r)) []
  | releaseAll {rs : List (Option Register)} (hrs : Returnable es rs.reduceOption) :
      Does es (.releaseAll rs) (.ok none) (rs.reduceOption.map .givenBack)
  /-- Those before the first that cannot be given back, or that has just been, are given back. -/
  | stop {rs : List (Option Register)} {front back : List Register} {r : Register}
      (hrs : rs.reduceOption = front ++ r :: back) (hfront : Returnable es front)
      (hr : Outstanding es r → r ∈ front) :
      Does es (.releaseAll rs) (.error (.notAllocated r)) (front.map .givenBack)

/-- What requests are answered one after the other, and all that has happened behind them. -/
inductive Happens : List Event → List Request → List Answer → List Event → Prop where
  | nil {es : List Event} : Happens es [] [] es
  | cons {es new es' : List Event} {q : Request} {qs : List Request} {a : Answer} {as : List Answer}
      (hq : Does es q a new) (hqs : Happens (es ++ new) qs as es') : Happens es (q :: qs) (a :: as) es'

/-- The registers that have been handed out, in catalog order. -/
def held (c : Context) : List Register := Register.all.filter c.isHeld

/-- What a fresh context has become where `es` has happened to its pools. -/
structure Accounts (c : Context) (es : List Event) : Prop where
  held : ∀ r, r ∈ c.held ↔ Outstanding es r
  pooled : ∀ r, Outstanding es r → r.isPooled = true
  free : ∀ k, c.free k = (Register.pool k).filter fun r => ¬ Outstanding es r
  complement : ∀ k, c.free k = (Register.pool k).filter fun r => r ∉ c.held
  told : c.log = es.map Event.entry
  rest : c = { initial with pools := c.pools, log := c.log }
  /-- Where nothing happens, nothing changes. -/
  stays : ∀ q a, Does es q a [] → q.perform c = (a, c)
  clean : c.checkAllFree = .ok () ↔ ∀ r, ¬ Outstanding es r
  leak : ∀ f, c.checkAllFree = .error f ↔ ∃ front r back, Register.all = front ++ r :: back ∧
    (∀ q ∈ front, ¬ Outstanding es q) ∧ Outstanding es r ∧ f = .registerLeak r
  balanced : c.pools = initial.pools ↔ es.countP (·.isHandedOut) = es.countP (!·.isHandedOut)

section Complement

variable {c : Context} {r : Register}

theorem isHeld_eq_true : c.isHeld r = true ↔ r.isPooled = true ∧ r ∉ c.free r.kind := by
  simp [isHeld]

theorem mem_held : r ∈ c.held ↔ r.isPooled = true ∧ r ∉ c.free r.kind := by
  rw [held, List.mem_filter, isHeld_eq_true]
  exact and_iff_right r.mem_all

theorem pairwise_free (c : Context) (k : Kind) : (c.free k).Pairwise (·.rank < ·.rank) :=
  (c.pools.get k).pairwise_free

/-- A list in catalog order is the one of its members that are in a pool. -/
theorem free_eq_filter {k : Kind} {p : Register → Bool}
    (h : ∀ r ∈ Register.pool k, r ∈ c.free k ↔ p r = true) : c.free k = (Register.pool k).filter p := by
  have : Std.Irrefl fun q r : Register => q.rank < r.rank := ⟨fun r => Nat.lt_irrefl r.rank⟩
  refine (c.pairwise_free k).eq_of_mem_iff ((Register.pairwise_pool k).filter p) fun r => ?_
  rw [List.mem_filter]
  constructor
  · intro hr
    have hpool : r ∈ Register.pool k := pool_of_free hr
    exact ⟨hpool, (h r hpool).mp hr⟩
  · rintro ⟨hpool, hp⟩
    exact (h r hpool).mpr hp

/-- The pools are the complement of the registers that have been handed out. -/
theorem free_eq_notHeld (c : Context) (k : Kind) :
    c.free k = (Register.pool k).filter fun r => r ∉ c.held := by
  refine free_eq_filter fun r hr => ?_
  obtain ⟨hpooled, rfl⟩ := Register.mem_pool.mp hr
  rw [decide_eq_true_eq, mem_held]
  simp [hpooled]

end Complement

section Checks

theorem checkAllFree_eq_ok_iff {c : Context} : c.checkAllFree = .ok () ↔ ∀ r, r ∉ c.held := by
  have hnone : Register.all.find? c.isHeld = none ↔ ∀ r, r ∉ c.held := by
    simp [List.find?_eq_none, held, Register.mem_all]
  rw [checkAllFree, ← hnone]
  split
  · next r hr => exact iff_of_false nofun (by simp only [hr, reduceCtorEq, not_false_eq_true])
  · next hr => exact iff_of_true rfl hr

/-- The first register of the catalog that has been handed out is named. -/
theorem checkAllFree_eq_error_iff {c : Context} {f : Fault} :
    c.checkAllFree = .error f ↔ ∃ front r back, Register.all = front ++ r :: back ∧
      (∀ q ∈ front, q ∉ c.held) ∧ r ∈ c.held ∧ f = .registerLeak r := by
  have hheld (r : Register) : c.isHeld r = true ↔ r ∈ c.held := by
    rw [isHeld_eq_true, mem_held]
  have hfirst (r : Register) : Register.all.find? c.isHeld = some r ↔
      ∃ front back, Register.all = front ++ r :: back ∧ (∀ q ∈ front, q ∉ c.held) ∧ r ∈ c.held := by
    simp only [List.find?_eq_some_iff_append, hheld, Bool.not_eq_true', ← Bool.not_eq_true]
    exact ⟨fun ⟨hr, front, back, hall, hfront⟩ => ⟨front, back, hall, hfront, hr⟩,
      fun ⟨front, back, hall, hfront, hr⟩ => ⟨hr, front, back, hall, hfront⟩⟩
  constructor
  · intro h
    rw [checkAllFree] at h
    split at h
    · next r hr =>
      obtain ⟨front, back, hall, hfront, hheld⟩ := (hfirst r).mp hr
      exact ⟨front, r, back, hall, hfront, hheld, (Except.error.inj h).symm⟩
    · cases h
  · rintro ⟨front, r, back, hall, hfront, hheld, rfl⟩
    rw [checkAllFree, (hfirst r).mpr ⟨front, back, hall, hfront, hheld⟩]

end Checks

section Events

variable {es : List Event} {q r : Register}

theorem outstanding_nil (r : Register) : ¬ Outstanding [] r := nofun

theorem outstanding_concat (es : List Event) (e : Event) (r : Register) :
    Outstanding (es ++ [e]) r ↔ if e.register = r then e = .handedOut r else Outstanding es r := by
  unfold Outstanding
  rw [List.filter_append]
  split
  · next h => simp [h]
  · next h => simp [h]

theorem outstanding_handedOut :
    Outstanding (es ++ [.handedOut q]) r ↔ r = q ∨ Outstanding es r := by
  rw [outstanding_concat]
  by_cases h : q = r
  · simp [Event.register, h]
  · simp [Event.register, h, Ne.symm h]

theorem outstanding_givenBack :
    Outstanding (es ++ [.givenBack q]) r ↔ r ≠ q ∧ Outstanding es r := by
  rw [outstanding_concat]
  by_cases h : q = r
  · simp [Event.register, h]
  · simp [Event.register, h, Ne.symm h]

theorem outstanding_givenBacks (rs : List Register) :
    Outstanding (es ++ rs.map .givenBack) r ↔ r ∉ rs ∧ Outstanding es r := by
  induction rs generalizing es with
  | nil => simp
  | cons q rs ih =>
    rw [List.map_cons, List.append_cons, ih, outstanding_givenBack, List.mem_cons, not_or]
    exact and_left_comm.trans and_assoc.symm

theorem Returnable.tail {rs : List Register} (h : Returnable es (r :: rs)) :
    Outstanding es r ∧ Returnable (es ++ [.givenBack r]) rs := by
  obtain ⟨hnodup, hall⟩ := h
  obtain ⟨hr, hrs⟩ := List.forall_mem_cons.mp hall
  obtain ⟨hnot, hnodup⟩ := List.nodup_cons.mp hnodup
  refine ⟨hr, hnodup, fun q hq => outstanding_givenBack.mpr ⟨fun he => hnot (he ▸ hq), hrs q hq⟩⟩

/-- A list can be given back as a whole or up to the first register that cannot. -/
theorem returnable_or_stops (es : List Event) (rs : List Register) :
    Returnable es rs ∨ ∃ front r back, rs = front ++ r :: back ∧ Returnable es front ∧
      (Outstanding es r → r ∈ front) := by
  induction rs using List.reverseRecOn with
  | nil => exact .inl ⟨List.nodup_nil, nofun⟩
  | append_singleton rs r ih =>
    rcases ih with hrs | ⟨front, q, back, rfl, hfront, hq⟩
    · by_cases hr : Outstanding es r → r ∈ rs
      · exact .inr ⟨rs, r, [], rfl, hrs, hr⟩
      · obtain ⟨hout, hnot⟩ := Classical.not_imp.mp hr
        refine .inl ⟨?_, fun q hq => ?_⟩
        · rw [← List.concat_eq_append]
          exact (List.nodup_concat rs r).mpr ⟨hnot, hrs.1⟩
        rcases List.mem_append.mp hq with hq | hq
        · exact hrs.2 q hq
        · exact List.mem_singleton.mp hq ▸ hout
    · exact .inr ⟨front, q, back ++ [r], by simp, hfront, hq⟩

end Events

section Steps

variable {c : Context} {es new : List Event} {k : Kind} {r : Register}

/-- What carries the account from one request to the next. -/
structure Tallies (c : Context) (es : List Event) : Prop where
  free : ∀ k, ∀ r ∈ Register.pool k, r ∈ c.free k ↔ ¬ Outstanding es r
  pooled : ∀ r, Outstanding es r → r.isPooled = true
  count : c.pools.size + es.countP (·.isHandedOut) = 30 + es.countP (!·.isHandedOut)
  told : c.log = es.map Event.entry
  rest : c = { initial with pools := c.pools, log := c.log }

namespace Tallies

theorem start : initial.Tallies [] where
  free k r hr := by
    rw [free_initial]
    exact iff_of_true hr (outstanding_nil r)
  pooled r hr := absurd hr (outstanding_nil r)
  count := by
    have hsize : Pools.full.size = 30 := by
      simp [Pools.size, Pools.get_full, Pool.full, Register.length_pool]
    show Pools.full.size + 0 = 30 + 0
    rw [hsize]
  told := rfl
  rest := rfl

theorem free_eq (h : c.Tallies es) (k : Kind) :
    c.free k = (Register.pool k).filter fun r => ¬ Outstanding es r :=
  free_eq_filter fun r hr => (h.free k r hr).trans decide_eq_true_iff.symm

theorem mem_held (h : c.Tallies es) (r : Register) : r ∈ c.held ↔ Outstanding es r := by
  rw [Context.mem_held]
  constructor
  · rintro ⟨hpooled, hnot⟩
    have hpool : r ∈ Register.pool r.kind := Register.mem_pool.mpr ⟨hpooled, rfl⟩
    exact Decidable.of_not_not fun hr => hnot ((h.free _ r hpool).mpr hr)
  · intro hr
    have hpool : r ∈ Register.pool r.kind := Register.mem_pool.mpr ⟨h.pooled r hr, rfl⟩
    exact ⟨h.pooled r hr, fun hfree => (h.free _ r hpool).mp hfree hr⟩

/-- The first free register leaves its pool; the others stay where they are. -/
theorem allocate (h : c.Tallies es) {front back : List Register}
    (hpool : Register.pool k = front ++ r :: back) (hfront : ∀ q ∈ front, Outstanding es q)
    (hr : ¬ Outstanding es r) :
    ∃ c', c.allocate k = .ok (r, c') ∧ c'.Tallies (es ++ [.handedOut r]) := by
  have htaken : (front.filter fun r => ¬ Outstanding es r) = [] :=
    List.filter_eq_nil_iff.mpr fun q hq => by simpa using hfront q hq
  have hfree : c.free k = r :: back.filter fun r => ¬ Outstanding es r := by
    rw [h.free_eq, hpool, List.filter_append, htaken, List.nil_append,
      List.filter_cons_of_pos (by simpa using hr)]
  obtain ⟨pools, htake⟩ : ∃ pools, c.pools.take? k = some (r, pools) := by
    rcases htake : c.pools.take? k with _ | ⟨q, pools⟩
    · have hnil : c.free k = [] := Pools.take?_eq_none.mp htake
      cases hfree.symm.trans hnil
    · have hcons : c.free k = q :: (pools.get k).free := (Pools.free_take? htake).1
      obtain ⟨rfl, -⟩ := List.cons.inj (hfree.symm.trans hcons)
      exact ⟨pools, rfl⟩
  obtain ⟨hmem, hkind⟩ := Register.mem_pool.mp (Pools.mem_pool_of_take? htake)
  obtain ⟨hcons, hothers⟩ := Pools.free_take? htake
  obtain ⟨hbehind, -⟩ := List.pairwise_cons.mp (hcons ▸ (c.pools.get k).pairwise_free)
  have hnot : r ∉ (pools.get k).free := fun hr => Nat.lt_irrefl _ (hbehind r hr)
  refine ⟨{ c with pools }.note ("allocate " ++ r.name), by simp only [Context.allocate, htake], ?_⟩
  exact {
    free := fun j q hq => by
      show q ∈ (pools.get j).free ↔ _
      rw [outstanding_handedOut, not_or, ← h.free j q hq]
      by_cases hj : j = k
      · subst hj
        show _ ↔ q ≠ r ∧ q ∈ (c.pools.get j).free
        rw [hcons, List.mem_cons]
        constructor
        · intro hin
          exact ⟨fun he => hnot (he ▸ hin), .inr hin⟩
        · rintro ⟨hne, hin⟩
          exact hin.resolve_left hne
      · have hne : q ≠ r := by
          rintro rfl
          exact hj ((Register.mem_pool.mp hq).2.symm.trans hkind)
        rw [hothers j hj]
        exact (and_iff_right hne).symm
    pooled := fun q hq => (outstanding_handedOut.mp hq).elim (fun he => he ▸ hmem) (h.pooled q)
    count := by
      have hcount := h.count
      have hsize : c.pools.size = pools.size + 1 := Pools.size_take? htake
      simp only [note, List.countP_append, List.countP_singleton, Event.isHandedOut_handedOut,
        Bool.not_true, Bool.false_eq_true, if_false, if_true]
      omega
    told := by
      rw [List.map_append, ← h.told]
      rfl
    rest := by
      conv_lhs => rw [h.rest]
      rfl }

theorem exhausted (h : c.Tallies es) (hall : ∀ r ∈ Register.pool k, Outstanding es r) :
    c.allocate k = .error (.poolExhausted k) := by
  have hfree : c.free k = [] := by
    rw [h.free_eq]
    exact List.filter_eq_nil_iff.mpr fun r hr => by simpa using hall r hr
  have htake : c.pools.take? k = none := Pools.take?_eq_none.mpr hfree
  simp only [Context.allocate, htake]

/-- A register that is given back goes to its place in its pool. -/
theorem release (h : c.Tallies es) (hr : Outstanding es r) :
    ∃ c', c.release r = .ok c' ∧ c'.Tallies (es ++ [.givenBack r]) := by
  have hpooled : r.isPooled = true := h.pooled r hr
  have hpool : r ∈ Register.pool r.kind := Register.mem_pool.mpr ⟨hpooled, rfl⟩
  have hnot : r ∉ c.free r.kind := fun hfree => (h.free _ r hpool).mp hfree hr
  obtain ⟨pools, hgive⟩ : ∃ pools, c.pools.give? r = some pools := by
    refine Option.ne_none_iff_exists'.mp fun hnone => ?_
    rcases Pools.give?_eq_none.mp hnone with hn | hfree
    · cases hpooled.symm.trans hn
    · exact hnot hfree
  obtain ⟨-, -, hinsert, hothers⟩ := Pools.free_give? hgive
  refine ⟨{ c with pools }.note ("release " ++ r.name), by simp only [Context.release, hgive], ?_⟩
  exact {
    free := fun j q hq => by
      show q ∈ (pools.get j).free ↔ _
      rw [outstanding_givenBack, not_and_or, not_not, ← h.free j q hq]
      by_cases hj : j = r.kind
      · subst hj
        rw [hinsert]
        exact Register.mem_insertInto
      · have hne : q ≠ r := by
          rintro rfl
          exact hj (Register.mem_pool.mp hq).2.symm
        rw [hothers j hj]
        exact (or_iff_right hne).symm
    pooled := fun q hq => h.pooled q (outstanding_givenBack.mp hq).2
    count := by
      have hcount := h.count
      have hsize : pools.size = c.pools.size + 1 := Pools.size_give? hgive
      simp only [note, List.countP_append, List.countP_singleton, Event.isHandedOut_givenBack,
        Bool.not_false, Bool.false_eq_true, if_false, if_true]
      omega
    told := by
      rw [List.map_append, ← h.told]
      rfl
    rest := by
      conv_lhs => rw [h.rest]
      rfl }

theorem refuse (h : c.Tallies es) (hr : ¬ Outstanding es r) :
    c.release r = .error (.notAllocated r) := by
  have hgive : c.pools.give? r = none := by
    refine Pools.give?_eq_none.mpr ?_
    by_cases hpooled : r.isPooled = true
    · exact .inr ((h.free _ r (Register.mem_pool.mpr ⟨hpooled, rfl⟩)).mpr hr)
    · exact .inl (Bool.eq_false_iff.mpr hpooled)
  simp only [Context.release, hgive]

end Tallies

/-- Absent registers are passed over. -/
theorem releaseAll_reduceOption (c : Context) (rs : List (Option Register)) :
    c.releaseAll rs = c.releaseAll (rs.reduceOption.map some) := by
  induction rs generalizing c with
  | nil => rfl
  | cons r rs ih =>
    cases r with
    | none => exact ih c
    | some r =>
      rw [List.reduceOption_cons_of_some, List.map_cons, releaseAll, releaseAll]
      cases c.release r with
      | error f => rfl
      | ok c' => exact ih c'

/-- The registers in front are given back and the others are left to do. -/
theorem Tallies.releaseAll (h : c.Tallies es) {front : List Register} (hfront : Returnable es front) :
    ∃ c' : Context, c'.Tallies (es ++ front.map .givenBack) ∧ (front = [] → c' = c) ∧
      ∀ back, c.releaseAll ((front ++ back).map some) = c'.releaseAll (back.map some) := by
  induction front generalizing c es with
  | nil => exact ⟨c, by simpa using h, fun _ => rfl, fun back => rfl⟩
  | cons r front ih =>
    obtain ⟨hr, hfront⟩ := hfront.tail
    obtain ⟨c₁, hrelease, h₁⟩ := h.release hr
    obtain ⟨c', h', -, hrest⟩ := ih h₁ hfront
    refine ⟨c', by rwa [List.map_cons, List.append_cons], nofun, fun back => ?_⟩
    rw [List.cons_append, List.map_cons, Context.releaseAll, hrelease]
    exact hrest back

/-- The pools answer as the account says, and the account goes on. -/
theorem Tallies.perform (h : c.Tallies es) {q : Request} {a : Answer} (hq : Does es q a new) :
    ∃ c' : Context, q.perform c = (a, c') ∧ c'.Tallies (es ++ new) ∧ (new = [] → c' = c) := by
  cases hq with
  | allocate hpool hfront hr =>
    obtain ⟨c', hok, h'⟩ := h.allocate hpool hfront hr
    exact ⟨c', by simp only [Request.perform, hok], h', nofun⟩
  | exhausted hall =>
    exact ⟨c, by simp only [Request.perform, h.exhausted hall], by rwa [List.append_nil], fun _ => rfl⟩
  | release hr =>
    obtain ⟨c', hok, h'⟩ := h.release hr
    exact ⟨c', by simp only [Request.perform, hok], h', nofun⟩
  | refuse hr =>
    exact ⟨c, by simp only [Request.perform, h.refuse hr], by rwa [List.append_nil], fun _ => rfl⟩
  | @releaseAll rs hrs =>
    obtain ⟨c', h', hnone, hall⟩ := h.releaseAll hrs
    have hdone : c.releaseAll rs = (c', .ok ()) := by
      have hback := hall []
      rwa [List.append_nil, ← releaseAll_reduceOption] at hback
    exact ⟨c', by rw [Request.perform, hdone]; rfl, h', fun he => hnone (List.map_eq_nil_iff.mp he)⟩
  | @stop rs front back r hrs hfront hr =>
    obtain ⟨c', h', hnone, hall⟩ := h.releaseAll hfront
    have hnot : ¬ Outstanding (es ++ front.map .givenBack) r := by
      rw [outstanding_givenBacks]
      exact fun ⟨hnot, hout⟩ => hnot (hr hout)
    have hdone : c.releaseAll rs = (c', .error (.notAllocated r)) := by
      rw [releaseAll_reduceOption, hrs, hall, List.map_cons, Context.releaseAll, h'.refuse hnot]
    exact ⟨c', by rw [Request.perform, hdone]; rfl, h', fun he => hnone (List.map_eq_nil_iff.mp he)⟩

/-- Whatever has happened, something can be said to every request. -/
theorem exists_does (es : List Event) (q : Request) : ∃ a new, Does es q a new := by
  cases q with
  | allocate k =>
    by_cases hall : ∀ r ∈ Register.pool k, Outstanding es r
    · exact ⟨_, _, .exhausted hall⟩
    · have hsome : ((Register.pool k).find? fun r => ¬ Outstanding es r).isSome := by
        rw [List.find?_isSome]
        push Not at hall
        simpa using hall
      obtain ⟨r, hr⟩ := Option.isSome_iff_exists.mp hsome
      obtain ⟨hfree, front, back, hpool, hfront⟩ := List.find?_eq_some_iff_append.mp hr
      exact ⟨_, _, .allocate hpool (by simpa using hfront) (by simpa using hfree)⟩
  | release r =>
    by_cases hr : Outstanding es r
    · exact ⟨_, _, .release hr⟩
    · exact ⟨_, _, .refuse hr⟩
  | releaseAll rs =>
    rcases returnable_or_stops es rs.reduceOption with hrs | ⟨front, r, back, hrs, hfront, hr⟩
    · exact ⟨_, _, .releaseAll hrs⟩
    · exact ⟨_, _, .stop hrs hfront hr⟩

end Steps

section Runs

variable {c : Context} {es es' : List Event} {qs : List Request} {as : List Answer}

theorem exists_happens (es : List Event) (qs : List Request) : ∃ as es', Happens es qs as es' := by
  induction qs generalizing es with
  | nil => exact ⟨[], es, .nil⟩
  | cons q qs ih =>
    obtain ⟨a, new, hq⟩ := exists_does es q
    obtain ⟨as, es', hqs⟩ := ih (es ++ new)
    exact ⟨a :: as, es', .cons hq hqs⟩

theorem Tallies.performAll (h : c.Tallies es) (hqs : Happens es qs as es') :
    ∃ c', performAll qs c = (as, c') ∧ c'.Tallies es' := by
  induction hqs generalizing c with
  | nil => exact ⟨c, rfl, h⟩
  | cons hq _ ih =>
    obtain ⟨c₁, hfirst, h₁, -⟩ := h.perform hq
    obtain ⟨c', hrest, h'⟩ := ih h₁
    exact ⟨c', by simp only [Context.performAll, hfirst, hrest], h'⟩

/-- The pools are the first ones again as soon as they have all their registers. -/
theorem pools_eq_initial : c.pools = initial.pools ↔ c.pools.size = 30 := by
  have hlength (k : Kind) : (c.free k).length ≤ 10 :=
    Register.length_pool k ▸ (c.pools.get k).within.length_le
  have hsum : c.pools.size = (c.free .text).length + (c.free .int).length + (c.free .float).length := rfl
  constructor
  · intro h
    have hfull (k : Kind) : (c.free k).length = 10 := by
      rw [free_congr h, free_initial, Register.length_pool]
    rw [hsum, hfull, hfull, hfull]
  · intro h
    have htext := hlength .text
    have hint := hlength .int
    have hfloat := hlength .float
    refine Pools.ext fun k => ?_
    have hfull : (c.free k).length = (Register.pool k).length := by
      rw [Register.length_pool]
      cases k <;> omega
    have hpool : c.free k = Register.pool k := (c.pools.get k).within.eq_of_length hfull
    exact hpool.trans (free_initial k).symm

theorem Tallies.accounts (h : c.Tallies es) : c.Accounts es where
  held := h.mem_held
  pooled := h.pooled
  free := h.free_eq
  complement := c.free_eq_notHeld
  told := h.told
  rest := h.rest
  stays q a hq := by
    obtain ⟨c', hperform, -, hsame⟩ := h.perform hq
    rw [hperform, hsame rfl]
  clean := by simp only [checkAllFree_eq_ok_iff, h.mem_held]
  leak f := by simp only [checkAllFree_eq_error_iff, h.mem_held]
  balanced := by
    have hcount := h.count
    rw [pools_eq_initial]
    omega

end Runs

/-- The pools account for every register. Each sequence of requests has an account of what is handed out
and given back on it, the answers are the ones of the account, and it says what the context has become:
which registers are handed out, what the three pools hold and tell, and that they are the first ones again
where as many registers have been given back as handed out. -/
theorem pools_account (qs : List Request) :
    (∀ k, (Register.pool k).length = 10) ∧
      (∃ as es, Happens [] qs as es) ∧
      ∀ as es, Happens [] qs as es →
        (performAll qs initial).1 = as ∧ (performAll qs initial).2.Accounts es := by
  refine ⟨Register.length_pool, exists_happens [] qs, fun as es hqs => ?_⟩
  obtain ⟨c, hrun, h⟩ := Tallies.start.performAll hqs
  rw [hrun]
  exact ⟨rfl, h.accounts⟩

/-- Three registers are taken. A user register and a system register cannot be given back, and a list that
names the first register twice is given back up to that; the register is taken again, and in the end all
are free. -/
theorem pools_account_stoppedRelease :
    let qs : List Request := [.allocate .int, .allocate .int, .allocate .text, .release (.usr 0),
      .release .rslt, .releaseAll [some (.int 0), none, some (.int 0), some (.dat 0)], .allocate .int,
      .releaseAll [some (.dat 0), some (.int 1), some (.int 0)]]
    let as : List Answer := [.ok (some (.int 0)), .ok (some (.int 1)), .ok (some (.dat 0)),
      .error (.notAllocated (.usr 0)), .error (.notAllocated .rslt), .error (.notAllocated (.int 0)),
      .ok (some (.int 0)), .ok none]
    let es : List Event := [.handedOut (.int 0), .handedOut (.int 1), .handedOut (.dat 0),
      .givenBack (.int 0), .handedOut (.int 0), .givenBack (.dat 0), .givenBack (.int 1),
      .givenBack (.int 0)]
    Happens [] qs as es ∧
      (performAll qs initial).1 = as ∧ (performAll qs initial).2.Accounts es := by
  intro qs as es
  have hint : Register.pool .int = [] ++ .int 0 :: (Register.pool .int).drop 1 := by decide +kernel
  have hnext : Register.pool .int = [.int 0] ++ .int 1 :: (Register.pool .int).drop 2 := by
    decide +kernel
  have htext : Register.pool .text = [] ++ .dat 0 :: (Register.pool .text).drop 1 := by decide +kernel
  have hfirst : Does [] (.allocate .int) (.ok (some (.int 0))) [.handedOut (.int 0)] :=
    .allocate hint (by decide) (by decide)
  have hsecond : Does (es.take 1) (.allocate .int) (.ok (some (.int 1))) [.handedOut (.int 1)] :=
    .allocate hnext (by decide) (by decide)
  have hthird : Does (es.take 2) (.allocate .text) (.ok (some (.dat 0))) [.handedOut (.dat 0)] :=
    .allocate htext (by decide) (by decide)
  have hstop : Does (es.take 3) (.releaseAll [some (.int 0), none, some (.int 0), some (.dat 0)])
      (.error (.notAllocated (.int 0))) [.givenBack (.int 0)] :=
    .stop (show _ = [.int 0] ++ .int 0 :: [.dat 0] from rfl) ⟨by decide, by decide⟩ (by decide)
  have hagain : Does (es.take 4) (.allocate .int) (.ok (some (.int 0))) [.handedOut (.int 0)] :=
    .allocate hint (by decide) (by decide)
  have hall : Does (es.take 5) (.releaseAll [some (.dat 0), some (.int 1), some (.int 0)]) (.ok none)
      [.givenBack (.dat 0), .givenBack (.int 1), .givenBack (.int 0)] :=
    .releaseAll ⟨by decide, by decide⟩
  have hqs : Happens [] qs as es :=
    .cons hfirst <| .cons hsecond <| .cons hthird <| .cons (.refuse (by decide)) <|
      .cons (.refuse (by decide)) <| .cons hstop <| .cons hagain <| .cons hall .nil
  exact ⟨hqs, (pools_account qs).2.2 as es hqs⟩

end Handheld.Context
