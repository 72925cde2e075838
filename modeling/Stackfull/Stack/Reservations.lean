import Mathlib.Data.Finset.Card
import Stackfull.Stack.PooledStackAllocatorSafety

/-!
# What a reservation depends on

Calls one after the other. A size that is reserved gets a class of the reserve, with the largest
count that was asked for as its target. `takeFromReserve` uses the same `findOrAddReserve` as
`reserve`, so a size that is only allocated takes a class as well, and the size 0 finds the first free
class, which is how its target is set for whatever size comes next. `reservations_by_request` says
that with these two kinds of calls excluded a reservation depends only on the reservations before it.
-/

set_option autoImplicit false
set_option relaxedAutoImplicit false
set_option linter.dupNamespace false

namespace Stackfull.Stack

open Stackfull.Lib

universe u

/-! ### Calls one after the other -/

/-- The action begins a call. -/
def Action.starts : Action → Bool
  | .allocate _ _ | .deallocate _ _ | .reserve _ _ | .exit => true
  | .advance _ | .write _ _ | .destroy | .drain _ => false

/-- The pool, with a call only when no other is in progress. -/
def sequential (Θ : Type u) [DecidableEq Θ] (o : Options) : System (State Θ) (Θ × Action) where
  init s := s = State.initial
  step s label :=
    if label.2.starts = true ∧ s.calling ≠ [] then none else State.step o s label

/-- The largest count that was requested for a size. -/
def maxRequested (requests : List (ℕ × ℕ)) (size : ℕ) : ℕ :=
  ((requests.filter (·.1 = size)).map Prod.snd).foldr max 0

/-- The other sizes that were requested, not counting 0. -/
def otherSizes (requests : List (ℕ × ℕ)) (size : ℕ) : Finset ℕ :=
  (requests.map Prod.fst).toFinset.filter fun other ↦ other ≠ size ∧ other ≠ 0

variable {Θ : Type u} [DecidableEq Θ]

/-- Reservations depend only on reservations. -/
structure ByRequest (o : Options) (s : State Θ) : Prop where
  refused : ∀ r ∈ s.reserved, 0 < r.size → r.asked = false → r.result = 0 →
    kMaxSizeClasses ≤ (otherSizes s.requests (o.roundUpToPage r.size)).card
  used : ∀ i, (s.pool.reserves i).size ≠ 0 → ∃ count, ((s.pool.reserves i).size, count) ∈ s.requests
  target : ∀ i, (s.pool.reserves i).size ≠ 0 →
    (s.pool.reserves i).target = maxRequested s.requests (s.pool.reserves i).size
  refilled : ∀ t answer stack s', s.pc t = .giveReserve stack →
    s.step o (t, .advance answer) = some s' → ∀ i,
      (s.pool.reserves i).count < (s'.pool.reserves i).count →
        (s.pool.reserves i).size = stack.size ∧
          (s.pool.reserves i).count < maxRequested s.requests stack.size

/-- A class of the reserve is taken by the size. -/
def Pool.HasClass (p : Pool Θ) (size : ℕ) : Prop := ∃ i, (p.reserves i).size = size

instance (p : Pool Θ) (size : ℕ) : Decidable (p.HasClass size) :=
  inferInstanceAs (Decidable (∃ _, _))

/-- The condition on a step. An allocation turns to the reserve only for a size that has a class there
(or for the size 0, or when no class is free). A reservation that finds a class is for a size other
than 0, and for at least one stack if none of the size was asked for before; a request for no stacks
of no size is harmless. -/
def Reserving (o : Options) (s : State Θ) : Θ × Action → Prop
  | (t, .advance _) =>
    let size := o.roundUpToPage (s.argument t)
    s.pc t = .takeReserve → s.pool.HasClass size ∨ size = 0 ∨ ¬ s.pool.HasClass 0
  | (_, .reserve size count) =>
    let rounded := o.roundUpToPage size
    ∀ i ∈ findOrAdd s.pool.reserveClasses rounded,
      (rounded ≠ 0 ∧ (count ≠ 0 ∨ (s.pool.reserves i).target ≠ 0)) ∨ (size = 0 ∧ count = 0)
  | _ => True

instance (o : Options) (s : State Θ) (label : Θ × Action) : Decidable (Reserving o s label) :=
  match label with
  | (_, .advance _) => inferInstanceAs (Decidable (_ → _))
  | (_, .reserve _ _) => inferInstanceAs (Decidable (∀ _ ∈ _, _))
  | (_, .allocate _ _) | (_, .deallocate _ _) | (_, .exit) | (_, .write _ _) | (_, .destroy)
  | (_, .drain _) => inferInstanceAs (Decidable True)

theorem Options.roundUpToPage_zero (o : Options) : o.roundUpToPage 0 = 0 := by
  have hpage : 0 < o.page := lt_of_lt_of_le (by decide) o.node_fits
  have hlt : (0 + o.page - 1) % sizeLimit < o.page :=
    lt_of_le_of_lt (Nat.mod_le _ _) (by omega)
  rw [Options.roundUpToPage, Nat.div_eq_of_lt hlt, Nat.zero_mul]

/-! ### What was requested -/

section Requests

variable {requests : List (ℕ × ℕ)} {size other count : ℕ}

theorem maxRequested_cons_self :
    maxRequested ((size, count) :: requests) size = max count (maxRequested requests size) := by
  simp [maxRequested]

theorem maxRequested_cons_of_ne (h : other ≠ size) :
    maxRequested ((size, count) :: requests) other = maxRequested requests other := by
  simp [maxRequested, h.symm]

theorem maxRequested_eq_zero (h : ∀ count, (size, count) ∉ requests) :
    maxRequested requests size = 0 := by
  have hnone : requests.filter (·.1 = size) = [] := by
    refine List.filter_eq_nil_iff.mpr fun r hr heq ↦ h r.2 ?_
    rw [← of_decide_eq_true heq]
    exact hr
  rw [maxRequested, hnone]
  rfl

theorem otherSizes_subset_cons (request : ℕ × ℕ) :
    otherSizes requests size ⊆ otherSizes (request :: requests) size := by
  refine Finset.filter_subset_filter _ ?_
  rw [List.map_cons, List.toFinset_cons]
  exact Finset.subset_insert _ _

end Requests

/-- Sizes and targets follow the requests. -/
structure Facts (sizes targets : Fin kMaxSizeClasses → ℕ) (requests : List (ℕ × ℕ)) : Prop where
  used : ∀ i, sizes i ≠ 0 → ∃ count, (sizes i, count) ∈ requests
  target : ∀ i, sizes i ≠ 0 → targets i = maxRequested requests (sizes i)
  free : ∀ i, sizes i = 0 → targets i = 0
  distinct : ∀ i j, sizes i = sizes j → sizes i ≠ 0 → i = j
  registered : ∀ n count, (n, count) ∈ requests → n ≠ 0 → (∃ i, sizes i = n) ∨ ∀ i, sizes i ≠ 0

namespace Facts

variable {sizes targets : Fin kMaxSizeClasses → ℕ} {requests : List (ℕ × ℕ)} {n count : ℕ}
  {i : Fin kMaxSizeClasses}

/-- When every class is taken by another size, as many other sizes have been reserved. -/
theorem card_otherSizes (h : Facts sizes targets requests) (hfull : ∀ i, sizes i ≠ 0)
    (hnot : ∀ i, sizes i ≠ n) : kMaxSizeClasses ≤ (otherSizes requests n).card := by
  have hinjective : Function.Injective sizes := fun i j heq ↦ h.distinct i j heq (hfull i)
  have hcard : (Finset.univ.image sizes).card = kMaxSizeClasses := by
    rw [Finset.card_image_of_injective _ hinjective, Finset.card_fin]
  rw [← hcard]
  refine Finset.card_le_card fun m hm ↦ ?_
  obtain ⟨i, -, rfl⟩ := Finset.mem_image.mp hm
  obtain ⟨count, hcount⟩ := h.used i (hfull i)
  refine Finset.mem_filter.mpr ⟨?_, hnot i, hfull i⟩
  exact List.mem_toFinset.mpr (List.mem_map.mpr ⟨_, hcount, rfl⟩)

/-- A request that finds no class changes nothing. -/
theorem refuse (h : Facts sizes targets requests) (hfull : ∀ i, sizes i ≠ 0) (hnot : ∀ i, sizes i ≠ n) :
    Facts sizes targets ((n, count) :: requests) where
  used i hi := (h.used i hi).imp fun _ hmem ↦ List.mem_cons_of_mem _ hmem
  target i hi := by
    rw [maxRequested_cons_of_ne (hnot i)]
    exact h.target i hi
  free := h.free
  distinct := h.distinct
  registered _ _ _ _ := .inr hfull

/-- A request for the size 0 that sets no target changes nothing either. -/
theorem nothing (h : Facts sizes targets requests) : Facts sizes targets ((0, count) :: requests) where
  used i hi := (h.used i hi).imp fun _ hmem ↦ List.mem_cons_of_mem _ hmem
  target i hi := by
    rw [maxRequested_cons_of_ne hi]
    exact h.target i hi
  free := h.free
  distinct := h.distinct
  registered m _ hmem hm := by
    rcases List.mem_cons.mp hmem with heq | hold
    · exact absurd (Prod.mk.inj heq).1 hm
    · exact h.registered m _ hold hm

/-- A request for a size gives it the class that it has or a free one. -/
theorem request (h : Facts sizes targets requests) (hn : n ≠ 0)
    (hi : sizes i = n ∨ (sizes i = 0 ∧ ∀ j, sizes j ≠ n)) :
    Facts (Function.update sizes i n) (Function.update targets i (max (targets i) count))
      ((n, count) :: requests) := by
  have hother : ∀ j, j ≠ i → sizes j ≠ n := by
    intro j hj heq
    rcases hi with hfound | ⟨-, hnone⟩
    · exact hj (h.distinct j i (heq.trans hfound.symm) (heq ▸ hn))
    · exact hnone j heq
  have hmax : targets i = maxRequested requests n := by
    rcases hi with rfl | ⟨hfree, hnone⟩
    · exact h.target i hn
    · rw [h.free i hfree, maxRequested_eq_zero]
      intro count' hmem
      rcases h.registered n count' hmem hn with ⟨j, hj⟩ | hfull
      · exact hnone j hj
      · exact hfull i hfree
  refine ⟨fun j hj ↦ ?_, fun j hj ↦ ?_, fun j hj ↦ ?_, fun j k heq hj ↦ ?_, fun m count' hmem hm ↦ ?_⟩
  · rcases eq_or_ne j i with rfl | hne
    · rw [Function.update_self]
      exact ⟨count, List.mem_cons_self⟩
    · rw [Function.update_of_ne hne] at hj ⊢
      exact (h.used j hj).imp fun _ hmem ↦ List.mem_cons_of_mem _ hmem
  · rcases eq_or_ne j i with rfl | hne
    · rw [Function.update_self, Function.update_self, maxRequested_cons_self, hmax, max_comm]
    · rw [Function.update_of_ne hne] at hj
      rw [Function.update_of_ne hne, Function.update_of_ne hne,
        maxRequested_cons_of_ne (hother j hne)]
      exact h.target j hj
  · rcases eq_or_ne j i with rfl | hne
    · rw [Function.update_self] at hj
      exact absurd hj hn
    · rw [Function.update_of_ne hne] at hj ⊢
      exact h.free j hj
  · rcases eq_or_ne j i with rfl | hne <;> rcases eq_or_ne k j with rfl | hne'
    · rfl
    · rw [Function.update_self, Function.update_of_ne hne'] at heq
      exact absurd heq.symm (hother k hne')
    · rfl
    · rw [Function.update_of_ne hne] at heq hj
      rcases eq_or_ne k i with rfl | hki
      · rw [Function.update_self] at heq
        exact absurd heq (hother j hne)
      · rw [Function.update_of_ne hki] at heq
        exact h.distinct j k heq hj
  · rcases eq_or_ne m n with rfl | hmn
    · exact .inl ⟨i, Function.update_self ..⟩
    · have hold : (m, count') ∈ requests := by
        rcases List.mem_cons.mp hmem with heq | hold
        · exact absurd (Prod.mk.inj heq).1 hmn
        · exact hold
      rcases h.registered m count' hold hm with ⟨j, hj⟩ | hfull
      · refine .inl ⟨j, ?_⟩
        rw [Function.update_of_ne, hj]
        rintro rfl
        rcases hi with hfound | ⟨hfree, -⟩
        · exact hmn (hj.symm.trans hfound)
        · exact hm (hj.symm.trans hfree)
      · refine .inr fun j ↦ ?_
        rcases eq_or_ne j i with rfl | hne
        · rwa [Function.update_self]
        · rw [Function.update_of_ne hne]
          exact hfull j

end Facts

/-! ### Finding a class of the reserve -/

section Find

variable {classes : Fin kMaxSizeClasses → SizeClass} {size : ℕ} {i : Fin kMaxSizeClasses}

theorem findClass_eq_none : findClass classes size = none ↔ ∀ i, (classes i).size ≠ size := by
  simp [findClass, List.find?_eq_none]

/-- No class is found or added: all are taken by other sizes. -/
theorem findOrAdd_eq_none (h : findOrAdd classes size = none) :
    (∀ i, (classes i).size ≠ 0) ∧ ∀ i, (classes i).size ≠ size := by
  obtain ⟨hsize, hfree⟩ := Option.or_eq_none_iff.mp h
  exact ⟨findClass_eq_none.mp hfree, findClass_eq_none.mp hsize⟩

/-- The class found has the size, or the one added is free and no class has the size. -/
theorem findOrAdd_eq_some (h : findOrAdd classes size = some i) :
    (classes i).size = size ∨ ((classes i).size = 0 ∧ ∀ j, (classes j).size ≠ size) := by
  rcases Option.or_eq_some_iff.mp h with hfound | ⟨hnone, hfree⟩
  · exact .inl (size_of_findClass hfound)
  · exact .inr ⟨size_of_findClass hfree, findClass_eq_none.mp hnone⟩

end Find

/-! ### The table of the reserve -/

/-- The sizes and targets of the reserve are the same. -/
def SameTable (p p' : Pool Θ) : Prop :=
  ∀ i, (p'.reserves i).size = (p.reserves i).size ∧ (p'.reserves i).target = (p.reserves i).target

namespace SameTable

variable {p p' p'' : Pool Θ} {i : Fin kMaxSizeClasses} {size : ℕ}

omit [DecidableEq Θ] in
theorem of_reserves (h : p'.reserves = p.reserves) : SameTable p p' :=
  fun _ ↦ by rw [h]; exact ⟨rfl, rfl⟩

omit [DecidableEq Θ] in
theorem trans (h : SameTable p p') (h' : SameTable p' p'') : SameTable p p'' :=
  fun i ↦ ⟨(h' i).1.trans (h i).1, (h' i).2.trans (h i).2⟩

omit [DecidableEq Θ] in
theorem pushReserve (p : Pool Θ) (i : Fin kMaxSizeClasses) (stack : StackView) :
    SameTable p (p.pushReserve i stack) := by
  intro j
  rcases eq_or_ne j i with rfl | hne
  · simp [Pool.pushReserve, SizeClass.push]
  · simp [Pool.pushReserve, hne]

omit [DecidableEq Θ] in
theorem popReserve (p : Pool Θ) (i : Fin kMaxSizeClasses) : SameTable p (p.popReserve i) := by
  intro j
  rcases eq_or_ne j i with rfl | hne
  · simp [Pool.popReserve, Pool.setReserve, SizeClass.pop]
  · simp [Pool.popReserve, Pool.setReserve, hne]

omit [DecidableEq Θ] in
/-- A class that is found keeps its size. -/
theorem found (h : (p.reserves i).size = size) :
    SameTable p (p.setReserve i { p.reserves i with size := size }) := by
  subst h
  exact of_reserves (Function.update_eq_self _ _)

omit [DecidableEq Θ] in
theorem stow (batch : List StackView) (p : Pool Θ) (i : Fin kMaxSizeClasses) :
    SameTable p (batch.foldl (fun pool stack ↦ pool.pushReserve i stack) p) := by
  induction batch generalizing p with
  | nil => exact of_reserves rfl
  | cons stack batch ih => exact (pushReserve p i stack).trans (ih _)

theorem refill {t : Θ} {o : Options} {reserveClass sizeClass : Fin kMaxSizeClasses} (n : ℕ)
    (p : Pool Θ) : SameTable p (Pool.refill t o reserveClass sizeClass size n p) := by
  induction n generalizing p with
  | zero => exact of_reserves rfl
  | succ n ih =>
    rw [Pool.refill]
    split
    · exact (popReserve p reserveClass).trans ((of_reserves rfl).trans (ih _))
    · exact of_reserves rfl

omit [DecidableEq Θ] in
theorem facts (h : SameTable p p') {requests : List (ℕ × ℕ)}
    (hfacts : Facts (fun i ↦ (p.reserves i).size) (fun i ↦ (p.reserves i).target) requests) :
    Facts (fun i ↦ (p'.reserves i).size) (fun i ↦ (p'.reserves i).target) requests := by
  have hsizes : (fun i ↦ (p'.reserves i).size) = fun i ↦ (p.reserves i).size :=
    funext fun i ↦ (h i).1
  have htargets : (fun i ↦ (p'.reserves i).target) = fun i ↦ (p.reserves i).target :=
    funext fun i ↦ (h i).2
  rwa [hsizes, htargets]

omit [DecidableEq Θ] in
theorem hasClass (h : SameTable p p') (hclass : p.HasClass size) : p'.HasClass size :=
  hclass.imp fun i hi ↦ (h i).1.trans hi

/-- An allocation that turns to the reserve only looks, if its size has a class there, is 0, or
finds none free. -/
theorem takeFromReserve {t : Θ} {o : Options}
    (hsize : p.HasClass size ∨ size = 0 ∨ ¬ p.HasClass 0) :
    SameTable p (p.takeFromReserve t o size).1 := by
  unfold Pool.takeFromReserve
  split
  · exact of_reserves rfl
  · rename_i i hi
    have hfound : SameTable p (p.setReserve i { p.reserves i with size := size }) := by
      refine found ?_
      rcases findOrAdd_eq_some hi with hi | ⟨hfree, hnone⟩
      · exact hi
      · rcases hsize with ⟨j, hj⟩ | rfl | hfull
        · exact absurd hj (hnone j)
        · exact hfree
        · exact absurd ⟨i, hfree⟩ hfull
    dsimp only
    split
    · exact hfound
    · split
      · exact hfound.trans (popReserve _ i)
      · exact (hfound.trans (popReserve _ i)).trans ((of_reserves rfl).trans (refill _ _))

end SameTable

theorem currentCache_reserves (p : Pool Θ) (t : Θ) (created : Bool) :
    (p.currentCache t created).reserves = p.reserves := by
  unfold Pool.currentCache
  split <;> rfl

theorem keep_reserves {p p' : Pool Θ} {t : Θ} {o : Options} {stack : StackView}
    (hkeep : p.keep t o stack = some p') : p'.reserves = p.reserves := by
  obtain ⟨-, hkeep⟩ := Option.ite_none_right_eq_some.mp hkeep
  obtain ⟨i, -, rfl⟩ := Option.map_eq_some_iff.mp hkeep
  rfl

omit [DecidableEq Θ] in
theorem obtainMany_reserves {p p' : Pool Θ} {size : ℕ} {batch : List StackView}
    (hobtain : Pool.obtainMany size batch p = some p') : p'.reserves = p.reserves := by
  induction batch generalizing p with
  | nil =>
    cases hobtain
    rfl
  | cons v batch ih =>
    obtain ⟨-, hobtain⟩ := Option.ite_none_right_eq_some.mp hobtain
    exact (ih hobtain).trans rfl

/-! ### The invariant -/

/-- Places after the first section of `reserve`. -/
def Pc.reserving : Pc → Bool
  | .prewarm _ | .stow _ _ _ | .count _ => true
  | _ => false

/-- The table follows the requests, and what was refused was refused with reason. One thread at most
is in a call; if it is in `reserve`, its size has a class, and if it has not asked upstream, stacks are
held that were asked for. -/
structure Accounted (o : Options) (s : State Θ) : Prop where
  facts : Facts (fun i ↦ (s.pool.reserves i).size) (fun i ↦ (s.pool.reserves i).target) s.requests
  refused : ∀ r ∈ s.reserved, 0 < r.size → r.asked = false → r.result = 0 →
    kMaxSizeClasses ≤ (otherSizes s.requests (o.roundUpToPage r.size)).card
  alone : ∀ t t', s.pc t ≠ .idle → s.pc t' ≠ .idle → t = t'
  known : ∀ t, (s.pc t).reserving = true → s.pool.HasClass (o.roundUpToPage (s.argument t))
  counting : ∀ t, s.pc t = .count false → s.argument t = 0 ∨
    ∃ i, (s.pool.reserves i).size = o.roundUpToPage (s.argument t) ∧
      o.roundUpToPage (s.argument t) ≠ 0 ∧ 0 < (s.pool.reserves i).count

namespace Accounted

variable {o : Options} {s s' : State Θ} {t : Θ} {pool : Pool Θ} {pc : Pc}

omit [DecidableEq Θ] in
theorem initial : Accounted o (State.initial : State Θ) where
  facts :=
    { used := fun _ h ↦ absurd rfl h
      target := fun _ h ↦ absurd rfl h
      free := fun _ _ ↦ rfl
      distinct := fun _ _ _ h ↦ absurd rfl h
      registered := fun _ _ h ↦ by cases h }
  refused := List.forall_mem_nil _
  alone _ _ h := absurd rfl h
  known _ h := by cases h
  counting _ h := by cases h

/-- What `counting` says for a thread that goes to its last section with this pool. -/
def Held (o : Options) (s : State Θ) (t : Θ) (pool : Pool Θ) : Prop :=
  s.argument t = 0 ∨ ∃ i, (pool.reserves i).size = o.roundUpToPage (s.argument t) ∧
    o.roundUpToPage (s.argument t) ≠ 0 ∧ 0 < (pool.reserves i).count

/-- The only thread that is in a call goes on. -/
theorem move (h : Accounted o s) (hothers : ∀ t', t' ≠ t → s.pc t' = .idle)
    (htable : SameTable s.pool pool)
    (hknown : pc.reserving = true → s.pool.HasClass (o.roundUpToPage (s.argument t)))
    (hcount : pc = .count false → Held o s t pool) : Accounted o ((s.withPool pool).goto t pc) := by
  have hself : ∀ {t'}, ((s.withPool pool).goto t pc).pc t' ≠ .idle → t' = t := by
    intro t' hbusy
    by_contra hne
    exact hbusy ((Function.update_of_ne hne _ _).trans (hothers t' hne))
  have hpc : ((s.withPool pool).goto t pc).pc t = pc := Function.update_self ..
  refine ⟨?_, h.refused, fun t₁ t₂ h₁ h₂ ↦ (hself h₁).trans (hself h₂).symm, fun t' ht' ↦ ?_,
    fun t' ht' ↦ ?_⟩
  · exact htable.facts h.facts
  · have hsame := hself fun heq ↦ by rw [heq] at ht'; cases ht'
    subst hsame
    rw [hpc] at ht'
    exact htable.hasClass (hknown ht')
  · have hsame := hself fun heq ↦ by rw [heq] at ht'; cases ht'
    subst hsame
    rw [hpc] at ht'
    exact hcount ht'

/-- It goes to a place outside `reserve`. -/
theorem leave (h : Accounted o s) (hothers : ∀ t', t' ≠ t → s.pc t' = .idle)
    (htable : SameTable s.pool pool) (hpc : pc.reserving = false) :
    Accounted o ((s.withPool pool).goto t pc) := by
  refine h.move hothers htable (fun hreserving ↦ ?_) fun heq ↦ ?_
  · rw [hpc] at hreserving
    cases hreserving
  · rw [heq] at hpc
    cases hpc

/-- `allocate` returns a stack. -/
theorem grant (h : Accounted o s) (hothers : ∀ t', t' ≠ t → s.pc t' = .idle)
    (htable : SameTable s.pool pool) (v : StackView) : Accounted o ((s.withPool pool).grant t v) := by
  have hlogged : Accounted o { s with granted := (s.argument t, v) :: s.granted } := { h with }
  have htable' : SameTable s.pool { pool with handedOut := v :: pool.handedOut } := htable
  exact hlogged.leave hothers htable' rfl

/-- A call begins. -/
theorem call (h : Accounted o s) (hidle : s.pc t = .idle) (size : ℕ) :
    Accounted o { s with argument := Function.update s.argument t size } where
  facts := h.facts
  refused := h.refused
  alone := h.alone
  known t' ht' := by
    have hne : t' ≠ t := fun heq ↦ by rw [heq, hidle] at ht'; cases ht'
    simpa [hne] using h.known t' ht'
  counting t' ht' := by
    have hne : t' ≠ t := fun heq ↦ by rw [heq, hidle] at ht'; cases ht'
    simpa [hne] using h.counting t' ht'

theorem allocate (h : Accounted o s) (hidle : ∀ t, s.pc t = .idle) (size : ℕ) (created : Bool) :
    Accounted o (s.allocate o t size created) := by
  have hcalled := h.call (hidle t) size
  have htable : SameTable s.pool (s.pool.currentCache t created) :=
    .of_reserves (currentCache_reserves _ t created)
  have hothers : ∀ t', t' ≠ t → s.pc t' = .idle := fun t' _ ↦ hidle t'
  unfold State.allocate
  dsimp only
  split
  · exact hcalled.leave hothers htable rfl
  · rename_i i _
    split
    · exact hcalled.leave hothers htable rfl
    · have hpopped : SameTable s.pool ((s.pool.currentCache t created).popFront t i) := htable
      exact hcalled.grant hothers hpopped _

theorem deallocate (h : Accounted o s) (hidle : ∀ t, s.pc t = .idle) {stack : StackView}
    {created : Bool} (hstep : s.deallocate o t stack created = some s') : Accounted o s' := by
  have hothers : ∀ t', t' ≠ t → s.pc t' = .idle := fun t' _ ↦ hidle t'
  unfold State.deallocate at hstep
  split at hstep
  · cases hstep
    exact h
  · obtain ⟨-, hstep⟩ := Option.ite_none_right_eq_some.mp hstep
    have htable : SameTable s.pool (Pool.currentCache { s.pool with
        handedOut := s.pool.handedOut.erase stack } t created) :=
      .of_reserves (currentCache_reserves _ t created)
    dsimp only at hstep
    split at hstep
    · rename_i kept hkeep
      cases hstep
      exact h.leave hothers (htable.trans (.of_reserves (keep_reserves hkeep))) rfl
    · cases hstep
      exact h.leave hothers htable rfl

/-- A reservation that no class is found for. -/
theorem refuse (h : Accounted o s) (hidle : ∀ t, s.pc t = .idle) {size count : ℕ}
    (hnone : findOrAdd s.pool.reserveClasses (o.roundUpToPage size) = none) :
    Accounted o { s with
      argument := Function.update s.argument t size
      requests := (o.roundUpToPage size, count) :: s.requests
      reserved := ⟨size, false, 0⟩ :: s.reserved } := by
  obtain ⟨hfull, hnot⟩ := findOrAdd_eq_none hnone
  have hmore : ∀ {n}, kMaxSizeClasses ≤ (otherSizes s.requests n).card →
      kMaxSizeClasses ≤ (otherSizes ((o.roundUpToPage size, count) :: s.requests) n).card :=
    fun hcard ↦ hcard.trans (Finset.card_le_card (otherSizes_subset_cons _))
  refine ⟨h.facts.refuse hfull hnot, List.forall_mem_cons.mpr ⟨fun _ _ _ ↦ ?_, ?_⟩, h.alone,
    fun t' ht' ↦ ?_, fun t' ht' ↦ ?_⟩
  · exact hmore (h.facts.card_otherSizes hfull hnot)
  · exact fun r hr hsize hasked hresult ↦ hmore (h.refused r hr hsize hasked hresult)
  · change (s.pc t').reserving = true at ht'
    rw [hidle t'] at ht'
    cases ht'
  · change s.pc t' = _ at ht'
    rw [hidle t'] at ht'
    cases ht'

/-- A reservation that finds or adds a class. -/
theorem accept (h : Accounted o s) (hidle : ∀ t, s.pc t = .idle) {size count : ℕ}
    {i : Fin kMaxSizeClasses}
    (hi : findOrAdd s.pool.reserveClasses (o.roundUpToPage size) = some i)
    (hgood : (o.roundUpToPage size ≠ 0 ∧ (count ≠ 0 ∨ (s.pool.reserves i).target ≠ 0)) ∨
      (size = 0 ∧ count = 0)) :
    Accounted o { s with
      argument := Function.update s.argument t size
      requests := (o.roundUpToPage size, count) :: s.requests
      pool := s.pool.setReserve i { s.pool.reserves i with
        size := o.roundUpToPage size, target := max (s.pool.reserves i).target count } } := by
  refine ⟨?_, fun r hr hsize hasked hresult ↦ ?_, h.alone, fun t' ht' ↦ ?_, fun t' ht' ↦ ?_⟩
  · have hfacts : Facts
        (Function.update (fun j ↦ (s.pool.reserves j).size) i (o.roundUpToPage size))
        (Function.update (fun j ↦ (s.pool.reserves j).target) i
          (max (s.pool.reserves i).target count))
        ((o.roundUpToPage size, count) :: s.requests) := by
      rcases hgood with ⟨hsize, -⟩ | ⟨rfl, rfl⟩
      · exact h.facts.request hsize (findOrAdd_eq_some hi)
      · rw [o.roundUpToPage_zero] at hi ⊢
        have hfree : (s.pool.reserves i).size = 0 := (findOrAdd_eq_some hi).elim id And.left
        have hsizes := Function.update_eq_self i fun j ↦ (s.pool.reserves j).size
        have htargets := Function.update_eq_self i fun j ↦ (s.pool.reserves j).target
        rw [hfree] at hsizes
        rw [hsizes, max_eq_left (Nat.zero_le _), htargets]
        exact h.facts.nothing
    convert hfacts using 1
    · funext j
      rcases eq_or_ne j i with rfl | hne
      · simp [Pool.setReserve]
      · simp [Pool.setReserve, hne]
    · funext j
      rcases eq_or_ne j i with rfl | hne
      · simp [Pool.setReserve]
      · simp [Pool.setReserve, hne]
  · exact (h.refused r hr hsize hasked hresult).trans
      (Finset.card_le_card (otherSizes_subset_cons _))
  · change (s.pc t').reserving = true at ht'
    rw [hidle t'] at ht'
    cases ht'
  · change s.pc t' = _ at ht'
    rw [hidle t'] at ht'
    cases ht'

theorem reserve (h : Accounted o s) (hidle : ∀ t, s.pc t = .idle) {size count : ℕ}
    (hgood : Reserving o s (t, .reserve size count)) : Accounted o (s.reserve o t size count) := by
  have hothers : ∀ t', t' ≠ t → s.pc t' = .idle := fun t' _ ↦ hidle t'
  have hargument : Function.update s.argument t size t = size := Function.update_self ..
  unfold State.reserve
  dsimp only
  split
  · exact h.refuse hidle ‹_›
  · rename_i i hi
    have hgood' := hgood i hi
    have haccepted := h.accept (t := t) hidle hi hgood'
    have hfound : ∀ {found}, (Pool.setReserve s.pool i found).reserves i = found :=
      Function.update_self ..
    have hclass : (s.pool.setReserve i { s.pool.reserves i with
        size := o.roundUpToPage size,
        target := max (s.pool.reserves i).target count }).HasClass
          (o.roundUpToPage (Function.update s.argument t size t)) := by
      refine ⟨i, ?_⟩
      rw [hfound, hargument]
    split
    · exact haccepted.move hothers (.of_reserves rfl) (fun _ ↦ hclass) fun hfalse ↦ by cases hfalse
    · rename_i hheld
      refine haccepted.move hothers (.of_reserves rfl) (fun _ ↦ hclass) fun _ ↦ ?_
      rcases hgood' with ⟨hsize, hasks⟩ | ⟨rfl, -⟩
      · refine .inr ⟨i, ?_, ?_, ?_⟩
        · change _ = o.roundUpToPage (Function.update s.argument t size t)
          rw [hfound, hargument]
        · change o.roundUpToPage (Function.update s.argument t size t) ≠ 0
          rwa [hargument]
        · rw [hfound]
          dsimp only
          omega
      · exact .inl hargument

/-- The thread looks at the shared tier again, or turns to the reserve. -/
theorem rescan (h : Accounted o s) (hothers : ∀ t', t' ≠ t → s.pc t' = .idle)
    (htable : SameTable s.pool pool) (attempts : ℕ) :
    Accounted o ((s.withPool pool).rescan t attempts) := by
  unfold State.rescan
  split <;> exact h.leave hothers htable rfl

theorem scan (h : Accounted o s) (hothers : ∀ t', t' ≠ t → s.pc t' = .idle) {attempts : ℕ}
    {answer : Answer} (hstep : s.scan o t attempts answer = some s') : Accounted o s' := by
  have hsame : SameTable s.pool s.pool := .of_reserves rfl
  cases answer with
  | empty =>
    cases hstep
    exact h.leave hothers hsame rfl
  | busy =>
    cases hstep
    exact h.rescan hothers hsame attempts
  | stack candidate =>
    obtain ⟨-, hstep⟩ := Option.ite_none_right_eq_some.mp hstep
    have htaken : SameTable s.pool { s.pool with shared := s.pool.shared.erase candidate } :=
      .of_reserves rfl
    dsimp only at hstep
    split at hstep
    · cases hstep
      exact h.grant hothers htaken candidate
    · split at hstep
      · rename_i kept hkeep
        cases hstep
        have htable := htaken.trans (.of_reserves (keep_reserves hkeep))
        exact h.rescan hothers htable attempts
      · cases hstep
        exact h.leave hothers (.of_reserves rfl) rfl
  | done | full | batch _ => cases hstep

theorem takeReserve (h : Accounted o s) (hothers : ∀ t', t' ≠ t → s.pc t' = .idle)
    (hsize : s.pool.HasClass (o.roundUpToPage (s.argument t)) ∨
      o.roundUpToPage (s.argument t) = 0 ∨ ¬ s.pool.HasClass 0) :
    Accounted o (s.takeReserve o t) := by
  have htable := SameTable.takeFromReserve (t := t) (o := o) hsize
  unfold State.takeReserve
  split
  · rename_i p v htake
    rw [htake] at htable
    exact h.grant hothers htable v
  · rename_i p htake
    rw [htake] at htable
    exact h.leave hothers htable rfl

theorem obtain (h : Accounted o s) (hothers : ∀ t', t' ≠ t → s.pc t' = .idle) {answer : Answer}
    (hstep : s.obtain o t answer = some s') : Accounted o s' := by
  cases answer with
  | empty =>
    cases hstep
    exact h.leave hothers (.of_reserves rfl) rfl
  | stack given =>
    obtain ⟨-, hstep⟩ := Option.ite_none_right_eq_some.mp hstep
    cases hstep
    have htable : SameTable s.pool (s.pool.obtain given) := .of_reserves rfl
    exact h.grant hothers htable given
  | done | busy | full | batch _ => cases hstep

theorem share (h : Accounted o s) (hothers : ∀ t', t' ≠ t → s.pc t' = .idle) {stack : StackView}
    {spins : ℕ} {answer : Answer} (hstep : s.share t stack spins answer = some s') :
    Accounted o s' := by
  have hsame : SameTable s.pool s.pool := .of_reserves rfl
  cases answer with
  | done =>
    cases hstep
    exact h.leave hothers (.of_reserves rfl) rfl
  | full =>
    cases hstep
    exact h.leave hothers hsame rfl
  | busy =>
    cases hstep
    split <;> exact h.leave hothers hsame rfl
  | empty | stack _ | batch _ => cases hstep

theorem giveReserve (h : Accounted o s) (hothers : ∀ t', t' ≠ t → s.pc t' = .idle)
    (stack : StackView) : Accounted o (s.giveReserve t stack) := by
  have hsame : SameTable s.pool s.pool := .of_reserves rfl
  unfold State.giveReserve
  split
  · exact h.leave hothers hsame rfl
  · split
    · exact h.leave hothers hsame rfl
    · exact h.leave hothers (.pushReserve _ _ _) rfl

theorem prewarm (h : Accounted o s) (hothers : ∀ t', t' ≠ t → s.pc t' = .idle) {missing : ℕ}
    (hpc : s.pc t = .prewarm missing) {answer : Answer}
    (hstep : s.prewarm o t missing answer = some s') : Accounted o s' := by
  cases answer with
  | batch batch =>
    obtain ⟨-, hstep⟩ := Option.ite_none_right_eq_some.mp hstep
    obtain ⟨p, hobtain, rfl⟩ := Option.map_eq_some_iff.mp hstep
    exact h.move hothers (.of_reserves (obtainMany_reserves hobtain))
      (fun _ ↦ h.known t (by rw [hpc]; rfl)) fun hfalse ↦ by cases hfalse
  | done | busy | full | empty | stack _ => cases hstep

omit [DecidableEq Θ] in
/-- A section of `reserve` finds the class that the first one has found or added. -/
theorem found_of_known (h : s.pool.HasClass (o.roundUpToPage (s.argument t)))
    {i : Fin kMaxSizeClasses}
    (hi : findOrAdd s.pool.reserveClasses (o.roundUpToPage (s.argument t)) = some i) :
    (s.pool.reserves i).size = o.roundUpToPage (s.argument t) := by
  obtain ⟨j, hj⟩ := h
  exact (findOrAdd_eq_some hi).resolve_right fun hadded ↦ hadded.2 j hj

theorem stow (h : Accounted o s) (hothers : ∀ t', t' ≠ t → s.pc t' = .idle) {missing wanted : ℕ}
    {batch : List StackView} (hpc : s.pc t = .stow missing wanted batch)
    (hstep : s.stow o t missing wanted batch = some s') : Accounted o s' := by
  have hknown := h.known t (by rw [hpc]; rfl)
  obtain ⟨i, hi, rfl⟩ := Option.map_eq_some_iff.mp hstep
  have htable := (SameTable.found (found_of_known hknown hi)).trans (.stow batch _ i)
  dsimp only
  split <;> exact h.move hothers htable (fun _ ↦ hknown) fun hfalse ↦ by cases hfalse

theorem count (h : Accounted o s) (hothers : ∀ t', t' ≠ t → s.pc t' = .idle) {asked : Bool}
    (hpc : s.pc t = .count asked) (hstep : s.count o t asked = some s') : Accounted o s' := by
  have hknown := h.known t (by rw [hpc]; rfl)
  obtain ⟨i, hi, rfl⟩ := Option.map_eq_some_iff.mp hstep
  have hfound := found_of_known hknown hi
  have hmoved : Accounted o ((s.withPool (s.pool.setReserve i { s.pool.reserves i with
      size := o.roundUpToPage (s.argument t) })).goto t .idle) :=
    h.leave hothers (.found hfound) rfl
  refine { hmoved with
    refused := List.forall_mem_cons.mpr ⟨fun hsize hasked hresult ↦ ?_, h.refused⟩ }
  -- Stacks of the size are held, so the answer is not 0.
  dsimp only at hsize hasked hresult
  subst hasked
  rcases h.counting t hpc with hzero | ⟨j, hj, hne, hheld⟩
  · omega
  · have hsame : j = i := h.facts.distinct j i (hj.trans hfound.symm) (hj ▸ hne)
    subst hsame
    omega

theorem advance (h : Accounted o s) {answer : Answer}
    (hgood : Reserving o s (t, .advance answer)) (hbusy : s.pc t ≠ .idle)
    (hstep : s.advance o t answer = some s') : Accounted o s' := by
  have hothers : ∀ t', t' ≠ t → s.pc t' = .idle := by
    intro t' hne
    by_contra hnot
    exact hne (h.alone t' t hnot hbusy)
  unfold State.advance at hstep
  split at hstep
  · cases hstep
  · exact h.scan hothers hstep
  · rename_i candidate attempts _
    cases hstep
    have htable : SameTable s.pool (s.pool.discard candidate) := .of_reserves rfl
    exact h.rescan hothers htable attempts
  · cases hstep
    exact h.takeReserve hothers (hgood ‹_›)
  · exact h.obtain hothers hstep
  · exact h.share hothers hstep
  · cases hstep
    exact h.giveReserve hothers _
  · cases hstep
    exact h.leave hothers (.of_reserves rfl) rfl
  · exact h.prewarm hothers ‹_› hstep
  · exact h.stow hothers ‹_› hstep
  · exact h.count hothers ‹_› hstep
  · cases hstep
    unfold State.exiting
    split
    · exact { h with }
    · exact h.leave hothers (.of_reserves rfl) rfl

/-- The destructor changes no size and no target, and nobody is in a call then. -/
theorem drain (h : Accounted o s) (hidle : ∀ t, s.pc t = .idle) {answer : Answer}
    (hstep : s.drain answer = some s') : Accounted o s' := by
  have hpool : ∀ {pool}, SameTable s.pool pool → Accounted o (s.withPool pool) := by
    intro pool htable
    refine ⟨?_, h.refused, h.alone, fun t ht ↦ ?_, fun t ht ↦ ?_⟩
    · exact htable.facts h.facts
    · exact htable.hasClass (h.known t ht)
    · change s.pc t = _ at ht
      rw [hidle t] at ht
      cases ht
  unfold State.drain at hstep
  split at hstep
  · split at hstep
    · cases hstep
      exact hpool (.of_reserves rfl)
    · cases hstep
      exact hpool (.of_reserves rfl)
  · cases answer with
    | stack leftover =>
      obtain ⟨-, hstep⟩ := Option.ite_none_right_eq_some.mp hstep
      cases hstep
      exact hpool (.of_reserves rfl)
    | empty =>
      obtain ⟨-, hstep⟩ := Option.ite_none_right_eq_some.mp hstep
      split at hstep
      · rename_i i _
        cases hstep
        exact hpool ((SameTable.popReserve s.pool i).trans (.of_reserves rfl))
      · cases hstep
        exact { h with }
    | done | busy | full | batch _ => cases hstep

/-- Every step of a sequence of calls that meets the condition keeps the account. -/
theorem step (h : Accounted o s) (hinv : Inv o s) {label : Θ × Action}
    (hgood : Reserving o s label) (hstarts : label.2.starts = true → s.calling = [])
    (hstep : s.step o label = some s') : Accounted o s' := by
  have hnobody : s.calling = [] → ∀ t, s.pc t = .idle := fun hcalling t ↦ by
    by_contra hbusy
    have hmem := hinv.calling t hbusy
    rw [hcalling] at hmem
    cases hmem
  obtain ⟨t, action⟩ := label
  cases action with
  | allocate size created =>
    obtain ⟨-, hstep⟩ := Option.ite_none_right_eq_some.mp hstep
    cases hstep
    exact h.allocate (hnobody (hstarts rfl)) size created
  | deallocate stack created =>
    obtain ⟨-, hstep⟩ := Option.ite_none_right_eq_some.mp hstep
    exact h.deallocate (hnobody (hstarts rfl)) hstep
  | reserve size count =>
    obtain ⟨-, hstep⟩ := Option.ite_none_right_eq_some.mp hstep
    cases hstep
    exact h.reserve (hnobody (hstarts rfl)) hgood
  | exit =>
    obtain ⟨-, hstep⟩ := Option.ite_none_right_eq_some.mp hstep
    cases hstep
    exact h.leave (fun t' _ ↦ hnobody (hstarts rfl) t') (.of_reserves rfl) rfl
  | advance answer =>
    obtain ⟨-, hstep⟩ := Option.ite_none_right_eq_some.mp hstep
    refine h.advance hgood (fun hidle ↦ ?_) hstep
    rw [State.advance, hidle] at hstep
    cases hstep
  | write address values =>
    obtain ⟨-, hstep⟩ := Option.ite_none_right_eq_some.mp hstep
    cases hstep
    exact { h with }
  | destroy =>
    obtain ⟨-, hstep⟩ := Option.ite_none_right_eq_some.mp hstep
    cases hstep
    exact { h with }
  | drain answer =>
    obtain ⟨hphase, hstep⟩ := Option.ite_none_right_eq_some.mp hstep
    exact h.drain (hinv.quiet (by rw [hphase]; decide)) hstep

end Accounted

/-! ### Every sequence of calls -/

section Runs

variable {o : Options} {s : State Θ}

/-- A released stack goes to the reserve only below the target of its size. -/
theorem refilled_of_facts {t : Θ} {stack : StackView}
    (h : Facts (fun i ↦ (s.pool.reserves i).size) (fun i ↦ (s.pool.reserves i).target) s.requests)
    {i : Fin kMaxSizeClasses}
    (hmore : (s.pool.reserves i).count < ((s.giveReserve t stack).pool.reserves i).count) :
    (s.pool.reserves i).size = stack.size ∧
      (s.pool.reserves i).count < maxRequested s.requests stack.size := by
  unfold State.giveReserve at hmore
  split at hmore
  · exact absurd hmore (lt_irrefl _)
  · rename_i j hj
    split at hmore
    · exact absurd hmore (lt_irrefl _)
    · rename_i hbelow
      have hsame : i = j := by
        by_contra hne
        refine absurd hmore ?_
        change ¬ _ < (Function.update s.pool.reserves j _ i).count
        rw [Function.update_of_ne hne]
        exact lt_irrefl _
      subst hsame
      have hsize : (s.pool.reserves i).size = stack.size := size_of_findClass hj
      have hused : (s.pool.reserves i).size ≠ 0 := fun hfree ↦ by
        have := h.free i hfree
        omega
      have htarget := h.target i hused
      rw [hsize] at htarget
      exact ⟨hsize, by omega⟩

theorem accounted_of_reachable (h : (sequential Θ o).ReachableUnder (Reserving o) s) :
    Inv o s ∧ Accounted o s := by
  refine h.invariant (P := fun s ↦ Inv o s ∧ Accounted o s) (fun _ hinit ↦ ?_)
    fun s label s' hs hgood hstep ↦ ?_
  · cases hinit
    exact ⟨Inv.initial, Accounted.initial⟩
  · obtain ⟨hstarts, hstep⟩ := Option.ite_none_left_eq_some.mp hstep
    rw [not_and, not_not] at hstarts
    exact ⟨hs.1.step hstep, hs.2.step hs.1 hgood hstarts hstep⟩

/-- **Reservations depend only on reservations**, if no allocation takes a class of the reserve for
its own size and nothing is reserved of the size 0. -/
theorem reservations_by_request (h : (sequential Θ o).ReachableUnder (Reserving o) s) :
    ByRequest o s := by
  obtain ⟨-, haccounted⟩ := accounted_of_reachable h
  refine ⟨haccounted.refused, haccounted.facts.used, haccounted.facts.target,
    fun t answer stack s' hpc hstep i hmore ↦ ?_⟩
  obtain ⟨-, hstep⟩ := Option.ite_none_right_eq_some.mp hstep
  rw [State.advance, hpc] at hstep
  cases hstep
  exact refilled_of_facts haccounted.facts hmore

end Runs

/-- Two stacks are reserved and one of them is allocated and released. -/
theorem reservations_by_request_here : ∃ s : State Unit,
    (sequential Unit ⟨1, 64, 16, by decide⟩).ReachableUnder (Reserving ⟨1, 64, 16, by decide⟩) s ∧
      s.requests = [(16, 2)] ∧ s.granted.length = 1 ∧ ByRequest ⟨1, 64, 16, by decide⟩ s := by
  let actions : List Action := [.reserve 10 2, .advance (.batch [⟨16, 16⟩, ⟨32, 16⟩]),
    .advance .done, .advance .done, .allocate 10 true, .advance .empty, .advance .done,
    .deallocate ⟨32, 16⟩ true]
  let labels := actions.map fun action ↦ ((), action)
  let s := ((sequential Unit ⟨1, 64, 16, by decide⟩).runUnder
    (fun s label ↦ decide (Reserving ⟨1, 64, 16, by decide⟩ s label)) .initial labels).get
    (by decide +kernel)
  have hreach : (sequential Unit ⟨1, 64, 16, by decide⟩).ReachableUnder
      (Reserving ⟨1, 64, 16, by decide⟩) s :=
    (System.reachableUnder_of_run (s := State.initial) rfl (Option.some_get _).symm).mono
      fun _ _ ↦ of_decide_eq_true
  exact ⟨s, hreach, by decide +kernel, by decide +kernel, reservations_by_request hreach⟩

/-- Eight allocations of different sizes, which upstream refuses, leave no class of the reserve free:
the first reservation of another size is refused. -/
theorem refused_after_allocations : ∃ s : State Unit,
    (sequential Unit ⟨1, 64, 16, by decide⟩).Reachable s ∧ s.requests = [(144, 1)] ∧
      s.reserved = [⟨144, false, 0⟩] ∧ ¬ ByRequest ⟨1, 64, 16, by decide⟩ s := by
  let allocation : ℕ → List Action := fun size ↦
    [.allocate size true, .advance .empty, .advance .done, .advance .empty]
  let actions := [16, 32, 48, 64, 80, 96, 112, 128].flatMap allocation ++ [Action.reserve 144 1]
  let labels := actions.map fun action ↦ ((), action)
  let s := ((sequential Unit ⟨1, 64, 16, by decide⟩).run .initial labels).get (by decide +kernel)
  have hreach : (sequential Unit ⟨1, 64, 16, by decide⟩).Reachable s :=
    System.reachable_of_run (s := State.initial) rfl (Option.some_get _).symm
  have hrequests : s.requests = [(144, 1)] := by decide +kernel
  have hreserved : s.reserved = [⟨144, false, 0⟩] := by decide +kernel
  refine ⟨s, hreach, hrequests, hreserved, fun h ↦ ?_⟩
  have hcard := h.refused ⟨144, false, 0⟩ (by rw [hreserved]; exact List.mem_cons_self) (by decide)
    rfl rfl
  rw [hrequests] at hcard
  exact absurd hcard (by decide +kernel)

/-- A reservation of five stacks of the size 0 sets the target of the class that the size 16 gets. -/
theorem target_of_size_zero : ∃ s : State Unit,
    (sequential Unit ⟨1, 64, 16, by decide⟩).Reachable s ∧ s.requests = [(16, 1), (0, 5)] ∧
      ∃ i, (s.pool.reserves i).size = 16 ∧ (s.pool.reserves i).target = 5 := by
  let actions : List Action := [.reserve 0 5, .advance (.batch []), .advance .done, .advance .done,
    .reserve 16 1]
  let labels := actions.map fun action ↦ ((), action)
  let s := ((sequential Unit ⟨1, 64, 16, by decide⟩).run .initial labels).get (by decide +kernel)
  have hreach : (sequential Unit ⟨1, 64, 16, by decide⟩).Reachable s :=
    System.reachable_of_run (s := State.initial) rfl (Option.some_get _).symm
  exact ⟨s, hreach, by decide +kernel, by decide +kernel⟩

end Stackfull.Stack
