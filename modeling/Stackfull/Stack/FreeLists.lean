import Mathlib.Algebra.BigOperators.Fin
import Stackfull.Lib.Custody
import Stackfull.Stack.PooledStackAllocator

/-!
# The free lists inside the stacks

`Represents` says which stacks a size class holds: those whose nodes are chained from its head. A
stack goes in front of such a list and comes off it again as it was, and nothing that is written
elsewhere disturbs the list.

`Holds` ties the tiers to the places where stacks are. Every stack that upstream has given out is at
one place, the classes represent the stacks of theirs, and the totals of a cache are right and within
their limits. For each of the operations that move a stack there is a lemma that it keeps this,
with the hands of the threads as a parameter.
-/

set_option autoImplicit false
set_option relaxedAutoImplicit false
set_option linter.dupNamespace false

namespace Stackfull.Stack

open Stackfull.Lib

universe u

/-! ### One class -/

/-- The stack lies in the memory, and there is room for its node. -/
structure Valid (stack : StackView) : Prop where
  base : 0 < stack.base
  size : nodeSize ≤ stack.size
  top : topOf stack ≤ sizeLimit

section Nodes

variable {v w : StackView}

theorem Valid.le_nodeOf (h : Valid v) : v.base ≤ nodeOf v ∧ nodeOf v + nodeSize = topOf v := by
  have := h.size
  unfold nodeOf topOf
  omega

theorem Valid.nodeOf_ne_null (h : Valid v) : nodeOf v ≠ null := by
  have := h.le_nodeOf.1
  have := h.base
  unfold null
  omega

/-- The stack is recovered from its node. -/
theorem Valid.viewOf_nodeOf (h : Valid v) : viewOf (nodeOf v) v.size = v := by
  rw [viewOf, h.le_nodeOf.2, topOf, Nat.add_sub_cancel]

theorem Valid.nodeOf_ne (hv : Valid v) (hw : Valid w) (h : v.Apart w) : nodeOf v ≠ nodeOf w := by
  intro heq
  have hsame : topOf v = topOf w := by rw [← hv.le_nodeOf.2, ← hw.le_nodeOf.2, heq]
  have hvsize := hv.size
  have hwsize := hw.size
  unfold topOf nodeSize at *
  rcases h with h | h <;> omega

end Nodes

/-- The class holds these stacks. -/
structure Represents (memory : ℕ → ℕ) (c : SizeClass) (held : List StackView) : Prop where
  linked : Linked null memory c.head (held.map nodeOf)
  count : c.count = held.length
  size : ∀ stack ∈ held, stack.size = c.size
  recovered : ∀ stack ∈ held, viewOf (nodeOf stack) c.size = stack

namespace Represents

variable {memory memory' : ℕ → ℕ} {c : SizeClass} {held : List StackView} {stack : StackView}

theorem free : Represents memory .free [] :=
  ⟨rfl, rfl, fun _ h ↦ (by cases h), fun _ h ↦ by cases h⟩

/-- Only the words of its nodes count. -/
theorem write (h : Represents memory c held)
    (hsame : ∀ stack ∈ held, memory' (nodeOf stack) = memory (nodeOf stack)) :
    Represents memory' c held := by
  refine ⟨h.linked.congr fun node hnode ↦ ?_, h.count, h.size, h.recovered⟩
  obtain ⟨stack, hstack, rfl⟩ := List.mem_map.mp hnode
  exact hsame stack hstack

theorem push (h : Represents memory c held) (hvalid : Valid stack) (hsize : stack.size = c.size)
    (hnew : ∀ other ∈ held, nodeOf stack ≠ nodeOf other) :
    Represents (Function.update memory (nodeOf stack) c.head) (c.push stack) (stack :: held) := by
  refine ⟨h.linked.push hvalid.nodeOf_ne_null fun hmem ↦ ?_, congrArg (· + 1) h.count, ?_, ?_⟩
  · obtain ⟨other, hother, heq⟩ := List.mem_map.mp hmem
    exact hnew other hother heq.symm
  · exact List.forall_mem_cons.mpr ⟨hsize, h.size⟩
  · refine List.forall_mem_cons.mpr ⟨?_, h.recovered⟩
    exact hsize ▸ hvalid.viewOf_nodeOf

theorem pop (h : Represents memory c held) (hhead : c.head ≠ null) :
    ∃ rest, held = c.first :: rest ∧ Represents memory (c.pop memory) rest := by
  obtain ⟨nodes, hnodes, hlinked⟩ := h.linked.exists_cons hhead
  obtain ⟨stack, rest, rfl, hnode, rfl⟩ := List.map_eq_cons_iff.mp hnodes
  obtain ⟨hview, hrecovered⟩ := List.forall_mem_cons.mp h.recovered
  refine ⟨rest, ?_, hlinked, ?_, (List.forall_mem_cons.mp h.size).2, hrecovered⟩
  · rw [SizeClass.first, ← hnode, hview]
  · change c.count - 1 = rest.length
    rw [h.count, List.length_cons, Nat.add_sub_cancel]

theorem eq_nil (h : Represents memory c held) (hhead : c.head = null) : held = [] := by
  have hlinked := h.linked
  rw [hhead] at hlinked
  exact List.map_eq_nil_iff.mp hlinked.eq_nil

/-- The size of a class without stacks may change. -/
theorem resize (h : Represents memory c []) (size : ℕ) : Represents memory { c with size := size } [] :=
  ⟨h.linked, h.count, fun _ hmem ↦ (by cases hmem), fun _ hmem ↦ by cases hmem⟩

end Represents

/-! ### Finding a class -/

theorem size_of_findClass {classes : Fin kMaxSizeClasses → SizeClass} {size : ℕ}
    {i : Fin kMaxSizeClasses} (h : findClass classes size = some i) : (classes i).size = size := by
  have hfound := List.find?_some h
  exact of_decide_eq_true hfound

/-- A class that is found or added has the size or is free. -/
theorem size_of_findOrAdd {classes : Fin kMaxSizeClasses → SizeClass} {size : ℕ}
    {i : Fin kMaxSizeClasses} (h : findOrAdd classes size = some i) :
    (classes i).size = size ∨ (classes i).size = 0 := by
  rcases Option.or_eq_some_iff.mp h with hfound | ⟨-, hfree⟩
  · exact .inl (size_of_findClass hfound)
  · exact .inr (size_of_findClass hfree)

theorem head_of_firstFilled {classes : Fin kMaxSizeClasses → SizeClass} {i : Fin kMaxSizeClasses}
    (h : firstFilled classes = some i) : (classes i).head ≠ null := by
  have hfilled := List.find?_some h
  exact of_decide_eq_true hfilled

theorem head_of_firstFilled_eq_none {classes : Fin kMaxSizeClasses → SizeClass}
    (h : firstFilled classes = none) (i : Fin kMaxSizeClasses) : (classes i).head = null := by
  have hnot := List.find?_eq_none.mp h i (List.mem_finRange i)
  simpa using hnot

/-! ### The places -/

/-- Where a stack can be. -/
inductive Place (Θ : Type u)
  | handedOut
  | cached (thread : Θ) (i : Fin kMaxSizeClasses)
  | shared
  | reserved (i : Fin kMaxSizeClasses)
  | hand (thread : Θ)
  deriving DecidableEq

/-- The totals of a cache are right, and within the limits. -/
structure Totals (o : Options) (cache : ThreadCache) (held : Fin kMaxSizeClasses → List StackView) :
    Prop where
  cachedStacks : cache.cachedStacks = ∑ i, (held i).length
  cachedBytes : cache.cachedBytes = ∑ i, ((held i).map Region.size).sum
  stacks_le : cache.cachedStacks ≤ o.maxCachedStacksPerThread
  bytes_le : cache.cachedBytes ≤ o.maxCachedBytesPerThread

/-- One list changes: the sum of a weight over all of them. -/
theorem sum_update {n : ℕ} (weight : List StackView → ℕ) (held : Fin n → List StackView) (i : Fin n)
    (list : List StackView) : ∑ j, weight (Function.update held i list j) + weight (held i) =
      ∑ j, weight (held j) + weight list := by
  rw [← Finset.add_sum_erase Finset.univ (fun j ↦ weight (Function.update held i list j))
    (Finset.mem_univ i), ← Finset.add_sum_erase Finset.univ (fun j ↦ weight (held j))
    (Finset.mem_univ i), Function.update_self]
  have hrest : ∑ j ∈ Finset.univ.erase i, weight (Function.update held i list j) =
      ∑ j ∈ Finset.univ.erase i, weight (held j) :=
    Finset.sum_congr rfl fun j hj ↦ by rw [Function.update_of_ne (Finset.ne_of_mem_erase hj)]
  rw [hrest]
  omega

variable {Θ : Type u}

/-- The stacks are where the tiers say, and each is at one place. -/
structure Holds [DecidableEq Θ] (o : Options) (p : Pool Θ) (hands : Θ → List StackView)
    (contents : Place Θ → List StackView) : Prop where
  custody : Custody contents p.mapped
  apart : p.mapped.Pairwise Region.Apart
  valid : ∀ stack ∈ p.mapped, Valid stack
  accounts : p.obtained.Perm (p.mapped ++ p.returned)
  handedOut : contents .handedOut = p.handedOut
  shared : contents .shared = p.shared
  hand : ∀ t, (contents (.hand t)).Perm (hands t)
  cached : ∀ t i, Represents p.memory ((p.cache t).classes i) (contents (.cached t i))
  totals : ∀ t, Totals o (p.cache t) fun i ↦ contents (.cached t i)
  registered : ∀ t, t ∉ p.registry → ∀ i, contents (.cached t i) = []
  reserved : ∀ i, Represents p.memory (p.reserveClasses i) (contents (.reserved i))

/-- Every stack is at one place, with these in the hands of the threads. -/
def Kept [DecidableEq Θ] (o : Options) (p : Pool Θ) (hands : Θ → List StackView) : Prop :=
  ∃ contents, Holds o p hands contents

namespace Holds

variable [DecidableEq Θ] {o : Options} {p : Pool Θ} {hands : Θ → List StackView}
  {contents : Place Θ → List StackView} {v w : StackView} {place place' : Place Θ}

theorem valid_of_mem (h : Holds o p hands contents) (hv : v ∈ contents place) : Valid v :=
  h.valid v (h.custody.mem_known hv)

theorem apart_of_ne (h : Holds o p hands contents) (hv : v ∈ contents place)
    (hw : w ∈ contents place') (hne : v ≠ w) : v.Apart w :=
  h.apart.forall (h.custody.mem_known hv) (h.custody.mem_known hw) hne

/-- Stacks at different places have different nodes. -/
theorem nodeOf_ne (h : Holds o p hands contents) (hv : v ∈ contents place)
    (hw : w ∈ contents place') (hplace : place ≠ place') : nodeOf v ≠ nodeOf w :=
  (h.valid_of_mem hv).nodeOf_ne (h.valid_of_mem hw) <| h.apart_of_ne hv hw fun heq ↦
    hplace (h.custody.eq_of_mem hv (heq ▸ hw))

/-- What a class represents survives a write to the node of a stack that is elsewhere. -/
theorem write_node (h : Holds o p hands contents) (hv : v ∈ contents place) {c : SizeClass}
    (hrepresents : Represents p.memory c (contents place')) (hplace : place ≠ place') (word : ℕ) :
    Represents (Function.update p.memory (nodeOf v) word) c (contents place') :=
  hrepresents.write fun _ hw ↦ Function.update_of_ne (h.nodeOf_ne hv hw hplace).symm _ _

/-- A class of size 0 holds nothing. -/
theorem eq_nil_of_size (h : Holds o p hands contents) {c : SizeClass}
    (hrepresents : Represents p.memory c (contents place)) (hsize : c.size = 0) :
    contents place = [] := by
  refine List.eq_nil_iff_forall_not_mem.mpr fun v hv ↦ ?_
  have hvalid := (h.valid_of_mem hv).size
  rw [hrepresents.size v hv, hsize] at hvalid
  exact absurd hvalid (by decide)

/-- **The bytes of a cache and of a stack outside it do not add up to the whole memory**, so the sum
that `canCache` computes does not wrap around. -/
theorem bytes_lt (h : Holds o p hands contents) (hv : v ∈ contents place) {t : Θ}
    (hplace : ∀ i, place ≠ .cached t i) : (p.cache t).cachedBytes + v.size < sizeLimit := by
  let held := (List.finRange kMaxSizeClasses).flatMap fun i ↦ contents (.cached t i)
  have hin : ∀ w ∈ held, ∃ i, w ∈ contents (.cached t i) := fun w hw ↦ by
    obtain ⟨i, -, hi⟩ := List.mem_flatMap.mp hw
    exact ⟨i, hi⟩
  have hnodup : held.Nodup := by
    refine List.nodup_flatMap.mpr ⟨fun i _ ↦ h.custody.nodup_contents _, ?_⟩
    refine (List.nodup_finRange _).imp fun {i j} hne w hi hj ↦ hne ?_
    have heq := h.custody.eq_of_mem hi hj
    cases heq
    rfl
  have hapart : (v :: held).Pairwise Region.Apart := by
    refine List.pairwise_cons.mpr ⟨fun w hw ↦ ?_, ?_⟩
    · obtain ⟨i, hi⟩ := hin w hw
      exact h.apart_of_ne hv hi fun heq ↦ hplace i (h.custody.eq_of_mem hv (heq ▸ hi))
    · refine hnodup.pairwise_of_forall_ne fun w hw w' hw' hne ↦ ?_
      obtain ⟨i, hi⟩ := hin w hw
      obtain ⟨j, hj⟩ := hin w' hw'
      exact h.apart_of_ne hi hj hne
  have hfit : ∀ w ∈ v :: held, 0 < w.base ∧ w.base + w.size ≤ sizeLimit := by
    have hvalid : ∀ w ∈ v :: held, Valid w := List.forall_mem_cons.mpr
      ⟨h.valid_of_mem hv, fun w hw ↦ h.valid_of_mem (hin w hw).choose_spec⟩
    exact fun w hw ↦ ⟨(hvalid w hw).base, (hvalid w hw).top⟩
  have hsum := Region.sum_size_lt hapart hfit (by decide)
  have htotal : (held.map Region.size).sum = (p.cache t).cachedBytes := by
    rw [(h.totals t).cachedBytes, Fin.sum_univ_def]
    simp only [held, List.flatMap_def, List.map_flatten, List.sum_flatten, List.map_map]
    rfl
  rw [List.map_cons, List.sum_cons, htotal] at hsum
  omega

end Holds

/-! ### What keeps the stacks in their places -/

namespace Totals

variable {o : Options} {cache : ThreadCache} {held : Fin kMaxSizeClasses → List StackView}
  {v : StackView} {rest : List StackView} {i : Fin kMaxSizeClasses}

theorem push (h : Totals o cache held) (hroom : cache.canCache o v.size)
    (hlt : cache.cachedBytes + v.size < sizeLimit) (classes : Fin kMaxSizeClasses → SizeClass) :
    Totals o ⟨classes, cache.cachedStacks + 1, (cache.cachedBytes + v.size) % sizeLimit⟩
      (Function.update held i (v :: held i)) := by
  obtain ⟨hroom, hbytes⟩ := hroom
  rw [Nat.mod_eq_of_lt hlt] at hbytes ⊢
  refine ⟨?_, ?_, hroom, hbytes⟩
  · have hsum := sum_update List.length held i (v :: held i)
    rw [List.length_cons] at hsum
    have := h.cachedStacks
    dsimp only
    omega
  · have hsum := sum_update (fun list ↦ (list.map Region.size).sum) held i (v :: held i)
    simp only [List.map_cons, List.sum_cons] at hsum
    have := h.cachedBytes
    dsimp only
    omega

theorem pop (h : Totals o cache held) (hi : held i = v :: rest)
    (classes : Fin kMaxSizeClasses → SizeClass) :
    Totals o ⟨classes, cache.cachedStacks - 1, cache.cachedBytes - v.size⟩
      (Function.update held i rest) := by
  have hlength := sum_update List.length held i rest
  have hsize := sum_update (fun list ↦ (list.map Region.size).sum) held i rest
  simp only [hi, List.length_cons, List.map_cons, List.sum_cons] at hlength hsize
  have hcount := h.cachedStacks
  have hbytes := h.cachedBytes
  have hlimits := h.stacks_le
  have hlimits' := h.bytes_le
  refine ⟨?_, ?_, ?_, ?_⟩ <;> dsimp only <;> omega

end Totals

/-- The lists of a cache when one of them changes. -/
theorem update_cached [DecidableEq Θ] (contents : Place Θ → List StackView) (t : Θ)
    (i : Fin kMaxSizeClasses) (list : List StackView) :
    (fun j ↦ Function.update contents (.cached t i) list (.cached t j)) =
      Function.update (fun j ↦ contents (.cached t j)) i list :=
  Function.update_comp_eq_of_injective contents (fun _ _ heq ↦ by cases heq; rfl) i list

namespace Kept

variable [DecidableEq Θ] {o : Options} {p : Pool Θ} {hands : Θ → List StackView} {t : Θ}
  {v : StackView} {rest : List StackView} {i : Fin kMaxSizeClasses}

/-- The order in a hand does not matter. -/
theorem of_perm {hands' : Θ → List StackView} (h : Kept o p hands)
    (hperm : ∀ t, (hands t).Perm (hands' t)) : Kept o p hands' := by
  obtain ⟨contents, h⟩ := h
  exact ⟨contents, { h with hand := fun t ↦ (h.hand t).trans (hperm t) }⟩

/-- From a hand into the thread's cache. -/
theorem pushFront (h : Kept o p hands) (hhand : (hands t).Perm (v :: rest))
    (hregistered : t ∈ p.registry) (hsize : v.size = ((p.cache t).classes i).size)
    (hroom : (p.cache t).canCache o v.size) :
    Kept o (p.pushFront t i v) (Function.update hands t rest) := by
  obtain ⟨contents, h⟩ := h
  have hperm := (h.hand t).trans hhand
  have hv : v ∈ contents (.hand t) := hperm.mem_iff.mpr List.mem_cons_self
  refine ⟨_, h.custody.move (q := .cached t i) hperm (by simp), h.apart, h.valid, h.accounts, ?_, ?_,
    fun t' ↦ ?_, fun t' j ↦ ?_, fun t' ↦ ?_, fun t' ht' j ↦ ?_, fun j ↦ ?_⟩
  · simpa [Pool.pushFront] using h.handedOut
  · simpa [Pool.pushFront] using h.shared
  · rcases eq_or_ne t' t with rfl | hne
    · simp
    · simpa [hne] using h.hand t'
  · rcases eq_or_ne t' t with rfl | hne
    · rcases eq_or_ne j i with rfl | hother
      · simp only [Pool.pushFront, Function.update_self]
        exact (h.cached t' j).push (h.valid_of_mem hv) hsize fun w hw ↦
          h.nodeOf_ne hv hw (by simp)
      · simp only [Pool.pushFront, Function.update_self, Function.update_of_ne hother]
        simpa [hother] using h.write_node hv (h.cached t' j) (by simp) _
    · simpa [Pool.pushFront, hne] using h.write_node hv (h.cached t' j) (by simp) _
  · rcases eq_or_ne t' t with rfl | hne
    · rw [update_cached]
      simp only [Pool.pushFront, Function.update_self]
      have hlt := h.bytes_lt hv (t := t') (by simp)
      simpa using (h.totals t').push (i := i) hroom hlt _
    · simpa [Pool.pushFront, hne] using h.totals t'
  · have hne : t' ≠ t := fun heq ↦ ht' (heq ▸ hregistered)
    simpa [hne] using h.registered t' ht' j
  · simpa [Pool.pushFront, Pool.reserveClasses] using h.write_node hv (h.reserved j) (by simp) _

/-- From the thread's cache into its hand. -/
theorem popFront (h : Kept o p hands) (hhead : ((p.cache t).classes i).head ≠ null) (t' : Θ) :
    Kept o (p.popFront t i)
      (Function.update hands t' (((p.cache t).classes i).first :: hands t')) := by
  obtain ⟨contents, h⟩ := h
  obtain ⟨rest, hrest, hpopped⟩ := (h.cached t i).pop hhead
  have hsize : ((p.cache t).classes i).first.size = ((p.cache t).classes i).size := rfl
  refine ⟨_, h.custody.move (q := .hand t') (List.Perm.of_eq hrest) (by simp), h.apart, h.valid,
    h.accounts, ?_, ?_, fun u ↦ ?_, fun u j ↦ ?_, fun u ↦ ?_, fun u hu j ↦ ?_, fun j ↦ ?_⟩
  · simpa [Pool.popFront] using h.handedOut
  · simpa [Pool.popFront] using h.shared
  · rcases eq_or_ne u t' with rfl | hne
    · simpa using h.hand u
    · simpa [hne] using h.hand u
  · rcases eq_or_ne u t with rfl | hne
    · rcases eq_or_ne j i with rfl | hother
      · simpa [Pool.popFront] using hpopped
      · simpa [Pool.popFront, hother] using h.cached u j
    · simpa [Pool.popFront, hne] using h.cached u j
  · rcases eq_or_ne u t with rfl | hne
    · have htotals := (h.totals u).pop (i := i) hrest
        (Function.update (p.cache u).classes i (((p.cache u).classes i).pop p.memory))
      rw [← update_cached, hsize] at htotals
      simpa [Pool.popFront] using htotals
    · simpa [Pool.popFront, hne] using h.totals u
  · have hempty := h.registered u hu
    rcases eq_or_ne u t with rfl | hne
    · rw [hempty i] at hrest
      cases hrest
    · simpa [hne] using hempty j
  · simpa [Pool.popFront, Pool.reserveClasses] using h.reserved j

/-- From a hand into the reserve. -/
theorem pushReserve (h : Kept o p hands) (hhand : (hands t).Perm (v :: rest))
    (hsize : v.size = (p.reserves i).size) :
    Kept o (p.pushReserve i v) (Function.update hands t rest) := by
  obtain ⟨contents, h⟩ := h
  have hperm := (h.hand t).trans hhand
  have hv : v ∈ contents (.hand t) := hperm.mem_iff.mpr List.mem_cons_self
  refine ⟨_, h.custody.move (q := .reserved i) hperm (by simp), h.apart, h.valid, h.accounts, ?_, ?_,
    fun t' ↦ ?_, fun t' j ↦ ?_, fun t' ↦ ?_, fun t' ht' j ↦ ?_, fun j ↦ ?_⟩
  · simpa [Pool.pushReserve] using h.handedOut
  · simpa [Pool.pushReserve] using h.shared
  · rcases eq_or_ne t' t with rfl | hne
    · simp
    · simpa [hne] using h.hand t'
  · simpa [Pool.pushReserve] using h.write_node hv (h.cached t' j) (by simp) _
  · simpa [Pool.pushReserve] using h.totals t'
  · simpa using h.registered t' ht' j
  · rcases eq_or_ne j i with rfl | hne
    · simpa [Pool.pushReserve, Pool.reserveClasses] using
        (h.reserved j).push (h.valid_of_mem hv) hsize fun w hw ↦ h.nodeOf_ne hv hw (by simp)
    · simpa [Pool.pushReserve, Pool.reserveClasses, hne] using
        h.write_node hv (h.reserved j) (by simp) _

/-- From the reserve into a hand. -/
theorem popReserve (h : Kept o p hands) (hhead : (p.reserves i).head ≠ null) (t : Θ) :
    Kept o (p.popReserve i) (Function.update hands t ((p.reserves i).first :: hands t)) := by
  obtain ⟨contents, h⟩ := h
  obtain ⟨rest, hrest, hpopped⟩ := (h.reserved i).pop hhead
  refine ⟨_, h.custody.move (q := .hand t) (List.Perm.of_eq hrest) (by simp), h.apart, h.valid,
    h.accounts, ?_, ?_, fun u ↦ ?_, fun u j ↦ ?_, fun u ↦ ?_, fun u hu j ↦ ?_, fun j ↦ ?_⟩
  · simpa [Pool.popReserve, Pool.setReserve] using h.handedOut
  · simpa [Pool.popReserve, Pool.setReserve] using h.shared
  · rcases eq_or_ne u t with rfl | hne
    · simpa [Pool.reserveClasses] using h.hand u
    · simpa [hne] using h.hand u
  · simpa [Pool.popReserve, Pool.setReserve] using h.cached u j
  · simpa [Pool.popReserve, Pool.setReserve] using h.totals u
  · simpa using h.registered u hu j
  · rcases eq_or_ne j i with rfl | hne
    · simpa [Pool.popReserve, Pool.setReserve, Pool.reserveClasses] using hpopped
    · simpa [Pool.popReserve, Pool.setReserve, Pool.reserveClasses, hne] using h.reserved j

end Kept

/-- The lists of the shared tier and of what is handed out change. -/
theorem Holds.relist [DecidableEq Θ] {o : Options} {p : Pool Θ} {hands hands' : Θ → List StackView}
    {contents contents' : Place Θ → List StackView} {shared handedOut : List StackView}
    (h : Holds o p hands contents) (hcustody : Custody contents' p.mapped)
    (hcached : ∀ t i, contents' (.cached t i) = contents (.cached t i))
    (hreserved : ∀ i, contents' (.reserved i) = contents (.reserved i))
    (hshared : contents' .shared = shared) (hhandedOut : contents' .handedOut = handedOut)
    (hhand : ∀ t, (contents' (.hand t)).Perm (hands' t)) :
    Holds o { p with shared := shared, handedOut := handedOut } hands' contents' where
  custody := hcustody
  apart := h.apart
  valid := h.valid
  accounts := h.accounts
  handedOut := hhandedOut
  shared := hshared
  hand := hhand
  cached t i := hcached t i ▸ h.cached t i
  totals t := by
    simp only [hcached]
    exact h.totals t
  registered t ht i := (hcached t i).trans (h.registered t ht i)
  reserved i := hreserved i ▸ h.reserved i

namespace Kept

variable [DecidableEq Θ] {o : Options} {p : Pool Θ} {hands : Θ → List StackView} {t : Θ}
  {v : StackView} {rest : List StackView}

/-- From a hand into the shared tier. -/
theorem share (h : Kept o p hands) (hhand : (hands t).Perm (v :: rest)) :
    Kept o { p with shared := v :: p.shared } (Function.update hands t rest) := by
  obtain ⟨contents, h⟩ := h
  refine ⟨_, h.relist (h.custody.move (q := .shared) ((h.hand t).trans hhand) (by simp)) (by simp)
    (by simp) (by simp [h.shared]) (by simp [h.handedOut]) fun t' ↦ ?_⟩
  rcases eq_or_ne t' t with rfl | hne
  · simp
  · simpa [hne] using h.hand t'

/-- From the shared tier into a hand. -/
theorem unshare (h : Kept o p hands) (hv : v ∈ p.shared) (t : Θ) :
    Kept o { p with shared := p.shared.erase v } (Function.update hands t (v :: hands t)) := by
  obtain ⟨contents, h⟩ := h
  have hperm : (contents .shared).Perm (v :: p.shared.erase v) := by
    rw [h.shared]
    exact List.perm_cons_erase hv
  refine ⟨_, h.relist (h.custody.move (q := .hand t) hperm (by simp)) (by simp) (by simp) (by simp)
    (by simp [h.handedOut]) fun t' ↦ ?_⟩
  rcases eq_or_ne t' t with rfl | hne
  · simpa using h.hand t'
  · simpa [hne] using h.hand t'

/-- From a hand to the caller. -/
theorem handOut (h : Kept o p hands) (hhand : (hands t).Perm (v :: rest)) :
    Kept o { p with handedOut := v :: p.handedOut } (Function.update hands t rest) := by
  obtain ⟨contents, h⟩ := h
  refine ⟨_, h.relist (h.custody.move (q := .handedOut) ((h.hand t).trans hhand) (by simp)) (by simp)
    (by simp) (by simp [h.shared]) (by simp [h.handedOut]) fun t' ↦ ?_⟩
  rcases eq_or_ne t' t with rfl | hne
  · simp
  · simpa [hne] using h.hand t'

/-- From the caller into a hand. -/
theorem takeBack (h : Kept o p hands) (hv : v ∈ p.handedOut) (t : Θ) :
    Kept o { p with handedOut := p.handedOut.erase v } (Function.update hands t (v :: hands t)) := by
  obtain ⟨contents, h⟩ := h
  have hperm : (contents .handedOut).Perm (v :: p.handedOut.erase v) := by
    rw [h.handedOut]
    exact List.perm_cons_erase hv
  refine ⟨_, h.relist (h.custody.move (q := .hand t) hperm (by simp)) (by simp) (by simp)
    (by simp [h.shared]) (by simp) fun t' ↦ ?_⟩
  rcases eq_or_ne t' t with rfl | hne
  · simpa using h.hand t'
  · simpa [hne] using h.hand t'

/-- From upstream into a hand. -/
theorem obtain (h : Kept o p hands) {size : ℕ} (hfresh : p.Fresh size v) (hsize : nodeSize ≤ size)
    (t : Θ) : Kept o (p.obtain v) (Function.update hands t (v :: hands t)) := by
  obtain ⟨contents, h⟩ := h
  obtain ⟨hvsize, -, hbase, htop, hapart⟩ := hfresh
  have hvalid : Valid v := ⟨hbase, hvsize ▸ hsize, htop⟩
  have hnew : v ∉ p.mapped := fun hv ↦ by
    have := hvalid.size
    unfold nodeSize at this
    rcases hapart v hv with hself | hself <;> omega
  refine ⟨_, h.custody.enter (q := .hand t) hnew, List.pairwise_cons.mpr ⟨hapart, h.apart⟩,
    List.forall_mem_cons.mpr ⟨hvalid, h.valid⟩, h.accounts.cons v, ?_, ?_, fun t' ↦ ?_, fun t' i ↦ ?_,
    fun t' ↦ ?_, fun t' ht' i ↦ ?_, fun i ↦ ?_⟩
  · simpa [Pool.obtain] using h.handedOut
  · simpa [Pool.obtain] using h.shared
  · rcases eq_or_ne t' t with rfl | hne
    · simpa using h.hand t'
    · simpa [hne] using h.hand t'
  · simpa [Pool.obtain] using h.cached t' i
  · simpa [Pool.obtain] using h.totals t'
  · simpa using h.registered t' ht' i
  · simpa [Pool.obtain, Pool.reserveClasses] using h.reserved i

/-- From a hand back upstream. -/
theorem discard (h : Kept o p hands) (hhand : (hands t).Perm (v :: rest)) :
    Kept o (p.discard v) (Function.update hands t rest) := by
  obtain ⟨contents, h⟩ := h
  have hperm := (h.hand t).trans hhand
  have hv : v ∈ p.mapped := h.custody.mem_known (hperm.mem_iff.mpr List.mem_cons_self)
  refine ⟨_, h.custody.leave hperm, h.apart.sublist List.erase_sublist,
    fun w hw ↦ h.valid w (List.mem_of_mem_erase hw), ?_, ?_, ?_, fun t' ↦ ?_, fun t' i ↦ ?_,
    fun t' ↦ ?_, fun t' ht' i ↦ ?_, fun i ↦ ?_⟩
  · refine h.accounts.trans (((List.perm_cons_erase hv).append_right _).trans ?_)
    exact List.perm_middle.symm
  · simpa [Pool.discard] using h.handedOut
  · simpa [Pool.discard] using h.shared
  · rcases eq_or_ne t' t with rfl | hne
    · simp
    · simpa [hne] using h.hand t'
  · simpa [Pool.discard] using h.cached t' i
  · simpa [Pool.discard] using h.totals t'
  · simpa using h.registered t' ht' i
  · simpa [Pool.discard, Pool.reserveClasses] using h.reserved i

/-- A task writes to the stack that it runs on. -/
theorem write (h : Kept o p hands) {memory : ℕ → ℕ} {address : ℕ}
    (hout : ∃ stack ∈ p.handedOut, stack.base ≤ address ∧ address < topOf stack)
    (hsame : ∀ word, ¬ (word ≤ address ∧ address < word + nodeSize) → memory word = p.memory word) :
    Kept o { p with memory := memory } hands := by
  obtain ⟨contents, h⟩ := h
  obtain ⟨stack, hstack, hlow, hhigh⟩ := hout
  rw [← h.handedOut] at hstack
  have hnode : ∀ {place} {w : StackView}, w ∈ contents place → place ≠ .handedOut →
      memory (nodeOf w) = p.memory (nodeOf w) := fun {place w} hw hplace ↦ by
    have hapart := h.apart_of_ne hw hstack fun heq ↦
      hplace (h.custody.eq_of_mem hw (heq ▸ hstack))
    obtain ⟨hbase, htop⟩ := (h.valid_of_mem hw).le_nodeOf
    refine hsame _ fun hword ↦ ?_
    unfold topOf at *
    rcases hapart with hapart | hapart <;> omega
  refine ⟨contents, { h with
    cached := fun t i ↦ (h.cached t i).write fun w hw ↦ hnode hw (by simp)
    reserved := fun i ↦ (h.reserved i).write fun w hw ↦ hnode hw (by simp) }⟩

theorem currentCache (h : Kept o p hands) (t : Θ) (created : Bool) :
    Kept o (p.currentCache t created) hands := by
  obtain ⟨contents, h⟩ := h
  unfold Pool.currentCache
  split
  · exact ⟨contents, { h with
      registered := fun t' ht' ↦ h.registered t' fun hmem ↦ ht' (List.mem_append_left _ hmem) }⟩
  · exact ⟨contents, h⟩

/-- A cache without stacks is forgotten. -/
theorem forget (h : Kept o p hands) (hempty : firstFilled (p.cache t).classes = none)
    (registry : List Θ) (hregistry : ∀ t' ∉ registry, t' = t ∨ t' ∉ p.registry) :
    Kept o { p with registry := registry, cache := Function.update p.cache t .new } hands := by
  obtain ⟨contents, h⟩ := h
  have hnil : ∀ i, contents (.cached t i) = [] := fun i ↦
    (h.cached t i).eq_nil (head_of_firstFilled_eq_none hempty i)
  refine ⟨contents, { h with
    cached := fun t' i ↦ ?_
    totals := fun t' ↦ ?_
    registered := fun t' ht' i ↦ ?_ }⟩
  · rcases eq_or_ne t' t with rfl | hne
    · rw [hnil i]
      simpa [ThreadCache.new] using Represents.free
    · simpa [hne] using h.cached t' i
  · rcases eq_or_ne t' t with rfl | hne
    · simp only [hnil, Function.update_self]
      exact ⟨by simp [ThreadCache.new], by simp [ThreadCache.new], Nat.zero_le _, Nat.zero_le _⟩
    · simpa [hne] using h.totals t'
  · rcases hregistry t' ht' with rfl | hold
    · exact hnil i
    · exact h.registered t' hold i

/-- A class of a cache that is found or added gets the size. -/
theorem addClass (h : Kept o p hands) {size : ℕ} {i : Fin kMaxSizeClasses}
    (hi : findOrAdd (p.cache t).classes size = some i) :
    Kept o (p.setClass t i { (p.cache t).classes i with size := size }) hands := by
  obtain ⟨contents, h⟩ := h
  refine ⟨contents, { h with
    cached := fun t' j ↦ ?_
    totals := fun t' ↦ ?_ }⟩
  · rcases eq_or_ne t' t with rfl | hne
    · rcases eq_or_ne j i with rfl | hother
      · simp only [Pool.setClass, Function.update_self]
        rcases size_of_findOrAdd hi with rfl | hfree
        · exact h.cached t' j
        · have hnil := h.eq_nil_of_size (h.cached t' j) hfree
          rw [hnil]
          exact (hnil ▸ h.cached t' j).resize size
      · simpa [Pool.setClass, hother] using h.cached t' j
    · simpa [Pool.setClass, hne] using h.cached t' j
  · rcases eq_or_ne t' t with rfl | hne
    · simp only [Pool.setClass, Function.update_self]
      exact ⟨(h.totals t').1, (h.totals t').2, (h.totals t').3, (h.totals t').4⟩
    · simpa [Pool.setClass, hne] using h.totals t'

/-- A class of the reserve that is found or added gets the size; its target does not matter. -/
theorem addReserve (h : Kept o p hands) {size : ℕ} {i : Fin kMaxSizeClasses}
    (hi : findOrAdd p.reserveClasses size = some i) (target : ℕ) :
    Kept o (p.setReserve i { p.reserves i with size := size, target := target }) hands := by
  obtain ⟨contents, h⟩ := h
  refine ⟨contents, { h with reserved := fun j ↦ ?_ }⟩
  rcases eq_or_ne j i with rfl | hne
  · simp only [Pool.setReserve, Pool.reserveClasses, Function.update_self]
    rcases size_of_findOrAdd hi with rfl | hfree
    · exact h.reserved j
    · have hnil := h.eq_nil_of_size (h.reserved j) hfree
      rw [hnil]
      exact (hnil ▸ h.reserved j).resize size
  · simpa [Pool.setReserve, Pool.reserveClasses, hne] using h.reserved j

end Kept

end Stackfull.Stack
