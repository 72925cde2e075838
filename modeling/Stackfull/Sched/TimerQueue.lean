import Stackfull.Lib.IntrusiveHeap
import Stackfull.Lib.Transition
import Mathlib.Data.Fintype.Defs
import Mathlib.Order.Fin.Basic

/-!
# One timer queue, operation by operation

`TimerQueue` (`TimerQueue.h`, `TimerQueue.cpp`): the heap of entries with their stored indices, the
mirrors `size` and `earliest`, and the queue's bit in the mask that the queues of a scheduler share.
An operation is one step; the mask's other bits may change between any two.

Deadlines are any linear order with a greatest element, which is `kNoDeadline`. An entry's deadline
and callback are set by its owner while it is not queued. Firing an entry wakes its task or calls
back, and that is what the firing operations return (`Wake`).

`Exact` is the invariant, and `Fires` says what a firing operation does; each round of its loop
takes one entry out and fires it, and `Fires.cons` adds a round.
-/

set_option autoImplicit false
set_option relaxedAutoImplicit false
set_option linter.dupNamespace false

namespace Stackfull.Sched.TimerQueue

open Stackfull.Lib

universe u v

/-- What firing an entry does once the lock is released. -/
inductive Wake (ε : Type u)
  | callback (entry : ε)
  | token (entry : ε)
  deriving DecidableEq

/-- The entry that fired. -/
def Wake.entry {ε : Type u} : Wake ε → ε
  | .callback e => e
  | .token e => e

/-- The queue, the mask it is attached to, and the fields of the entries. `queue` says whether an
entry's `queue` is this one. -/
structure State (ε : Type u) (T : Type v) where
  heap : IntrusiveHeap ε
  size : ℕ
  earliest : T
  closed : Bool
  activeMask : Option (BitVec 64)
  activeBit : BitVec 64
  deadline : ε → T
  callback : ε → Bool
  queue : ε → Bool
  fired : ε → Bool
  cancelled : ε → Bool

/-- An operation on the queue, an owner that makes an entry, or a change of the mask's other bits.
-/
inductive Action (ε : Type u) (T : Type v)
  | construct (entry : ε) (deadline : T) (callback queue : Bool)
  | add (entry : ε)
  | addUnlessCancelled (entry : ε)
  | cancel (entry : ε)
  | fireExpired (now : T)
  | fireCallbacksAndClose
  | otherBits (word : BitVec 64)

variable {ε : Type u} {T : Type v}

/-- A new queue, attached to a mask or to none. -/
def initial [Inhabited ε] [LinearOrder T] [OrderTop T] (activeMask : Option (BitVec 64))
    (activeBit : BitVec 64) : State ε T where
  heap := IntrusiveHeap.empty
  size := 0
  earliest := ⊤
  closed := false
  activeMask := activeMask
  activeBit := activeBit
  deadline := fun _ ↦ ⊤
  callback := fun _ ↦ false
  queue := fun _ ↦ false
  fired := fun _ ↦ false
  cancelled := fun _ ↦ false

namespace State

variable [DecidableEq ε] [LinearOrder T] [OrderTop T]

/-- The entry is not queued, and its owner makes it anew. -/
def construct (s : State ε T) (e : ε) (deadline : T) (callback queue : Bool) : State ε T :=
  { s with
    deadline := Function.update s.deadline e deadline
    callback := Function.update s.callback e callback
    queue := Function.update s.queue e queue
    fired := Function.update s.fired e false
    cancelled := Function.update s.cancelled e false }

omit [DecidableEq ε] in
/-- The deadline that `earliest` mirrors. -/
def top (s : State ε T) : T :=
  if s.heap.size = 0 then ⊤ else s.deadline (s.heap.slot 0)

omit [DecidableEq ε] in
/-- `publishLocked`. -/
def publishLocked (s : State ε T) : State ε T :=
  { s with
    activeMask := s.activeMask.map fun word ↦
      if s.size = 0 ∧ s.heap.size ≠ 0 then word ||| s.activeBit
      else if s.size ≠ 0 ∧ s.heap.size = 0 then word &&& ~~~s.activeBit
      else word
    size := s.heap.size
    earliest := s.top }

/-- The entry goes into the heap. -/
def insert (s : State ε T) (e : ε) : State ε T :=
  { s with
    fired := Function.update s.fired e false
    heap := s.heap.push s.deadline e }.publishLocked

/-- `add`. -/
def add (s : State ε T) (e : ε) : State ε T × Bool :=
  let added := { s with queue := Function.update s.queue e true }.insert e
  (added, added.heap.slot 0 = e)

/-- `addUnlessCancelled`. -/
def addUnlessCancelled (s : State ε T) (e : ε) : State ε T × Bool :=
  if s.cancelled e || s.closed then (s, false) else (s.insert e, true)

/-- `removeLocked`. -/
def removeLocked (s : State ε T) (index : ℕ) : State ε T :=
  { s with heap := s.heap.removeAt s.deadline index }.publishLocked

/-- `cancel`. -/
def cancel (s : State ε T) (e : ε) : State ε T × Bool :=
  match s.heap.index e with
  | none => ({ s with cancelled := Function.update s.cancelled e true }, false)
  | some index => (s.removeLocked index, true)

/-- `cancelTimer`. -/
def cancelTimer (s : State ε T) (e : ε) : State ε T × Bool :=
  if s.queue e then s.cancel e else (s, false)

omit [DecidableEq ε] [LinearOrder T] [OrderTop T] in
/-- How the entry fires. -/
def wake (s : State ε T) (e : ε) : Wake ε :=
  if s.callback e then .callback e else .token e

/-- `removeLocked` and `fireAndUnlock` on the entry at an index. -/
def fireAt (s : State ε T) (index : ℕ) : State ε T :=
  { s.removeLocked index with fired := Function.update s.fired (s.heap.slot index) true }

theorem size_removeLocked (s : State ε T) (index : ℕ) :
    (s.removeLocked index).heap.size = s.heap.size - 1 :=
  s.heap.size_removeAt s.deadline index

theorem size_fireAt (s : State ε T) (index : ℕ) :
    (s.fireAt index).heap.size = s.heap.size - 1 :=
  s.size_removeLocked index

/-- `fireExpired`. -/
def fireExpired (s : State ε T) (now : T) : State ε T × List (Wake ε) :=
  if s.heap.size = 0 ∨ now < s.deadline (s.heap.slot 0) then (s, [])
  else
    let rest := (s.fireAt 0).fireExpired now
    (rest.1, s.wake (s.heap.slot 0) :: rest.2)
termination_by s.heap.size
decreasing_by
  rw [size_fireAt]
  omega

omit [DecidableEq ε] [LinearOrder T] [OrderTop T] in
/-- The first callback entry of the heap. -/
def firstCallback (s : State ε T) : Option ℕ :=
  (List.range s.heap.size).find? fun i ↦ s.callback (s.heap.slot i)

omit [DecidableEq ε] [LinearOrder T] [OrderTop T] in
theorem of_firstCallback {s : State ε T} {i : ℕ} (h : s.firstCallback = some i) :
    i < s.heap.size ∧ s.callback (s.heap.slot i) = true := by
  unfold firstCallback at h
  have hcallback := List.find?_some h
  exact ⟨List.mem_range.mp (List.mem_of_find?_eq_some h), hcallback⟩

omit [DecidableEq ε] [LinearOrder T] [OrderTop T] in
theorem of_firstCallback_none {s : State ε T} (h : s.firstCallback = none) {i : ℕ}
    (hi : i < s.heap.size) : s.callback (s.heap.slot i) = false := by
  unfold firstCallback at h
  exact Bool.eq_false_iff.mpr (List.find?_eq_none.mp h i (List.mem_range.mpr hi))

/-- `fireCallbacksAndClose`. -/
def fireCallbacksAndClose (s : State ε T) : State ε T × List (Wake ε) :=
  match _h : s.firstCallback with
  | none => ({ s with closed := true }, [])
  | some index =>
    let rest := { s with closed := true }.fireAt index |>.fireCallbacksAndClose
    (rest.1, s.wake (s.heap.slot index) :: rest.2)
termination_by s.heap.size
decreasing_by
  have hlt := (of_firstCallback _h).1
  rw [size_fireAt]
  simp only
  omega

theorem fireCallbacksAndClose_none {s : State ε T} (h : s.firstCallback = none) :
    s.fireCallbacksAndClose = ({ s with closed := true }, []) := by
  rw [fireCallbacksAndClose]
  split
  · rfl
  · next hsome => rw [h] at hsome; nomatch hsome

theorem fireCallbacksAndClose_some {s : State ε T} {index : ℕ} (h : s.firstCallback = some index) :
    s.fireCallbacksAndClose =
      ((State.fireAt { s with closed := true } index).fireCallbacksAndClose.1,
        s.wake (s.heap.slot index) ::
          (State.fireAt { s with closed := true } index).fireCallbacksAndClose.2) := by
  rw [fireCallbacksAndClose]
  split
  · next hnone => rw [h] at hnone; nomatch hnone
  · next hsome =>
    rw [h] at hsome
    obtain rfl := Option.some.inj hsome
    rfl

omit [DecidableEq ε] [LinearOrder T] [OrderTop T] in
/-- Others set and clear their own bits of the mask. -/
def otherBits (s : State ε T) (word : BitVec 64) : State ε T :=
  { s with
    activeMask := s.activeMask.map fun mask ↦ (mask &&& s.activeBit) ||| (word &&& ~~~s.activeBit) }

/-- One operation. An entry that is queued is neither added nor made anew. -/
def step (s : State ε T) : Action ε T → Option (State ε T)
  | .construct e deadline callback queue =>
    if s.heap.index e = none then some (s.construct e deadline callback queue) else none
  | .add e => if s.heap.index e = none then some (s.add e).1 else none
  | .addUnlessCancelled e =>
    if s.heap.index e = none then some (s.addUnlessCancelled e).1 else none
  | .cancel e => some (s.cancel e).1
  | .fireExpired now => some (s.fireExpired now).1
  | .fireCallbacksAndClose => some s.fireCallbacksAndClose.1
  | .otherBits word => some (s.otherBits word)

end State

/-- A timer queue as a step system. Its bit is not set in the mask before it has entries. -/
def system (ε : Type u) (T : Type v) [Inhabited ε] [DecidableEq ε] [LinearOrder T] [OrderTop T] :
    System (State ε T) (Action ε T) where
  init s := ∃ mask bit, (∀ word ∈ mask, word &&& bit = 0) ∧ s = initial mask bit
  step := State.step

/-! ### Exact mirrors -/

section Exact

variable [DecidableEq ε] [LinearOrder T] [OrderTop T] {s t : State ε T}

/-- The heap is in order and its entries know their place, and the size, the earliest deadline and
the queue's bit are the heap's. -/
structure Exact (s : State ε T) : Prop where
  valid : s.heap.Valid s.deadline
  size : s.size = s.heap.size
  earliest : s.earliest = s.top
  bit : ∀ word ∈ s.activeMask,
    word &&& s.activeBit = if s.heap.size = 0 then 0 else s.activeBit

omit [DecidableEq ε] in
/-- The earliest deadline is the least one. -/
theorem Exact.earliest_le (h : Exact s) {e : ε} (he : s.heap.Mem e) :
    s.earliest ≤ s.deadline e := by
  rw [h.earliest, State.top, if_neg (Nat.ne_of_gt (h.valid.indexed.size_pos he))]
  exact h.valid.top_le he

omit [DecidableEq ε] in
/-- The earliest deadline is an entry's, unless the queue is empty. -/
theorem Exact.exists_earliest (h : Exact s) :
    s.size = 0 ∧ s.earliest = ⊤ ∨ ∃ e, s.heap.Mem e ∧ s.deadline e = s.earliest := by
  rw [h.size, h.earliest, State.top]
  split_ifs with hempty
  · exact Or.inl ⟨hempty, rfl⟩
  · exact Or.inr ⟨s.heap.slot 0, ⟨0, h.valid.indexed.located 0 (Nat.pos_of_ne_zero hempty)⟩, rfl⟩

omit [DecidableEq ε] in
/-- Publishing a changed heap makes the mirrors exact. -/
theorem Exact.publishLocked (h : Exact s) (hheap : t.heap.Valid t.deadline)
    (hsize : t.size = s.size) (hmask : t.activeMask = s.activeMask)
    (hbit : t.activeBit = s.activeBit) : Exact t.publishLocked where
  valid := hheap
  size := rfl
  earliest := rfl
  bit := by
    intro word hword
    simp only [State.publishLocked, hmask, hbit, hsize, Option.mem_def, Option.map_eq_some_iff]
      at hword ⊢
    obtain ⟨mask, hin, rfl⟩ := hword
    have hold := h.bit mask hin
    have hset : (mask ||| s.activeBit) &&& s.activeBit = s.activeBit := by
      ext i
      simp only [BitVec.getElem_and, BitVec.getElem_or]
      cases s.activeBit[i] <;> simp
    have hclear : (mask &&& ~~~s.activeBit) &&& s.activeBit = 0 := by
      ext i
      simp
    rw [h.size]
    by_cases hbefore : s.heap.size = 0 <;> by_cases hnow : t.heap.size = 0 <;>
      simp [hbefore, hnow, hset, hclear] at hold ⊢ <;> exact hold

/-- An exact queue stays exact while an entry that is not queued is made anew. -/
theorem Exact.construct (h : Exact s) {e : ε} (he : s.heap.index e = none) (deadline : T)
    (callback queue : Bool) : Exact (s.construct e deadline callback queue) := by
  have hkey (i : ℕ) (hi : i < s.heap.size) :
      (s.construct e deadline callback queue).deadline (s.heap.slot i) =
        s.deadline (s.heap.slot i) := by
    have hne : s.heap.slot i ≠ e := by
      rintro rfl
      rw [h.valid.indexed.located i hi] at he
      nomatch he
    exact Function.update_of_ne hne ..
  refine ⟨⟨h.valid.indexed, ?_⟩, h.size, ?_, h.bit⟩
  · intro i h0 hi
    have hafter := h.valid.ordered i h0 hi
    unfold IntrusiveHeap.After at hafter ⊢
    change _ < s.heap.size at hi
    show State.deadline _ (s.heap.slot _) ≤ State.deadline _ (s.heap.slot i)
    rw [hkey i hi, hkey _ (by unfold IntrusiveHeap.parent; omega)]
    exact hafter
  · refine h.earliest.trans ?_
    show (if s.heap.size = 0 then _ else _) = if s.heap.size = 0 then _ else _
    split_ifs with hempty
    · rfl
    · exact (hkey 0 (Nat.pos_of_ne_zero hempty)).symm

/-- Adding an entry that is not queued keeps the queue exact and queues just that entry. -/
theorem Exact.insert (h : Exact s) {e : ε} (he : s.heap.index e = none) :
    Exact (s.insert e) ∧ ∀ f, (s.insert e).heap.Mem f ↔ f = e ∨ s.heap.Mem f := by
  obtain ⟨hvalid, -, hmem⟩ := h.valid.push (e := e) fun ⟨i, hi⟩ ↦ nomatch he.symm.trans hi
  exact ⟨h.publishLocked hvalid rfl rfl rfl, hmem⟩

/-- Removing an entry keeps the queue exact and takes out just that entry. -/
theorem Exact.removeLocked (h : Exact s) {i : ℕ} (hi : i < s.heap.size) :
    Exact (s.removeLocked i) ∧
      ∀ f, (s.removeLocked i).heap.Mem f ↔ s.heap.Mem f ∧ f ≠ s.heap.slot i := by
  obtain ⟨hvalid, -, hmem⟩ := h.valid.removeAt hi
  exact ⟨h.publishLocked hvalid rfl rfl rfl, hmem⟩

end Exact

/-! ### Firing -/

section Firing

variable [DecidableEq ε] [LinearOrder T] [OrderTop T] {s t : State ε T} {which : ε → Prop}
  {wakes : List (Wake ε)}

/-- Just the queued entries with a property fire, each once and in its own way, and the others stay
queued. -/
structure Fires (s t : State ε T) (which : ε → Prop) (wakes : List (Wake ε)) : Prop where
  exact : Exact t
  once : (wakes.map Wake.entry).Nodup
  fires : ∀ e, e ∈ wakes.map Wake.entry ↔ s.heap.Mem e ∧ which e
  left : ∀ e, t.heap.Mem e ↔ s.heap.Mem e ∧ ¬ which e
  way : ∀ w ∈ wakes, w = s.wake w.entry
  marked : ∀ e, t.fired e = true ↔ e ∈ wakes.map Wake.entry ∨ s.fired e = true
  deadline : t.deadline = s.deadline

omit [DecidableEq ε] in
/-- Nothing is to fire. -/
theorem Fires.nil (which : ε → Prop) (h : Exact s) (hnone : ∀ e, s.heap.Mem e → ¬ which e) :
    Fires s s which [] where
  exact := h
  once := List.nodup_nil
  fires e := by simpa using hnone e
  left e := ⟨fun hin ↦ ⟨hin, hnone e hin⟩, fun hin ↦ hin.1⟩
  way _ hin := nomatch hin
  marked e := by simp
  deadline := rfl

omit [OrderTop T] [LinearOrder T] [DecidableEq ε] in
@[simp]
theorem entry_wake (s : State ε T) (e : ε) : (s.wake e).entry = e := by
  unfold State.wake
  split_ifs <;> rfl

/-- One entry fires and then the others do. -/
theorem Fires.cons (h : Exact s) {i : ℕ} (hi : i < s.heap.size) (hwhich : which (s.heap.slot i))
    (hrest : Fires (s.fireAt i) t which wakes) :
    Fires s t which (s.wake (s.heap.slot i) :: wakes) := by
  obtain ⟨-, hmem⟩ := h.removeLocked hi
  have hin : s.heap.Mem (s.heap.slot i) := ⟨i, h.valid.indexed.located i hi⟩
  refine ⟨hrest.exact, ?_, ?_, ?_, ?_, ?_, hrest.deadline⟩
  · rw [List.map_cons, entry_wake, List.nodup_cons]
    refine ⟨fun hagain ↦ ?_, hrest.once⟩
    exact ((hmem _).mp ((hrest.fires _).mp hagain).1).2 rfl
  · intro e
    rw [List.map_cons, entry_wake, List.mem_cons, hrest.fires e]
    show e = _ ∨ (s.removeLocked i).heap.Mem e ∧ _ ↔ _
    rw [hmem e]
    rcases eq_or_ne e (s.heap.slot i) with rfl | hne
    · simp [hin, hwhich]
    · simp [hne]
  · intro e
    rw [hrest.left e]
    show (s.removeLocked i).heap.Mem e ∧ _ ↔ _
    rw [hmem e]
    rcases eq_or_ne e (s.heap.slot i) with rfl | hne
    · simp [hwhich]
    · simp [hne]
  · intro w hw
    rcases List.mem_cons.mp hw with rfl | hw
    · rw [entry_wake]
    · exact hrest.way w hw
  · intro e
    rw [hrest.marked e, List.map_cons, entry_wake, List.mem_cons]
    show _ ∨ Function.update s.fired _ true e = true ↔ _
    rcases eq_or_ne e (s.heap.slot i) with rfl | hne
    · simp
    · simp [hne]

/-- The removed entry's firing keeps the queue exact. -/
theorem Exact.fireAt (h : Exact s) {i : ℕ} (hi : i < s.heap.size) : Exact (s.fireAt i) := by
  obtain ⟨hexact, -⟩ := h.removeLocked hi
  exact ⟨hexact.valid, hexact.size, hexact.earliest, hexact.bit⟩

/-- `fireExpired` fires what is due. -/
theorem fires_fireExpired (h : Exact s) (now : T) :
    Fires s (s.fireExpired now).1 (fun e ↦ s.deadline e ≤ now) (s.fireExpired now).2 := by
  induction s using State.fireExpired.induct (ε := ε) now with
  | case1 s hstop =>
    rw [State.fireExpired, if_pos hstop]
    refine Fires.nil _ h fun e he hdue ↦ ?_
    rcases hstop with hempty | hlate
    · have := h.valid.indexed.size_pos he
      omega
    · exact absurd ((h.valid.top_le he).trans hdue) (not_le.mpr hlate)
  | case2 s hfire ih =>
    rw [State.fireExpired, if_neg hfire]
    push Not at hfire
    have hi := Nat.pos_of_ne_zero hfire.1
    exact Fires.cons h hi hfire.2 (ih (h.fireAt hi))

/-- `fireExpired` fires in the order of the deadlines. -/
theorem sorted_fireExpired (h : Exact s) (now : T) :
    ((s.fireExpired now).2.map fun w ↦ s.deadline w.entry).Pairwise (· ≤ ·) := by
  induction s using State.fireExpired.induct (ε := ε) now with
  | case1 s hstop =>
    rw [State.fireExpired, if_pos hstop]
    exact List.Pairwise.nil
  | case2 s hfire ih =>
    rw [State.fireExpired, if_neg hfire]
    push Not at hfire
    have hi := Nat.pos_of_ne_zero hfire.1
    refine List.pairwise_cons.mpr ⟨fun d hd ↦ ?_, ih (h.fireAt hi)⟩
    obtain ⟨w, hw, rfl⟩ := List.mem_map.mp hd
    have hlater := (fires_fireExpired (h.fireAt hi) now).fires w.entry
    obtain ⟨hin, -⟩ := hlater.mp (List.mem_map_of_mem hw)
    show s.deadline (s.wake _).entry ≤ _
    rw [entry_wake]
    exact h.valid.top_le (((h.removeLocked hi).2 _).mp hin).1

omit [DecidableEq ε] in
/-- An entry that no search finds does not call back. -/
theorem Exact.callback_of_none (h : Exact s) (hnone : s.firstCallback = none) {e : ε}
    (he : s.heap.Mem e) : s.callback e = false := by
  obtain ⟨i, hindex⟩ := he
  obtain ⟨hi, rfl⟩ := h.valid.indexed.placed e i hindex
  exact State.of_firstCallback_none hnone hi

/-- `fireCallbacksAndClose` fires the callback entries. -/
theorem fires_fireCallbacksAndClose (h : Exact s) :
    Fires s s.fireCallbacksAndClose.1 (fun e ↦ s.callback e = true) s.fireCallbacksAndClose.2 := by
  induction s using State.fireCallbacksAndClose.induct (ε := ε) (T := T) with
  | case1 s hnone =>
    rw [State.fireCallbacksAndClose_none hnone]
    have hclosed : Exact { s with closed := true } := ⟨h.valid, h.size, h.earliest, h.bit⟩
    have hstay := Fires.nil (fun e ↦ s.callback e = true) hclosed fun e he hcallback ↦ by
      rw [h.callback_of_none hnone he] at hcallback
      nomatch hcallback
    exact ⟨hclosed, hstay.once, hstay.fires, hstay.left, hstay.way, hstay.marked, rfl⟩
  | case2 s index hsome ih =>
    rw [State.fireCallbacksAndClose_some hsome]
    obtain ⟨hi, hcallback⟩ := State.of_firstCallback hsome
    have hclosed : Exact { s with closed := true } := ⟨h.valid, h.size, h.earliest, h.bit⟩
    have hfires := Fires.cons hclosed hi hcallback (ih (hclosed.fireAt hi))
    exact ⟨hfires.exact, hfires.once, hfires.fires, hfires.left, hfires.way, hfires.marked,
      hfires.deadline⟩

/-- `fireCallbacksAndClose` closes the queue. -/
theorem closed_fireCallbacksAndClose (s : State ε T) : s.fireCallbacksAndClose.1.closed = true := by
  induction s using State.fireCallbacksAndClose.induct (ε := ε) (T := T) with
  | case1 s hnone => rw [State.fireCallbacksAndClose_none hnone]
  | case2 s index hsome ih =>
    rw [State.fireCallbacksAndClose_some hsome]
    exact ih

end Firing

/-! ### Every sequence of operations -/

section Contract

variable [DecidableEq ε] [LinearOrder T] [OrderTop T] {s t : State ε T}

/-- What `add` does with an entry that is not queued: it is the earliest now or something else still
is. -/
structure Adds (s : State ε T) (e : ε) : Prop where
  exact : Exact (s.add e).1
  queued : ∀ f, (s.add e).1.heap.Mem f ↔ f = e ∨ s.heap.Mem f
  earliest : (s.add e).1.earliest = if (s.add e).2 then s.deadline e else s.earliest

/-- What `addUnlessCancelled` does with an entry that is not queued. -/
structure AddsUnlessCancelled (s : State ε T) (e : ε) : Prop where
  exact : Exact (s.addUnlessCancelled e).1
  added : (s.addUnlessCancelled e).2 = true ↔ s.cancelled e = false ∧ s.closed = false
  queued : (s.addUnlessCancelled e).2 = true →
    ∀ f, (s.addUnlessCancelled e).1.heap.Mem f ↔ f = e ∨ s.heap.Mem f
  refused : (s.addUnlessCancelled e).2 = false → (s.addUnlessCancelled e).1 = s

/-- What `cancel` does. -/
structure Cancels (s : State ε T) (e : ε) : Prop where
  exact : Exact (s.cancel e).1
  removed : (s.cancel e).2 = true ↔ s.heap.Mem e
  queued : ∀ f, (s.cancel e).1.heap.Mem f ↔ s.heap.Mem f ∧ f ≠ e
  marked : (s.cancel e).2 = false →
    (s.cancel e).1 = { s with cancelled := Function.update s.cancelled e true }

theorem Exact.adds (h : Exact s) {e : ε} (he : s.heap.index e = none) : Adds s e := by
  have hexact : Exact { s with queue := Function.update s.queue e true } :=
    ⟨h.valid, h.size, h.earliest, h.bit⟩
  obtain ⟨hadded, hmem⟩ := hexact.insert he
  refine ⟨hadded, hmem, ?_⟩
  have hfirst := hadded.earliest
  have hsize := hadded.valid.indexed.size_pos ((hmem e).mpr (Or.inl rfl))
  rw [State.top, if_neg (Nat.ne_of_gt hsize)] at hfirst
  have hreturn : (s.add e).2 = decide ((s.add e).1.heap.slot 0 = e) := rfl
  have hin : (s.add e).1.heap.Mem ((s.add e).1.heap.slot 0) :=
    ⟨0, hadded.valid.indexed.located 0 hsize⟩
  refine hfirst.trans ?_
  rw [hreturn]
  simp only [decide_eq_true_eq]
  split_ifs with htop
  · exact congrArg s.deadline htop
  · have hold := ((hmem _).mp hin).resolve_left htop
    refine le_antisymm ?_ (h.earliest_le hold)
    obtain ⟨hempty, -⟩ | ⟨f, hf, heq⟩ := h.exists_earliest
    · rw [h.size] at hempty
      exact absurd hempty (Nat.ne_of_gt (h.valid.indexed.size_pos hold))
    · rw [← heq]
      exact hadded.valid.top_le ((hmem f).mpr (Or.inr hf))

theorem Exact.addsUnlessCancelled (h : Exact s) {e : ε} (he : s.heap.index e = none) :
    AddsUnlessCancelled s e := by
  by_cases hrefused : (s.cancelled e || s.closed) = true
  · have hresult : s.addUnlessCancelled e = (s, false) := if_pos hrefused
    refine ⟨?_, ?_, ?_, ?_⟩
    · rw [hresult]
      exact h
    · rw [hresult]
      revert hrefused
      cases s.cancelled e <;> cases s.closed <;> simp
    · rw [hresult]
      exact fun hfalse ↦ nomatch hfalse
    · rw [hresult]
      exact fun _ ↦ rfl
  · have hresult : s.addUnlessCancelled e = (s.insert e, true) := if_neg hrefused
    obtain ⟨hexact, hmem⟩ := h.insert he
    refine ⟨?_, ?_, ?_, ?_⟩
    · rw [hresult]
      exact hexact
    · rw [hresult]
      simpa using hrefused
    · rw [hresult]
      exact fun _ ↦ hmem
    · rw [hresult]
      exact fun hfalse ↦ nomatch hfalse

theorem Exact.cancels (h : Exact s) (e : ε) : Cancels s e := by
  cases hindex : s.heap.index e with
  | none =>
    have hresult : s.cancel e =
        ({ s with cancelled := Function.update s.cancelled e true }, false) := by
      unfold State.cancel
      rw [hindex]
    have hout : ¬ s.heap.Mem e := fun ⟨i, hi⟩ ↦ nomatch hindex.symm.trans hi
    refine ⟨?_, ?_, ?_, ?_⟩
    · rw [hresult]
      exact ⟨h.valid, h.size, h.earliest, h.bit⟩
    · simp [hresult, hout]
    · intro f
      rw [hresult]
      refine ⟨fun hin ↦ ⟨hin, ?_⟩, fun hin ↦ hin.1⟩
      rintro rfl
      exact hout hin
    · exact fun _ ↦ congrArg Prod.fst hresult
  | some index =>
    have hresult : s.cancel e = (s.removeLocked index, true) := by
      unfold State.cancel
      rw [hindex]
    obtain ⟨hi, hslot⟩ := h.valid.indexed.placed e index hindex
    obtain ⟨hexact, hmem⟩ := h.removeLocked hi
    refine ⟨?_, ?_, ?_, ?_⟩
    · rw [hresult]
      exact hexact
    · rw [hresult]
      exact ⟨fun _ ↦ ⟨index, hindex⟩, fun _ ↦ rfl⟩
    · intro f
      rw [hresult, ← hslot]
      exact hmem f
    · rw [hresult]
      exact fun hfalse ↦ nomatch hfalse

omit [DecidableEq ε] in
/-- Nobody else touches the queue's bit. -/
theorem Exact.otherBits (h : Exact s) (word : BitVec 64) : Exact (s.otherBits word) where
  valid := h.valid
  size := h.size
  earliest := h.earliest
  bit := by
    intro mixed hmixed
    simp only [State.otherBits, Option.mem_def, Option.map_eq_some_iff] at hmixed ⊢
    obtain ⟨mask, hin, rfl⟩ := hmixed
    refine Eq.trans ?_ (h.bit mask hin)
    ext i
    simp only [BitVec.getElem_and, BitVec.getElem_or, BitVec.getElem_not]
    cases mask[i] <;> cases s.activeBit[i] <;> simp

omit [DecidableEq ε] in
/-- A new queue is exact. -/
theorem exact_initial [Inhabited ε] {mask : Option (BitVec 64)} {bit : BitVec 64}
    (hmask : ∀ word ∈ mask, word &&& bit = 0) : Exact (initial mask bit : State ε T) where
  valid := IntrusiveHeap.valid_empty
  size := rfl
  earliest := rfl
  bit := hmask

/-- Every operation keeps the queue exact. -/
theorem Exact.step {a : Action ε T} (h : Exact s) (hstep : s.step a = some t) : Exact t := by
  cases a with
  | construct e deadline callback queue =>
    obtain ⟨he, heq⟩ := Option.ite_none_right_eq_some.mp hstep
    obtain rfl := Option.some.inj heq
    exact h.construct he deadline callback queue
  | add e =>
    obtain ⟨he, heq⟩ := Option.ite_none_right_eq_some.mp hstep
    obtain rfl := Option.some.inj heq
    exact (h.adds he).exact
  | addUnlessCancelled e =>
    obtain ⟨he, heq⟩ := Option.ite_none_right_eq_some.mp hstep
    obtain rfl := Option.some.inj heq
    exact (h.addsUnlessCancelled he).exact
  | cancel e =>
    obtain rfl := Option.some.inj hstep
    exact (h.cancels e).exact
  | fireExpired now =>
    obtain rfl := Option.some.inj hstep
    exact (fires_fireExpired h now).exact
  | fireCallbacksAndClose =>
    obtain rfl := Option.some.inj hstep
    exact (fires_fireCallbacksAndClose h).exact
  | otherBits word =>
    obtain rfl := Option.some.inj hstep
    exact h.otherBits word

/-- What a queue promises at any time between two operations, and of the next one. -/
structure Contract (s : State ε T) : Prop where
  ordered : ∀ i, 0 < i → i < s.heap.size →
    s.deadline (s.heap.slot ((i - 1) / 2)) ≤ s.deadline (s.heap.slot i)
  located : ∀ i, i < s.heap.size → s.heap.index (s.heap.slot i) = some i
  notQueued : ∀ e, (∀ i, i < s.heap.size → s.heap.slot i ≠ e) → s.heap.index e = none
  size : s.size = s.heap.size
  earliest : ∀ e, s.heap.Mem e → s.earliest ≤ s.deadline e
  exists_earliest : s.heap.size = 0 ∧ s.earliest = ⊤ ∨
    ∃ e, s.heap.Mem e ∧ s.deadline e = s.earliest
  bit : ∀ word ∈ s.activeMask,
    word &&& s.activeBit = if s.heap.size = 0 then 0 else s.activeBit
  adds : ∀ e, s.heap.index e = none → Adds s e
  addsUnlessCancelled : ∀ e, s.heap.index e = none → AddsUnlessCancelled s e
  cancels : ∀ e, Cancels s e
  fireExpired : ∀ now,
    Fires s (s.fireExpired now).1 (fun e ↦ s.deadline e ≤ now) (s.fireExpired now).2
  sorted : ∀ now, ((s.fireExpired now).2.map fun w ↦ s.deadline w.entry).Pairwise (· ≤ ·)
  fireCallbacksAndClose :
    Fires s s.fireCallbacksAndClose.1 (fun e ↦ s.callback e = true) s.fireCallbacksAndClose.2
  closed : s.fireCallbacksAndClose.1.closed = true

theorem Exact.contract (h : Exact s) : Contract s where
  ordered := h.valid.ordered
  located := h.valid.indexed.located
  notQueued e hout := by
    cases hindex : s.heap.index e with
    | none => rfl
    | some i =>
      obtain ⟨hi, hslot⟩ := h.valid.indexed.placed e i hindex
      exact absurd hslot (hout i hi)
  size := h.size
  earliest _ := h.earliest_le
  exists_earliest := h.size ▸ h.exists_earliest
  bit := h.bit
  adds _ := h.adds
  addsUnlessCancelled _ := h.addsUnlessCancelled
  cancels := h.cancels
  fireExpired := fires_fireExpired h
  sorted := sorted_fireExpired h
  fireCallbacksAndClose := fires_fireCallbacksAndClose h
  closed := closed_fireCallbacksAndClose s

variable [Inhabited ε]

/-- Every reachable queue is exact. -/
theorem exact_of_reachable (hs : (system ε T).Reachable s) : Exact s := by
  refine System.Reachable.invariant (P := Exact) ?_ (fun _ _ _ h hnext ↦ h.step hnext) hs
  rintro s ⟨mask, bit, hmask, rfl⟩
  exact exact_initial hmask

/-- After any sequence of operations the queue is a priority queue with exact mirrors. -/
theorem priority_queue (hs : (system ε T).Reachable s) : Contract s :=
  (exact_of_reachable hs).contract

end Contract

/-- Four entries, three of equal deadlines, of which one is cancelled in the middle of the heap. -/
def equalDeadlines : List (Action (Fin 4) (Fin 8)) :=
  [.construct 0 3 false true, .add 0, .construct 1 2 true true, .addUnlessCancelled 1,
    .construct 2 2 false true, .add 2, .construct 3 2 true true, .add 3, .otherBits 7, .cancel 1]

theorem priority_queue_equalDeadlines :
    ∃ s, (system (Fin 4) (Fin 8)).run (initial (some 0) 4) equalDeadlines = some s ∧
      s.size = 3 ∧ s.activeMask = some 7 ∧ Contract s :=
  ⟨((system (Fin 4) (Fin 8)).run (initial (some 0) 4) equalDeadlines).get (by decide +kernel),
    (Option.some_get _).symm, by decide +kernel, by decide +kernel,
    priority_queue (System.reachable_of_run ⟨some 0, 4, by simp, rfl⟩ (Option.some_get _).symm)⟩

end Stackfull.Sched.TimerQueue
