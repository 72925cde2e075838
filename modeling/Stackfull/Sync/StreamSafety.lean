import Stackfull.Sync.Stream

/-!
# A stream is a bounded queue that loses items, and loses no wake

`refines_step` matches every critical section that moves an item or closes the stream with a call of
`LossyFifo`, and every other step with none. `Accounted` says where every item that was pushed is,
and `Woken` where the wake of a sleeping consumer is.
-/

set_option autoImplicit false
set_option relaxedAutoImplicit false
set_option linter.dupNamespace false

namespace Stackfull.Sync.Stream

open Stackfull.Lib
open Completion (Waker)

universe u v

variable {π : Type u} {T : Type v}

/-- A producer in `push` whose item is in no slot and has not been counted. -/
def ProducerPc.isPending : ProducerPc T → Bool
  | .pushing _ | .counting => true
  | _ => false

/-- The consumer has attached itself and sleeps, or is about to. -/
def ReaderPc.sleeps : ReaderPc → Bool
  | .blocked _ | .armed | .selectBlocked => true
  | _ => false

/-- The waker that a producer is going to wake. -/
def ProducerPc.waker : ProducerPc T → Option Waker
  | .waking waker => waker
  | _ => none

/-- The ring holds the items of the queue. -/
structure Refines (capacity : ℕ) (s : State π T) (t : LossyFifo T) : Prop where
  wellFormed : s.ring.WellFormed
  capacity : s.ring.capacity = capacity
  contents : s.ring.contents = t.items.map some
  closed : s.closed = t.closed
  delivered : s.delivered = t.delivered.map some

/-- Every item pushed is in a slot, delivered, counted as dropped, or on its way there. -/
structure Accounted (s : State π T) : Prop where
  wellFormed : s.ring.WellFormed
  nodup : s.pending.Nodup
  pending : ∀ p, p ∈ s.pending ↔ (s.producer p).isPending = true
  counted : s.droppedCount + s.delivered.length + s.ring.count + s.pending.length = s.pushes
  ended : s.ended = true → s.closed = true ∧ s.ring.count = 0

/-- Where the wake of the consumer is. -/
structure Woken (s : State π T) : Prop where
  asleep : s.reader.sleeps = true → s.token = true ∨ s.consumer = some .blocked ∨
    ∃ p, s.producer p = .waking (some .blocked)
  enqueued : ∀ k, s.reader = .enqueued k → s.consumer = some (.callback k) ∨
    ∃ p, s.producer p = .waking (some (.callback k))
  consumer : s.consumer ≠ none → s.ring.count = 0 ∧ s.closed = false

/-! ### Refinement -/

section Refinement

variable {capacity : ℕ} {overflow : Overflow} {s s' : State π T} {t t' : LossyFifo T}

theorem Refines.length_items (hs : Refines capacity s t) : t.items.length = s.ring.count := by
  have hlength := congrArg List.length hs.contents
  simpa using hlength.symm

/-- What is not in the ring and not delivered does not matter. -/
theorem Refines.loose (hs : Refines capacity s t) (hring : s'.ring = s.ring)
    (hclosed : s'.closed = s.closed) (hdelivered : s'.delivered = s.delivered) :
    Refines capacity s' t :=
  ⟨hring ▸ hs.wellFormed, hring ▸ hs.capacity, hring ▸ hs.contents, hclosed ▸ hs.closed,
    hdelivered ▸ hs.delivered⟩

/-- A slot that is read holds the first item. -/
theorem Refines.popLocked (hs : Refines capacity s t) (hcount : s.ring.count ≠ 0) :
    ∃ value rest, t.items = value :: rest ∧ s.ring.pop.1 = some value ∧
      Refines capacity s.popLocked { t with items := rest, delivered := t.delivered ++ [value] } := by
  have hpop := RingBuffer.contents_pop hs.wellFormed hcount
  rw [hs.contents] at hpop
  cases hitems : t.items with
  | nil => simp [hitems] at hpop
  | cons value rest =>
    rw [hitems, List.map_cons, List.cons.injEq] at hpop
    exact ⟨value, rest, rfl, hpop.1.symm, hs.wellFormed.pop, hs.capacity, hpop.2.symm, hs.closed, by
      simp [State.popLocked, hs.delivered, ← hpop.1]⟩

/-- The first item makes room. -/
theorem Refines.evict (hs : Refines capacity s t) (hcount : s.ring.count ≠ 0) :
    Refines capacity s.evict { t with items := t.items.tail } := by
  obtain ⟨value, rest, hitems, -, hpop⟩ := hs.popLocked hcount
  have hcontents : s.ring.pop.2.contents = rest.map some := hpop.contents
  exact ⟨hpop.wellFormed, hpop.capacity, by rw [hitems]; exact hcontents, hs.closed, hs.delivered⟩

variable [DecidableEq π]

/-- An item for which there is room becomes the last one. -/
theorem Refines.construct (hs : Refines capacity s t) (hroom : s.ring.count < s.ring.capacity)
    (p : π) (value : T) (hitems : t'.items = t.items ++ [value]) (hclosed : t'.closed = t.closed)
    (hdelivered : t'.delivered = t.delivered) : Refines capacity (s.construct p value) t' := by
  refine ⟨hs.wellFormed.push hroom value, hs.capacity, ?_, hs.closed.trans hclosed.symm,
    hdelivered.symm ▸ hs.delivered⟩
  have hpush : (s.construct p value).ring.contents = s.ring.contents ++ [some value] :=
    RingBuffer.contents_push hroom value
  rw [hpush, hs.contents, hitems, List.map_append, List.map_singleton]

/-- `push` under the lock is a push to the queue. -/
theorem Refines.push (hs : Refines capacity s t) (p : π) (value : T) :
    Refines capacity (s.push overflow p value)
      (if t.closed then t else t.push overflow capacity value) := by
  have hlength := hs.length_items
  have hcapacity := hs.capacity
  have hle := hs.wellFormed.count_le
  have hpos := Nat.zero_lt_of_lt hs.wellFormed.head_lt
  unfold State.push
  rw [hs.closed]
  by_cases hclosed : t.closed = true
  · rw [if_pos (Or.inl hclosed), if_pos hclosed]
    exact hs.loose rfl rfl rfl
  · rw [if_neg hclosed]
    by_cases hfull : s.ring.count = s.ring.capacity
    · cases overflow with
      | dropNewest =>
        rw [if_pos (Or.inr ⟨hfull, rfl⟩)]
        simp only [LossyFifo.push]
        rw [if_neg (by omega)]
        exact hs.loose rfl rfl rfl
      | dropOldest =>
        rw [if_neg (by simp [hclosed]), if_pos hfull]
        have hevict := hs.evict (by omega)
        refine hevict.construct (by simp [State.evict]; omega) p value ?_ rfl rfl
        cases hitems : t.items with
        | nil => simp [hitems] at hlength; omega
        | cons head tail =>
          rw [hitems, List.length_cons] at hlength
          simp [LossyFifo.push, hitems, List.rtake, show tail.length + 1 = capacity by omega]
    · rw [if_neg (by simp [hclosed, hfull]), if_neg hfull]
      refine hs.construct (by omega) p value ?_ ?_ ?_
      · cases overflow with
        | dropOldest => exact LossyFifo.rtake_of_length_le (by simp; omega)
        | dropNewest => simp only [LossyFifo.push]; rw [if_pos (by omega)]
      · exact (LossyFifo.push_frame overflow capacity t value).1
      · exact (LossyFifo.push_frame overflow capacity t value).2

/-- Nothing is shown and no item moves, or the first item is taken. -/
def Takes (s s' : State π T) : Prop :=
  s.ring.count = 0 ∧ s'.ring = s.ring ∧ s'.delivered = s.delivered ∨
    s.ring.count ≠ 0 ∧ s'.ring = s.popLocked.ring ∧ s'.delivered = s.popLocked.delivered

omit [DecidableEq π] in
/-- A step that shows what `item` says. -/
theorem Refines.takes (overflow : Overflow) (hs : Refines capacity s t) (htakes : Takes s s')
    (hclosed : s'.closed = s.closed) :
    (item s = none ∧ Refines capacity s' t) ∨
      ∃ b t', LossyFifo.step overflow capacity t b = some t' ∧ LossyFifo.event t b = item s ∧
        Refines capacity s' t' := by
  rcases htakes with ⟨hcount, hring, hdelivered⟩ | ⟨hcount, hring, hdelivered⟩
  · exact Or.inl ⟨if_pos hcount, hs.loose hring hclosed hdelivered⟩
  · obtain ⟨value, rest, hitems, hpop, hs'⟩ := hs.popLocked hcount
    refine Or.inr ⟨.pop, _, by simp only [LossyFifo.step, hitems], ?_,
      hs'.loose hring hclosed hdelivered⟩
    simp [LossyFifo.event, item, hitems, hcount, hpop]

omit [DecidableEq π] in
theorem takes_tryNext (s : State π T) : Takes s s.tryNext := by
  unfold State.tryNext
  split_ifs with hcount
  · exact Or.inl ⟨hcount, rfl, rfl⟩
  · exact Or.inr ⟨hcount, rfl, rfl⟩

omit [DecidableEq π] in
theorem takes_take (s : State π T) (timed : Bool) : Takes s (s.take timed) := by
  unfold State.take
  split_ifs with hcount
  · exact Or.inr ⟨hcount, rfl, rfl⟩
  · exact Or.inl ⟨not_not.mp hcount, rfl, rfl⟩
  · exact Or.inl ⟨not_not.mp hcount, rfl, rfl⟩

omit [DecidableEq π] in
theorem takes_nextOrAttach (s : State π T) (waiter : Option ℕ) :
    Takes s (s.nextOrAttach waiter) := by
  unfold State.nextOrAttach
  split_ifs with hcount
  · exact Or.inr ⟨hcount, rfl, rfl⟩
  · exact Or.inl ⟨not_not.mp hcount, rfl, rfl⟩
  · cases waiter with
    | none => exact Or.inl ⟨not_not.mp hcount, rfl, rfl⟩
    | some waiter =>
      dsimp only
      split_ifs <;> exact Or.inl ⟨not_not.mp hcount, rfl, rfl⟩

omit [DecidableEq π] in
/-- Neither taking an item nor attaching closes the stream. -/
theorem closed_take (s : State π T) (timed : Bool) : (s.take timed).closed = s.closed := by
  unfold State.take
  split_ifs <;> rfl

omit [DecidableEq π] in
theorem closed_tryNext (s : State π T) : s.tryNext.closed = s.closed := by
  unfold State.tryNext
  split_ifs <;> rfl

omit [DecidableEq π] in
theorem closed_nextOrAttach (s : State π T) (waiter : Option ℕ) :
    (s.nextOrAttach waiter).closed = s.closed := by
  unfold State.nextOrAttach
  split_ifs
  · rfl
  · rfl
  · cases waiter with
    | none => rfl
    | some waiter =>
      dsimp only
      split_ifs <;> rfl

/-- What a step shows of a `Stream` a call of the queue shows, and their items stay the same. -/
theorem refines_step {a : Action π T} (hs : Refines capacity s t)
    (h : step overflow s a = some s') :
    (event s a = none ∧ Refines capacity s' t) ∨
      ∃ b t', LossyFifo.step overflow capacity t b = some t' ∧
        LossyFifo.event t b = event s a ∧ Refines capacity s' t' := by
  cases a with
  | push p value =>
    simp only [step.eq_def] at h
    split_ifs at h
    cases h
    exact Or.inl ⟨rfl, hs.loose rfl rfl rfl⟩
  | close p =>
    simp only [step.eq_def] at h
    split_ifs at h
    cases h
    exact Or.inl ⟨rfl, hs.loose rfl rfl rfl⟩
  | produce p =>
    simp only [step.eq_def, State.produce] at h
    split at h
    case h_1 => cases h
    case h_2 value hpc =>
      cases h
      exact Or.inr ⟨.push value, _, rfl, by simp [event, hpc, LossyFifo.event], hs.push p value⟩
    case h_3 hpc =>
      cases h
      exact Or.inl ⟨by simp [event, hpc], hs.loose rfl rfl rfl⟩
    case h_4 hpc =>
      cases h
      exact Or.inr ⟨.close, _, rfl, by simp [event, hpc, LossyFifo.event],
        hs.wellFormed, hs.capacity, hs.contents, rfl, hs.delivered⟩
    case h_5 waker hpc =>
      cases h
      refine Or.inl ⟨by simp [event, hpc], ?_⟩
      rcases waker with _ | _ | waiter <;> exact hs.loose rfl rfl rfl
  | tryNext =>
    simp only [step.eq_def] at h
    split_ifs at h
    cases h
    exact hs.takes overflow (takes_tryNext s) (closed_tryNext s)
  | nextOrAttach waiter =>
    simp only [step.eq_def] at h
    split_ifs at h
    cases h
    exact hs.takes overflow (takes_nextOrAttach s waiter) (closed_nextOrAttach s waiter)
  | read again =>
    simp only [step.eq_def, State.read] at h
    split at h
    case h_1 => cases h
    case h_2 timed hreader =>
      cases h
      have htakes := hs.takes overflow (takes_take s timed) (closed_take s timed)
      simpa [event, hreader] using htakes
    case h_4 hreader =>
      cases h
      have htrying : Takes s { s.tryNext with reader := .detaching } := takes_tryNext s
      have htakes := hs.takes overflow htrying (closed_tryNext s)
      simpa [event, hreader] using htakes
    case h_6 hreader =>
      cases h
      refine Or.inl ⟨by simp [event, hreader], ?_⟩
      unfold State.attach
      split_ifs <;> exact hs.loose rfl rfl rfl
    case h_10 => cases h
    case h_3 timed hreader =>
      split_ifs at h
      cases h
      exact Or.inl ⟨by simp [event, hreader], hs.loose rfl rfl rfl⟩
    case h_8 hreader =>
      split_ifs at h
      cases h
      exact Or.inl ⟨by simp [event, hreader], hs.loose rfl rfl rfl⟩
    all_goals
      rename_i hreader
      cases h
      exact Or.inl ⟨by simp [event, hreader], hs.loose rfl rfl rfl⟩
  | cancel waiter =>
    cases h
    refine Or.inl ⟨rfl, ?_⟩
    unfold State.cancel
    split_ifs <;> exact hs.loose rfl rfl rfl
  | staleWake =>
    cases h
    exact Or.inl ⟨rfl, hs.loose rfl rfl rfl⟩
  | next timed =>
    simp only [step.eq_def] at h
    split_ifs at h
    cases h
    exact Or.inl ⟨rfl, hs.loose rfl rfl rfl⟩
  | select =>
    simp only [step.eq_def] at h
    split_ifs at h
    cases h
    exact Or.inl ⟨rfl, hs.loose rfl rfl rfl⟩
  | timeout takesToken =>
    simp only [step.eq_def] at h
    split at h <;> cases h <;> exact Or.inl ⟨rfl, hs.loose rfl rfl rfl⟩
  | spurious =>
    simp only [step.eq_def] at h
    split at h <;> cases h <;> exact Or.inl ⟨rfl, hs.loose rfl rfl rfl⟩
  | unwind =>
    simp only [step.eq_def] at h
    split at h <;> cases h <;> exact Or.inl ⟨rfl, hs.loose rfl rfl rfl⟩

end Refinement

/-! ### Where every item is -/

section Accounting

variable {capacity : ℕ} {overflow : Overflow} {s s' : State π T}

theorem accounted_initial (hcapacity : 0 < capacity) : Accounted (initial π T capacity) :=
  ⟨RingBuffer.wellFormed_empty hcapacity, List.nodup_nil, by simp [initial, ProducerPc.isPending],
    rfl, nofun⟩

/-- The consumer takes the first item, or nothing moves. -/
theorem Accounted.takes (hs : Accounted s) (htakes : Takes s s')
    (hdropped : s'.droppedCount = s.droppedCount) (hproducer : s'.producer = s.producer)
    (hpending : s'.pending = s.pending) (hpushes : s'.pushes = s.pushes)
    (hclosed : s'.closed = s.closed)
    (hended : s'.ended = true → s.ended = true ∨ s.closed = true ∧ s.ring.count = 0) :
    Accounted s' := by
  obtain ⟨hwellFormed, hnodup, hmem, hcounted, hended'⟩ := hs
  have hdrained : s'.ended = true → s.closed = true ∧ s.ring.count = 0 := fun h ↦
    (hended h).elim hended' id
  rcases htakes with ⟨-, hring, hdelivered⟩ | ⟨hcount, hring, hdelivered⟩
  · refine ⟨hring ▸ hwellFormed, hpending ▸ hnodup, ?_, ?_, fun h ↦ ?_⟩
    · rwa [hpending, hproducer]
    · rwa [hdropped, hdelivered, hring, hpending, hpushes]
    · rw [hclosed, hring]
      exact hdrained h
  · refine ⟨?_, hpending ▸ hnodup, ?_, ?_, fun h ↦ absurd (hdrained h).2 hcount⟩
    · rw [hring]
      exact hwellFormed.pop
    · rwa [hpending, hproducer]
    · rw [hdropped, hdelivered, hring, hpending, hpushes]
      simp only [State.popLocked, List.length_append, List.length_singleton, RingBuffer.pop_count]
      omega

variable [DecidableEq π]

/-- A producer moves on, and no item does. -/
theorem Accounted.move (hs : Accounted s) {p : π} {pc : ProducerPc T}
    (hproducer : s'.producer = Function.update s.producer p pc)
    (hsame : pc.isPending = (s.producer p).isPending) (hring : s'.ring = s.ring)
    (hdropped : s'.droppedCount = s.droppedCount) (hdelivered : s'.delivered = s.delivered)
    (hpending : s'.pending = s.pending) (hpushes : s'.pushes = s.pushes)
    (hclosed : s.closed = true → s'.closed = true) (hended : s'.ended = s.ended) :
    Accounted s' := by
  obtain ⟨hwellFormed, hnodup, hmem, hcounted, hended'⟩ := hs
  refine ⟨hring ▸ hwellFormed, hpending ▸ hnodup, fun q ↦ ?_, ?_, fun h ↦ ?_⟩
  · rw [hpending, hmem, hproducer]
    rcases eq_or_ne q p with rfl | hne
    · rw [Function.update_self, hsame]
    · rw [Function.update_of_ne hne]
  · rwa [hdropped, hdelivered, hring, hpending, hpushes]
  · obtain ⟨hclosed', hcount⟩ := hended' (hended ▸ h)
    exact ⟨hclosed hclosed', hring ▸ hcount⟩

omit [DecidableEq π] in
/-- The first item makes room, and is counted. -/
theorem Accounted.evict (hs : Accounted s) (hcount : s.ring.count ≠ 0) : Accounted s.evict := by
  obtain ⟨hwellFormed, hnodup, hmem, hcounted, hended⟩ := hs
  refine ⟨hwellFormed.pop, hnodup, hmem, ?_, fun h ↦ absurd (hended h).2 hcount⟩
  simp only [State.evict, RingBuffer.pop_count]
  omega

/-- A producer whose item is settled leaves the list. -/
theorem Accounted.mem_erase (hs : Accounted s) {p : π} {pc : ProducerPc T}
    (hpc : pc.isPending = false) (q : π) :
    q ∈ s.pending.erase p ↔ (Function.update s.producer p pc q).isPending = true := by
  rw [hs.nodup.mem_erase_iff]
  rcases eq_or_ne q p with rfl | hne
  · simp [hpc]
  · simp [hne, hs.pending]

theorem Accounted.length_erase (hs : Accounted s) {p : π}
    (hp : (s.producer p).isPending = true) :
    (s.pending.erase p).length + 1 = s.pending.length :=
  List.length_erase_add_one ((hs.pending p).mpr hp)

/-- The item of a producer goes into a slot. -/
theorem Accounted.construct (hs : Accounted s) {p : π} (hp : (s.producer p).isPending = true)
    (hopen : s.closed = false) (hroom : s.ring.count < s.ring.capacity) (value : T) :
    Accounted (s.construct p value) := by
  have hlength := hs.length_erase hp
  refine ⟨hs.wellFormed.push hroom value, hs.nodup.erase p, hs.mem_erase rfl, ?_, fun h ↦ ?_⟩
  · have hcounted := hs.counted
    simp only [State.construct, RingBuffer.push_count, State.goto]
    omega
  · exact absurd ((hs.ended h).1.symm.trans hopen) (by decide)

/-- An item that was refused is counted. -/
theorem Accounted.count (hs : Accounted s) {p : π} (hp : s.producer p = .counting) :
    Accounted { s.goto p .idle with
      droppedCount := s.droppedCount + 1, pending := s.pending.erase p } := by
  have hlength := hs.length_erase (p := p) (by rw [hp]; rfl)
  refine ⟨hs.wellFormed, hs.nodup.erase p, hs.mem_erase rfl, ?_, hs.ended⟩
  have hcounted := hs.counted
  simp only [State.goto]
  omega

theorem Accounted.push (hs : Accounted s) {p : π} {value : T}
    (hp : s.producer p = .pushing value) : Accounted (s.push overflow p value) := by
  have hpending : (s.producer p).isPending = true := by rw [hp]; rfl
  have hle := hs.wellFormed.count_le
  have hpos := Nat.zero_lt_of_lt hs.wellFormed.head_lt
  unfold State.push
  split_ifs with hrefused hfull
  · exact hs.move rfl hpending.symm rfl rfl rfl rfl rfl id rfl
  · have hopen : s.closed = false := by simpa using fun h ↦ hrefused (Or.inl h)
    refine (hs.evict (by omega)).construct hpending hopen ?_ value
    simp only [State.evict, RingBuffer.pop_count, RingBuffer.pop_capacity]
    omega
  · have hopen : s.closed = false := by simpa using fun h ↦ hrefused (Or.inl h)
    exact hs.construct hpending hopen (by omega) value

theorem accounted_produce (hs : Accounted s) {p : π} (h : s.produce overflow p = some s') :
    Accounted s' := by
  unfold State.produce at h
  split at h
  case h_1 => cases h
  case h_2 value hpc =>
    cases h
    exact hs.push hpc
  case h_3 hpc =>
    cases h
    exact hs.count hpc
  case h_4 hpc =>
    cases h
    exact hs.move rfl (by rw [hpc]; rfl) rfl rfl rfl rfl rfl (fun _ ↦ rfl) rfl
  case h_5 waker hpc =>
    cases h
    rcases waker with _ | _ | waiter <;>
      exact hs.move rfl (by rw [hpc]; rfl) rfl rfl rfl rfl rfl id rfl

omit [DecidableEq π] in
/-- What is no item and no producer does not matter. -/
theorem Accounted.loose (hs : Accounted s) (hring : s'.ring = s.ring)
    (hdropped : s'.droppedCount = s.droppedCount) (hdelivered : s'.delivered = s.delivered)
    (hproducer : s'.producer = s.producer) (hpending : s'.pending = s.pending)
    (hpushes : s'.pushes = s.pushes) (hclosed : s'.closed = s.closed)
    (hended : s'.ended = s.ended) : Accounted s' := by
  refine ⟨hring ▸ hs.wellFormed, hpending ▸ hs.nodup, ?_, ?_, ?_⟩
  · rw [hpending, hproducer]
    exact hs.pending
  · rw [hdropped, hdelivered, hring, hpending, hpushes]
    exact hs.counted
  · rw [hended, hclosed, hring]
    exact hs.ended

omit [DecidableEq π] in
theorem Accounted.tryNext (hs : Accounted s) : Accounted s.tryNext := by
  unfold State.tryNext
  split_ifs with hcount
  · exact hs
  · exact hs.takes (Or.inr ⟨hcount, rfl, rfl⟩) rfl rfl rfl rfl rfl Or.inl

omit [DecidableEq π] in
theorem Accounted.take (hs : Accounted s) (timed : Bool) : Accounted (s.take timed) := by
  unfold State.take
  split_ifs with hcount hclosed
  · exact hs.takes (Or.inr ⟨hcount, rfl, rfl⟩) rfl rfl rfl rfl rfl Or.inl
  · have hcount := not_not.mp hcount
    exact hs.takes (Or.inl ⟨hcount, rfl, rfl⟩) rfl rfl rfl rfl rfl fun _ ↦ Or.inr ⟨hclosed, hcount⟩
  · exact hs.loose rfl rfl rfl rfl rfl rfl rfl rfl

omit [DecidableEq π] in
theorem Accounted.nextOrAttach (hs : Accounted s) (waiter : Option ℕ) :
    Accounted (s.nextOrAttach waiter) := by
  unfold State.nextOrAttach
  split_ifs with hcount hclosed
  · exact hs.takes (Or.inr ⟨hcount, rfl, rfl⟩) rfl rfl rfl rfl rfl Or.inl
  · have hcount := not_not.mp hcount
    exact hs.takes (Or.inl ⟨hcount, rfl, rfl⟩) rfl rfl rfl rfl rfl fun _ ↦ Or.inr ⟨hclosed, hcount⟩
  · cases waiter with
    | none => exact hs
    | some waiter =>
      dsimp only
      split_ifs
      · exact hs
      · exact hs.loose rfl rfl rfl rfl rfl rfl rfl rfl

omit [DecidableEq π] in
theorem accounted_read (hs : Accounted s) {again : Bool} (h : s.read again = some s') :
    Accounted s' := by
  unfold State.read at h
  split at h
  case h_1 => cases h
  case h_2 timed _ => exact Option.some.inj h ▸ hs.take timed
  case h_4 => exact Option.some.inj h ▸ hs.tryNext.loose rfl rfl rfl rfl rfl rfl rfl rfl
  case h_6 =>
    cases h
    unfold State.attach
    split_ifs <;> exact hs.loose rfl rfl rfl rfl rfl rfl rfl rfl
  case h_10 => cases h
  case h_3 =>
    split_ifs at h
    exact Option.some.inj h ▸ hs.loose rfl rfl rfl rfl rfl rfl rfl rfl
  case h_8 =>
    split_ifs at h
    exact Option.some.inj h ▸ hs.loose rfl rfl rfl rfl rfl rfl rfl rfl
  all_goals
    cases h
    exact hs.loose rfl rfl rfl rfl rfl rfl rfl rfl

theorem accounted_step {a : Action π T} (hs : Accounted s) (h : step overflow s a = some s') :
    Accounted s' := by
  cases a with
  | push p value =>
    simp only [step.eq_def] at h
    split_ifs at h with hp
    cases h
    have hpc : s.producer p = .idle := by
      revert hp
      cases s.producer p <;> simp
    have hmem : p ∉ s.pending := by
      rw [hs.pending, hpc]
      simp [ProducerPc.isPending]
    refine ⟨hs.wellFormed, List.nodup_cons.mpr ⟨hmem, hs.nodup⟩, fun q ↦ ?_, ?_, hs.ended⟩
    · rcases eq_or_ne q p with rfl | hne
      · simp [State.goto, ProducerPc.isPending]
      · simp [State.goto, hne, hs.pending]
    · have hcounted := hs.counted
      simp only [List.length_cons, State.goto]
      omega
  | close p =>
    simp only [step.eq_def] at h
    split_ifs at h with hp
    cases h
    refine hs.move rfl ?_ rfl rfl rfl rfl rfl id rfl
    revert hp
    cases s.producer p <;> simp [ProducerPc.isPending]
  | produce p => exact accounted_produce hs h
  | read again => exact accounted_read hs h
  | tryNext =>
    simp only [step.eq_def] at h
    split_ifs at h
    exact Option.some.inj h ▸ hs.tryNext
  | nextOrAttach waiter =>
    simp only [step.eq_def] at h
    split_ifs at h
    exact Option.some.inj h ▸ hs.nextOrAttach waiter
  | cancel waiter =>
    cases h
    unfold State.cancel
    split_ifs <;> exact hs.loose rfl rfl rfl rfl rfl rfl rfl rfl
  | staleWake => exact Option.some.inj h ▸ hs.loose rfl rfl rfl rfl rfl rfl rfl rfl
  | next timed =>
    simp only [step.eq_def] at h
    split_ifs at h
    exact Option.some.inj h ▸ hs.loose rfl rfl rfl rfl rfl rfl rfl rfl
  | select =>
    simp only [step.eq_def] at h
    split_ifs at h
    exact Option.some.inj h ▸ hs.loose rfl rfl rfl rfl rfl rfl rfl rfl
  | timeout takesToken =>
    simp only [step.eq_def] at h
    split at h <;> cases h <;> exact hs.loose rfl rfl rfl rfl rfl rfl rfl rfl
  | spurious =>
    simp only [step.eq_def] at h
    split at h <;> cases h <;> exact hs.loose rfl rfl rfl rfl rfl rfl rfl rfl
  | unwind =>
    simp only [step.eq_def] at h
    split at h <;> cases h <;> exact hs.loose rfl rfl rfl rfl rfl rfl rfl rfl

end Accounting

/-! ### Wakes -/

section Waking

variable {overflow : Overflow} {s s' : State π T}

theorem woken_initial (capacity : ℕ) : Woken (initial π T capacity) :=
  ⟨nofun, nofun, fun h ↦ absurd rfl h⟩

/-- The consumer moves, or attaches itself while there is nothing to take. -/
theorem Woken.reads (hw : Woken s) (hproducer : s'.producer = s.producer)
    (hconsumer : s'.consumer ≠ none → s'.ring.count = 0 ∧ s'.closed = false)
    (hasleep : s'.reader.sleeps = true →
      s'.consumer = some .blocked ∨
        s.reader.sleeps = true ∧ s'.token = s.token ∧ s'.consumer = s.consumer)
    (henqueued : ∀ k, s'.reader = .enqueued k →
      s'.consumer = some (.callback k) ∨ s.reader = .enqueued k ∧ s'.consumer = s.consumer) :
    Woken s' := by
  refine ⟨fun h ↦ ?_, fun k h ↦ ?_, hconsumer⟩
  · rcases hasleep h with h | ⟨h, htoken, hsame⟩
    · exact Or.inr (Or.inl h)
    · rw [htoken, hsame, hproducer]
      exact hw.asleep h
  · rcases henqueued k h with h | ⟨h, hsame⟩
    · exact Or.inl h
    · rw [hsame, hproducer]
      exact hw.enqueued k h

theorem woken_take (hw : Woken s) (timed : Bool) : Woken (s.take timed) := by
  unfold State.take
  split_ifs with hcount hclosed
  · exact hw.reads rfl (fun h ↦ absurd (hw.consumer h).1 hcount) nofun nofun
  · exact hw.reads rfl hw.consumer nofun nofun
  · exact hw.reads rfl (fun _ ↦ ⟨not_not.mp hcount, by simpa using hclosed⟩) (fun _ ↦ Or.inl rfl)
      nofun

theorem woken_tryNext (hw : Woken s) : Woken s.tryNext := by
  unfold State.tryNext
  split_ifs with hcount
  · exact hw
  · exact hw.reads rfl (fun h ↦ absurd (hw.consumer h).1 hcount) (fun h ↦ Or.inr ⟨h, rfl, rfl⟩)
      (fun _ h ↦ Or.inr ⟨h, rfl⟩)

theorem woken_nextOrAttach (hw : Woken s) (waiter : Option ℕ) : Woken (s.nextOrAttach waiter) := by
  unfold State.nextOrAttach
  split_ifs with hcount hclosed
  · exact hw.reads rfl (fun h ↦ absurd (hw.consumer h).1 hcount) (fun h ↦ Or.inr ⟨h, rfl, rfl⟩)
      (fun _ h ↦ Or.inr ⟨h, rfl⟩)
  · exact hw.reads rfl hw.consumer (fun h ↦ Or.inr ⟨h, rfl, rfl⟩) (fun _ h ↦ Or.inr ⟨h, rfl⟩)
  · cases waiter with
    | none => exact hw
    | some waiter =>
      dsimp only
      split_ifs
      · exact hw
      · refine hw.reads rfl (fun _ ↦ ⟨not_not.mp hcount, by simpa using hclosed⟩) nofun
          fun k h ↦ Or.inl ?_
        cases h
        rfl

theorem woken_attach (hw : Woken s) : Woken s.attach := by
  unfold State.attach
  split_ifs with hready
  · exact hw.reads rfl hw.consumer nofun nofun
  · have hready := not_or.mp hready
    exact hw.reads rfl (fun _ ↦ ⟨not_not.mp hready.1, by simpa using hready.2⟩) (fun _ ↦ Or.inl rfl)
      nofun

/-- A consumer that is gone is not woken. -/
theorem consumer_detach (hw : Woken s) (h : s.detach.consumer ≠ none) :
    s.ring.count = 0 ∧ s.closed = false := by
  refine hw.consumer fun hnone ↦ h ?_
  simp [State.detach, hnone]

theorem woken_read (hw : Woken s) {again : Bool} (h : s.read again = some s') : Woken s' := by
  unfold State.read at h
  split at h
  case h_1 => cases h
  case h_2 timed _ => exact Option.some.inj h ▸ woken_take hw timed
  case h_3 =>
    split_ifs at h
    exact Option.some.inj h ▸ hw.reads rfl hw.consumer nofun nofun
  case h_4 hreader =>
    cases h
    have htry := woken_tryNext hw
    exact htry.reads rfl htry.consumer nofun nofun
  case h_5 =>
    cases h
    exact hw.reads rfl (consumer_detach hw) nofun nofun
  case h_6 => exact Option.some.inj h ▸ woken_attach hw
  case h_7 hreader =>
    cases h
    refine hw.reads rfl hw.consumer (fun _ ↦ Or.inr ⟨by rw [hreader]; rfl, rfl, rfl⟩) fun k h ↦ ?_
    cases again <;> cases h
  case h_8 =>
    split_ifs at h
    exact Option.some.inj h ▸ hw.reads rfl hw.consumer nofun nofun
  case h_9 =>
    cases h
    refine hw.reads rfl (consumer_detach hw) (fun h ↦ ?_) fun k h ↦ ?_ <;> cases again <;> cases h
  case h_10 => cases h

/-- Whoever wakes a waker stands there. -/
theorem ProducerPc.waker_eq_some {pc : ProducerPc T} {waker : Waker} :
    pc.waker = some waker ↔ pc = .waking (some waker) := by
  cases pc <;> simp [ProducerPc.waker]

variable [DecidableEq π]

/-- A producer that wakes nobody moves on. -/
theorem Woken.pass (hw : Woken s) {p : π} {pc : ProducerPc T}
    (hproducer : s'.producer = Function.update s.producer p pc) (hring : s'.ring = s.ring)
    (hclosed : s'.closed = s.closed) (hconsumer : s'.consumer = s.consumer)
    (hreader : s'.reader = s.reader) (htoken : s'.token = s.token)
    (hbefore : (s.producer p).waker = none) (hafter : pc.waker = none) : Woken s' := by
  have hsame : ∀ waker q, s'.producer q = .waking (some waker) ↔
      s.producer q = .waking (some waker) := fun waker q ↦ by
    rw [← ProducerPc.waker_eq_some, ← ProducerPc.waker_eq_some, hproducer]
    rcases eq_or_ne q p with rfl | hne
    · rw [Function.update_self, hbefore, hafter]
    · rw [Function.update_of_ne hne]
  obtain ⟨hasleep, henqueued, hready⟩ := hw
  constructor <;> simpa only [hsame, hring, hclosed, hconsumer, hreader, htoken]

/-- A producer takes the consumer. -/
theorem Woken.hands (hw : Woken s) {p : π}
    (hproducer : s'.producer = Function.update s.producer p (.waking s.consumer))
    (hconsumer : s'.consumer = none) (hreader : s'.reader = s.reader) (htoken : s'.token = s.token)
    (hbefore : (s.producer p).waker = none) : Woken s' := by
  have hkept : ∀ waker, (s.consumer = some waker ∨ ∃ q, s.producer q = .waking (some waker)) →
      ∃ q, s'.producer q = .waking (some waker) := fun waker h ↦ by
    rw [hproducer]
    rcases h with h | ⟨q, hq⟩
    · exact ⟨p, by rw [Function.update_self, h]⟩
    · have hne : q ≠ p := by
        rintro rfl
        rw [ProducerPc.waker_eq_some.mpr hq] at hbefore
        cases hbefore
      exact ⟨q, by rwa [Function.update_of_ne hne]⟩
  refine ⟨fun h ↦ ?_, fun k h ↦ Or.inr ?_, fun h ↦ absurd hconsumer h⟩
  · rw [htoken]
    rw [hreader] at h
    exact (hw.asleep h).imp_right fun h ↦ Or.inr (hkept _ h)
  · rw [hreader] at h
    exact hkept _ (hw.enqueued k h)

/-- A producer wakes the consumer that it has taken. -/
theorem Woken.wakes (hw : Woken s) {p : π} {waker : Option Waker}
    (hpc : s.producer p = .waking waker) : Woken ((s.goto p .idle).wake waker) := by
  have hkept : ∀ other, other ∉ waker → (∃ q, s.producer q = .waking (some other)) →
      ∃ q, (s.goto p .idle).producer q = .waking (some other) := fun other hother ⟨q, hq⟩ ↦ by
    have hne : q ≠ p := by
      rintro rfl
      rw [hpc, ProducerPc.waking.injEq] at hq
      exact hother hq
    exact ⟨q, by simpa [State.goto, Function.update_of_ne hne] using hq⟩
  match waker with
  | none =>
    exact ⟨fun h ↦ (hw.asleep h).imp_right fun h ↦ h.imp_right (hkept _ nofun),
      fun k h ↦ (hw.enqueued k h).imp_right (hkept _ nofun), hw.consumer⟩
  | some .blocked =>
    exact ⟨fun _ ↦ Or.inl rfl, fun k h ↦ (hw.enqueued k h).imp_right (hkept _ (by simp)),
      hw.consumer⟩
  | some (.callback waiter) =>
    by_cases hreader : s.reader = .enqueued waiter
    · have hidle : ((s.goto p .idle).wake (some (.callback waiter))).reader = .idle := if_pos hreader
      refine ⟨fun h ↦ ?_, fun k h ↦ ?_, hw.consumer⟩ <;> rw [hidle] at h <;> cases h
    · have hsame : ((s.goto p .idle).wake (some (.callback waiter))).reader = s.reader :=
        if_neg hreader
      refine ⟨fun h ↦ ?_, fun k h ↦ ?_, hw.consumer⟩ <;> rw [hsame] at h
      · exact (hw.asleep h).imp_right fun h ↦ h.imp_right (hkept _ (by simp))
      · refine (hw.enqueued k h).imp_right (hkept _ ?_)
        rintro heq
        cases heq
        exact hreader h

theorem woken_produce (hw : Woken s) {p : π} (h : s.produce overflow p = some s') : Woken s' := by
  unfold State.produce at h
  split at h
  case h_1 => cases h
  case h_2 value hpc =>
    cases h
    have hbefore : (s.producer p).waker = none := by rw [hpc]; rfl
    unfold State.push
    split_ifs
    · exact hw.pass rfl rfl rfl rfl rfl rfl hbefore rfl
    · exact hw.hands rfl rfl rfl rfl hbefore
    · exact hw.hands rfl rfl rfl rfl hbefore
  case h_3 hpc =>
    cases h
    exact hw.pass rfl rfl rfl rfl rfl rfl (by rw [hpc]; rfl) rfl
  case h_4 hpc =>
    cases h
    exact hw.hands rfl rfl rfl rfl (by rw [hpc]; rfl)
  case h_5 waker hpc =>
    cases h
    exact hw.wakes hpc

theorem woken_step {a : Action π T} (hw : Woken s) (h : step overflow s a = some s') : Woken s' := by
  cases a with
  | push p value =>
    simp only [step.eq_def] at h
    split_ifs at h with hp
    cases h
    refine hw.pass rfl rfl rfl rfl rfl rfl ?_ rfl
    revert hp
    cases s.producer p <;> simp [ProducerPc.waker]
  | close p =>
    simp only [step.eq_def] at h
    split_ifs at h with hp
    cases h
    refine hw.pass rfl rfl rfl rfl rfl rfl ?_ rfl
    revert hp
    cases s.producer p <;> simp [ProducerPc.waker]
  | produce p => exact woken_produce hw h
  | read again => exact woken_read hw h
  | tryNext =>
    simp only [step.eq_def] at h
    split_ifs at h
    exact Option.some.inj h ▸ woken_tryNext hw
  | nextOrAttach waiter =>
    simp only [step.eq_def] at h
    split_ifs at h
    exact Option.some.inj h ▸ woken_nextOrAttach hw waiter
  | cancel waiter =>
    cases h
    unfold State.cancel
    split_ifs with hconsumer hreader
    · exact hw.reads rfl nofun nofun nofun
    · have hblocked : s.consumer ≠ some .blocked := by simp [hconsumer]
      have hother : ∀ k, s.reader = .enqueued k → s.consumer ≠ some (.callback k) := by
        rintro k hk heq
        cases hconsumer.symm.trans heq
        exact hreader hk
      exact ⟨fun h ↦ (hw.asleep h).imp_right fun h ↦ Or.inr (h.resolve_left hblocked),
        fun k h ↦ Or.inr ((hw.enqueued k h).resolve_left (hother k h)), fun h ↦ absurd rfl h⟩
    · exact hw.reads rfl hw.consumer (fun h ↦ Or.inr ⟨h, rfl, rfl⟩) fun _ h ↦ Or.inr ⟨h, rfl⟩
  | staleWake =>
    cases h
    exact ⟨fun _ ↦ Or.inl rfl, hw.enqueued, hw.consumer⟩
  | next timed =>
    simp only [step.eq_def] at h
    split_ifs at h
    exact Option.some.inj h ▸ hw.reads rfl hw.consumer nofun nofun
  | select =>
    simp only [step.eq_def] at h
    split_ifs at h
    exact Option.some.inj h ▸ hw.reads rfl hw.consumer nofun nofun
  | timeout takesToken =>
    simp only [step.eq_def] at h
    split at h <;> cases h <;> exact hw.reads rfl hw.consumer nofun nofun
  | spurious =>
    simp only [step.eq_def] at h
    split at h <;> cases h <;> exact hw.reads rfl hw.consumer nofun nofun
  | unwind =>
    simp only [step.eq_def] at h
    split at h <;> cases h <;> exact hw.reads rfl hw.consumer nofun nofun

end Waking

/-! ### The result -/

section Results

variable [DecidableEq π] {capacity : ℕ} {overflow : Overflow} {s s' : State π T}
  {t : LossyFifo T} {events : List (LossyFifo.Event T)}

theorem invariant_of_reachable (hcapacity : 0 < capacity)
    (hs : (system π T overflow capacity).Reachable s) : Accounted s ∧ Woken s := by
  refine System.Reachable.invariant (P := fun s ↦ Accounted s ∧ Woken s) ?_ ?_ hs
  · rintro _ rfl
    exact ⟨accounted_initial hcapacity, woken_initial capacity⟩
  · exact fun _ _ _ hs hnext ↦ ⟨accounted_step hs.1 hnext, woken_step hs.2 hnext⟩

/-- A stream is simulated by a bounded queue that loses items. -/
theorem simulation (hcapacity : 0 < capacity) :
    System.Simulation (system π T overflow capacity) (fun _ _ ↦ True) event
      (LossyFifo.system T overflow capacity) (fun _ _ ↦ True) LossyFifo.event
      (Refines capacity) := by
  refine ⟨?_, fun s a s' t hs _ hstep ↦ ?_⟩
  · rintro _ rfl
    exact ⟨LossyFifo.empty T, rfl, RingBuffer.wellFormed_empty hcapacity, rfl, rfl, rfl, rfl⟩
  · rcases refines_step hs hstep with hstay | ⟨b, t', hb, hevent, hs'⟩
    · exact Or.inl hstay
    · exact Or.inr ⟨b, t', trivial, hb, hevent, hs'⟩

/-- A step of a closed stream delivers an item or leaves all of them where they are. -/
theorem refines_closed {items : List T} {a : Action π T}
    (hs : ∃ t, Refines capacity s t ∧ t.closed = true ∧ t.delivered ++ t.items = items)
    (h : step overflow s a = some s') :
    ∃ t, Refines capacity s' t ∧ t.closed = true ∧ t.delivered ++ t.items = items := by
  obtain ⟨t, hrefines, hclosed, hitems⟩ := hs
  rcases refines_step hrefines h with ⟨-, hrefines'⟩ | ⟨b, t', hb, -, hrefines'⟩
  · exact ⟨t, hrefines', hclosed, hitems⟩
  · obtain ⟨hclosed', -, hitems'⟩ := LossyFifo.closed_step hclosed hb
    exact ⟨t', hrefines', hclosed', hitems'.trans hitems⟩

/-- What is promised of a stream that shows the queue `t`. -/
structure Contract (overflow : Overflow) (capacity : ℕ) (s : State π T) (t : LossyFifo T) :
    Prop where
  items : s.ring.contents = t.items.map some
  closed : s.closed = t.closed
  delivered : s.delivered = t.delivered.map some
  sound : LossyFifo.Sound overflow capacity t
  dropped : (∀ p, (s.producer p).isPending = false) →
    s.droppedCount + s.delivered.length + s.ring.contents.length = s.pushes
  kept : s.closed = true → ∀ labels s', (system π T overflow capacity).run s labels = some s' →
    s'.closed = true ∧ s'.delivered ++ s'.ring.contents = s.delivered ++ s.ring.contents
  drained : s.ended = true → s.closed = true ∧ s.ring.contents = []
  awake : (∀ p, s.producer p = .idle) → s.ring.contents ≠ [] ∨ s.closed = true →
    (s.reader.sleeps = true → s.token = true) ∧ ∀ waiter, s.reader ≠ .enqueued waiter

omit [DecidableEq π] in
/-- While there is something for it, the consumer is not attached. -/
theorem Woken.not_attached (hw : Woken s) (hready : s.ring.contents ≠ [] ∨ s.closed = true) :
    s.consumer = none := by
  by_contra hconsumer
  obtain ⟨hcount, hopen⟩ := hw.consumer hconsumer
  rcases hready with hitems | hclosed
  · exact hitems (List.length_eq_zero_iff.mp (by rw [RingBuffer.length_contents, hcount]))
  · exact absurd (hopen.symm.trans hclosed) (by decide)

/-- Whatever a stream shows, a bounded queue that loses items shows, with the same items in the same
order; no item is lost uncounted, none is accepted after `close`, and no sleeping consumer misses an
item or the end. -/
theorem refines_lossyFifo (hcapacity : 0 < capacity)
    (hs : (system π T overflow capacity).Produces (fun _ _ ↦ True) event events s) :
    ∃ t, (LossyFifo.system T overflow capacity).Produces (fun _ _ ↦ True) LossyFifo.event events t ∧
      LossyFifo.Traced events t ∧ Contract overflow capacity s t := by
  obtain ⟨haccounted, hwoken⟩ := invariant_of_reachable hcapacity hs.reachableUnder
  obtain ⟨t, ht, hrefines⟩ := (simulation hcapacity).produces hs
  refine ⟨t, ht, LossyFifo.traced_of_produces ht, hrefines.contents, hrefines.closed,
    hrefines.delivered, LossyFifo.sound_of_produces ht, fun hidle ↦ ?_, fun hclosed labels s' hrun ↦ ?_,
    fun hended ↦ ?_, fun hidle hready ↦ ⟨fun hsleeps ↦ ?_, fun waiter hwaiter ↦ ?_⟩⟩
  · have hpending : s.pending = [] := List.eq_nil_iff_forall_not_mem.mpr fun p hp ↦ by
      rw [haccounted.pending, hidle p] at hp
      cases hp
    have hcounted := haccounted.counted
    rwa [hpending, List.length_nil, Nat.add_zero, ← RingBuffer.length_contents] at hcounted
  · have hstep : ∀ (u : State π T) a u', (∃ v, Refines capacity u v ∧ v.closed = true ∧
        v.delivered ++ v.items = t.delivered ++ t.items) → step overflow u a = some u' →
        ∃ v, Refines capacity u' v ∧ v.closed = true ∧
          v.delivered ++ v.items = t.delivered ++ t.items := fun _ _ _ ↦ refines_closed
    obtain ⟨t', hrefines', hclosed', hitems⟩ := System.runUnder_preserves hstep
      ⟨t, hrefines, hrefines.closed.symm.trans hclosed, rfl⟩ hrun
    refine ⟨hrefines'.closed.trans hclosed', ?_⟩
    rw [hrefines'.delivered, hrefines'.contents, ← List.map_append, hitems, List.map_append,
      ← hrefines.delivered, ← hrefines.contents]
  · obtain ⟨hclosed, hcount⟩ := haccounted.ended hended
    exact ⟨hclosed, List.length_eq_zero_iff.mp (by rw [RingBuffer.length_contents, hcount])⟩
  · rcases hwoken.asleep hsleeps with htoken | hconsumer | ⟨p, hp⟩
    · exact htoken
    · exact absurd ((hwoken.not_attached hready).symm.trans hconsumer) nofun
    · exact absurd ((hidle p).symm.trans hp) nofun
  · rcases hwoken.enqueued waiter hwaiter with hconsumer | ⟨p, hp⟩
    · exact absurd ((hwoken.not_attached hready).symm.trans hconsumer) nofun
    · exact absurd ((hidle p).symm.trans hp) nofun

/-- The consumer waits; two pushes find room, a third takes the place of the first, and the stream is
closed before a fourth. -/
def overflows : List (Action (Fin 2) ℕ) :=
  [.next true, .read false, .push 0 1, .push 1 2, .produce 0, .produce 1, .produce 0, .produce 1,
    .push 0 3, .produce 0, .produce 0, .read false, .read false, .read false, .close 1, .produce 1,
    .produce 1, .push 0 4, .produce 0, .produce 0]

theorem refines_lossyFifo_overflows :
    ∃ s events t, (system (Fin 2) ℕ .dropOldest 2).Produces (fun _ _ ↦ True) event events s ∧
      LossyFifo.Traced events t ∧ Contract .dropOldest 2 s t ∧ s.delivered = [some 2] ∧
      s.ring.contents = [some 3] ∧ s.droppedCount = 2 := by
  let s := ((system (Fin 2) ℕ .dropOldest 2).run (initial _ _ 2) overflows).get (by decide +kernel)
  have hs : (system (Fin 2) ℕ .dropOldest 2).Produces (fun _ _ ↦ True) event _ s :=
    System.Produces.run (.init rfl) (Option.some_get _).symm
  obtain ⟨t, -, htraced, hcontract⟩ := refines_lossyFifo (by decide) hs
  exact ⟨s, _, t, hs, htraced, hcontract, by decide +kernel, by decide +kernel, by decide +kernel⟩

end Results

end Stackfull.Sync.Stream
