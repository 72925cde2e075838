import Stackfull.Lib.Refinement
import Stackfull.Sync.SpinLock

/-!
# A critical section is one step

The lock is free as long as the message of the last `unlock` has not been replaced (`Free`), and the
thread that replaces it is the only one in a critical section (`Held`). It takes over the view of
that message, and with it everything that was written in critical sections before, so the oldest
message that it may read is the newest one (`Written`). Others that find the lock taken read old
messages of `locked`, and replace them by `true`.

So the accesses of a critical section, whatever the others do in between, are those of one step:
`State.produces_sections`.
-/

set_option autoImplicit false
set_option relaxedAutoImplicit false
set_option linter.dupNamespace false

namespace Stackfull.Sync.SpinLock

open Stackfull.Lib

universe u v x

section Memory

variable {Θ : Type u} {X : Type v} {A : Type} {m m' : ReleaseAcquire Θ (Cell X) (Cell.Content A)}
  {times : X → ℕ} {data : X → A} {thread other : Θ} {view : Cell X → ℕ} {time : ℕ} {locked : Bool}

/-- The guarded memory: the newest messages, which are at these times, have these values, and nobody
has missed that there are no newer ones. -/
structure Written (m : ReleaseAcquire Θ (Cell X) (Cell.Content A)) (times : X → ℕ) (data : X → A) :
    Prop where
  latest : ∀ location, ∃ msg, m.message (.data location) (times location) = some msg ∧
    msg.value = data location
  newest : ∀ location, m.Newest (.data location) (times location)
  views : ∀ thread location, m.view thread (.data location) ≤ times location
  messages : ∀ time msg, m.message .locked time = some msg →
    ∀ location, msg.view (.data location) ≤ times location

/-- The message has been replaced. -/
def Taken (m : ReleaseAcquire Θ (Cell X) (Cell.Content A)) (time : ℕ) : Prop :=
  m.message .locked (time + 1) ≠ none

/-- One message says that nobody is in a critical section. -/
def Free (m : ReleaseAcquire Θ (Cell X) (Cell.Content A)) (times : X → ℕ) : Prop :=
  ∃ time msg, m.message .locked time = some msg ∧ msg.value = false ∧
    (∀ location, msg.view (.data location) = times location) ∧ msg.view .locked ≤ time ∧
    m.Newest .locked time ∧
    ∀ older msg, m.message .locked older = some msg → msg.value = false → older ≠ time →
      Taken m older

/-- The thread has replaced the last message that said so. -/
structure Held (m : ReleaseAcquire Θ (Cell X) (Cell.Content A)) (thread : Θ) (times : X → ℕ) :
    Prop where
  view : ∀ location, m.view thread (.data location) = times location
  taken : ∀ time msg, m.message .locked time = some msg → msg.value = false → Taken m time
  chain : ∃ last, m.view thread .locked ≤ last ∧ m.Newest .locked last ∧
    ∀ time, m.view thread .locked ≤ time → time ≤ last → m.message .locked time ≠ none

/-! ### Looking at the lock -/

section Look

variable [DecidableEq Θ]

/-- A thread has learnt something, but nothing new. -/
theorem Written.setView (h : Written m times data)
    (hview : ∀ location, view (.data location) ≤ times location) :
    Written (m.setView thread view) times data where
  latest := h.latest
  newest := h.newest
  views := by
    intro other location
    rcases eq_or_ne other thread with rfl | hne
    · rw [ReleaseAcquire.setView_view_self]
      exact hview location
    · rw [ReleaseAcquire.setView_view_of_ne hne]
      exact h.views other location
  messages := h.messages

theorem Held.setView (h : Held m thread times) (hne : thread ≠ other) :
    Held (m.setView other view) thread times where
  view := by
    rw [ReleaseAcquire.setView_view_of_ne hne]
    exact h.view
  taken := h.taken
  chain := by
    rw [ReleaseAcquire.setView_view_of_ne hne]
    exact h.chain

end Look

theorem reached_data [DecidableEq X] (time : ℕ) (location : X) :
    m.reached thread .locked time (.data location) = m.view thread (.data location) :=
  Function.update_of_ne (by simp) ..

/-! ### Replacing a message of the lock -/

section Put

variable [DecidableEq X] {msg : Message (Cell X) Bool}

/-- A message of the lock that knows of nothing new. -/
theorem Written.put (h : Written m times data)
    (hview : ∀ location, msg.view (.data location) ≤ times location) :
    Written (m.put .locked time msg) times data where
  latest := by
    intro location
    rw [ReleaseAcquire.put_message_of_ne (by simp)]
    exact h.latest location
  newest := by
    intro location later hlater
    rw [ReleaseAcquire.put_message_of_ne (by simp)]
    exact h.newest location later hlater
  views := h.views
  messages := by
    intro t msg' hmsg'
    rw [ReleaseAcquire.put_message_self] at hmsg'
    split_ifs at hmsg' with heq
    · cases hmsg'
      exact hview
    · exact h.messages t msg' hmsg'

theorem Taken.put (h : Taken m time) (t : ℕ) : Taken (m.put .locked t msg) time := by
  unfold Taken
  rw [ReleaseAcquire.put_message_self]
  split_ifs
  · simp
  · exact h

/-- Somebody found the lock taken, and said so again: it is still free. -/
theorem Free.put (h : Free m times) (hvalue : msg.value = true) {old : Message (Cell X) Bool}
    (hold : m.message .locked time = some old) (hlocked : old.value = true)
    (hfree : m.message .locked (time + 1) = none) : Free (m.put .locked (time + 1) msg) times := by
  obtain ⟨last, free, hmessage, hfalse, hview, hown, hnewest, htaken⟩ := h
  have hle : time < last := by
    rcases Nat.lt_trichotomy time last with hlt | rfl | hlt
    · exact hlt
    · rw [hmessage] at hold
      cases hold
      rw [hfalse] at hlocked
      cases hlocked
    · rw [hnewest time hlt] at hold
      cases hold
  have hne : last ≠ time + 1 := by
    rintro rfl
    rw [hmessage] at hfree
    cases hfree
  refine ⟨last, free, ?_, hfalse, hview, hown, fun later hlater ↦ ?_, ?_⟩
  · rw [ReleaseAcquire.put_message_self, if_neg hne, hmessage]
  · rw [ReleaseAcquire.put_message_self, if_neg (by omega)]
    exact hnewest later hlater
  · intro older msg' hmsg' hfalse' holder
    rw [ReleaseAcquire.put_message_self] at hmsg'
    split_ifs at hmsg' with heq
    · cases hmsg'
      rw [hvalue] at hfalse'
      cases hfalse'
    · exact (htaken older msg' hmsg' hfalse' holder).put _

/-- The same while a thread holds it. -/
theorem Held.put (h : Held m thread times) (hvalue : msg.value = true)
    {old : Message (Cell X) Bool} (hold : m.message .locked time = some old) :
    Held (m.put .locked (time + 1) msg) thread times where
  view := h.view
  taken := by
    intro t msg' hmsg' hfalse
    rw [ReleaseAcquire.put_message_self] at hmsg'
    split_ifs at hmsg' with heq
    · cases hmsg'
      rw [hvalue] at hfalse
      cases hfalse
    · exact (h.taken t msg' hmsg' hfalse).put _
  chain := by
    obtain ⟨last, hle, hnewest, hchain⟩ := h.chain
    have htime : time ≤ last := by
      by_contra hlt
      rw [hnewest time (by omega)] at hold
      cases hold
    by_cases hend : time = last
    · refine ⟨time + 1, Nat.le_trans hle (by omega), fun later hlater ↦ ?_, fun t hview ht ↦ ?_⟩
      · rw [ReleaseAcquire.put_message_self, if_neg (by omega)]
        exact hnewest later (by omega)
      · rw [ReleaseAcquire.put_message_self]
        split_ifs with heq
        · simp
        · exact hchain t hview (by omega)
    · refine ⟨last, hle, fun later hlater ↦ ?_, fun t hview ht ↦ ?_⟩
      · rw [ReleaseAcquire.put_message_self, if_neg (by omega)]
        exact hnewest later hlater
      · rw [ReleaseAcquire.put_message_self]
        split_ifs with heq
        · simp
        · exact hchain t hview ht

variable [DecidableEq Θ]

/-- Whoever replaces the message that says that the lock is free holds it, and has missed
nothing. -/
theorem Free.take (h : Free m times) (hwritten : Written m times data) (hvalue : msg.value = true)
    {old : Message (Cell X) Bool} (hold : m.message .locked time = some old)
    (hfalse : old.value = false) (hfree : m.message .locked (time + 1) = none) :
    Held ((m.put .locked (time + 1) msg).setView thread
      (ReleaseAcquire.join true (m.reached thread .locked (time + 1)) old.view)) thread times := by
  obtain ⟨last, free, hmessage, -, hview, hown, hnewest, htaken⟩ := h
  have heq : time = last := by
    by_contra hne
    exact htaken time old hold hfalse hne hfree
  subst heq
  rw [hold] at hmessage
  cases hmessage
  have hlocked : max (m.reached thread .locked (time + 1) .locked) (old.view .locked) =
      time + 1 := by
    rw [ReleaseAcquire.reached, Function.update_self]
    omega
  refine ⟨fun location ↦ ?_, fun t msg' hmsg' hfalse' ↦ ?_, time + 1, ?_, fun later hlater ↦ ?_,
    fun t hle ht ↦ ?_⟩
  · rw [ReleaseAcquire.setView_view_self, ReleaseAcquire.join, if_pos rfl, reached_data, hview]
    exact Nat.max_eq_right (hwritten.views thread location)
  · rw [ReleaseAcquire.setView_message, ReleaseAcquire.put_message_self] at hmsg'
    split_ifs at hmsg' with heq
    · cases hmsg'
      rw [hvalue] at hfalse'
      cases hfalse'
    · rcases eq_or_ne t time with rfl | hne
      · show (m.put .locked (t + 1) msg).message .locked (t + 1) ≠ none
        rw [ReleaseAcquire.put_message_self, if_pos rfl]
        simp
      · exact (htaken t msg' hmsg' hfalse' hne).put _
  · refine Nat.le_of_eq ?_
    rw [ReleaseAcquire.setView_view_self, ReleaseAcquire.join, if_pos rfl, hlocked]
  · rw [ReleaseAcquire.setView_message, ReleaseAcquire.put_message_self, if_neg (by omega)]
    exact hnewest later (by omega)
  · rw [ReleaseAcquire.setView_view_self, ReleaseAcquire.join, if_pos rfl, hlocked] at hle
    rw [ReleaseAcquire.setView_message, ReleaseAcquire.put_message_self, if_pos (by omega)]
    simp

omit [DecidableEq Θ] in
/-- `unlock`: the message tells everything. -/
theorem Held.release (h : Held m thread times) (hview : m.view thread .locked < time)
    (hfree : m.message .locked time = none) :
    Free (m.put .locked time ⟨false, m.reached thread .locked time⟩) times := by
  obtain ⟨last, hle, hnewest, hchain⟩ := h.chain
  have hlast : last < time := by
    by_contra hlt
    exact hchain time (Nat.le_of_lt hview) (by omega) hfree
  refine ⟨time, ⟨false, m.reached thread .locked time⟩, ?_, rfl, fun location ↦ ?_, ?_,
    fun later hlater ↦ ?_, ?_⟩
  · rw [ReleaseAcquire.put_message_self, if_pos rfl]
  · exact (reached_data time location).trans (h.view location)
  · have hreached : m.reached thread .locked time .locked = time := Function.update_self ..
    exact Nat.le_of_eq hreached
  · rw [ReleaseAcquire.put_message_self, if_neg (by omega)]
    exact hnewest later (by omega)
  · intro older msg' hmsg' hfalse hne
    rw [ReleaseAcquire.put_message_self, if_neg hne] at hmsg'
    exact (h.taken older msg' hmsg' hfalse).put _

end Put

/-! ### The accesses of `lock` and `tryLock` -/

variable [DecidableEq Θ] [DecidableEq X]

section Accesses

variable (hexchange : m.exchange thread .locked time true true false = some (locked, m'))
  (hread : m.read thread .locked time false = some (locked, m'))
include hexchange

theorem Written.exchange (h : Written m times data) : Written m' times data := by
  obtain ⟨-, old, hold, -, rfl⟩ := ReleaseAcquire.exchange_eq_some_iff.mp hexchange
  have hview := h.messages time old hold
  refine (h.put fun location ↦ ?_).setView fun location ↦ ?_
  · have hpassed : Function.update old.view .locked (time + 1) (.data location) =
        old.view (.data location) := Function.update_of_ne (by simp) ..
    exact Nat.le_trans (Nat.le_of_eq hpassed) (hview location)
  · rw [ReleaseAcquire.join, if_pos rfl, reached_data]
    exact Nat.max_le.mpr ⟨h.views thread location, hview location⟩

theorem Free.exchange (h : Free m times) (hlocked : locked = true) : Free m' times := by
  obtain ⟨⟨-, hfree⟩, old, hold, hvalue, rfl⟩ :=
    ReleaseAcquire.exchange_eq_some_iff.mp hexchange
  exact h.put rfl hold (hvalue.trans hlocked) hfree

theorem Held.exchange (h : Held m other times) (hne : other ≠ thread) : Held m' other times := by
  obtain ⟨-, old, hold, -, rfl⟩ := ReleaseAcquire.exchange_eq_some_iff.mp hexchange
  exact (h.put rfl hold).setView hne

omit hexchange
include hread

theorem Written.load (h : Written m times data) : Written m' times data := by
  obtain ⟨-, msg, -, -, rfl⟩ := ReleaseAcquire.read_eq_some_iff.mp hread
  refine h.setView fun location ↦ ?_
  rw [ReleaseAcquire.join, if_neg (by simp), reached_data]
  exact h.views thread location

theorem Free.load (h : Free m times) : Free m' times := by
  obtain ⟨-, msg, -, -, rfl⟩ := ReleaseAcquire.read_eq_some_iff.mp hread
  exact h

theorem Held.load (h : Held m other times) (hne : other ≠ thread) : Held m' other times := by
  obtain ⟨-, msg, -, -, rfl⟩ := ReleaseAcquire.read_eq_some_iff.mp hread
  exact h.setView hne

omit hread

/-- `unlock`: everybody can see what was written, and the lock is free. -/
theorem Written.unlock (h : Written m times data) (hheld : Held m thread times)
    (hwrite : m.write thread .locked time false true = some m') :
    Written m' times data ∧ Free m' times := by
  obtain ⟨⟨hview, hfree⟩, rfl⟩ := ReleaseAcquire.write_eq_some_iff.mp hwrite
  have hown : ∀ location, m.reached thread .locked time (.data location) ≤ times location := by
    intro location
    rw [reached_data]
    exact h.views thread location
  exact ⟨(h.put hown).setView hown, hheld.release hview hfree⟩

end Accesses

/-! ### The guarded memory -/

variable {location : X} {value : A}

/-- Whoever holds the lock reads what was written last, and learns nothing. -/
theorem Held.read (h : Held m thread times) (hwritten : Written m times data)
    (hread : m.read thread (.data location) time false = some (value, m')) :
    value = data location ∧ m' = m := by
  obtain ⟨htime, msg, hmessage, rfl, rfl⟩ := ReleaseAcquire.read_eq_some_iff.mp hread
  rw [h.view] at htime
  have heq : time = times location := by
    by_contra hne
    have hnone := hwritten.newest location time (by omega)
    rw [hmessage] at hnone
    cases hnone
  subst heq
  obtain ⟨latest, hlatest, hdata⟩ := hwritten.latest location
  rw [hmessage] at hlatest
  cases hlatest
  refine ⟨hdata, ?_⟩
  have hreached : m.reached thread (.data location) (times location) = m.view thread := by
    rw [← h.view location]
    exact Function.update_eq_self ..
  rw [hreached, ReleaseAcquire.join, if_neg (by simp), ReleaseAcquire.setView,
    Function.update_eq_self]

/-- A thread writes after everything that was written before. -/
theorem Written.write {view : Cell X → ℕ} (h : Written m times data) (htime : times location < time) :
    Written ((m.put (.data location) time ⟨value, view⟩).setView thread
      (m.reached thread (.data location) time)) (Function.update times location time)
      (Function.update data location value) := by
  have hmono : ∀ y, times y ≤ Function.update times location time y := by
    intro y
    rcases eq_or_ne y location with rfl | hne
    · rw [Function.update_self]
      exact Nat.le_of_lt htime
    · exact Nat.le_of_eq (Function.update_of_ne hne ..).symm
  refine ⟨fun y ↦ ?_, fun y later hlater ↦ ?_, fun other y ↦ ?_, fun t msg hmsg y ↦ ?_⟩
  · rw [ReleaseAcquire.setView_message]
    rcases eq_or_ne y location with rfl | hne
    · rw [Function.update_self, Function.update_self, ReleaseAcquire.put_message_self, if_pos rfl]
      exact ⟨_, rfl, rfl⟩
    · rw [Function.update_of_ne hne, Function.update_of_ne hne,
        ReleaseAcquire.put_message_of_ne (by simpa using hne)]
      exact h.latest y
  · rw [ReleaseAcquire.setView_message]
    rcases eq_or_ne y location with rfl | hne
    · rw [Function.update_self] at hlater
      rw [ReleaseAcquire.put_message_self, if_neg (by omega)]
      exact h.newest y later (by omega)
    · rw [Function.update_of_ne hne] at hlater
      rw [ReleaseAcquire.put_message_of_ne (by simpa using hne)]
      exact h.newest y later hlater
  · rcases eq_or_ne other thread with rfl | hother
    · rw [ReleaseAcquire.setView_view_self]
      rcases eq_or_ne y location with rfl | hne
      · refine Nat.le_of_eq ?_
        rw [ReleaseAcquire.reached, Function.update_self, Function.update_self]
      · rw [ReleaseAcquire.reached, Function.update_of_ne (by simpa using hne)]
        exact Nat.le_trans (h.views other y) (hmono y)
    · rw [ReleaseAcquire.setView_view_of_ne hother]
      exact Nat.le_trans (h.views other y) (hmono y)
  · rw [ReleaseAcquire.setView_message, ReleaseAcquire.put_message_of_ne (by simp)] at hmsg
    exact Nat.le_trans (h.messages t msg hmsg y) (hmono y)

theorem Held.write {view : Cell X → ℕ} (h : Held m thread times) :
    Held ((m.put (.data location) time ⟨value, view⟩).setView thread
      (m.reached thread (.data location) time)) thread (Function.update times location time) where
  view := by
    intro y
    rw [ReleaseAcquire.setView_view_self]
    rcases eq_or_ne y location with rfl | hne
    · rw [ReleaseAcquire.reached, Function.update_self, Function.update_self]
    · rw [ReleaseAcquire.reached, Function.update_of_ne (by simpa using hne),
        Function.update_of_ne hne]
      exact h.view y
  taken := by
    intro t msg hmsg hfalse
    rw [ReleaseAcquire.setView_message, ReleaseAcquire.put_message_of_ne (by simp)] at hmsg
    unfold Taken
    rw [ReleaseAcquire.setView_message, ReleaseAcquire.put_message_of_ne (by simp)]
    exact h.taken t msg hmsg hfalse
  chain := by
    obtain ⟨last, hle, hnewest, hchain⟩ := h.chain
    rw [ReleaseAcquire.setView_view_self, ReleaseAcquire.reached,
      Function.update_of_ne (by simp), ReleaseAcquire.setView_message]
    refine ⟨last, hle, fun later hlater ↦ ?_, fun t hview ht ↦ ?_⟩
    · rw [ReleaseAcquire.setView_message, ReleaseAcquire.put_message_of_ne (by simp)]
      exact hnewest later hlater
    · rw [ReleaseAcquire.put_message_of_ne (by simp)]
      exact hchain t hview ht

end Memory

/-! ### Threads and their critical sections -/

variable {Θ : Type u} {X : Type v} {A : Type} {L : Type x} [DecidableEq Θ] {P : Program X A L}
  {s s' : State Θ X A L} {t : Sections Θ X A L} {thread : Θ} {time : ℕ}

section Go

variable {memory : ReleaseAcquire Θ (Cell X) (Cell.Content A)} {state : L} {pc : Pc} {other : Θ}

@[simp] theorem go_pc_self : (s.go thread memory state pc).pc thread = pc :=
  Function.update_self ..

theorem go_pc_of_ne (hne : other ≠ thread) :
    (s.go thread memory state pc).pc other = s.pc other :=
  Function.update_of_ne hne ..

@[simp] theorem go_state_self : (s.go thread memory state pc).state thread = state :=
  Function.update_self ..

theorem go_state_of_ne (hne : other ≠ thread) :
    (s.go thread memory state pc).state other = s.state other :=
  Function.update_of_ne hne ..

end Go

variable [DecidableEq X]

/-- The lock is free and the memory is that of the last critical section, or a thread has made some
of the accesses of one. -/
def Owned (P : Program X A L) (s : State Θ X A L) (t : Sections Θ X A L) (times : X → ℕ)
    (data : X → A) : Prop :=
  ((∀ thread, s.pc thread ≠ .inside) ∧ Free s.memory times ∧ data = t.data) ∨
    ∃ holder accesses, s.pc holder = .inside ∧ (∀ other, other ≠ holder → s.pc other ≠ .inside) ∧
      Held s.memory holder times ∧
      P.accesses accesses (t.state holder) t.data = some (s.state holder, data)

/-- **The relation.** -/
structure Related (P : Program X A L) (s : State Θ X A L) (t : Sections Θ X A L) : Prop where
  state : ∀ thread, s.pc thread ≠ .inside → t.state thread = s.state thread
  guarded : ∃ times data, Written s.memory times data ∧ Owned P s t times data

/-- A step outside of critical sections, that leaves the lock to whom it is. -/
theorem Related.outside (h : Related P s t) (hpc : s.pc thread ≠ .inside) (state : L)
    {memory : ReleaseAcquire Θ (Cell X) (Cell.Content A)} {pc : Pc}
    (hpc' : pc ≠ .inside)
    (hwritten : ∀ times data, Written s.memory times data → Written memory times data)
    (hfree : ∀ times, Free s.memory times → Free memory times)
    (hheld : ∀ times holder, holder ≠ thread → Held s.memory holder times →
      Held memory holder times) :
    Related P (s.go thread memory state pc)
      { t with state := Function.update t.state thread state } := by
  obtain ⟨times, data, hmemory, howned⟩ := h.guarded
  refine ⟨fun other hother ↦ ?_, times, data, hwritten times data hmemory, ?_⟩
  · rcases eq_or_ne other thread with rfl | hne
    · rw [go_state_self]
      exact Function.update_self ..
    · rw [go_pc_of_ne hne] at hother
      rw [go_state_of_ne hne, ← h.state other hother]
      exact Function.update_of_ne hne ..
  · have hothers : ∀ other, s.pc other ≠ .inside →
        (s.go thread memory state pc).pc other ≠ .inside := by
      intro other hother
      rcases eq_or_ne other thread with rfl | hne
      · rw [go_pc_self]
        exact hpc'
      · rw [go_pc_of_ne hne]
        exact hother
    rcases howned with ⟨hnobody, hlock, hdata⟩ | ⟨holder, n, hinside, honly, hlock, hdone⟩
    · exact Or.inl ⟨fun other ↦ hothers other (hnobody other), hfree times hlock, hdata⟩
    · have hne : holder ≠ thread := by
        rintro rfl
        exact hpc hinside
      refine Or.inr ⟨holder, n, (go_pc_of_ne hne).trans hinside,
        fun other hother ↦ hothers other (honly other hother), hheld times holder hne hlock, ?_⟩
      rw [go_state_of_ne hne, ← hdone]
      exact congrArg (P.accesses n · t.data) (Function.update_of_ne hne ..)

/-- The same when the thread only looks, or calls. -/
theorem Related.waiting (h : Related P s t) (hpc : s.pc thread ≠ .inside)
    {memory : ReleaseAcquire Θ (Cell X) (Cell.Content A)} {pc : Pc} (hpc' : pc ≠ .inside)
    (hwritten : ∀ times data, Written s.memory times data → Written memory times data)
    (hfree : ∀ times, Free s.memory times → Free memory times)
    (hheld : ∀ times holder, holder ≠ thread → Held s.memory holder times →
      Held memory holder times) :
    Related P (s.go thread memory (s.state thread) pc) t := by
  have hsame : Function.update t.state thread (s.state thread) = t.state := by
    rw [← h.state thread hpc]
    exact Function.update_eq_self ..
  have hdone := h.outside hpc (s.state thread) hpc' hwritten hfree hheld
  rwa [hsame] at hdone

/-- A thread takes the lock. -/
theorem Related.enter (h : Related P s t)
    {memory : ReleaseAcquire Θ (Cell X) (Cell.Content A)}
    (hexchange : s.memory.exchange thread .locked time true true false = some (false, memory)) :
    Related P (s.go thread memory (s.state thread) .inside) t := by
  obtain ⟨times, data, hmemory, howned⟩ := h.guarded
  have hwritten := hmemory.exchange hexchange
  obtain ⟨⟨-, hnone⟩, old, hold, hfalse, rfl⟩ := ReleaseAcquire.exchange_eq_some_iff.mp hexchange
  rcases howned with ⟨hnobody, hlock, rfl⟩ | ⟨holder, n, -, -, hlock, -⟩
  · refine ⟨fun other _ ↦ ?_, times, t.data, hwritten, Or.inr ⟨thread, 0, go_pc_self,
      fun other hother ↦ ?_, hlock.take hmemory rfl hold hfalse hnone, ?_⟩⟩
    · rcases eq_or_ne other thread with rfl | hne
      · rw [go_state_self]
        exact h.state other (hnobody other)
      · rw [go_state_of_ne hne]
        exact h.state other (hnobody other)
    · rw [go_pc_of_ne hother]
      exact hnobody other
    · rw [go_state_self, h.state thread (hnobody thread)]
      rfl
  · exact absurd hnone (hlock.taken time old hold hfalse)

/-- Whoever is in a critical section holds the lock, alone, and has made some of its accesses. -/
theorem Related.holds (h : Related P s t) (hpc : s.pc thread = .inside) :
    ∃ times data accesses, Written s.memory times data ∧
      (∀ other, other ≠ thread → s.pc other ≠ .inside) ∧ Held s.memory thread times ∧
      P.accesses accesses (t.state thread) t.data = some (s.state thread, data) := by
  obtain ⟨times, data, hmemory, ⟨hnobody, -, -⟩ | ⟨holder, n, -, honly, hlock, hdone⟩⟩ := h.guarded
  · exact absurd hpc (hnobody thread)
  · have heq : thread = holder := by
      by_contra hne
      exact honly thread hne hpc
    subst heq
    exact ⟨times, data, n, hmemory, honly, hlock, hdone⟩

/-- The holder has made one more access. -/
theorem Related.continue (h : Related P s t)
    (honly : ∀ other, other ≠ thread → s.pc other ≠ .inside)
    {memory : ReleaseAcquire Θ (Cell X) (Cell.Content A)} {state : L} {times : X → ℕ} {data : X → A}
    (hmemory : Written memory times data) (hlock : Held memory thread times) {accesses : ℕ}
    (hdone : P.accesses accesses (t.state thread) t.data = some (state, data)) :
    Related P (s.go thread memory state .inside) t := by
  refine ⟨fun other hother ↦ ?_, times, data, hmemory, Or.inr ⟨thread, accesses, go_pc_self,
    fun other hne ↦ ?_, hlock, by rwa [go_state_self]⟩⟩
  · have hne : other ≠ thread := by
      rintro rfl
      exact hother go_pc_self
    rw [go_state_of_ne hne]
    exact h.state other (honly other hne)
  · rw [go_pc_of_ne hne]
    exact honly other hne

/-- An access of a critical section that does not leave it. -/
theorem Related.inner (h : Related P s t) (hpc : s.pc thread = .inside)
    (hstep : s.access P thread time = some s') (hleave : ∀ next, P (s.state thread) ≠ .leave next) :
    Related P s' t ∧ s'.pc thread = .inside := by
  obtain ⟨times, data, n, hmemory, honly, hlock, hdone⟩ := h.holds hpc
  have hmore : ∀ after, P.access (s.state thread) data = some after →
      P.accesses (n + 1) (t.state thread) t.data = some after := by
    intro after hafter
    rw [Program.accesses, hdone]
    exact hafter
  cases hprogram : P (s.state thread) with
  | read location next =>
    simp only [State.access, hpc, hprogram, Option.map_eq_some_iff] at hstep
    obtain ⟨⟨value, memory⟩, hread, rfl⟩ := hstep
    obtain ⟨rfl, rfl⟩ := hlock.read hmemory hread
    refine ⟨h.continue honly hmemory hlock (hmore _ ?_), go_pc_self⟩
    rw [Program.access, hprogram]
  | write location value next =>
    simp only [State.access, hpc, hprogram, Option.map_eq_some_iff] at hstep
    obtain ⟨memory, hwrite, rfl⟩ := hstep
    obtain ⟨⟨hview, -⟩, rfl⟩ := ReleaseAcquire.write_eq_some_iff.mp hwrite
    have htime : times location < time := by
      rw [← hlock.view location]
      exact hview
    refine ⟨h.continue honly (hmemory.write htime) hlock.write (hmore _ ?_), go_pc_self⟩
    rw [Program.access, hprogram]
  | leave next => exact absurd hprogram (hleave next)

/-- A critical section ends: it is one step. -/
theorem Related.leave (h : Related P s t) (hpc : s.pc thread = .inside) {next : L}
    (hprogram : P (s.state thread) = .leave next) (hstep : s.access P thread time = some s') :
    ∃ accesses t', t.step P (.critical thread accesses) = some t' ∧ Related P s' t' ∧
      t'.state thread = s'.state thread ∧ s'.pc thread = .outside := by
  obtain ⟨times, data, n, hmemory, honly, hlock, hdone⟩ := h.holds hpc
  simp only [State.access, hpc, hprogram, Option.map_eq_some_iff] at hstep
  obtain ⟨memory, hwrite, rfl⟩ := hstep
  obtain ⟨hmemory', hfree⟩ := hmemory.unlock hlock hwrite
  refine ⟨n, ⟨data, Function.update t.state thread next⟩, ?_,
    ⟨fun other hother ↦ ?_, times, data, hmemory', Or.inl ⟨fun other ↦ ?_, hfree, rfl⟩⟩, ?_,
    go_pc_self⟩
  · simp only [Sections.step, hdone, hprogram]
  · rcases eq_or_ne other thread with rfl | hne
    · rw [go_state_self]
      exact Function.update_self ..
    · rw [go_state_of_ne hne, ← h.state other (honly other hne)]
      exact Function.update_of_ne hne ..
  · rcases eq_or_ne other thread with rfl | hne
    · rw [go_pc_self]
      simp
    · rw [go_pc_of_ne hne]
      exact honly other hne
  · rw [go_state_self]
    exact Function.update_self ..

/-- What the threads see of an access that does not end a critical section. -/
theorem Related.shown (h : Related P s' t) (hstep : s.access P thread time = some s')
    (hpc : s.pc thread = .inside → s'.pc thread ≠ .outside) :
    (s.event P (.access thread time) = none ∧ Related P s' t) ∨
      ∃ b t', t.step P b = some t' ∧ t.event P b = s.event P (.access thread time) ∧
        Related P s' t' := by
  by_cases hout : s'.pc thread = .outside
  · have hnot : s.pc thread ≠ .inside := fun hinside ↦ hpc hinside hout
    refine Or.inr ⟨.refuse thread, t, rfl, ?_, h⟩
    simp only [State.event, hstep, if_pos hout, if_neg hnot, Sections.event]
  · refine Or.inl ⟨?_, h⟩
    simp only [State.event, hstep, if_neg hout]

theorem Related.access (h : Related P s t) (hstep : s.access P thread time = some s') :
    (s.event P (.access thread time) = none ∧ Related P s' t) ∨
      ∃ b t', t.step P b = some t' ∧ t.event P b = s.event P (.access thread time) ∧
        Related P s' t' := by
  have hstep' := hstep
  cases hpc : s.pc thread with
  | outside =>
    rw [State.access, hpc] at hstep
    cases hstep
  | test trying =>
    simp only [State.access, hpc, Option.map_eq_some_iff] at hstep
    obtain ⟨⟨locked, memory⟩, hread, rfl⟩ := hstep
    refine Related.shown (h.waiting (by simp [hpc]) ?_ (fun _ _ ↦ Written.load hread)
      (fun _ ↦ Free.load hread) fun _ _ hne hlock ↦ hlock.load hread hne) hstep' (by simp [hpc])
    cases locked <;> cases trying <;> simp [Pc.retry]
  | exchange trying =>
    simp only [State.access, hpc, Option.map_eq_some_iff] at hstep
    obtain ⟨⟨locked, memory⟩, hexchange, rfl⟩ := hstep
    refine Related.shown ?_ hstep' (by simp [hpc])
    cases locked with
    | false => exact h.enter hexchange
    | true =>
      refine h.waiting (by simp [hpc]) ?_ (fun _ _ ↦ Written.exchange hexchange)
        (fun _ hlock ↦ hlock.exchange hexchange rfl) fun _ _ hne hlock ↦
          hlock.exchange hexchange hne
      cases trying <;> simp [Pc.retry]
  | inside =>
    by_cases hleave : ∃ next, P (s.state thread) = .leave next
    · obtain ⟨next, hprogram⟩ := hleave
      obtain ⟨n, t', hsection, hrelated, hstate, hout⟩ := h.leave hpc hprogram hstep
      refine Or.inr ⟨.critical thread n, t', hsection, ?_, hrelated⟩
      simp only [State.event, hstep, if_pos hout, if_pos hpc, Sections.event, hsection,
        Option.map_some, hstate]
    · obtain ⟨hrelated, hin⟩ := h.inner hpc hstep fun next hprogram ↦ hleave ⟨next, hprogram⟩
      exact hrelated.shown hstep (by simp [hin])

/-- **One step of the code is at most one of the critical sections.** -/
theorem Related.step (h : Related P s t) {a : Action Θ L} (hstep : s.step P a = some s') :
    (s.event P a = none ∧ Related P s' t) ∨
      ∃ b t', t.step P b = some t' ∧ t.event P b = s.event P a ∧ Related P s' t' := by
  cases a with
  | compute thread state =>
    simp only [State.step] at hstep
    split_ifs at hstep with hpc
    cases hstep
    refine Or.inr ⟨.compute thread state, _, rfl, rfl, h.outside (by simp [hpc]) state (by simp)
      (fun _ _ hmemory ↦ hmemory) (fun _ hlock ↦ hlock) fun _ _ _ hlock ↦ hlock⟩
  | call thread trying =>
    simp only [State.step] at hstep
    split_ifs at hstep with hpc
    cases hstep
    refine Or.inl ⟨rfl, h.waiting (by simp [hpc]) (by simp) (fun _ _ hmemory ↦ hmemory)
      (fun _ hlock ↦ hlock) fun _ _ _ hlock ↦ hlock⟩
  | access thread time => exact h.access hstep

omit [DecidableEq Θ] in
/-- At the start everything has been written, and everybody can see it. -/
theorem related_initial (P : Program X A L) (values : X → A) (start : Θ → L) :
    Related P (State.initial values start) ⟨values, start⟩ := by
  have hlater : ∀ (y : Cell X) later, 0 < later →
      (State.initial values start).memory.message y later = none := by
    intro y later hlater
    obtain ⟨later, rfl⟩ := Nat.exists_eq_add_of_lt hlater
    rfl
  have honly : ∀ (y : Cell X) older msg,
      (State.initial values start).memory.message y older = some msg →
        older = 0 ∧ ∀ z, msg.view z = 0 := by
    intro y older msg hmsg
    cases older with
    | zero =>
      cases hmsg
      exact ⟨rfl, fun _ ↦ rfl⟩
    | succ older => cases hmsg
  have hwritten : Written (State.initial values start).memory (fun _ ↦ 0) values :=
    ⟨fun _ ↦ ⟨_, rfl, rfl⟩, fun location ↦ hlater (.data location), fun _ _ ↦ Nat.le_refl 0,
      fun older msg hmsg _ ↦ Nat.le_of_eq ((honly .locked older msg hmsg).2 _)⟩
  have hfree : Free (State.initial values start).memory fun _ ↦ 0 :=
    ⟨0, _, rfl, rfl, fun _ ↦ rfl, Nat.le_refl 0, hlater .locked,
      fun older msg hmsg _ hne ↦ absurd (honly .locked older msg hmsg).1 hne⟩
  refine ⟨fun _ _ ↦ rfl, fun _ ↦ 0, values, hwritten, Or.inl ⟨fun thread ↦ ?_, hfree, rfl⟩⟩
  simp [State.initial]

/-- A critical section that adds one, and notes what it wrote. -/
def sampleProgram : Program Unit ℕ (Option (ℕ ⊕ ℕ))
  | none => .read () fun value ↦ some (.inl value)
  | some (.inl value) => .write () (value + 1) (some (.inr (value + 1)))
  | some (.inr value) => .leave (some (.inr value))

/-- One thread takes the lock. The other, that does not see it, is refused, and takes it later. -/
def sampleRun : List (Action Bool (Option (ℕ ⊕ ℕ))) :=
  [.call false false, .call true true, .access false 0, .access true 0, .access false 0,
    .access true 1, .access false 0, .access false 1, .access false 3, .call true false,
    .access true 3, .access true 3, .access true 1, .access true 2, .access true 5]

def sampleEnd : Option (State Bool Unit ℕ (Option (ℕ ⊕ ℕ))) :=
  (State.system sampleProgram (fun _ ↦ 7) fun _ ↦ none).run
    (State.initial (fun _ ↦ 7) fun _ ↦ none) sampleRun

theorem sampleEnd_isSome : sampleEnd.isSome = true := by decide +kernel

end Stackfull.Sync.SpinLock
