import Stackfull.Sched.TasksView

/-!
# The operations of the scheduler refine the machine of a task

One lemma for each operation: from a tracked state it leads to a tracked one. Each names the task
that makes a transition and the places it leaves and enters, or the batch that moves. `Control` is
what the lemmas need to know about the agents: nothing is left to do after an operation that will
overwrite it, the LIFO slot is empty while its next occupant is in hand, and a worker that is about
to switch to a task executes none.

A step changes the hand of one agent and at most one other place. `State.count_goto` and its like
say what the first does to the contents of every place, and the lemmas on `State.contents` what the
second does.
-/

set_option autoImplicit false
set_option relaxedAutoImplicit false
set_option linter.dupNamespace false

namespace Stackfull.Sched.Tasks

open Stackfull.Lib

universe u v

variable {n : ℕ} {κ : Type u} {τ : Type v} [DecidableEq κ] [DecidableEq τ]
variable {s t : State n κ τ} {place : τ → Option (Place n κ)} {a : Agent n κ} {w : Fin n} {x : τ}

/-! ### What an agent has in hand -/

/-- The tasks in the hand of an agent, by what is to become of them. -/
structure Hand (τ : Type v) where
  parking : List τ
  stirring : List τ
  pending : List τ
  moving : List τ
  leaving : List τ

/-- What an operation has in hand. -/
def Op.hand (op : Op τ) : Hand τ :=
  ⟨op.parking, op.stirring, op.pending, op.moving, op.leaving⟩

/-- What is in hand for what comes after an operation. -/
def After.hand (after : After τ) : Hand τ :=
  ⟨[], [], [], after.moving, after.leaving⟩

/-- How often a task is in a place because an agent has it in hand. -/
def Hand.count (hand : Hand τ) (a : Agent n κ) (y : τ) : Place n κ → ℕ
  | .parking b => if b = a then hand.parking.count y else 0
  | .stirring b => if b = a then hand.stirring.count y else 0
  | .pending b => if b = a then hand.pending.count y else 0
  | .moving b => if b = a then hand.moving.count y else 0
  | .leaving b => if b = a then hand.leaving.count y else 0
  | _ => 0

attribute [local simp] Hand.count

/-- What comes next holds what was left. -/
theorem After.count_hand (after : After τ) (y : τ) (r : Place n κ) :
    after.next.hand.count a y r + after.rest.hand.count a y r = after.hand.count a y r := by
  have hmoving : after.next.moving.count y + after.rest.moving.count y = after.moving.count y := by
    rcases after with _ | _ | ⟨_ | _, _ | _, _ | _⟩ | _ | ⟨_, _ | _⟩ <;>
      simp [next, rest, moving, Op.moving, ← List.count_append]
  have hleaving : after.next.leaving ++ after.rest.leaving = after.leaving := by
    rcases after with _ | _ | ⟨_ | _, _ | _, _ | _⟩ | _ | ⟨_, _ | _⟩ <;> rfl
  have hnone : after.next.parking = [] ∧ after.next.stirring = [] ∧ after.next.pending = [] := by
    rcases after with _ | _ | ⟨_ | _, _ | _, _ | _⟩ | _ | ⟨_, _ | _⟩ <;> exact ⟨rfl, rfl, rfl⟩
  obtain ⟨hparking, hstirring, hpending⟩ := hnone
  cases r <;>
    simp only [Hand.count, Op.hand, hand, hparking, hstirring, hpending, ← hmoving, ← hleaving,
      List.count_nil, List.count_append] <;> split_ifs <;> rfl

/-- An agent goes on with an operation and something after it: its hand is another one. -/
theorem State.count_gotoThen (s : State n κ τ) (a : Agent n κ) (op : Op τ) (after : After τ)
    (r : Place n κ) (y : τ) :
    ((s.gotoThen a op after).contents r).count y +
        ((s.op a).hand.count a y r + (s.after a).hand.count a y r) =
      (s.contents r).count y + (op.hand.count a y r + after.hand.count a y r) := by
  cases r with
  | parking b | stirring b | pending b | moving b | leaving b =>
    by_cases hb : b = a
    · subst hb
      simp [contents, Op.hand, After.hand]
      try omega
    · simp [contents, hb]
  | _ => rfl

/-- An agent goes on with another operation. -/
theorem State.count_goto (s : State n κ τ) (a : Agent n κ) (op : Op τ) (r : Place n κ) (y : τ) :
    ((s.goto a op).contents r).count y + (s.op a).hand.count a y r =
      (s.contents r).count y + op.hand.count a y r := by
  have hthen := s.count_gotoThen a op (s.after a) r y
  have heq : s.gotoThen a op (s.after a) = s.goto a op := by simp [gotoThen, goto]
  rw [heq] at hthen
  omega

/-- An agent goes on with what was left: the operation has nothing in hand any more. -/
theorem State.count_ended (s : State n κ τ) (a : Agent n κ) (r : Place n κ) (y : τ) :
    ((s.ended a).contents r).count y + (s.op a).hand.count a y r = (s.contents r).count y := by
  have hthen := s.count_gotoThen a (s.after a).next (s.after a).rest r y
  rw [After.count_hand] at hthen
  exact Nat.add_right_cancel ((Nat.add_assoc _ _ _).trans hthen)

/-! ### One task in hand -/

/-- The one task in hand is in this place; without a place there is none. -/
def Hand.IsAt (hand : Hand τ) (a : Agent n κ) (p : Option (Place n κ)) (x : τ) : Prop :=
  ∀ y r, hand.count a y r = if p = some r ∧ y = x then 1 else 0

theorem count_hand_singleton {b : Agent n κ} {y : τ} :
    (if b = a then [x].count y else 0) = if a = b ∧ y = x then 1 else 0 := by
  rcases eq_or_ne b a with rfl | hb
  · rcases eq_or_ne y x with rfl | hy
    · simp
    · simp [hy, hy.symm]
  · simp [hb, hb.symm]

theorem Hand.isAt_none : (⟨[], [], [], [], []⟩ : Hand τ).IsAt a none x := by
  intro y r
  cases r <;> simp

theorem Hand.isAt_parking : (⟨[x], [], [], [], []⟩ : Hand τ).IsAt a (some (.parking a)) x := by
  intro y r
  cases r <;> simp [count_hand_singleton]

theorem Hand.isAt_stirring : (⟨[], [x], [], [], []⟩ : Hand τ).IsAt a (some (.stirring a)) x := by
  intro y r
  cases r <;> simp [count_hand_singleton]

theorem Hand.isAt_pending : (⟨[], [], [x], [], []⟩ : Hand τ).IsAt a (some (.pending a)) x := by
  intro y r
  cases r <;> simp [count_hand_singleton]

theorem Hand.isAt_moving : (⟨[], [], [], [x], []⟩ : Hand τ).IsAt a (some (.moving a)) x := by
  intro y r
  cases r <;> simp [count_hand_singleton]

theorem Hand.isAt_leaving : (⟨[], [], [], [], [x]⟩ : Hand τ).IsAt a (some (.leaving a)) x := by
  intro y r
  cases r <;> simp [count_hand_singleton]

/-- A task in hand is in the place the hand is. -/
theorem Tracked.place_of_isAt {p : Place n κ} (hs : Tracked s place)
    (h : (s.op a).hand.IsAt a (some p) x) : place x = some p := by
  have hcount := s.count_ended a p x
  rw [h x p] at hcount
  exact hs.located.mem_iff.mp (List.count_pos_iff.mp (by simp at hcount; omega))

theorem shiftOne_goto {op : Op τ} {old new : Option (Place n κ)}
    (hold : (s.op a).hand.IsAt a old x) (hnew : op.hand.IsAt a new x) :
    ShiftOne s.contents (s.goto a op).contents old new x := by
  intro r y
  have hgoto := s.count_goto a op r y
  rwa [hold y r, hnew y r] at hgoto

theorem shiftOne_ended {old : Option (Place n κ)} (hold : (s.op a).hand.IsAt a old x) :
    ShiftOne s.contents (s.ended a).contents old none x := by
  intro r y
  have hended := s.count_ended a r y
  rwa [hold y r] at hended

/-- An agent that has no task in hand goes on with what was left: no task moves. -/
theorem shiftOne_same {p : Option (Place n κ)} (hold : (s.op a).hand.IsAt a none x) :
    ShiftOne s.contents (s.ended a).contents p p x := by
  intro r y
  have hended := s.count_ended a r y
  rw [hold y r] at hended
  simp only [reduceCtorEq, false_and, if_false, Nat.add_zero] at hended
  rw [hended]

/-- Nothing moves if the next operation has the same in hand. -/
theorem tracked_sameHand (hs : Tracked s place) {op : Op τ} (h : op.hand = (s.op a).hand) :
    Next s place (s.goto a op) := by
  refine hs.still (fun r y ↦ ?_) (fun _ _ ↦ rfl)
  have hgoto := s.count_goto a op r y
  rw [h] at hgoto
  exact Nat.add_right_cancel hgoto

/-! ### A batch in hand -/

/-- The operation has at most these tasks in hand, on their way to a container or a worker. -/
structure Op.Holds (op : Op τ) (tasks : List τ) : Prop where
  moving : op.moving = tasks
  leaving : op.leaving = []
  parking : op.parking = []
  stirring : op.stirring = []
  pending : op.pending = []

theorem Op.Holds.count {op : Op τ} {tasks : List τ} (h : op.Holds tasks) (y : τ)
    (r : Place n κ) : op.hand.count a y r = if r = .moving a then tasks.count y else 0 := by
  obtain ⟨hmoving, hleaving, hparking, hstirring, hpending⟩ := h
  cases r <;> simp [hand, hmoving, hleaving, hparking, hstirring, hpending]

omit [DecidableEq κ] [DecidableEq τ] in
theorem Op.Holds.hand_eq {op : Op τ} {tasks : List τ} (h : op.Holds tasks) :
    op.hand = ⟨[], [], [], tasks, []⟩ := by
  obtain ⟨hmoving, hleaving, hparking, hstirring, hpending⟩ := h
  rw [hand, hmoving, hleaving, hparking, hstirring, hpending]

/-- What is in hand for later is on its way to a container or a worker, unless a task is being
released. -/
theorem After.count_of_leaving {after : After τ} (h : after.leaving = []) (y : τ)
    (r : Place n κ) :
    after.hand.count a y r = if r = .moving a then after.moving.count y else 0 := by
  cases r <;> simp [hand, h]

/-- A worker goes on without a task moving. -/
theorem tracked_goto (hs : Tracked s place) (hop : (s.op a).Holds []) {op' : Op τ}
    (hop' : op'.Holds []) : Next s place (s.goto a op') :=
  tracked_sameHand hs (by rw [hop.hand_eq, hop'.hand_eq])

/-- An operation ends without a task moving. -/
theorem tracked_ended (hs : Tracked s place) (hop : (s.op a).Holds []) :
    Next s place (s.ended a) := by
  refine hs.still (fun r y ↦ ?_) (fun _ _ ↦ rfl)
  have hended := s.count_ended a r y
  rw [hop.count] at hended
  simpa using hended

section Batch

variable {v : State n κ τ} {tasks tasks' : List τ} {op : Op τ}

/-- Tasks of a container come into the hand of an agent. -/
theorem Tracked.take (hs : Tracked s place) (p : Place n κ) (xs : List τ)
    (hp : p.kind = .queued)
    (hframe : ∀ r, r ≠ p → v.contents r = s.contents r)
    (hfrom : ∀ y, (v.contents p).count y + xs.count y = (s.contents p).count y)
    (hinto : ∀ r y, (t.contents r).count y =
      (v.contents r).count y + if r = .moving a then xs.count y else 0)
    (hsame : ∀ kind y, t.view kind y = s.view kind y) : Next s place t := by
  refine hs.move p (.moving a) xs (fun y hy ↦ ?_) (fun r y ↦ ?_) hp rfl hsame
  · have hpos := List.count_pos_iff.mpr hy
    have hy := hfrom y
    exact List.count_pos_iff.mp (by omega)
  · rw [hinto]
    rcases eq_or_ne r p with rfl | hr
    · rw [if_pos rfl, ← hfrom y]
      omega
    · rw [if_neg hr, hframe r hr]
      rfl

/-- Tasks in the hand of an agent go to a container. -/
theorem Tracked.put (hs : Tracked s place) (p : Place n κ) (xs : List τ)
    (hp : p.kind = .queued) (hne : p ≠ .moving a)
    (hframe : ∀ r, r ≠ p → v.contents r = s.contents r)
    (hinto : ∀ y, (v.contents p).count y = (s.contents p).count y + xs.count y)
    (hfrom : ∀ r y, (t.contents r).count y + (if r = .moving a then xs.count y else 0) =
      (v.contents r).count y)
    (hsame : ∀ kind y, t.view kind y = s.view kind y) : Next s place t := by
  refine hs.move (.moving a) p xs (fun y hy ↦ ?_) (fun r y ↦ ?_) rfl hp hsame
  · have hpos := List.count_pos_iff.mpr hy
    have hy := hfrom (.moving a) y
    rw [if_pos rfl, hframe _ hne.symm] at hy
    exact List.count_pos_iff.mp (by omega)
  · rw [hfrom]
    rcases eq_or_ne r p with rfl | hr
    · rw [if_pos rfl, hinto]
    · rw [if_neg hr, hframe r hr]
      rfl

theorem Tracked.takeGoto (hs : Tracked s place) (p : Place n κ) (xs : List τ)
    (hp : p.kind = .queued)
    (hframe : ∀ r, r ≠ p → v.contents r = s.contents r)
    (hfrom : ∀ y, (v.contents p).count y + xs.count y = (s.contents p).count y)
    (hold : (v.op a).Holds tasks) (hnew : op.Holds tasks')
    (hcount : ∀ y, tasks'.count y = tasks.count y + xs.count y)
    (hsame : ∀ kind y, v.view kind y = s.view kind y) : Next s place (v.goto a op) := by
  refine hs.take (a := a) p xs hp hframe hfrom (fun r y ↦ ?_) hsame
  have hgoto := v.count_goto a op r y
  rw [hold.count, hnew.count, hcount] at hgoto
  split_ifs at hgoto ⊢ <;> omega

theorem Tracked.takeThen (hs : Tracked s place) (p : Place n κ) (xs : List τ)
    (hp : p.kind = .queued) (hframe : ∀ r, r ≠ p → v.contents r = s.contents r)
    (hfrom : ∀ y, (v.contents p).count y + xs.count y = (s.contents p).count y)
    (hold : (v.op a).Holds []) (hnew : op.Holds tasks) (hafter : v.after a = .none)
    {after : After τ} (hleaving : after.leaving = [])
    (hcount : ∀ y, tasks.count y + after.moving.count y = xs.count y)
    (hsame : ∀ kind y, v.view kind y = s.view kind y) : Next s place (v.gotoThen a op after) := by
  refine hs.take (a := a) p xs hp hframe hfrom (fun r y ↦ ?_) hsame
  have hthen := v.count_gotoThen a op after r y
  have hnone : (After.none : After τ).moving.count y = 0 := rfl
  rw [hafter, hold.count, hnew.count, After.count_of_leaving rfl, After.count_of_leaving hleaving,
    hnone, List.count_nil] at hthen
  have hy := hcount y
  split_ifs at hthen ⊢ <;> omega

theorem Tracked.putGoto (hs : Tracked s place) (p : Place n κ) (xs : List τ)
    (hp : p.kind = .queued) (hne : p ≠ .moving a)
    (hframe : ∀ r, r ≠ p → v.contents r = s.contents r)
    (hinto : ∀ y, (v.contents p).count y = (s.contents p).count y + xs.count y)
    (hold : (v.op a).Holds tasks) (hnew : op.Holds tasks')
    (hcount : ∀ y, tasks.count y = tasks'.count y + xs.count y)
    (hsame : ∀ kind y, v.view kind y = s.view kind y) : Next s place (v.goto a op) := by
  refine hs.put (a := a) p xs hp hne hframe hinto (fun r y ↦ ?_) hsame
  have hgoto := v.count_goto a op r y
  rw [hold.count, hnew.count, hcount] at hgoto
  split_ifs at hgoto ⊢ <;> omega

theorem Tracked.putEnded (hs : Tracked s place) (p : Place n κ) (xs : List τ)
    (hp : p.kind = .queued) (hne : p ≠ .moving a)
    (hframe : ∀ r, r ≠ p → v.contents r = s.contents r)
    (hinto : ∀ y, (v.contents p).count y = (s.contents p).count y + xs.count y)
    (hold : (v.op a).Holds xs) (hsame : ∀ kind y, v.view kind y = s.view kind y) :
    Next s place (v.ended a) := by
  refine hs.put (a := a) p xs hp hne hframe hinto (fun r y ↦ ?_) hsame
  have hended := v.count_ended a r y
  rwa [hold.count] at hended

end Batch

/-! ### Places outside the hands -/

section Contents

variable {r : Place n κ}

omit [DecidableEq κ] [DecidableEq τ]

theorem State.contents_current {task : Option τ} {history : History τ} (hr : r ≠ .running w) :
    State.contents { s with
      current := Function.update s.current w task
      history := history } r = s.contents r := by
  cases r with
  | running v =>
    exact congrArg Option.toList (Function.update_of_ne (mt (congrArg Place.running) hr) _ _)
  | _ => rfl

theorem State.contents_lifoSlot {task : Option τ} {streak : Fin n → ℕ} (hr : r ≠ .lifoSlot w) :
    State.contents { s with
      lifoSlot := Function.update s.lifoSlot w task
      lifoStreak := streak } r = s.contents r := by
  cases r with
  | lifoSlot v =>
    exact congrArg Option.toList (Function.update_of_ne (mt (congrArg Place.lifoSlot) hr) _ _)
  | _ => rfl

theorem State.contents_queue {tasks : List τ} {streak : Fin n → ℕ} (hr : r ≠ .queue w) :
    State.contents { s with
      queue := Function.update s.queue w tasks
      lifoStreak := streak } r = s.contents r := by
  cases r with
  | queue v => exact Function.update_of_ne (mt (congrArg Place.queue) hr) _ _
  | _ => rfl

theorem State.contents_inbox {tasks : List τ} {streak : Fin n → ℕ} (hr : r ≠ .inbox w) :
    State.contents { s with
      inbox := Function.update s.inbox w tasks
      lifoStreak := streak } r = s.contents r := by
  cases r with
  | inbox v => exact Function.update_of_ne (mt (congrArg Place.inbox) hr) _ _
  | _ => rfl

theorem State.contents_gathered {tasks : List τ} (hr : r ≠ .gathered w) :
    State.contents { s with gathered := Function.update s.gathered w tasks } r = s.contents r := by
  cases r with
  | gathered v => exact Function.update_of_ne (mt (congrArg Place.gathered) hr) _ _
  | _ => rfl

theorem State.contents_injection {tasks : List τ} (hr : r ≠ .injection) :
    State.contents { s with injection := tasks } r = s.contents r := by
  cases r with
  | injection => exact absurd rfl hr
  | _ => rfl

end Contents

/-- A pinned task goes to the inbox of its worker. -/
theorem shiftOne_inbox {target : Fin n} :
    ShiftOne s.contents (State.contents { s with
      inbox := Function.update s.inbox target (s.inbox target ++ [x]) })
        none (some (.inbox target)) x :=
  .enter (Function.update_self _ _ _) fun _ ↦ State.contents_inbox

/-- A task goes to those that its worker gathers. -/
theorem shiftOne_gathered :
    ShiftOne s.contents (State.contents { s with
      gathered := Function.update s.gathered w (s.gathered w ++ [x]) })
        none (some (.gathered w)) x :=
  .enter (Function.update_self _ _ _) fun _ ↦ State.contents_gathered

/-- A worker that executes no task begins to execute one. -/
theorem shiftOne_current (history : History τ) (hcurrent : s.current w = none) :
    ShiftOne s.contents (State.contents { s with
      current := Function.update s.current w (some x)
      history := history }) none (some (.running w)) x :=
  .enter (by simp [State.contents, hcurrent]) fun _ ↦ State.contents_current

attribute [local simp] State.contents Place.kind Op.moving Unusual

/-! ### The word of a task -/

theorem tracked_storeRunning (hs : Tracked s place)
    (hop : s.op a = .wakeStore x ∨ s.op a = .parkedStore x ∨ s.op a = .reapStore x) :
    Next s place (s.storeRunning a x) := by
  have hhand : (s.op a).hand.IsAt a (some (.stirring a)) x := by
    rcases hop with h | h | h <;> rw [h] <;> exact Hand.isAt_stirring
  refine hs.one x (some (.stirring a)) (some (.pending a)) (hs.place_of_isAt hhand) ?_ ?_
    (.settle rfl) ?_ (by simp [State.view])
  · exact shiftOne_goto (s := s.setParkState x .running) hhand Hand.isAt_pending
  · intro kind y hy
    simp [State.view, State.storeRunning, hy]
  · simp [State.view, State.storeRunning]

theorem tracked_release (hs : Tracked s place) (hop : s.op a = .release x) :
    Next s place (s.release a x) := by
  have hhand : (s.op a).hand.IsAt a (some (.leaving a)) x := hop ▸ Hand.isAt_leaving
  refine hs.one x (some (.leaving a)) none (hs.place_of_isAt hhand) ?_ ?_ (.release rfl) ?_
    (by simp [State.view])
  · exact shiftOne_ended (s := { s.setParkState x .done with
      published := Function.update s.published x false }) hhand
  · intro kind y hy
    simp [State.view, State.release, hy]
  · simp [State.view, State.release]

/-- A wake that finds the token already there. -/
theorem tracked_wakeRead (hs : Tracked s place)
    (hop : s.op a = .wakeLoad x ∨ ∃ seen, s.op a = .wakeSwap x seen) :
    Next s place (s.wakeRead a x) := by
  have hholds : (s.op a).Holds [] := by
    rcases hop with h | ⟨seen, h⟩ <;> rw [h] <;> exact ⟨rfl, rfl, rfl, rfl, rfl⟩
  unfold State.wakeRead
  split
  case h_1 hstate =>
    refine hs.one x (place x) (place x) rfl ?_ ?_ (.notifyAgain hstate) ?_
      fun h ↦ absurd h (not_unusual rfl (by simp [State.view, hstate]))
    · exact shiftOne_same (s := s.record fun h ↦ h.wake x) (hholds.hand_eq ▸ Hand.isAt_none)
    · intro kind y hy
      simp [State.view, hy]
    · simp [State.view]
  case h_2 => exact tracked_ended hs hholds
  case h_3 => exact tracked_goto hs hholds ⟨rfl, rfl, rfl, rfl, rfl⟩

theorem tracked_wakeSwap (hs : Tracked s place) {seen : TaskState}
    (hop : s.op a = .wakeSwap x seen) (hseen : seen = .parked ∨ seen = .running)
    (spurious : Bool) : Next s place (s.wakeSwap a x seen spurious) := by
  have hhand : (s.op a).hand.IsAt a none x := hop ▸ Hand.isAt_none
  unfold State.wakeSwap
  split_ifs with hswap hparked
  · have hstate : s.parkState x = .parked := hswap.1.trans hparked
    have hplace : place x = none := by
      have hasleep := ((hs.ok x).asleep.mp hstate).2
      simpa [State.view] using hasleep
    refine hs.one x none (some (.stirring a)) hplace ?_ ?_ (.rouse hstate) ?_
      (by simp [State.view])
    · exact shiftOne_goto
        (s := (s.setParkState x .notified).record fun h ↦ (h.wake x).make x) hhand
        Hand.isAt_stirring
    · intro kind y hy
      simp [State.view, hy]
    · simp [State.view]
  · have hstate : s.parkState x = .running := hswap.1.trans (hseen.resolve_left hparked)
    refine hs.one x (place x) (place x) rfl ?_ ?_ (.notify hstate) ?_
      fun h ↦ absurd h (not_unusual rfl (by simp))
    · exact shiftOne_same (s := (s.setParkState x .notified).record fun h ↦ h.wake x) hhand
    · intro kind y hy
      simp [State.view, hy]
    · simp [State.view]
  · exact tracked_wakeRead hs (.inr ⟨seen, hop⟩)

theorem tracked_parkStore (hs : Tracked s place) (hop : s.op (.worker w) = .parkStore)
    (h : s.parkStore w = some t) : Next s place t := by
  unfold State.parkStore at h
  split at h
  case h_1 x hcurrent =>
    obtain rfl := Option.some.inj h
    have hplace : place x = some (.running w) :=
      hs.located.mem_iff.mp (by simp [hcurrent])
    refine hs.one x (some (.running w)) (some (.running w)) hplace ?_ ?_ (.consume rfl) ?_
      fun _ ↦ ⟨w, Or.inr ⟨hop, hcurrent, rfl, Function.update_self _ _ _⟩⟩
    · exact shiftOne_same (s := (s.setParkState x .running).record fun h ↦ h.consume x)
        (hop ▸ Hand.isAt_none)
    · intro kind y hy
      simp [State.view, hy]
    · simp [State.view]
  case h_2 => cases h

/-! ### Switches -/

theorem tracked_switchTo (hs : Tracked s place) (hop : s.op (.worker w) = .found x)
    (hcurrent : s.current w = none) : Next s place (s.switchTo w x) := by
  have hhand : (s.op (.worker w)).hand.IsAt (.worker w : Agent n κ)
      (some (.moving (.worker w))) x := by
    rw [hop]
    exact Hand.isAt_moving
  refine hs.one x (some (.moving (.worker w))) (some (.running w)) (hs.place_of_isAt hhand) ?_ ?_
    (.resume rfl) ?_ (by simp [State.view])
  · exact (shiftOne_current (s.history.resume x) hcurrent).append
      (shiftOne_ended hhand)
  · intro kind y hy
    simp [State.view, State.switchTo, hy]
  · simp [State.view, State.switchTo]

/-- The running task leaves its worker, and the next one is in the hand of the worker as before. -/
theorem shiftOne_switchOut {hook : Hook} {next : Option τ} {history : History τ}
    {p : Place n κ} (hop : s.op (.worker w) = .switch hook next)
    (hafter : s.after (.worker w) = .none) (hcurrent : s.current w = some x)
    (hhand : (Op.arrived hook x).hand.IsAt (.worker w) (some p) x) :
    ShiftOne s.contents (State.contents (State.gotoThen { s with
      current := Function.update s.current w none
      history := history } (.worker w) (.arrived hook x) (next.elim .none .found)))
        (some (.running w)) (some p) x := by
  have hnext : ∀ (y : τ) (r : Place n κ), (s.op (.worker w)).hand.count (.worker w) y r +
      (s.after (.worker w)).hand.count (.worker w) y r =
        (next.elim After.none After.found).hand.count (.worker w) y r := by
    intro y r
    rw [hop, hafter]
    cases next <;> cases r <;> simp [Op.hand, After.hand, Op.parking, Op.stirring, Op.pending,
      Op.leaving, After.moving, After.leaving]
  have hleave : ShiftOne s.contents (State.contents { s with
      current := Function.update s.current w none
      history := history }) (some (.running w)) none x :=
    .leave (by simp [hcurrent]) (by simp)
      fun _ ↦ State.contents_current
  refine hleave.trans fun r y ↦ ?_
  have hthen := State.count_gotoThen { s with
    current := Function.update s.current w none
    history := history } (.worker w) (.arrived hook x) (next.elim .none .found) r y
  rw [hnext y r, hhand y r] at hthen
  simp only [reduceCtorEq, false_and, if_false]
  omega

theorem tracked_switchOut (hs : Tracked s place) {hook : Hook} {next : Option τ}
    (hop : s.op (.worker w) = .switch hook next) (hafter : s.after (.worker w) = .none)
    (h : s.switchOut w hook next = some t) : Next s place t := by
  unfold State.switchOut at h
  split at h
  case h_1 x hcurrent =>
    obtain rfl := Option.some.inj h
    have hplace : place x = some (.running w) :=
      hs.located.mem_iff.mp (by simp [hcurrent])
    by_cases hhook : hook = .parked
    · subst hhook
      refine hs.one x (some (.running w)) (some (.parking (.worker w))) hplace ?_ ?_ (.park rfl) ?_
        (by simp [State.view])
      · exact shiftOne_switchOut hop hafter hcurrent Hand.isAt_parking
      · intro kind y hy
        simp [State.view, hy]
      · simp [State.view]
    · refine hs.one x (some (.running w)) (some (.leaving (.worker w))) hplace ?_ ?_ (.depart rfl)
        ?_
        (by simp [State.view])
      · refine shiftOne_switchOut hop hafter hcurrent ?_
        cases hook with
        | parked => exact absurd rfl hhook
        | yielded | finished => exact Hand.isAt_leaving
      · intro kind y hy
        simp [State.view, hhook]
      · simp [State.view, hhook]
  case h_2 => cases h

theorem tracked_arrived (hs : Tracked s place) {hook : Hook}
    (hop : s.op (.worker w) = .arrived hook x) :
    Next s place (s.arrived w x hook) := by
  cases hook with
  | parked =>
    have hhand : (s.op (.worker w)).hand.IsAt (.worker w : Agent n κ)
        (some (.parking (.worker w))) x := by
      rw [hop]
      exact Hand.isAt_parking
    have hplace := hs.place_of_isAt hhand
    simp only [State.arrived]
    split_ifs with hstate
    · refine hs.one x (some (.parking (.worker w))) none hplace ?_ ?_ (.sleep rfl hstate) ?_
        (by simp [State.view])
      · exact shiftOne_ended (s := s.setParkState x .parked) hhand
      · intro kind y hy
        simp [State.view, hy]
      · simp [State.view]
    · refine hs.one x (some (.parking (.worker w))) (some (.stirring (.worker w))) hplace ?_ ?_
        (.awaken rfl hstate) ?_ (by simp [State.view])
      · exact shiftOne_goto (s := s.record fun h ↦ h.make x) hhand Hand.isAt_stirring
      · intro kind y hy
        simp [State.view, hy]
      · simp [State.view]
  | yielded =>
    have hhand : (s.op (.worker w)).hand.IsAt (.worker w : Agent n κ)
        (some (.leaving (.worker w))) x := by
      rw [hop]
      exact Hand.isAt_leaving
    have hplace := hs.place_of_isAt hhand
    simp only [State.arrived]
    split
    case h_1 target _ =>
      refine hs.one x (some (.leaving (.worker w))) (some (.inbox target)) hplace ?_ ?_
        (.yield rfl) ?_ (by simp [State.view])
      · exact (shiftOne_inbox (s := s.record fun h ↦ (h.make x).schedule x)).append
          (shiftOne_ended hhand)
      · intro kind y hy
        simp [State.view, hy]
      · simp [State.view]
    case h_2 =>
      refine hs.one x (some (.leaving (.worker w))) (some (.moving (.worker w))) hplace ?_ ?_
        (.yield rfl) ?_ (by simp [State.view])
      · exact shiftOne_goto (s := s.record fun h ↦ (h.make x).schedule x) hhand Hand.isAt_moving
      · intro kind y hy
        simp [State.view, hy]
      · simp [State.view]
  | finished => exact tracked_sameHand hs (by rw [hop]; rfl)

/-! ### The reaper -/

theorem tracked_reapClaim (hs : Tracked s place) (hop : s.op (.worker w) = .reapClaim x) :
    Next s place (s.reapClaim w x) := by
  unfold State.reapClaim
  split_ifs with hstate
  · have hplace : place x = none := by
      have hasleep := ((hs.ok x).asleep.mp hstate).2
      simpa [State.view] using hasleep
    refine hs.one x none (some (.parking (.worker w))) hplace ?_ ?_ (.claim hstate) ?_
      (by simp [State.view])
    · exact shiftOne_goto (s := s.setParkState x .running) (hop ▸ Hand.isAt_none)
        Hand.isAt_parking
    · intro kind y hy
      simp [State.view, hy]
    · simp [State.view]
  · exact tracked_ended hs (hop ▸ ⟨rfl, rfl, rfl, rfl, rfl⟩)

theorem tracked_reapShields (c : Config) (hs : Tracked s place)
    (hop : s.op (.worker w) = .reapShields x) (hcurrent : s.current w = none) :
    Next s place (s.reapShields c w x) := by
  have hhand : (s.op (.worker w)).hand.IsAt (.worker w : Agent n κ)
      (some (.parking (.worker w))) x := by
    rw [hop]
    exact Hand.isAt_parking
  have hplace := hs.place_of_isAt hhand
  unfold State.reapShields
  split_ifs with hshields hexceptions
  · exact tracked_sameHand hs (by rw [hop]; rfl)
  · refine hs.one x (some (.parking (.worker w))) (some (.running w)) hplace ?_ ?_ (.unwind rfl) ?_
      fun _ ↦ ⟨w, Or.inl hop⟩
    · exact (shiftOne_current { s.history.carryOn x with
        unwound := s.history.unwound ++ [(x, s.guards x)] } hcurrent).append
          (shiftOne_ended hhand)
    · intro kind y hy
      simp [State.view, hy]
    · simp [State.view]
  · refine hs.one x (some (.parking (.worker w))) (some (.leaving (.worker w))) hplace ?_ ?_
      (.drop rfl) ?_ fun _ ↦ ⟨w, Or.inl hop⟩
    · exact shiftOne_goto (s := { s with history := { s.history with
        unwound := s.history.unwound ++ [(x, s.guards x)] } }) hhand Hand.isAt_leaving
    · intro kind y hy
      simp [State.view]
    · simp [State.view]

theorem tracked_reapPutBack (hs : Tracked s place) (hop : s.op (.worker w) = .reapPutBack x) :
    Next s place (s.reapPutBack w x) := by
  have hhand : (s.op (.worker w)).hand.IsAt (.worker w : Agent n κ)
      (some (.parking (.worker w))) x := by
    rw [hop]
    exact Hand.isAt_parking
  have hplace := hs.place_of_isAt hhand
  unfold State.reapPutBack
  split_ifs with hstate
  · refine hs.one x (some (.parking (.worker w))) none hplace ?_ ?_ (.sleep rfl hstate) ?_
      (by simp [State.view])
    · exact shiftOne_ended (s := s.setParkState x .parked) hhand
    · intro kind y hy
      simp [State.view, hy]
    · simp [State.view]
  · refine hs.one x (some (.parking (.worker w))) (some (.stirring (.worker w))) hplace ?_ ?_
      (.awaken rfl hstate) ?_ (by simp [State.view])
    · exact shiftOne_goto (s := s.record fun h ↦ h.make x) hhand Hand.isAt_stirring
    · intro kind y hy
      simp [State.view, hy]
    · simp [State.view]

/-! ### Containers -/

theorem tracked_schedule (hs : Tracked s place) (hop : s.op a = .schedule x)
    (hasIdleWorkers : Bool) :
    Next s place ((s.record fun h ↦ h.schedule x).schedule a x hasIdleWorkers) := by
  have hhand : (s.op a).hand.IsAt a (some (.pending a)) x := hop ▸ Hand.isAt_pending
  have hplace := hs.place_of_isAt hhand
  -- the same transition, whichever queue the task goes to
  have hone {t : State n κ τ} {p : Place n κ} (hkind : p.kind = .queued)
      (hshift : ShiftOne s.contents t.contents (some (.pending a)) (some p) x)
      (hview : ∀ kind y, t.view kind y = (s.record fun h ↦ h.schedule x).view kind y) :
      Next s place t := by
    refine hs.one x (some (.pending a)) (some p) hplace hshift ?_ (.schedule rfl) ?_
      (by simp [State.view])
    · intro kind y hy
      rw [hview]
      simp [State.view, hy]
    · rw [hview]
      simp [-Place.kind, State.view, hkind]
  have hinject : Next s place ((s.record fun h ↦ h.schedule x).goto a (.inject [x] none)) :=
    hone (p := .moving a) rfl (shiftOne_goto (s := s.record fun h ↦ h.schedule x) hhand
      Hand.isAt_moving) fun _ _ ↦ rfl
  unfold State.schedule
  rw [State.record_pinnedTo]
  cases hpinned : s.pinnedTo x with
  | some target =>
    exact hone (p := .inbox target) rfl ((shiftOne_inbox
      (s := s.record fun h ↦ h.schedule x)).append (shiftOne_ended hhand)) fun _ _ ↦ rfl
  | none =>
    cases a with
    | foreign => exact hinject
    | worker w =>
      dsimp only
      split_ifs
      · exact hone (p := .gathered w) rfl ((shiftOne_gathered
          (s := s.record fun h ↦ h.schedule x)).append (shiftOne_ended hhand)) fun _ _ ↦ rfl
      · exact hinject
      · exact hone (p := .moving (.worker w)) rfl (shiftOne_goto
          (s := s.record fun h ↦ h.schedule x) hhand Hand.isAt_moving) fun _ _ ↦ rfl

theorem tracked_pushLifo (hs : Tracked s place) (hop : s.op (.worker w) = .pushLifo x) :
    Next s place (s.pushLifo w x) := by
  have hholds : (s.op (.worker w)).Holds [x] := hop ▸ ⟨rfl, rfl, rfl, rfl, rfl⟩
  unfold State.pushLifo
  cases hslot : s.lifoSlot w with
  | some occupant =>
    refine hs.takeGoto (.lifoSlot w) [occupant] rfl
      (fun _ ↦ State.contents_lifoSlot) (fun y ↦ ?_) hholds ⟨rfl, rfl, rfl, rfl, rfl⟩ (fun y ↦ ?_)
      (fun _ _ ↦ rfl)
    · simp [hslot]
    · rw [add_comm, ← List.count_append]
      rfl
  | none =>
    refine hs.putEnded (.lifoSlot w) _ rfl (by simp) (fun _ ↦ State.contents_lifoSlot)
      (fun y ↦ ?_) hholds (fun _ _ ↦ rfl)
    simp [hslot]

theorem tracked_pushFifo (hs : Tracked s place) {slot : Option τ}
    (hop : s.op (.worker w) = .pushFifo x slot) (pushed : Bool) :
    Next s place (s.pushFifo w x slot pushed) := by
  have hholds : (s.op (.worker w)).Holds (x :: slot.toList) := hop ▸ ⟨rfl, rfl, rfl, rfl, rfl⟩
  unfold State.pushFifo
  split_ifs
  · refine hs.putGoto (.queue w) [x] rfl (by simp) (fun _ ↦ State.contents_queue)
      (fun y ↦ ?_) hholds ⟨rfl, rfl, rfl, rfl, rfl⟩ (fun y ↦ ?_) (fun _ _ ↦ rfl)
    · simp
    · simp [List.count_cons]
  · exact tracked_sameHand hs (by rw [hop]; rfl)

theorem tracked_overflow (hs : Tracked s place) {slot : Option τ}
    (hop : s.op (.worker w) = .overflow x slot) (hasActiveStealers : Bool) (count : ℕ) :
    Next s place (s.overflow w x slot hasActiveStealers count) := by
  have hholds : (s.op (.worker w)).Holds (x :: slot.toList) := hop ▸ ⟨rfl, rfl, rfl, rfl, rfl⟩
  unfold State.overflow
  split_ifs
  · exact tracked_sameHand hs (by rw [hop]; rfl)
  · refine hs.takeGoto (.queue w) ((s.queue w).take count) rfl
      (fun _ ↦ State.contents_queue) (fun y ↦ ?_) hholds ⟨rfl, rfl, rfl, rfl, rfl⟩ (fun y ↦ ?_)
      (fun _ _ ↦ rfl)
    · rw [add_comm, ← List.count_append]
      simp
    · simp only [Op.moving, List.count_append, List.count_cons, List.count_nil]
      omega

theorem tracked_inject (hs : Tracked s place) {tasks : List τ} {slot : Option τ}
    (hop : s.op a = .inject tasks slot) (hslot : ∀ w, a = .worker w → slot ≠ none →
      s.lifoSlot w = none) (hforeign : ∀ caller, a = .foreign caller → slot = none) :
    Next s place (s.inject a tasks slot) := by
  have hholds : (s.op a).Holds (tasks ++ slot.toList) := hop ▸ ⟨rfl, rfl, rfl, rfl, rfl⟩
  cases tasks with
  | cons task rest =>
    refine hs.putGoto .injection [task] rfl (by simp)
      (fun _ ↦ State.contents_injection) (fun y ↦ ?_) hholds ⟨rfl, rfl, rfl, rfl, rfl⟩ (fun y ↦ ?_)
      (fun _ _ ↦ rfl)
    · simp
    · simp [List.count_cons]
  | nil =>
    cases slot with
    | none =>
      cases a <;> exact tracked_ended hs hholds
    | some task =>
      cases a with
      | foreign caller => nomatch hforeign caller rfl
      | worker w =>
        have hempty := hslot w rfl (by simp)
        refine hs.putEnded (.lifoSlot w) _ rfl (by simp) (fun _ ↦ State.contents_lifoSlot)
          (fun y ↦ ?_) hholds (fun _ _ ↦ rfl)
        simp [hempty]

theorem tracked_restock (hs : Tracked s place) {tasks : List τ}
    (hop : s.op (.worker w) = .restock tasks) (count : ℕ) :
    Next s place (s.restock w tasks count) := by
  have hholds : (s.op (.worker w)).Holds tasks := hop ▸ ⟨rfl, rfl, rfl, rfl, rfl⟩
  refine hs.putGoto (.queue w) (tasks.take count) rfl (by simp)
    (fun _ ↦ State.contents_queue) (fun y ↦ ?_) hholds ⟨rfl, rfl, rfl, rfl, rfl⟩ (fun y ↦ ?_)
    (fun _ _ ↦ rfl)
  · simp
  · rw [Nat.add_comm, ← List.count_append]
    simp

/-- `takeLocal` takes a task in hand, or finds none. -/
theorem tracked_takeLocal (hs : Tracked s place) (hop : (s.op (.worker w)).Holds [])
    {choice : Choice} {task : Option τ} {taken : State n κ τ}
    (h : s.takeLocal w choice = (task, taken)) {op' : Op τ} (hop' : op'.Holds task.toList) :
    Next s place (taken.goto (.worker w) op') := by
  unfold State.takeLocal at h
  split at h
  case h_1 x hslot _ =>
    obtain ⟨rfl, rfl⟩ := Prod.mk.inj h
    refine hs.takeGoto (.lifoSlot w) [x] rfl (fun _ ↦ State.contents_lifoSlot) (fun y ↦ ?_) hop hop'
      (fun y ↦ by simp) (fun _ _ ↦ rfl)
    simp [hslot]
  case h_2 =>
    split at h
    case h_1 x rest _ hqueue =>
      obtain ⟨rfl, rfl⟩ := Prod.mk.inj h
      refine hs.takeGoto (.queue w) [x] rfl (fun _ ↦ State.contents_queue) (fun y ↦ ?_) hop hop'
        (fun y ↦ by simp) (fun _ _ ↦ rfl)
      simp [hqueue, List.count_cons]
    case h_2 =>
      split at h
      case h_1 x rest _ hinbox =>
        obtain ⟨rfl, rfl⟩ := Prod.mk.inj h
        refine hs.takeGoto (.inbox w) [x] rfl (fun _ ↦ State.contents_inbox) (fun y ↦ ?_) hop hop'
          (fun y ↦ by simp) (fun _ _ ↦ rfl)
        simp [hinbox, List.count_cons]
      case h_2 =>
        obtain ⟨rfl, rfl⟩ := Prod.mk.inj h
        refine hs.takeGoto (.lifoSlot w) (s.lifoSlot w).toList rfl
          (fun _ ↦ State.contents_lifoSlot) (fun y ↦ ?_) hop hop' (fun y ↦ by simp) (fun _ _ ↦ rfl)
        simp

theorem tracked_leave (hs : Tracked s place) {hook : Hook} {fairnessTick : Bool}
    (hop : s.op (.worker w) = .leave hook fairnessTick) (choice : Choice) :
    Next s place (s.leave w hook fairnessTick choice) := by
  have hholds : (s.op (.worker w)).Holds [] := by
    rw [hop]
    exact ⟨rfl, rfl, rfl, rfl, rfl⟩
  unfold State.leave
  split
  case h_1 next taken htake => exact tracked_takeLocal hs hholds htake ⟨rfl, rfl, rfl, rfl, rfl⟩
  case h_2 taken htake =>
    split_ifs
    · exact tracked_takeLocal hs hholds htake ⟨rfl, rfl, rfl, rfl, rfl⟩
    · exact tracked_takeLocal hs hholds htake ⟨rfl, rfl, rfl, rfl, rfl⟩

/-- A worker takes a task from the injection queue in hand. -/
theorem tracked_popInjection (hs : Tracked s place) (hop : (s.op a).Holds []) {rest : List τ}
    (hinjection : s.injection = x :: rest) {op' : Op τ} (hop' : op'.Holds [x]) :
    Next s place ({ s with injection := rest }.goto a op') := by
  refine hs.takeGoto .injection [x] rfl (fun _ ↦ State.contents_injection) (fun y ↦ ?_) hop
    hop' (fun y ↦ by simp) (fun _ _ ↦ rfl)
  simp [hinjection, List.count_cons]

theorem tracked_yieldPop (hs : Tracked s place) {fairnessTick : Bool}
    (hop : s.op (.worker w) = .yieldPop fairnessTick) (popped : Bool) :
    Next s place (s.yieldPop w fairnessTick popped) := by
  have hholds : (s.op (.worker w)).Holds [] := by
    rw [hop]
    exact ⟨rfl, rfl, rfl, rfl, rfl⟩
  unfold State.yieldPop
  split
  case h_1 next rest _ hinjection =>
    exact tracked_popInjection hs hholds hinjection ⟨rfl, rfl, rfl, rfl, rfl⟩
  case h_2 =>
    split_ifs
    · exact tracked_goto hs hholds ⟨rfl, rfl, rfl, rfl, rfl⟩
    · exact tracked_ended hs hholds

end Stackfull.Sched.Tasks
