import Stackfull.Sync.Channel

/-!
# What a step of the channel can do

`Step` lists the effects a step of the channel can have, with the condition under which each
happens, and `step_of_eq` says that the list is complete. Every invariant of the channel is proved
against this list, so a change to one operation of the source changes one entry of it.
-/

set_option autoImplicit false
set_option relaxedAutoImplicit false
set_option linter.dupNamespace false

namespace Stackfull.Sync.Channel

open Stackfull.Lib

universe u v

variable {ι : Type u} {T : Type v} [DecidableEq ι]

/-- The transfer a party is about to attempt in a critical section. -/
def Pc.attempt : Pc ι T → Option (Transfer T)
  | .blocking transfer => some transfer
  | .trying transfer => some transfer
  | .orEnqueue transfer _ => some transfer
  | _ => none

/-- The end at which a party's waiter is in use: queued there, or taken off the list and not yet
back from its wait. -/
def Pc.waitsOn : Pc ι T → Option Side
  | .waiting transfer => some transfer.side
  | .enqueued transfer => some transfer.side
  | .unwinding side => some side
  | _ => none

/-- The waiters a party took off a list and has not notified yet. -/
def Pc.chain : Pc ι T → List ι
  | .notifying chain _ => chain
  | _ => []

/-- The call has moved its value. -/
def Pc.hasMoved : Pc ι T → Bool
  | .notifying _ result => decide (result = .transferred)
  | .returned result => decide (result = .transferred)
  | _ => false

/-- The effects of a step. -/
inductive Step (c : Config ι) (s : State ι T) : Action ι T → State ι T → Prop
  | newWaiter {p : ι} (hfree : s.isFree p) :
      Step c s (.newWaiter p) { s with cancelled := Function.update s.cancelled p false }
  | begin {p : ι} {call : Call ι T} {pc : Pc ι T} (hfree : s.isFree p)
      (hentry : State.entry c p call = some pc) :
      Step c s (.call p call)
        { s.setPc p pc with callCount := Function.update s.callCount p (s.callCount p + 1) }
  | accept {p : ι} {value : T} {taken : Option ι} {rest : WaitList ι}
      (hpc : (s.pc p).attempt = some (.send value)) (hopen : s.closed = false)
      (hroom : s.ring.count < s.ring.capacity) (hqueue : s.queue .recv = taken.toList ++ rest)
      (hrest : taken = none → rest = []) :
      Step c s (.act p)
        (((s.pushLocked p value).setQueue .recv rest).setPc p
          (.notifying taken.toList .transferred))
  | take {p : ι} {value : T} {taken : Option ι} {rest : WaitList ι}
      (hpc : (s.pc p).attempt = some .recv) (hcount : s.ring.count ≠ 0)
      (hvalue : s.ring.pop.1 = some value) (hqueue : s.queue .send = taken.toList ++ rest)
      (hrest : taken = none → rest = []) :
      Step c s (.act p)
        (((s.popped p value).setQueue .send rest).setPc p (.notifying taken.toList .transferred))
  | refuse {p : ι} {transfer : Transfer T} {result : Result}
      (hpc : (s.pc p).attempt = some transfer) (hready : s.isReady transfer = false)
      (hresult : result ≠ .transferred) :
      Step c s (.act p) (s.setPc p (.returned result))
  | block {p : ι} {transfer : Transfer T} (hpc : s.pc p = .blocking transfer)
      (hready : s.isReady transfer = false) (hover : s.isOver transfer = false) :
      Step c s (.act p)
        { (s.setQueue transfer.side ((s.queue transfer.side).pushBack p)).setPc p
            (.waiting transfer) with
          satisfied := Function.update s.satisfied p false }
  | enqueue {p : ι} {transfer : Transfer T} (hpc : s.pc p = .orEnqueue transfer true)
      (hready : s.isReady transfer = false) (hover : s.isOver transfer = false) :
      Step c s (.act p)
        ((s.setQueue transfer.side ((s.queue transfer.side).pushBack p)).setPc p
          (.enqueued transfer))
  | resume {p : ι} {transfer : Transfer T} (hpc : s.pc p = .waiting transfer)
      (hsatisfied : s.satisfied p = true) :
      Step c s (.act p) (s.setPc p (.blocking transfer))
  | cancelTake {p target : ι} {side : Side} (hpc : s.pc p = .cancelling side target)
      (hlinked : target ∈ s.queue side) :
      Step c s (.act p)
        (((s.setQueue side ((s.queue side).unlink target)).setPc target
          (.returned .stopped)).setPc p (.returned (.cancelReturned true)))
  | cancelMark {p target : ι} {side : Side} (hpc : s.pc p = .cancelling side target)
      (hunlinked : target ∉ s.queue side) :
      Step c s (.act p)
        { s.setPc p (.returned (.cancelReturned false)) with
          cancelled := Function.update s.cancelled target true }
  | close {p : ι} (hpc : s.pc p = .closing) : Step c s (.act p) (s.stepClosing p)
  | notified {p : ι} {result : Result} (hpc : s.pc p = .notifying [] result) :
      Step c s (.act p) (s.setPc p (.returned result))
  | wake {p w : ι} {rest : List ι} {result : Result} (hpc : s.pc p = .notifying (w :: rest) result)
      (hkind : c.kind w ≠ .callback) :
      Step c s (.act p)
        { s.setPc p (.notifying rest result) with
          satisfied := Function.update s.satisfied w true }
  | callback {p w : ι} {rest : List ι} {result : Result} {transfer : Transfer T}
      (hpc : s.pc p = .notifying (w :: rest) result) (hkind : c.kind w = .callback)
      (hne : w ≠ p) (htarget : s.pc w = .enqueued transfer) :
      Step c s (.act p)
        ((s.setPc p (.notifying rest result)).setPc w (.orEnqueue transfer true))
  | unwind {p : ι} {transfer : Transfer T} (hkind : c.kind p = .task)
      (hpc : s.pc p = .waiting transfer) :
      Step c s (.forcedUnwind p) (s.setPc p (.unwinding transfer.side))
  | guardUnlink {p : ι} {side : Side} (hpc : s.pc p = .unwinding side)
      (hlinked : p ∈ s.queue side) :
      Step c s (.act p)
        ((s.setQueue side ((s.queue side).unlink p)).setPc p (.returned .unwound))
  | guardAwait {p : ι} {side : Side} (hpc : s.pc p = .unwinding side)
      (hunlinked : p ∉ s.queue side) : Step c s (.act p) (s.setPc p .awaitingNotifier)
  | unwound {p : ι} (hpc : s.pc p = .awaitingNotifier) (hsatisfied : s.satisfied p = true) :
      Step c s (.act p) (s.setPc p (.returned .unwound))

/-- The critical section of a transfer that can happen is `accept` or `take`. -/
theorem step_of_transferNow {c : Config ι} {s t : State ι T} {p : ι} {transfer : Transfer T}
    (hpc : (s.pc p).attempt = some transfer) (hready : s.isReady transfer = true)
    (h : s.transferNow p transfer = some t) : Step c s (.act p) t := by
  cases transfer with
  | send value =>
    simp only [State.isReady, Bool.and_eq_true, Bool.not_eq_true', decide_eq_true_eq] at hready
    simp only [State.transferNow, Option.map_some, Option.some.injEq] at h
    exact h ▸ Step.accept hpc hready.1 hready.2 (WaitList.popFront_append _)
      (WaitList.popFront_none _)
  | recv =>
    simp only [State.isReady, decide_eq_true_eq] at hready
    simp only [State.transferNow, State.popLocked, Option.map_map, Option.map_eq_some_iff] at h
    obtain ⟨value, hvalue, ht⟩ := h
    exact ht ▸ Step.take hpc hready hvalue (WaitList.popFront_append _) (WaitList.popFront_none _)

/-- One pass through the loop of `send` or `recv`. -/
theorem step_of_stepBlocking {c : Config ι} {s t : State ι T} {p : ι} {transfer : Transfer T}
    (hpc : s.pc p = .blocking transfer) (h : s.stepBlocking p transfer = some t) :
    Step c s (.act p) t := by
  have hattempt : (s.pc p).attempt = some transfer := by rw [hpc]; rfl
  unfold State.stepBlocking at h
  split_ifs at h with hready hover
  · exact step_of_transferNow hattempt hready h
  · obtain rfl := Option.some.inj h
    exact .refuse hattempt (Bool.not_eq_true _ ▸ hready) (by decide)
  · obtain rfl := Option.some.inj h
    exact .block hpc (Bool.not_eq_true _ ▸ hready) (Bool.not_eq_true _ ▸ hover)

/-- `trySend` and `tryRecv`. -/
theorem step_of_stepTrying {c : Config ι} {s t : State ι T} {p : ι} {transfer : Transfer T}
    (hpc : s.pc p = .trying transfer) (h : s.stepTrying p transfer = some t) :
    Step c s (.act p) t := by
  have hattempt : (s.pc p).attempt = some transfer := by rw [hpc]; rfl
  unfold State.stepTrying at h
  split_ifs at h with hready
  · exact step_of_transferNow hattempt hready h
  · obtain rfl := Option.some.inj h
    exact .refuse hattempt (Bool.not_eq_true _ ▸ hready) (by decide)

/-- `sendOrEnqueue` and `recvOrEnqueue`. -/
theorem step_of_stepOrEnqueue {c : Config ι} {s t : State ι T} {p : ι} {transfer : Transfer T}
    {withWaiter : Bool} (hpc : s.pc p = .orEnqueue transfer withWaiter)
    (h : s.stepOrEnqueue p transfer withWaiter = some t) : Step c s (.act p) t := by
  have hattempt : (s.pc p).attempt = some transfer := by rw [hpc]; rfl
  unfold State.stepOrEnqueue at h
  split_ifs at h with hready hover hwaiter hcancelled
  · exact step_of_transferNow hattempt hready h
  · obtain rfl := Option.some.inj h
    exact .refuse hattempt (Bool.not_eq_true _ ▸ hready) (by decide)
  · obtain rfl := Option.some.inj h
    exact .refuse hattempt (Bool.not_eq_true _ ▸ hready) (by decide)
  · obtain rfl := Option.some.inj h
    exact .refuse hattempt (Bool.not_eq_true _ ▸ hready) (by decide)
  · obtain rfl := Option.some.inj h
    have hwith : withWaiter = true := by simpa using hwaiter
    exact .enqueue (hwith ▸ hpc) (Bool.not_eq_true _ ▸ hready) (Bool.not_eq_true _ ▸ hover)

/-- A step inside a call has one of the listed effects. -/
theorem step_of_act {c : Config ι} {s t : State ι T} {p : ι} (h : s.act c p = some t) :
    Step c s (.act p) t := by
  unfold State.act at h
  split at h
  case h_1 | h_6 | h_13 => cases h
  case h_2 transfer hpc => exact step_of_stepBlocking hpc h
  case h_3 transfer hpc =>
    split_ifs at h with hsatisfied
    exact Option.some.inj h ▸ .resume hpc hsatisfied
  case h_4 transfer hpc => exact step_of_stepTrying hpc h
  case h_5 transfer withWaiter hpc => exact step_of_stepOrEnqueue hpc h
  case h_7 side target hpc =>
    obtain rfl := Option.some.inj h
    unfold State.stepCancelling
    split_ifs with hlinked
    · exact .cancelTake hpc hlinked
    · exact .cancelMark hpc hlinked
  case h_8 hpc => exact Option.some.inj h ▸ .close hpc
  case h_9 result hpc => exact Option.some.inj h ▸ .notified hpc
  case h_10 w rest result hpc =>
    unfold State.notify at h
    split at h
    case h_1 hkind =>
      split at h
      case h_1 transfer htarget =>
        have hne : w ≠ p := by
          intro heq
          simp [heq, State.setPc] at htarget
        simp only [State.setPc, Function.update_of_ne hne] at htarget
        exact Option.some.inj h ▸ .callback hpc hkind hne htarget
      case h_2 => cases h
    case h_2 hkind => exact Option.some.inj h ▸ .wake hpc hkind
  case h_11 side hpc =>
    split_ifs at h with hlinked
    · exact Option.some.inj h ▸ .guardUnlink hpc hlinked
    · exact Option.some.inj h ▸ .guardAwait hpc hlinked
  case h_12 hpc =>
    split_ifs at h with hsatisfied
    exact Option.some.inj h ▸ .unwound hpc hsatisfied

/-- Every step has one of the listed effects. -/
theorem step_of_eq {c : Config ι} {s t : State ι T} {a : Action ι T} (h : s.step c a = some t) :
    Step c s a t := by
  cases a with
  | newWaiter p =>
    simp only [State.step] at h
    split_ifs at h with hfree
    exact Option.some.inj h ▸ .newWaiter hfree
  | call p call =>
    simp only [State.step, State.begin] at h
    split_ifs at h with hfree
    obtain ⟨pc, hentry, ht⟩ := Option.map_eq_some_iff.mp h
    exact ht ▸ .begin hfree hentry
  | act p => exact step_of_act h
  | forcedUnwind p =>
    simp only [State.step, State.forcedUnwind] at h
    split at h
    case h_1 transfer hkind hpc => exact Option.some.inj h ▸ .unwind hkind hpc
    case h_2 => cases h

end Stackfull.Sync.Channel
