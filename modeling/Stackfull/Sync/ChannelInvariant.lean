import Stackfull.Lib.Notification
import Stackfull.Lib.Views
import Stackfull.Sync.ChannelStep
import Mathlib.Data.Finset.Card

/-!
# The invariants of the channel

Three groups, each preserved by every step.

`Buffer` ties the ring to the history: what was accepted is what was received followed by what the
ring holds. `Links` ties the lists of waiters to the parties: a queued waiter belongs to a party
that waits at that end, a waiter taken off a list is on exactly one notifier's chain until it is
notified, and after `close` nobody is queued. `Log` ties the history to the calls: a call is in it
exactly when it has moved its value.

`Demand` is the counting invariant behind the absence of stranded waiters. While anyone is queued
at an end, every item (or free slot) that end could use is matched by a party of that end that was
taken off the list, or has just arrived, and has yet to try. It is preserved by every step except
one: the destructor of a `WaitGuard` that finds its waiter already taken off the list. That party
then leaves without trying, and what it was woken for is left behind.
-/

set_option autoImplicit false
set_option relaxedAutoImplicit false
set_option linter.dupNamespace false

namespace Stackfull.Sync.Channel

open Stackfull.Lib

universe u v

variable {ι : Type u} {T : Type v} [DecidableEq ι]

attribute [local grind] WaitList.pushBack WaitList.unlink Pc.waitsOn Pc.attempt Pc.chain
  Pc.hasMoved Transfer.side Side.peer State.callOf

/-! ### What the points of a call say -/

/-- A party of this kind can stand at this point. -/
def Pc.Fits (c : Config ι) (p : ι) : Pc ι T → Prop
  | .blocking _ => c.kind p ≠ .callback
  | .waiting _ => c.kind p ≠ .callback
  | .unwinding _ => c.kind p ≠ .callback
  | .awaitingNotifier => c.kind p ≠ .callback
  | .orEnqueue transfer true => c.kind p = .callback ∧ c.operationSide p = transfer.side
  | .enqueued transfer => c.kind p = .callback ∧ c.operationSide p = transfer.side
  | .cancelling side target =>
    c.kind target = .callback ∧ c.operationSide target = side ∧ target ≠ p
  | _ => True

attribute [local grind] Pc.Fits

omit [DecidableEq ι] in
@[grind →]
theorem Pc.of_attempt {pc : Pc ι T} {transfer : Transfer T} (h : pc.attempt = some transfer) :
    pc.waitsOn = none ∧ pc.chain = [] ∧ pc ≠ .awaitingNotifier ∧ pc.hasMoved = false := by
  cases pc <;> simp_all [Pc.attempt, Pc.waitsOn, Pc.chain, Pc.hasMoved]

omit [DecidableEq ι] in
@[grind →]
theorem Pc.chain_of_waitsOn {pc : Pc ι T} {side : Side} (h : pc.waitsOn = some side) :
    pc.chain = [] ∧ pc.hasMoved = false := by
  cases pc <;> simp_all [Pc.waitsOn, Pc.chain, Pc.hasMoved]

omit [DecidableEq ι] in
@[grind →]
theorem State.of_isFree {s : State ι T} {p : ι} (h : s.isFree p = true) :
    (s.pc p).waitsOn = none ∧ (s.pc p).chain = [] ∧ s.pc p ≠ .awaitingNotifier := by
  cases hpc : s.pc p <;> simp_all [State.isFree, Pc.waitsOn, Pc.chain]

@[grind →]
theorem State.of_entry {c : Config ι} {p : ι} {call : Call ι T} {pc : Pc ι T}
    (h : State.entry c p call = some pc) :
    pc.waitsOn = none ∧ pc.chain = [] ∧ pc ≠ .awaitingNotifier ∧ pc.hasMoved = false ∧
      pc.Fits c p := by
  cases call <;> simp only [State.entry] at h
  case sendOrEnqueue value withWaiter => cases withWaiter <;> grind -linarith
  case recvOrEnqueue withWaiter => cases withWaiter <;> grind -linarith
  all_goals grind -linarith

/-! ### The ring and the history -/

/-- What was accepted is what was received followed by what is buffered, and a closed channel has
accepted nothing since. -/
structure Buffer (c : Config ι) (s : State ι T) : Prop where
  wellFormed : s.ring.WellFormed
  capacity : s.ring.capacity = c.capacity
  history : s.accepted.map (fun entry ↦ some entry.2) =
    s.received.map (fun entry ↦ some entry.2) ++ s.ring.contents
  closedAt : s.closed = true → s.accepted.length = s.acceptedAtClose

omit [DecidableEq ι] in
theorem buffer_initial (c : Config ι) : Buffer c (initial c : State ι T) where
  wellFormed := RingBuffer.wellFormed_empty c.capacity_pos
  capacity := rfl
  history := rfl
  closedAt := fun h ↦ by cases h

theorem buffer_step {c : Config ι} {s t : State ι T} {a : Action ι T} (hs : Buffer c s)
    (h : Step c s a t) : Buffer c t := by
  cases h with
  | accept hpc hopen hroom =>
    refine ⟨hs.wellFormed.push hroom _, hs.capacity, ?_, fun hclosed ↦ ?_⟩
    · simp [RingBuffer.contents_push hroom, hs.history]
    · exact absurd hclosed (by simp [hopen])
  | take hpc hcount hvalue =>
    have hcontents := RingBuffer.contents_pop hs.wellFormed hcount
    exact ⟨hs.wellFormed.pop, hs.capacity, by simp [hs.history, hcontents, hvalue], hs.closedAt⟩
  | close hpc =>
    refine ⟨hs.wellFormed, hs.capacity, hs.history, fun _ ↦ ?_⟩
    by_cases hclosed : s.closed = true
    · simp [hclosed, hs.closedAt hclosed]
    · simp [hclosed]
  | _ => exact ⟨hs.wellFormed, hs.capacity, hs.history, hs.closedAt⟩

/-! ### Lists, chains and parties -/

/-- The waiter is off every list and still has to be notified. -/
def State.Owed (c : Config ι) (s : State ι T) (w : ι) : Prop :=
  ((s.pc w).waitsOn ≠ none ∨ s.pc w = .awaitingNotifier) ∧ (∀ side, w ∉ s.queue side) ∧
    (c.kind w ≠ .callback → s.satisfied w = false)

attribute [local grind] State.Owed

/-- The lists of waiters agree with where the parties stand. -/
structure Links (c : Config ι) (s : State ι T) : Prop where
  linked : ∀ side p, p ∈ s.queue side → (s.pc p).waitsOn = some side
  nodup : ∀ side, (s.queue side).Nodup
  unsatisfied : ∀ side p, p ∈ s.queue side → c.kind p ≠ .callback → s.satisfied p = false
  owed : ∀ q w, w ∈ (s.pc q).chain → s.Owed c w
  chainNodup : ∀ q, (s.pc q).chain.Nodup
  chainUnique : ∀ q r w, w ∈ (s.pc q).chain → w ∈ (s.pc r).chain → q = r
  fits : ∀ p, (s.pc p).Fits c p
  covered : ∀ w side, (s.pc w).waitsOn = some side →
    w ∈ s.queue side ∨ (c.kind w ≠ .callback ∧ s.satisfied w = true) ∨ ∃ q, w ∈ (s.pc q).chain
  awaited : ∀ w, s.pc w = .awaitingNotifier → s.satisfied w = true ∨ ∃ q, w ∈ (s.pc q).chain
  closedEmpty : s.closed = true → ∀ side, s.queue side = []

omit [DecidableEq ι] in
theorem links_initial (c : Config ι) : Links c (initial c : State ι T) where
  linked := by simp [initial]
  nodup := by simp [initial]
  unsatisfied := by simp [initial]
  owed := by simp [initial, Pc.chain]
  chainNodup := by simp [initial, Pc.chain]
  chainUnique := by simp [initial, Pc.chain]
  fits := by simp [initial, Pc.Fits]
  covered := by simp [initial, Pc.waitsOn]
  awaited := by simp [initial]
  closedEmpty := by simp [initial]

/-- What the point means to the lists of waiters. -/
def Pc.role : Pc ι T → Notification.Role Side ι
  | .waiting transfer => .waiting transfer.side
  | .enqueued transfer => .waiting transfer.side
  | .unwinding side => .waiting side
  | .awaitingNotifier => .awaiting
  | .notifying chain _ => .notifying chain
  | _ => .notifying []

/-- The lists, what every party does, and who was notified. -/
def State.parties (c : Config ι) (s : State ι T) : Notification.Parties Side ι where
  queue := s.queue
  role p := (s.pc p).role
  notified p := c.kind p ≠ .callback ∧ s.satisfied p = true

section Roles

variable {pc : Pc ι T}

attribute [local simp] Pc.role

omit [DecidableEq ι] in
theorem Pc.role_eq_waiting {side : Side} : pc.role = .waiting side ↔ pc.waitsOn = some side := by
  cases pc <;> simp [Pc.waitsOn]

omit [DecidableEq ι] in
theorem Pc.role_eq_awaiting : pc.role = .awaiting ↔ pc = .awaitingNotifier := by
  cases pc <;> simp

omit [DecidableEq ι] in
theorem Pc.chain_role (pc : Pc ι T) : pc.role.chain = pc.chain := by
  cases pc <;> rfl

omit [DecidableEq ι] in
theorem Pc.role_of_attempt {transfer : Transfer T} (h : pc.attempt = some transfer) :
    pc.role = .notifying [] := by
  cases pc with
  | blocking | trying | orEnqueue => rfl
  | _ => cases h

omit [DecidableEq ι] in
theorem State.role_of_isFree {s : State ι T} {p : ι} (h : s.isFree p = true) :
    (s.pc p).role = .notifying [] := by
  cases hpc : s.pc p <;> simp_all [State.isFree]

/-- A call begins with nobody to notify and waits for nothing yet. -/
theorem State.role_of_entry {c : Config ι} {p : ι} {call : Call ι T}
    (h : State.entry c p call = some pc) : pc.role = .notifying [] := by
  obtain ⟨hwaits, hchain, hawaits, -⟩ := State.of_entry h
  cases pc <;> simp_all [Pc.waitsOn, Pc.chain]

end Roles

section Parties

variable {c : Config ι} {s t : State ι T} {a : Action ι T}

omit [DecidableEq ι] in
theorem owed_parties {w : ι} : (s.parties c).Owed w ↔ s.Owed c w := by
  have hwaits : (∃ side, (s.pc w).role = .waiting side) ↔ (s.pc w).waitsOn ≠ none := by
    simp [Pc.role_eq_waiting, Option.ne_none_iff_exists']
  simp [Notification.Parties.Owed, State.Owed, State.parties, hwaits, Pc.role_eq_awaiting]

omit [DecidableEq ι] in
theorem Links.parties (hs : Links c s) : (s.parties c).Sound where
  linked side p hp := Pc.role_eq_waiting.mpr (hs.linked side p hp)
  nodup := hs.nodup
  unnotified side p hp hnotified := by
    have hfalse := hs.unsatisfied side p hp hnotified.1
    rw [hnotified.2] at hfalse
    cases hfalse
  owed q w hw := owed_parties.mpr (hs.owed q w (Pc.chain_role _ ▸ hw))
  chainNodup q := (s.pc q).chain_role ▸ hs.chainNodup q
  chainUnique q r w hq hr := hs.chainUnique q r w (Pc.chain_role _ ▸ hq) (Pc.chain_role _ ▸ hr)
  covered w side hw := by
    rcases hs.covered w side (Pc.role_eq_waiting.mp hw) with hlinked | hsatisfied | ⟨q, hq⟩
    · exact .inl hlinked
    · exact .inr (.inl hsatisfied)
    · exact .inr (.inr ⟨q, (s.pc q).chain_role ▸ hq⟩)

/-- A step that moves a party between points with the same role is no move. -/
theorem parties_stay {p : ι} {pc : Pc ι T} {role : Notification.Role Side ι}
    (hpc : t.pc = Function.update s.pc p pc) (hold : (s.pc p).role = role) (hnew : pc.role = role)
    (hqueue : t.queue = s.queue) (hsatisfied : t.satisfied = s.satisfied) :
    (s.parties c).Step (t.parties c) := by
  have hsame : t.parties c = s.parties c := by
    simp only [State.parties, hpc, hqueue, hsatisfied, view_update hold hnew]
  exact hsame ▸ .stay

/-- The role of everybody after a party moved. -/
theorem role_move {roles : ι → Notification.Role Side ι} {pcs : ι → Pc ι T} {p : ι} {pc : Pc ι T}
    {role : Notification.Role Side ι} (hold : ∀ q, (pcs q).role = roles q)
    (hnew : pc.role = role) (q : ι) :
    (Function.update pcs p pc q).role = Function.update roles p role q :=
  view_move hold hnew q

/-- A transfer that takes the first waiter of a list puts it on the chain of its party. -/
theorem parties_take {p : ι} {side : Side} {taken : Option ι} {rest : WaitList ι}
    {result : Result} (hs : Links c s) (hold : (s.pc p).role = .notifying [])
    (hqueue : s.queue side = taken.toList ++ rest)
    (hpc : t.pc = Function.update s.pc p (.notifying taken.toList result))
    (hrest : t.queue = Function.update s.queue side rest)
    (hsatisfied : t.satisfied = s.satisfied) : (s.parties c).Step (t.parties c) := by
  have hnodup := hs.nodup side
  have hlinked := hs.linked
  rw [hqueue, List.nodup_append] at hnodup
  refine .of_eq (.take taken.toList (Function.update s.queue side rest) hold
    hnodup.1 (fun w hw ↦ ⟨side, ?_⟩) (fun k ↦ ?_) fun k w ↦ ?_) (fun k ↦ congrFun hrest k)
    (fun q ↦ ?_) fun q ↦ by simp only [State.parties, hsatisfied]
  · simp only [State.parties, hqueue]
    exact List.mem_append_left _ hw
  · rcases eq_or_ne k side with rfl | hne
    · simp [State.parties, hqueue]
    · simp [State.parties, hne]
  · rcases eq_or_ne k side with rfl | hne
    · simp only [Function.update_self, State.parties, hqueue, List.mem_append]
      exact ⟨fun hw ↦ ⟨.inr hw, fun hmem ↦ hnodup.2.2 w hmem w hw rfl⟩,
        fun ⟨hw, hnot⟩ ↦ hw.resolve_left hnot⟩
    · simp only [Function.update_of_ne hne, State.parties]
      refine ⟨fun hw ↦ ⟨hw, fun hmem ↦ hne ?_⟩, And.left⟩
      have hside := hlinked side w (hqueue ▸ List.mem_append_left _ hmem)
      exact Option.some.inj ((hlinked k w hw).symm.trans hside)
  · simp only [State.parties, hpc]
    exact role_move (fun _ ↦ rfl) rfl q

/-- The steps of the channel are moves. -/
theorem parties_step (hs : Links c s) (h : Step c s a t) : (s.parties c).Step (t.parties c) := by
  cases h with
  | newWaiter => exact .stay
  | begin hfree hentry =>
    exact parties_stay rfl (State.role_of_isFree hfree) (State.role_of_entry hentry) rfl rfl
  | accept hpc _ _ hqueue | take hpc _ _ hqueue =>
    exact parties_take hs (Pc.role_of_attempt hpc) hqueue rfl rfl rfl
  | refuse hpc => exact parties_stay rfl (Pc.role_of_attempt hpc) rfl rfl rfl
  | @block p transfer hpc =>
    refine .of_eq (.enqueue (p := p) (k := transfer.side) (fun q ↦
      c.kind q ≠ .callback ∧ Function.update s.satisfied p false q) (congrArg Pc.role hpc)
      (fun q hq ↦ ?_) ?_) (fun _ ↦ rfl) (role_move (fun _ ↦ rfl) rfl) fun _ ↦ Iff.rfl
    · rw [Function.update_of_ne hq]
      exact Iff.rfl
    · simp
  | @enqueue p transfer hpc =>
    refine .of_eq (.enqueue _ (congrArg Pc.role hpc) (fun _ _ ↦ Iff.rfl) ?_) (fun _ ↦ rfl)
      (role_move (fun _ ↦ rfl) rfl) fun _ ↦ Iff.rfl
    have hkind : c.kind p = .callback := (hpc ▸ hs.fits p : (Pc.orEnqueue transfer true).Fits c p).1
    exact fun hnotified ↦ hnotified.1 hkind
  | @resume p transfer hpc hsatisfied =>
    have hkind : c.kind p ≠ .callback := (hpc ▸ hs.fits p : (Pc.waiting transfer).Fits c p)
    exact .of_eq (.resume (congrArg (Notification.Role.chain ∘ Pc.role) hpc) ⟨hkind, hsatisfied⟩)
      (fun _ ↦ rfl) (role_move (fun _ ↦ rfl) rfl) fun _ ↦ Iff.rfl
  | @unwound p hpc hsatisfied =>
    have hkind : c.kind p ≠ .callback :=
      (hpc ▸ hs.fits p : (Pc.awaitingNotifier : Pc ι T).Fits c p)
    exact .of_eq (.resume (congrArg (Notification.Role.chain ∘ Pc.role) hpc) ⟨hkind, hsatisfied⟩)
      (fun _ ↦ rfl) (role_move (fun _ ↦ rfl) rfl) fun _ ↦ Iff.rfl
  | @cancelTake p target side hpc hlinked =>
    have hne : target ≠ p := (hpc ▸ hs.fits p : (Pc.cancelling side target).Fits c p).2.2
    refine .of_eq (.unlink hlinked) (fun _ ↦ rfl) (fun q ↦ ?_) fun _ ↦ Iff.rfl
    refine (congrArg (fun pcs ↦ (pcs q).role) (Function.update_comm hne _ _ s.pc)).trans ?_
    have hsame := view_update (f := Pc.role) (congrArg Pc.role hpc)
      (rfl : (Pc.returned (.cancelReturned true) : Pc ι T).role = .notifying [])
    exact role_move hsame rfl q
  | guardUnlink hpc hlinked =>
    exact .of_eq (.unlink hlinked) (fun _ ↦ rfl) (role_move (fun _ ↦ rfl) rfl) fun _ ↦ Iff.rfl
  | @guardAwait p side hpc hunlinked =>
    exact .of_eq (.leave (congrArg Pc.role hpc) hunlinked) (fun _ ↦ rfl)
      (role_move (fun _ ↦ rfl) rfl) fun _ ↦ Iff.rfl
  | @close p hpc =>
    have hapart (w : ι) (hr : w ∈ s.queue .recv) (hw : w ∈ s.queue .send) : False := by
      have hside := (hs.linked .recv w hr).symm.trans (hs.linked .send w hw)
      cases hside
    refine .of_eq (.take ((s.queue .recv).reverse ++ (s.queue .send).reverse)
      (fun _ ↦ []) (congrArg Pc.role hpc) ?_ (fun w hw ↦ ?_) (fun _ ↦ List.nil_sublist _)
      fun side w ↦ ?_) (fun _ ↦ rfl) (role_move (fun _ ↦ rfl) rfl) fun _ ↦ Iff.rfl
    · refine List.nodup_append.mpr ⟨List.nodup_reverse.mpr (hs.nodup .recv),
        List.nodup_reverse.mpr (hs.nodup .send), ?_⟩
      rintro w hr _ hw rfl
      exact hapart w (List.mem_reverse.mp hr) (List.mem_reverse.mp hw)
    · rcases List.mem_append.mp hw with hr | hw
      · exact ⟨.recv, List.mem_reverse.mp hr⟩
      · exact ⟨.send, List.mem_reverse.mp hw⟩
    · cases side <;> simp_all [State.parties]
  | @wake p w rest result hpc hkind =>
    refine .of_eq (.notify (fun q ↦
      c.kind q ≠ .callback ∧ Function.update s.satisfied w true q) (congrArg Pc.role hpc)
      fun q ↦ ?_) (fun _ ↦ rfl) (role_move (fun _ ↦ rfl) rfl) fun _ ↦ Iff.rfl
    rcases eq_or_ne q w with rfl | hne
    · simp [State.parties, hkind]
    · simp [State.parties, hne]
  | callback hpc hkind hne htarget =>
    exact .of_eq (.complete (congrArg Pc.role hpc) (congrArg Pc.role htarget)) (fun _ ↦ rfl)
      (role_move (role_move (fun _ ↦ rfl) rfl) rfl) fun _ ↦ Iff.rfl
  | cancelMark hpc | notified hpc | unwind _ hpc =>
    exact parties_stay rfl (congrArg Pc.role hpc) rfl rfl rfl

end Parties

section LinksStep

variable {c : Config ι} {s t : State ι T} {a : Action ι T}

theorem fits_step (hs : Links c s) (h : Step c s a t) : ∀ p, (t.pc p).Fits c p := by
  have hfits := hs.fits
  have hmove {pcs : ι → Pc ι T} {p : ι} {pc : Pc ι T} (hold : ∀ q, (pcs q).Fits c q)
      (hnew : pc.Fits c p) (q : ι) : (Function.update pcs p pc q).Fits c q :=
    forall_update (P := Pc.Fits c) hold hnew q
  have hkeep {p : ι} {pc pc' : Pc ι T} (hpc : s.pc p = pc) (hnew : pc.Fits c p → pc'.Fits c p) :
      pc'.Fits c p := hnew (hpc ▸ hfits p)
  cases h with
  | newWaiter => exact hfits
  | begin hfree hentry => exact hmove hfits (State.of_entry hentry).2.2.2.2
  | block hpc | resume hpc | unwind _ hpc | guardAwait hpc =>
    exact hmove hfits (hkeep hpc fun hfit ↦ hfit)
  | enqueue hpc => exact hmove hfits (hkeep hpc fun hfit ↦ hfit)
  | cancelTake hpc => exact hmove (hmove hfits trivial) trivial
  | callback hpc hkind hne htarget =>
    exact hmove (hmove hfits trivial) (hkeep htarget fun hfit ↦ hfit)
  | accept | take | refuse | cancelMark | close | notified | wake | guardUnlink | unwound =>
    exact hmove hfits trivial

/-- After `close` nobody queues any more. -/
theorem closedEmpty_step (hs : Links c s) (h : Step c s a t) :
    t.closed = true → ∀ side, t.queue side = [] := by
  have hempty := hs.closedEmpty
  have hmove {side : Side} {list : WaitList ι} (hlist : s.queue side = [] → list = [])
      (hclosed : s.closed = true) (side' : Side) :
      Function.update s.queue side list side' = [] :=
    forall_update (P := fun _ list ↦ list = []) (hempty hclosed) (hlist (hempty hclosed side)) side'
  cases h with
  | accept hpc hopen =>
    intro hclosed
    exact absurd (hclosed : s.closed = true) (by simp [hopen])
  | take _ _ _ hqueue =>
    exact hmove fun hnil ↦ (List.append_eq_nil_iff.mp (hqueue.symm.trans hnil)).2
  | @block p transfer hpc hready hover | @enqueue p transfer hpc hready hover =>
    intro hclosed
    have hclosed' : s.closed = true := hclosed
    cases transfer with
    | send value => simp [State.isOver, hclosed'] at hover
    | recv => simp_all [State.isOver, State.isReady]
  | close => exact fun _ _ ↦ rfl
  | cancelTake | guardUnlink => exact hmove fun hnil ↦ by rw [hnil]; rfl
  | _ => exact hempty

theorem links_step (hs : Links c s) (h : Step c s a t) : Links c t := by
  have hstep := parties_step hs h
  have ht := hs.parties.step hstep
  have hawaited := hs.parties.awaited_step (fun w hw ↦ ?_) hstep
  · exact {
      linked := fun side p hp ↦ Pc.role_eq_waiting.mp (ht.linked side p hp)
      nodup := ht.nodup
      unsatisfied := fun side p hp hkind ↦
        Bool.eq_false_iff.mpr fun hsatisfied ↦ ht.unnotified side p hp ⟨hkind, hsatisfied⟩
      owed := fun q w hw ↦ owed_parties.mp (ht.owed q w (Pc.chain_role _ ▸ hw))
      chainNodup := fun q ↦ (t.pc q).chain_role ▸ ht.chainNodup q
      chainUnique := fun q r w hq hr ↦
        ht.chainUnique q r w (Pc.chain_role _ ▸ hq) (Pc.chain_role _ ▸ hr)
      fits := fits_step hs h
      covered := fun w side hw ↦ by
        rcases ht.covered w side (Pc.role_eq_waiting.mpr hw) with hlinked | hsatisfied | ⟨q, hq⟩
        · exact .inl hlinked
        · exact .inr (.inl hsatisfied)
        · exact .inr (.inr ⟨q, (t.pc q).chain_role ▸ hq⟩)
      awaited := fun w hw ↦ by
        rcases hawaited w (Pc.role_eq_awaiting.mpr hw) with hsatisfied | ⟨q, hq⟩
        · exact .inl hsatisfied.2
        · exact .inr ⟨q, (t.pc q).chain_role ▸ hq⟩
      closedEmpty := closedEmpty_step hs h }
  · have hpc := Pc.role_eq_awaiting.mp hw
    have hkind : c.kind w ≠ .callback := (hpc ▸ hs.fits w : (Pc.awaitingNotifier : Pc ι T).Fits c w)
    rcases hs.awaited w hpc with hsatisfied | ⟨q, hq⟩
    · exact .inl ⟨hkind, hsatisfied⟩
    · exact .inr ⟨q, (s.pc q).chain_role ▸ hq⟩

end LinksStep

/-! ### The history and the calls -/

/-- The calls that moved a value. -/
def State.logged (s : State ι T) : List (ι × ℕ) :=
  (s.accepted ++ s.received).map Prod.fst

/-- A party's call is in the history exactly when it has moved its value. -/
structure Log (s : State ι T) : Prop where
  bounded : ∀ p n, (p, n) ∈ s.logged → n ≤ s.callCount p
  moved : ∀ p, s.callOf p ∈ s.logged ↔ (s.pc p).hasMoved = true

omit [DecidableEq ι] in
theorem log_initial (c : Config ι) : Log (initial c : State ι T) where
  bounded := by simp [initial, State.logged]
  moved := by simp [initial, State.logged, Pc.hasMoved]

section LogStep

variable {c : Config ι} {s t : State ι T} {a : Action ι T}

omit [DecidableEq ι] in
/-- A step that moves no value and begins no call. -/
theorem Log.same (hs : Log s) (hcount : t.callCount = s.callCount) (hlogged : t.logged = s.logged)
    (hmoved : ∀ q, (t.pc q).hasMoved = (s.pc q).hasMoved) : Log t := by
  refine ⟨?_, fun q ↦ ?_⟩
  · rw [hcount, hlogged]
    exact hs.bounded
  · rw [State.callOf, hcount, hlogged, hmoved q]
    exact hs.moved q

/-- A step in which the call of a party moves its value. -/
theorem Log.move {p : ι} {pc : Pc ι T} (hs : Log s) (hcount : t.callCount = s.callCount)
    (hlogged : ∀ call, call ∈ t.logged ↔ call ∈ s.logged ∨ call = s.callOf p)
    (hpc : t.pc = Function.update s.pc p pc) (hnew : pc.hasMoved = true) : Log t := by
  refine ⟨fun q n hmem ↦ ?_, fun q ↦ ?_⟩
  · rw [hcount]
    rcases (hlogged (q, n)).mp hmem with hold | heq
    · exact hs.bounded q n hold
    · obtain ⟨rfl, rfl⟩ := Prod.mk.inj heq
      exact Nat.le_refl _
  · rw [State.callOf, hcount, hlogged, hpc]
    rcases eq_or_ne q p with rfl | hne
    · simp [hnew, State.callOf]
    · rw [Function.update_of_ne hne, ← hs.moved q]
      exact or_iff_left fun heq ↦ hne (congrArg Prod.fst heq)

/-- The call a party begins has moved nothing. -/
theorem Log.begin {p : ι} {pc : Pc ι T} (hs : Log s)
    (hcount : t.callCount = Function.update s.callCount p (s.callCount p + 1))
    (hlogged : t.logged = s.logged) (hpc : t.pc = Function.update s.pc p pc)
    (hnew : pc.hasMoved = false) : Log t := by
  refine ⟨fun q n hmem ↦ ?_, fun q ↦ ?_⟩
  · rw [hlogged] at hmem
    have hle := hs.bounded q n hmem
    rw [hcount]
    rcases eq_or_ne q p with rfl | hne
    · rw [Function.update_self]
      exact Nat.le_succ_of_le hle
    · rwa [Function.update_of_ne hne]
  · rw [State.callOf, hcount, hlogged, hpc]
    rcases eq_or_ne q p with rfl | hne
    · have hnot : (q, s.callCount q + 1) ∉ s.logged := fun hmem ↦ by
        have hle := hs.bounded _ _ hmem
        omega
      simp [hnot, hnew]
    · rw [Function.update_of_ne hne, Function.update_of_ne hne]
      exact hs.moved q

theorem log_step (hs : Log s) (hl : Links c s) (h : Step c s a t) : Log t := by
  cases h with
  | newWaiter => exact hs.same rfl rfl fun _ ↦ rfl
  | begin hfree hentry => exact hs.begin rfl rfl rfl (State.of_entry hentry).2.2.2.1
  | @accept p value =>
    refine hs.move rfl (fun call ↦ ?_) rfl rfl
    simp only [State.logged, State.setPc_accepted, State.setQueue_accepted,
      State.pushLocked_accepted, State.setPc_received, State.setQueue_received,
      State.pushLocked_received, List.map_append, List.mem_append, List.map_cons, List.map_nil,
      List.mem_singleton]
    exact or_right_comm
  | @take p value =>
    refine hs.move rfl (fun call ↦ ?_) rfl rfl
    simp only [State.logged, State.setPc_accepted, State.setQueue_accepted, State.popped_accepted,
      State.setPc_received, State.setQueue_received, State.popped_received, List.map_append,
      List.mem_append, List.map_cons, List.map_nil, List.mem_singleton]
    exact or_assoc.symm
  | refuse hpc hready hresult =>
    exact hs.same rfl rfl (view_update (Pc.of_attempt hpc).2.2.2 (decide_eq_false hresult))
  | cancelTake hpc hlinked =>
    exact hs.same rfl rfl (view_update_pair (congrArg Pc.hasMoved hpc) rfl
      (fun _ ↦ (Pc.chain_of_waitsOn (hl.linked _ _ hlinked)).2) rfl)
  | callback hpc hkind hne htarget =>
    exact hs.same rfl rfl (view_update_pair (congrArg Pc.hasMoved htarget) rfl
      (fun _ ↦ congrArg Pc.hasMoved hpc) rfl)
  | block hpc | enqueue hpc | resume hpc | cancelMark hpc | close hpc | notified hpc | wake hpc
  | unwind _ hpc | guardUnlink hpc | guardAwait hpc | unwound hpc =>
    exact hs.same rfl rfl (view_update (congrArg Pc.hasMoved hpc) rfl)

end LogStep

/-! ### Nothing usable without a party to use it -/

/-- What the parties of one end could use: items for receivers, free slots for senders. -/
def State.usable (s : State ι T) : Side → ℕ
  | .send => s.ring.capacity - s.ring.count
  | .recv => s.ring.count

/-- The end a party tries at next, if it waits when it cannot succeed. -/
def Pc.retries : Pc ι T → Option Side
  | .blocking transfer => some transfer.side
  | .orEnqueue transfer _ => some transfer.side
  | _ => none

/-- The party has yet to try at this end: it is about to, or it was taken off the list there. -/
def State.Retrying (s : State ι T) (side : Side) (p : ι) : Prop :=
  (s.pc p).retries = some side ∨ ((s.pc p).waitsOn = some side ∧ p ∉ s.queue side)

/-- While anyone is queued at this end, what it could use is matched by parties that have yet to
try there. -/
def DemandAt (s : State ι T) (side : Side) : Prop :=
  s.queue side ≠ [] →
    ∃ parties : Finset ι, s.usable side ≤ parties.card ∧ ∀ p ∈ parties, s.Retrying side p

/-- If the step is the destructor of a `WaitGuard`, it finds its waiter still on the list. -/
def guardFindsLinked (s : State ι T) : Action ι T → Bool
  | .act p =>
    match s.pc p with
    | .unwinding side => decide (p ∈ s.queue side)
    | _ => true
  | _ => true

omit [DecidableEq ι] in
theorem demandAt_initial (c : Config ι) (side : Side) : DemandAt (initial c : State ι T) side :=
  fun hne ↦ absurd rfl hne

attribute [local simp] Pc.retries

omit [DecidableEq ι] in
theorem Pc.retries_of_waitsOn {pc : Pc ι T} {side : Side} (h : pc.waitsOn = some side) :
    pc.retries = none := by
  cases pc <;> simp_all [Pc.waitsOn]

omit [DecidableEq ι] in
theorem Pc.retries_of_attempt {pc : Pc ι T} {transfer : Transfer T}
    (h : pc.attempt = some transfer) {side : Side} (hside : side ≠ transfer.side) :
    pc.retries ≠ some side := by
  cases pc <;> simp_all [Pc.attempt, eq_comm]

omit [DecidableEq ι] in
/-- A party between two calls has nothing to try. -/
theorem State.not_retrying_of_isFree {s : State ι T} {p : ι} (h : s.isFree p = true)
    (side : Side) : ¬s.Retrying side p := by
  cases hpc : s.pc p <;> simp_all [State.isFree, State.Retrying, Pc.waitsOn]

omit [DecidableEq ι] in
/-- A party waits only when there is nothing for it to use. -/
theorem usable_of_blocked {s : State ι T} {transfer : Transfer T}
    (hready : s.isReady transfer = false) (hover : s.isOver transfer = false) :
    s.usable transfer.side = 0 := by
  cases transfer with
  | send value =>
    simp only [State.isOver] at hover
    simp only [State.isReady, hover, Bool.not_false, Bool.true_and, decide_eq_false_iff_not]
      at hready
    exact Nat.sub_eq_zero_of_le (not_lt.mp hready)
  | recv => simpa [State.isReady, State.usable, Transfer.side] using hready

omit [DecidableEq ι] in
/-- A party whose transfer cannot happen has nothing to use while anyone is queued at its end. -/
theorem usable_of_not_ready {s : State ι T} {transfer : Transfer T}
    (hempty : s.closed = true → ∀ side, s.queue side = []) (hready : s.isReady transfer = false)
    (hqueue : s.queue transfer.side ≠ []) : s.usable transfer.side = 0 := by
  refine usable_of_blocked hready ?_
  have hopen : s.closed = false := by
    by_contra hclosed
    exact hqueue (hempty (by simpa using hclosed) _)
  cases transfer <;> simp [State.isOver, hopen]

section DemandStep

variable {c : Config ι} {s t : State ι T} {side : Side}

/-- Taking a waiter off a list queues nobody anew. -/
theorem State.unlink_queue_sublist (s : State ι T) (side other : Side) (p : ι) :
    ((s.setQueue other ((s.queue other).unlink p)).queue side).Sublist (s.queue side) := by
  rcases eq_or_ne side other with rfl | hne
  · rw [State.setQueue_queue, Function.update_self]
    exact List.erase_sublist
  · rw [State.setQueue_queue, Function.update_of_ne hne]

omit [DecidableEq ι] in
/-- The parties that match the demand still do when none of them has tried. -/
theorem DemandAt.keep (hs : DemandAt s side) (hqueue : t.queue side ≠ [] → s.queue side ≠ [])
    (husable : t.usable side = s.usable side)
    (hkeep : ∀ p, s.Retrying side p → t.Retrying side p) : DemandAt t side := by
  intro hne
  obtain ⟨parties, hcard, hparties⟩ := hs (hqueue hne)
  exact ⟨parties, husable ▸ hcard, fun p hp ↦ hkeep p (hparties p hp)⟩

omit [DecidableEq ι] in
/-- Nothing has to be matched when there is nothing to use. -/
theorem demandAt_of_usable_eq_zero (husable : t.usable side = 0) : DemandAt t side :=
  fun _ ↦ ⟨∅, by simp [husable], by simp⟩

/-- A transfer leaves one more thing to use at the other end and takes the first waiter there off
its list; the waiter joins the parties that match it. -/
theorem DemandAt.gain {w : ι} {rest : WaitList ι} (hs : DemandAt s side)
    (hqueue : s.queue side = w :: rest) (husable : t.usable side ≤ s.usable side + 1)
    (hlinked : (s.pc w).waitsOn = some side) (hw : t.Retrying side w)
    (hkeep : ∀ p, s.Retrying side p → t.Retrying side p) : DemandAt t side := by
  intro _
  obtain ⟨parties, hcard, hparties⟩ := hs (by simp [hqueue])
  have hnew : w ∉ parties := by
    intro hmem
    rcases hparties w hmem with hretries | ⟨-, hoff⟩
    · rw [Pc.retries_of_waitsOn hlinked] at hretries
      cases hretries
    · exact hoff (by simp [hqueue])
  refine ⟨insert w parties, ?_, fun q hq ↦ ?_⟩
  · rw [Finset.card_insert_of_notMem hnew]
    omega
  · rcases Finset.mem_insert.mp hq with rfl | hmem
    · exact hw
    · exact hkeep q (hparties q hmem)

/-- A transfer leaves one thing less to use at its own end, and the party that made it no longer
has to be counted. -/
theorem DemandAt.spend {p : ι} (hs : DemandAt s side)
    (hqueue : t.queue side ≠ [] → s.queue side ≠ []) (husable : t.usable side ≤ s.usable side - 1)
    (hkeep : ∀ q, q ≠ p → s.Retrying side q → t.Retrying side q) : DemandAt t side := by
  intro hne
  obtain ⟨parties, hcard, hparties⟩ := hs (hqueue hne)
  refine ⟨parties.erase p, ?_, fun q hq ↦ ?_⟩
  · have herase := Finset.pred_card_le_card_erase (s := parties) (a := p)
    omega
  · obtain ⟨hqp, hmem⟩ := Finset.mem_erase.mp hq
    exact hkeep q hqp (hparties q hmem)

omit [DecidableEq ι] in
/-- A party that stays where it is, and is not queued anew, has still to try. -/
theorem State.Retrying.of_pc_eq {q : ι} (h : s.Retrying side q) (hpc : t.pc q = s.pc q)
    (hqueue : q ∈ t.queue side → q ∈ s.queue side) : t.Retrying side q := by
  rcases h with hretries | ⟨hwaits, hoff⟩
  · exact Or.inl (hpc ▸ hretries)
  · exact Or.inr ⟨hpc ▸ hwaits, fun hq ↦ hoff (hqueue hq)⟩

/-- One party moves, and it still has to try if it had to before. -/
theorem State.Retrying.update {p q : ι} {pc : Pc ι T} (h : s.Retrying side q)
    (hpc : t.pc = Function.update s.pc p pc) (hqueue : ∀ q, q ∈ t.queue side → q ∈ s.queue side)
    (hmoved : s.Retrying side p → t.Retrying side p) : t.Retrying side q := by
  rcases eq_or_ne q p with rfl | hne
  · exact hmoved h
  · exact h.of_pc_eq (by rw [hpc, Function.update_of_ne hne]) (hqueue q)

omit [DecidableEq ι] in
/-- A party in the critical section of a transfer has nothing to try at the other end. -/
theorem State.not_retrying_of_attempt {p : ι} {transfer : Transfer T}
    (h : (s.pc p).attempt = some transfer) (hside : side ≠ transfer.side) :
    ¬s.Retrying side p := by
  rintro (hretries | ⟨hwaits, -⟩)
  · exact Pc.retries_of_attempt h hside hretries
  · rw [(Pc.of_attempt h).1] at hwaits
    cases hwaits

omit [DecidableEq ι] in
/-- A queued party has nothing to try before it is taken off the list. -/
theorem State.not_retrying_of_mem {p : ι} {other : Side} (hl : Links c s)
    (h : p ∈ s.queue other) : ¬s.Retrying side p := by
  have hother := hl.linked other p h
  rintro (hretries | ⟨hwaits, hoff⟩)
  · rw [Pc.retries_of_waitsOn hother] at hretries
    cases hretries
  · rw [hother] at hwaits
    cases hwaits
    exact hoff h

/-- The waiter a transfer takes off the list at the other end has to try there again. -/
theorem State.Retrying.of_taken {p w : ι} {pc : Pc ι T} {rest : WaitList ι} (hl : Links c s)
    (hqueue : s.queue side = w :: rest) (hp : (s.pc p).waitsOn = none)
    (hpc : t.pc = Function.update s.pc p pc) (hrest : t.queue side = rest) :
    t.Retrying side w := by
  have hw := hl.linked side w (by simp [hqueue])
  have hne : w ≠ p := fun heq ↦ by simp [heq, hp] at hw
  have hnodup := hl.nodup side
  rw [hqueue] at hnodup
  refine Or.inr ⟨?_, ?_⟩
  · rwa [hpc, Function.update_of_ne hne]
  · rw [hrest]
    exact (List.nodup_cons.mp hnodup).1

/-- A step of the channel keeps the demand matched, except the destructor of a `WaitGuard` whose
waiter was already taken off the list. -/
theorem demandAt_step {a : Action ι T} (hs : DemandAt s side) (hl : Links c s)
    (hgood : guardFindsLinked s a = true) (h : Step c s a t) : DemandAt t side := by
  cases h with
  | newWaiter => exact hs
  | @accept p value taken rest hpc hopen hroom hqueue hrest =>
    cases side with
    | recv =>
      intro hne
      simp only [State.setPc_queue, State.setQueue_queue, Function.update_self] at hne
      obtain ⟨w, rfl⟩ := Option.ne_none_iff_exists'.mp fun hnone ↦ hne (hrest hnone)
      have hw := hl.linked .recv w (by simp [hqueue])
      refine hs.gain hqueue (by simp [State.usable]) hw
        (.of_taken hl hqueue (Pc.of_attempt hpc).1 rfl (by simp)) (fun q hq ↦ ?_) (by simpa)
      exact hq.update rfl (by simp +contextual [hqueue])
        (fun hp ↦ absurd hp (State.not_retrying_of_attempt hpc (by simp [Transfer.side])))
    | send =>
      refine hs.spend (p := p) (by simp) ?_ fun q hq h ↦ h.of_pc_eq (by simp [hq]) (by simp)
      simp only [State.usable, State.setPc_ring, State.setQueue_ring, State.pushLocked_ring,
        RingBuffer.push_capacity, RingBuffer.push_count]
      omega
  | @take p value taken rest hpc hcount hvalue hqueue hrest =>
    cases side with
    | send =>
      intro hne
      simp only [State.setPc_queue, State.setQueue_queue, Function.update_self] at hne
      obtain ⟨w, rfl⟩ := Option.ne_none_iff_exists'.mp fun hnone ↦ hne (hrest hnone)
      have hw := hl.linked .send w (by simp [hqueue])
      refine hs.gain hqueue ?_ hw
        (.of_taken hl hqueue (Pc.of_attempt hpc).1 rfl (by simp)) (fun q hq ↦ ?_) (by simpa)
      · simp only [State.usable, State.setPc_ring, State.setQueue_ring, State.popped_ring,
          RingBuffer.pop_capacity, RingBuffer.pop_count]
        omega
      · exact hq.update rfl (by simp +contextual [hqueue])
          (fun hp ↦ absurd hp (State.not_retrying_of_attempt hpc (by simp [Transfer.side])))
    | recv =>
      exact hs.spend (p := p) (by simp) (by simp [State.usable])
        fun q hq h ↦ h.of_pc_eq (by simp [hq]) (by simp)
  | @refuse p transfer result hpc hready hresult =>
    by_cases hside : side = transfer.side
    · intro hne
      have husable := usable_of_not_ready hl.closedEmpty hready (hside ▸ hne)
      exact demandAt_of_usable_eq_zero (hside ▸ husable) hne
    · exact hs.keep (by simp) rfl fun q hq ↦ hq.update rfl (fun _ ↦ id)
        fun hp ↦ absurd hp (State.not_retrying_of_attempt hpc hside)
  | @block p transfer hpc hready hover =>
    by_cases hside : side = transfer.side
    · have husable := usable_of_blocked hready hover
      exact demandAt_of_usable_eq_zero (hside ▸ husable)
    · have hattempt : (s.pc p).attempt = some transfer := by rw [hpc]; rfl
      exact hs.keep (by simp [hside]) rfl fun q hq ↦ hq.update rfl (by simp [hside])
        fun hp ↦ absurd hp (State.not_retrying_of_attempt hattempt hside)
  | @enqueue p transfer hpc hready hover =>
    by_cases hside : side = transfer.side
    · have husable := usable_of_blocked hready hover
      exact demandAt_of_usable_eq_zero (hside ▸ husable)
    · have hattempt : (s.pc p).attempt = some transfer := by rw [hpc]; rfl
      exact hs.keep (by simp [hside]) rfl fun q hq ↦ hq.update rfl (by simp [hside])
        fun hp ↦ absurd hp (State.not_retrying_of_attempt hattempt hside)
  | close =>
    intro hne
    simp at hne
  | guardAwait hpc hunlinked => simp [guardFindsLinked, hpc, hunlinked] at hgood
  | @cancelTake p target side' hpc hlinked =>
    have hunlink := State.unlink_queue_sublist s side side' target
    refine hs.keep (mt fun hnil ↦ List.sublist_nil.mp (hnil ▸ hunlink)) rfl fun q hq ↦ ?_
    have hqp : q ≠ p := fun heq ↦ by
      simp [heq, State.Retrying, hpc, Pc.waitsOn] at hq
    have hqt : q ≠ target := fun heq ↦ State.not_retrying_of_mem hl hlinked (heq ▸ hq)
    exact hq.of_pc_eq (by simp [hqp, hqt]) hunlink.mem
  | @guardUnlink p side' hpc hlinked =>
    have hunlink := State.unlink_queue_sublist s side side' p
    refine hs.keep (mt fun hnil ↦ List.sublist_nil.mp (hnil ▸ hunlink)) rfl fun q hq ↦ ?_
    exact hq.update rfl (fun _ ↦ hunlink.mem)
      fun hp ↦ absurd hp (State.not_retrying_of_mem hl hlinked)
  | @callback p w rest result transfer hpc hkind hne htarget =>
    refine hs.keep (by simp) rfl fun q hq ↦ ?_
    have hqp : q ≠ p := fun heq ↦ by
      simp [heq, State.Retrying, hpc, Pc.waitsOn] at hq
    rcases eq_or_ne q w with rfl | hqw
    · rcases hq with hretries | ⟨hwaits, -⟩
      · simp [htarget] at hretries
      · exact Or.inl (by simpa [htarget, Pc.waitsOn] using hwaits)
    · exact hq.of_pc_eq (by simp [hqp, hqw]) id
  | begin hfree =>
    exact hs.keep (by simp) rfl fun q hq ↦ hq.update rfl (fun _ ↦ id)
      fun hp ↦ absurd hp (State.not_retrying_of_isFree hfree side)
  | unwind _ hpc =>
    refine hs.keep (by simp) rfl fun q hq ↦ hq.update rfl (fun _ ↦ id) ?_
    simp [State.Retrying, hpc, Pc.waitsOn]
  | resume hpc | cancelMark hpc | notified hpc | wake hpc | unwound hpc =>
    refine hs.keep (by simp) rfl fun q hq ↦ hq.update rfl (fun _ ↦ id) ?_
    simp +contextual [State.Retrying, hpc, Pc.retries, Pc.waitsOn]

end DemandStep

end Stackfull.Sync.Channel
