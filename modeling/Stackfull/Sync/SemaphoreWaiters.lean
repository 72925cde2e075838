import Stackfull.Lib.Notification
import Stackfull.Sync.SemaphoreInvariant

/-!
# The waiters of the semaphore

`Links` ties the list of waiters to the parties. The steps of the semaphore are moves of waiting
parties and their notifiers (`parties_step`), which is where its parts on the list and the chains
come from. `Dekker` is the handshake between `acquire` and `release`: while a permit is free and
somebody waits for one, a release is on its way to hand it over. Every step preserves both, forced
unwinds included.
-/

set_option autoImplicit false
set_option relaxedAutoImplicit false
set_option linter.dupNamespace false

namespace Stackfull.Sync.Semaphore

open Stackfull.Lib

universe u

variable {ι : Type u} [DecidableEq ι]

/-! ### The list, the chains and the parties -/

/-- A party of this kind can stand at this point. -/
def Pc.Fits (c : Config ι) (p : ι) (pc : Pc ι) : Prop :=
  (pc.mode = some .acquire → c.kind p ≠ .callback) ∧
    (pc.mode = some .acquireOrEnqueue → c.kind p = .callback) ∧
    (∀ target, pc.target = some target → c.kind target = .callback ∧ target ≠ p)

/-- The waiter is off the list and still has to be notified. -/
def State.Owed (c : Config ι) (s : State ι) (w : ι) : Prop :=
  ((s.pc w).waits = true ∨ (s.pc w).awaits = true) ∧ w ∉ s.waiters ∧
    (c.kind w ≠ .callback → s.satisfied w = false)

/-- The list of waiters agrees with where the parties stand. -/
structure Links (c : Config ι) (s : State ι) : Prop where
  fits : ∀ p, (s.pc p).Fits c p
  linked : ∀ p, p ∈ s.waiters → (s.pc p).waits = true
  nodup : s.waiters.Nodup
  unsatisfied : ∀ p, p ∈ s.waiters ∨ (s.pc p).prepares = true → c.kind p ≠ .callback →
    s.satisfied p = false
  owed : ∀ q w, w ∈ (s.pc q).chain → s.Owed c w
  chainNodup : ∀ q, (s.pc q).chain.Nodup
  chainUnique : ∀ q r w, w ∈ (s.pc q).chain → w ∈ (s.pc r).chain → q = r
  covered : ∀ w, (s.pc w).waits = true →
    w ∈ s.waiters ∨ (c.kind w ≠ .callback ∧ s.satisfied w = true) ∨ ∃ q, w ∈ (s.pc q).chain

/-- What the point means to the list of waiters. -/
def Pc.role (pc : Pc ι) : Notification.Role Unit ι :=
  bif pc.waits then .waiting () else bif pc.awaits then .awaiting else .notifying pc.chain

/-- The list, what every party does, and who was notified. -/
def State.parties (c : Config ι) (s : State ι) : Notification.Parties Unit ι where
  queue _ := s.waiters
  role p := (s.pc p).role
  notified p := c.kind p ≠ .callback ∧ s.satisfied p = true

section Roles

variable {pc : Pc ι}

omit [DecidableEq ι] in
/-- The roles exclude each other. -/
theorem Pc.role_eq_waiting : pc.role = .waiting () ↔ pc.waits = true := by
  cases hwaits : pc.waits <;> cases hawaits : pc.awaits <;> simp [Pc.role, hwaits, hawaits]

omit [DecidableEq ι] in
theorem Pc.of_waits (h : pc.waits = true) :
    pc.chain = [] ∧ pc.awaits = false ∧ pc.prepares = false := by
  cases pc with
  | unlocking after => cases after <;> first | exact ⟨rfl, rfl, rfl⟩ | cases h
  | locking part => cases part <;> first | exact ⟨rfl, rfl, rfl⟩ | cases h
  | waiting | enqueued | guarding => exact ⟨rfl, rfl, rfl⟩
  | _ => cases h

omit [DecidableEq ι] in
theorem Pc.of_awaits (h : pc.awaits = true) :
    pc.chain = [] ∧ pc.waits = false ∧ pc.prepares = false := by
  cases pc with
  | unlocking after => cases after <;> first | exact ⟨rfl, rfl, rfl⟩ | cases h
  | awaitingNotifier => exact ⟨rfl, rfl, rfl⟩
  | _ => cases h

omit [DecidableEq ι] in
theorem Pc.role_eq_awaiting : pc.role = .awaiting ↔ pc.awaits = true := by
  constructor
  · intro h
    cases hwaits : pc.waits <;> cases hawaits : pc.awaits <;> simp [Pc.role, hwaits, hawaits] at h ⊢
  · intro h
    simp [Pc.role, h, (Pc.of_awaits h).2.1]

omit [DecidableEq ι] in
theorem Pc.chain_role (pc : Pc ι) : pc.role.chain = pc.chain := by
  unfold Pc.role
  cases hwaits : pc.waits with
  | true => exact (Pc.of_waits hwaits).1.symm
  | false =>
    cases hawaits : pc.awaits with
    | true => exact (Pc.of_awaits hawaits).1.symm
    | false => rfl

omit [DecidableEq ι] in
theorem Section.role_entry (part : Section ι) : part.entry.role = (Pc.locking part).role := by
  cases part <;> rfl

omit [DecidableEq ι] in
theorem Section.mode_entry (part : Section ι) : part.entry.mode = part.mode := by
  cases part <;> rfl

omit [DecidableEq ι] in
theorem Section.target_entry (part : Section ι) : part.entry.target = part.target := by
  cases part <;> rfl

omit [DecidableEq ι] in
theorem Section.prepares_entry (part : Section ι) : part.entry.prepares = part.isEnqueue := by
  cases part <;> rfl

omit [DecidableEq ι] in
theorem Mode.mode_queued (mode : Mode) : (mode.queued : After ι).mode = some mode := by
  cases mode <;> rfl

omit [DecidableEq ι] in
theorem Mode.role_queued (mode : Mode) :
    (Pc.unlocking (mode.queued : After ι)).role = .waiting () := by
  cases mode <;> rfl

end Roles

section Parties

variable {c : Config ι} {s : State ι}

omit [DecidableEq ι] in
theorem owed_parties {w : ι} : (s.parties c).Owed w ↔ s.Owed c w := by
  have hwaits : (∃ k, (s.pc w).role = .waiting k) ↔ (s.pc w).waits = true :=
    ⟨fun ⟨_, hk⟩ ↦ Pc.role_eq_waiting.mp hk, fun hw ↦ ⟨(), Pc.role_eq_waiting.mpr hw⟩⟩
  simp [Notification.Parties.Owed, State.Owed, State.parties, hwaits, Pc.role_eq_awaiting]

omit [DecidableEq ι] in
theorem Links.parties (hl : Links c s) : (s.parties c).Sound where
  linked _ p hp := Pc.role_eq_waiting.mpr (hl.linked p hp)
  nodup _ := hl.nodup
  unnotified _ p hp hnotified := by
    have hfalse := hl.unsatisfied p (.inl hp) hnotified.1
    rw [hnotified.2] at hfalse
    cases hfalse
  owed q w hw := owed_parties.mpr (hl.owed q w (Pc.chain_role _ ▸ hw))
  chainNodup q := (s.pc q).chain_role ▸ hl.chainNodup q
  chainUnique q r w hq hr := hl.chainUnique q r w (Pc.chain_role _ ▸ hq) (Pc.chain_role _ ▸ hr)
  covered w _ hw := by
    rcases hl.covered w (Pc.role_eq_waiting.mp hw) with hlinked | hsatisfied | ⟨q, hq⟩
    · exact .inl hlinked
    · exact .inr (.inl hsatisfied)
    · exact .inr (.inr ⟨q, (s.pc q).chain_role ▸ hq⟩)

variable {t : State ι} {a : Action ι}

/-- A step that moves a party between points with the same role is no move. -/
theorem parties_stay {p : ι} {pc : Pc ι} {role : Notification.Role Unit ι}
    (hpc : t.pc = Function.update s.pc p pc) (hold : (s.pc p).role = role) (hnew : pc.role = role)
    (hwaiters : t.waiters = s.waiters) (hsatisfied : t.satisfied = s.satisfied) :
    (s.parties c).Step (t.parties c) := by
  have hsame : t.parties c = s.parties c := by
    simp only [State.parties, hpc, hwaiters, hsatisfied, view_update hold hnew]
  exact hsame ▸ .stay

/-- The role of everybody after a party moved. -/
theorem role_move {roles : ι → Notification.Role Unit ι} {pcs : ι → Pc ι} {p : ι} {pc : Pc ι}
    {role : Notification.Role Unit ι} (hold : ∀ q, (pcs q).role = roles q)
    (hnew : pc.role = role) (q : ι) :
    (Function.update pcs p pc q).role = Function.update roles p role q :=
  view_move hold hnew q

omit [DecidableEq ι] in
theorem queue_update (queue : Unit → WaitList ι) {list : WaitList ι} (k : Unit) :
    list = Function.update queue () list k :=
  (Function.update_self () list queue).symm

theorem unlink_queue (s : State ι) (p : ι) (k : Unit) :
    s.waiters.unlink p =
      Function.update (fun _ : Unit ↦ s.waiters) () (s.waiters.erase p) k :=
  queue_update _ k

/-- The steps of the semaphore are moves. -/
theorem parties_step (hl : Links c s) (h : Step c s a t) : (s.parties c).Step (t.parties c) := by
  cases h with
  | newWaiter => exact .stay
  | begin hfree hentry =>
    exact parties_stay rfl (State.view_of_isFree hfree rfl fun _ ↦ rfl)
      (State.view_of_entry hentry (fun _ _ ↦ rfl) (fun _ ↦ rfl) rfl) rfl rfl
  | tryAgain hpc | refuse hpc | useWaiter hpc | recheckFails hpc =>
    exact parties_stay rfl (Pc.view_of_readsAt hpc rfl fun _ ↦ rfl) rfl rfl rfl
  | handAgain hpc | handNone hpc =>
    exact parties_stay rfl (Pc.view_of_readsFor hpc rfl fun _ ↦ rfl) rfl rfl rfl
  | lock hpc => exact parties_stay rfl (congrArg Pc.role hpc) (Section.role_entry _) rfl rfl
  | unlock hpc hnext =>
    refine parties_stay rfl (congrArg Pc.role hpc) ?_ rfl rfl
    cases hnext <;> rfl
  | acquireFast hpc | acquireLocked hpc | refuseCancelled hpc | announce hpc | subtract hpc
  | unlockReturn hpc | cancelMark hpc | add hpc | nobody hpc | somebody hpc | handEmpty hpc
  | handMore hpc | takeFor hpc | fix hpc | notified hpc | unwind _ hpc =>
    exact parties_stay rfl (congrArg Pc.role hpc) rfl rfl rfl
  | @makeWaiter a p hpc =>
    have hrole : (s.pc p).role = .notifying [] := Pc.view_of_readsAt hpc rfl fun _ ↦ rfl
    refine .of_eq (.clear (p := p) (fun q ↦
      c.kind q ≠ .callback ∧ Function.update s.satisfied p false q) hrole fun q hq ↦ ?_)
      (fun _ ↦ rfl) (fun q ↦ view_update hrole rfl q) fun _ ↦ Iff.rfl
    rw [Function.update_of_ne hq]
    exact Iff.rfl
  | @push p mode hpc =>
    refine .of_eq (.enqueue (k := ()) _ (congrArg Pc.role hpc) (fun _ _ ↦ Iff.rfl) ?_)
      (queue_update fun _ ↦ s.waiters) (role_move (fun _ ↦ rfl) (Mode.role_queued mode))
      fun _ ↦ Iff.rfl
    rintro ⟨hkind, hsatisfied⟩
    rw [hl.unsatisfied p (.inr (congrArg Pc.prepares hpc)) hkind] at hsatisfied
    cases hsatisfied
  | resume hpc hsatisfied =>
    have hkind := (hl.fits _).1 (congrArg Pc.mode hpc)
    exact .of_eq (.resume (congrArg (Notification.Role.chain ∘ Pc.role) hpc) ⟨hkind, hsatisfied⟩)
      (fun _ ↦ rfl) (role_move (fun _ ↦ rfl) rfl) fun _ ↦ Iff.rfl
  | unwound hpc hsatisfied =>
    have hkind := (hl.fits _).1 (congrArg Pc.mode hpc)
    exact .of_eq (.resume (congrArg (Notification.Role.chain ∘ Pc.role) hpc) ⟨hkind, hsatisfied⟩)
      (fun _ ↦ rfl) (role_move (fun _ ↦ rfl) rfl) fun _ ↦ Iff.rfl
  | @cancelTake p target hpc hlinked =>
    have hne := ((hl.fits p).2.2 target (congrArg Pc.target hpc)).2
    refine .of_eq (.unlink (k := ()) hlinked) (unlink_queue s target) (fun q ↦ ?_) fun _ ↦ Iff.rfl
    refine (congrArg (fun pcs ↦ (pcs q).role) (Function.update_comm hne _ _ s.pc)).trans ?_
    have hsame := view_update (f := Pc.role) (congrArg Pc.role hpc)
      (rfl : (Pc.subtracting (.cancelReturned true) : Pc ι).role = .notifying [])
    exact role_move hsame rfl q
  | guardUnlink hpc hlinked =>
    exact .of_eq (.unlink (k := ()) hlinked) (unlink_queue s _) (role_move (fun _ ↦ rfl) rfl)
      fun _ ↦ Iff.rfl
  | guardAwait hpc hunlinked =>
    exact .of_eq (.leave (congrArg Pc.role hpc) hunlinked) (fun _ ↦ rfl)
      (role_move (fun _ ↦ rfl) rfl) fun _ ↦ Iff.rfl
  | @pop p w chain rest hpc hwaiters =>
    have hnodup := hl.nodup
    rw [hwaiters] at hnodup
    refine .of_eq (.take [w] (fun _ ↦ rest) (congrArg Pc.role hpc)
      (List.nodup_singleton w) (fun x hx ↦ ⟨(), ?_⟩) (fun _ ↦ ?_) fun _ x ↦ ?_) (fun _ ↦ rfl)
      (role_move (fun _ ↦ rfl) rfl) fun _ ↦ Iff.rfl
    · simp [State.parties, hwaiters, List.mem_singleton.mp hx]
    · simp [State.parties, hwaiters]
    · simp only [State.parties, hwaiters, List.mem_cons]
      grind -linarith
  | @wake p w rest hpc hkind =>
    refine .of_eq (.notify (fun q ↦
      c.kind q ≠ .callback ∧ Function.update s.satisfied w true q) (congrArg Pc.role hpc)
      fun q ↦ ?_) (fun _ ↦ rfl) (role_move (fun _ ↦ rfl) rfl) fun _ ↦ Iff.rfl
    rcases eq_or_ne q w with rfl | hne
    · simp [State.parties, hkind]
    · simp [State.parties, hne]
  | callback hpc hkind hne htarget =>
    refine .of_eq (.complete (congrArg Pc.role hpc) (congrArg Pc.role htarget)) (fun _ ↦ rfl)
      (role_move (role_move (fun _ ↦ rfl) rfl) rfl) fun _ ↦ Iff.rfl

end Parties

section LinksStep

variable {c : Config ι} {s t : State ι} {a : Action ι}

omit [DecidableEq ι] in
/-- The first waiter of a chain is owed its notification. -/
theorem Links.owed_head (hl : Links c s) {p w : ι} {rest : List ι}
    (hpc : s.pc p = .notifying (w :: rest)) : s.Owed c w :=
  hl.owed p w (by simp [hpc, Pc.chain])

omit [DecidableEq ι] in
/-- A party whose wait was satisfied is off the list. -/
theorem Links.not_mem_of_satisfied (hl : Links c s) {p : ι} (hpc : s.pc p = .waiting)
    (hsatisfied : s.satisfied p = true) : p ∉ s.waiters :=
  hl.parties.not_mem_of_notified ⟨(hl.fits p).1 (congrArg Pc.mode hpc), hsatisfied⟩ ()

omit [DecidableEq ι] in
/-- A point that says no more about how a party waits, and cancels nothing else, fits it too. -/
theorem Pc.Fits.mono {p : ι} {pc pc' : Pc ι} (h : pc.Fits c p)
    (hmode : ∀ mode, pc'.mode = some mode → pc.mode = some mode)
    (htarget : ∀ target, pc'.target = some target → pc.target = some target) : pc'.Fits c p :=
  ⟨fun hm ↦ h.1 (hmode _ hm), fun hm ↦ h.2.1 (hmode _ hm), fun _ ht ↦ h.2.2 _ (htarget _ ht)⟩

omit [DecidableEq ι] in
/-- A point outside of any wait fits everybody. -/
theorem Pc.fits_of_none {p : ι} {pc : Pc ι} (hmode : pc.mode = none) (htarget : pc.target = none) :
    pc.Fits c p := by
  simp [Pc.Fits, hmode, htarget]

/-- The point a call begins at fits the party. -/
theorem fits_of_entry {p : ι} {call : Call ι} {pc : Pc ι} (h : State.entry c p call = some pc) :
    pc.Fits c p := by
  cases call <;> simp only [State.entry] at h
  case acquire =>
    split_ifs at h with hkind
    obtain rfl := Option.some.inj h
    simpa [Pc.Fits, Pc.mode, Site.mode, Pc.target] using hkind
  case acquireOrEnqueue =>
    split_ifs at h with hkind
    obtain rfl := Option.some.inj h
    simpa [Pc.Fits, Pc.mode, Site.mode, Pc.target] using hkind
  case cancel target =>
    split_ifs at h with htarget
    obtain rfl := Option.some.inj h
    simpa [Pc.Fits, Pc.mode, Section.mode, Pc.target, Section.target] using htarget
  case tryAcquire | release =>
    obtain rfl := Option.some.inj h
    exact Pc.fits_of_none rfl rfl

theorem fits_step (hl : Links c s) (h : Step c s a t) : ∀ p, (t.pc p).Fits c p := by
  have hfits := hl.fits
  have hmove {pcs : ι → Pc ι} {p : ι} {pc : Pc ι} (hold : ∀ q, (pcs q).Fits c q)
      (hnew : pc.Fits c p) (q : ι) : (Function.update pcs p pc q).Fits c q :=
    forall_update (P := Pc.Fits c) hold hnew q
  have hreads {p : ι} {site : Site} {pc : Pc ι} (hpc : (s.pc p).readsAt = some site)
      (hmode : pc.mode = site.mode) (htarget : pc.target = none) : pc.Fits c p := by
    refine (hfits p).mono (fun _ hm ↦ ?_) fun _ ht ↦ ?_
    · exact (Pc.view_of_readsAt hpc rfl fun _ ↦ rfl).trans (hmode.symm.trans hm)
    · rw [htarget] at ht
      cases ht
  have hkeep {p : ι} {pc pc' : Pc ι} (hpc : s.pc p = pc) (hmode : pc'.mode = pc.mode)
      (htarget : pc'.target = pc.target) : pc'.Fits c p :=
    (hpc ▸ hfits p).mono (fun _ hm ↦ hmode.symm.trans hm) fun _ ht ↦ htarget.symm.trans ht
  cases h with
  | newWaiter => exact hfits
  | begin hfree hentry => exact hmove hfits (fits_of_entry hentry)
  | tryAgain hpc | makeWaiter hpc | useWaiter hpc | recheckFails hpc =>
    exact hmove hfits (hreads hpc rfl rfl)
  | lock hpc => exact hmove hfits (hkeep hpc (Section.mode_entry _) (Section.target_entry _))
  | push hpc => exact hmove hfits (hkeep hpc (Mode.mode_queued _) rfl)
  | unlock hpc hnext =>
    refine hmove hfits (hkeep hpc ?_ ?_)
    · cases hnext <;> rfl
    · cases hnext <;> rfl
  | announce hpc | unwind _ hpc | guardAwait hpc => exact hmove hfits (hkeep hpc rfl rfl)
  | cancelTake hpc | callback hpc =>
    exact hmove (hmove hfits (Pc.fits_of_none rfl rfl)) (Pc.fits_of_none rfl rfl)
  | refuse | handAgain | handNone | acquireFast | acquireLocked | refuseCancelled | subtract
  | unlockReturn | resume | cancelMark | add | nobody | somebody | handEmpty | handMore | takeFor
  | pop | fix | notified | wake | guardUnlink | unwound =>
    exact hmove hfits (Pc.fits_of_none rfl rfl)

/-- Who prepares a waiter after a party moved did so before. -/
theorem prepares_update {pcs : ι → Pc ι} {p q : ι} {pc : Pc ι}
    (hp : (Function.update pcs q pc p).prepares = true)
    (hnew : pc.prepares = true → (pcs q).prepares = true) : (pcs p).prepares = true := by
  rcases eq_or_ne p q with rfl | hne
  · rw [Function.update_self] at hp
    exact hnew hp
  · rwa [Function.update_of_ne hne] at hp

/-- A party that prepares its waiter has made it unsatisfied. -/
theorem prepares_step (hl : Links c s) (h : Step c s a t) {p : ι}
    (hp : (t.pc p).prepares = true) (hkind : c.kind p ≠ .callback) : t.satisfied p = false := by
  have hunsat (hold : (s.pc p).prepares = true) := hl.unsatisfied p (.inr hold) hkind
  cases h with
  | newWaiter => exact hunsat hp
  | begin hfree hentry =>
    refine hunsat (prepares_update hp fun hnew ↦ ?_)
    rw [State.view_of_entry (f := Pc.prepares) hentry (fun _ hsite ↦ hsite) (fun _ ↦ rfl) rfl]
      at hnew
    cases hnew
  | tryAgain hpc | recheckFails hpc =>
    exact hunsat (prepares_update hp fun hnew ↦ (Pc.view_of_readsAt hpc rfl fun _ ↦ rfl).trans hnew)
  | @makeWaiter _ q hpc =>
    rcases eq_or_ne p q with rfl | hne
    · exact Function.update_self ..
    · refine (Function.update_of_ne hne ..).trans (hunsat ?_)
      exact (congrArg Pc.prepares (Function.update_of_ne hne ..)).symm.trans hp
  | @useWaiter _ q hpc =>
    rcases eq_or_ne p q with rfl | hne
    · exact absurd ((hl.fits p).2.1 (Pc.view_of_readsAt hpc rfl fun _ ↦ rfl)) hkind
    · exact hunsat ((congrArg Pc.prepares (Function.update_of_ne hne ..)).symm.trans hp)
  | @wake q w rest hpc =>
    have hold := prepares_update hp fun hnew ↦ (congrArg Pc.prepares hpc).trans hnew
    refine (Function.update_of_ne ?_ ..).trans (hunsat hold)
    rintro rfl
    rcases (hl.owed_head hpc).1 with hwaits | hawaits
    · rw [(Pc.of_waits hwaits).2.2] at hold
      cases hold
    · rw [(Pc.of_awaits hawaits).2.2] at hold
      cases hold
  | lock hpc =>
    exact hunsat (prepares_update hp fun hnew ↦
      (congrArg Pc.prepares hpc).trans ((Section.prepares_entry _).symm.trans hnew))
  | unlock hpc hnext =>
    refine hunsat (prepares_update hp fun hnew ↦ ?_)
    cases hnext <;> cases hnew
  | announce hpc => exact hunsat (prepares_update hp fun _ ↦ congrArg Pc.prepares hpc)
  | cancelTake | callback =>
    refine hunsat (prepares_update (prepares_update hp fun hnew ↦ ?_) fun hnew ↦ ?_)
    · cases hnew
    · cases hnew
  | refuse | handAgain | handNone | acquireFast | acquireLocked | refuseCancelled | push | subtract
  | unlockReturn | resume | cancelMark | add | nobody | somebody | handEmpty | handMore | takeFor
  | pop | fix | notified | unwind | guardUnlink | guardAwait | unwound =>
    refine hunsat (prepares_update hp fun hnew ↦ ?_)
    cases hnew

/-- A waiter is made unsatisfied and stays so until it is on a chain. -/
theorem unsatisfied_step (hl : Links c s) (h : Step c s a t) (p : ι)
    (hp : p ∈ t.waiters ∨ (t.pc p).prepares = true) (hkind : c.kind p ≠ .callback) :
    t.satisfied p = false := by
  rcases hp with hlinked | hprepares
  · have hs := hl.parties.step (parties_step hl h)
    exact Bool.eq_false_iff.mpr fun hsatisfied ↦ hs.unnotified () p hlinked ⟨hkind, hsatisfied⟩
  · exact prepares_step hl h hprepares hkind

theorem links_step (hl : Links c s) (h : Step c s a t) : Links c t := by
  have hs := hl.parties.step (parties_step hl h)
  exact {
    fits := fits_step hl h
    linked := fun p hp ↦ Pc.role_eq_waiting.mp (hs.linked () p hp)
    nodup := hs.nodup ()
    unsatisfied := unsatisfied_step hl h
    owed := fun q w hw ↦ owed_parties.mp (hs.owed q w (Pc.chain_role _ ▸ hw))
    chainNodup := fun q ↦ (t.pc q).chain_role ▸ hs.chainNodup q
    chainUnique := fun q r w hq hr ↦ hs.chainUnique q r w (Pc.chain_role _ ▸ hq) (Pc.chain_role _ ▸ hr)
    covered := fun w hw ↦ by
      rcases hs.covered w () (Pc.role_eq_waiting.mpr hw) with hlinked | hsatisfied | ⟨q, hq⟩
      · exact .inl hlinked
      · exact .inr (.inl hsatisfied)
      · exact .inr (.inr ⟨q, (t.pc q).chain_role ▸ hq⟩) }

end LinksStep

/-! ### The handshake of acquire and release -/

/-- The critical section is the hand-over of `release`. -/
def Section.isHandOver : Section ι → Bool
  | .handOver => true
  | _ => false

/-- A release is on its way to hand permits over. -/
def Pc.handsOver : Pc ι → Bool
  | .checking => true
  | .locking part => part.isHandOver
  | .handing _ => true
  | .loadingFor _ => true
  | .swappingFor _ _ => true
  | .popping _ => true
  | .fixing _ => true
  | _ => false

/-- The party saw no permit after it announced itself and is about to queue its waiter. -/
def Pc.isPushing : Pc ι → Bool
  | .pushing _ => true
  | _ => false

/-- With no release on its way, a free permit means that nobody waits or is about to. -/
def Dekker (s : State ι) : Prop :=
  (∀ q, (s.pc q).handsOver = false) → s.permits ≠ 0 →
    s.waiters = [] ∧ ∀ p, (s.pc p).isPushing = false

omit [DecidableEq ι] in
theorem Section.handsOver_entry (part : Section ι) : part.entry.handsOver = part.isHandOver := by
  cases part <;> rfl

omit [DecidableEq ι] in
theorem Section.isPushing_entry (part : Section ι) : part.entry.isPushing = false := by
  cases part <;> rfl

omit [DecidableEq ι] in
theorem Pc.of_isPushing {pc : Pc ι} (h : pc.isPushing = true) :
    pc.inside = true ∧ pc.announced = 1 := by
  cases pc with
  | pushing => exact ⟨rfl, rfl⟩
  | _ => cases h

omit [DecidableEq ι] in
theorem Pc.handsOver_of_waits {pc : Pc ι} (h : pc.waits = true) : pc.handsOver = false := by
  cases pc with
  | locking part => cases part <;> first | rfl | cases h
  | unlocking | waiting | enqueued | guarding => rfl
  | _ => cases h

omit [DecidableEq ι] in
/-- Nobody else is about to queue while a party is inside. -/
theorem Holder.isPushing_eq_false {s : State ι} (hs : Holder s) {p : ι} {pc : Pc ι}
    (hpc : s.pc p = pc) (hin : pc.inside = true) (hnot : pc.isPushing = false) (q : ι) :
    (s.pc q).isPushing = false := by
  by_contra hq
  have hpushing := (Pc.of_isPushing (Bool.not_eq_false _ ▸ hq)).1
  rcases eq_or_ne q p with rfl | hne
  · rw [hpc] at hq
    exact hq hnot
  · rw [hs.outside (hpc ▸ hin) hne] at hpushing
    cases hpushing

omit [DecidableEq ι] in
/-- Nobody waits, or is about to, when `waiterCount` is zero. -/
theorem nobody_of_waiterCount {c : Config ι} {s : State ι} (hs : Holder s) (hc : Counts c s)
    (hzero : s.waiterCount = 0) : s.waiters = [] ∧ ∀ p, (s.pc p).isPushing = false := by
  have hcount := hc.waiterCount
  refine ⟨List.length_eq_zero_iff.mp (by omega), fun p ↦ ?_⟩
  by_contra hp
  obtain ⟨hin, hone⟩ := Pc.of_isPushing (Bool.not_eq_false _ ▸ hp)
  rw [hs.ofHolder_eq rfl hin, hone] at hcount
  omega

section DekkerStep

variable {c : Config ι} {s t : State ι} {a : Action ι}

/-- A release leaves its way only when no permit is free or nobody waits. -/
theorem handsOver_kept (hs : Holder s) (hc : Counts c s) (hl : Links c s) (h : Step c s a t)
    {q : ι} (hq : (s.pc q).handsOver = true) :
    (t.pc q).handsOver = true ∨ t.permits = 0 ∨
      (t.waiters = [] ∧ ∀ p, (t.pc p).isPushing = false) := by
  have ht := holder_step hs h
  have hkeep (hview : ∀ q, (t.pc q).handsOver = (s.pc q).handsOver) := (hview q).trans hq
  cases h with
  | newWaiter => exact .inl hq
  | begin hfree hentry =>
    exact .inl (hkeep (view_update (State.view_of_isFree hfree rfl fun _ ↦ rfl)
      (State.view_of_entry hentry (fun _ _ ↦ rfl) (fun _ ↦ rfl) rfl)))
  | tryAgain hpc | refuse hpc | makeWaiter hpc | useWaiter hpc | recheckFails hpc =>
    exact .inl (hkeep (view_update (Pc.view_of_readsAt hpc rfl fun _ ↦ rfl) rfl))
  | handAgain hpc =>
    exact .inl (hkeep (view_update (Pc.view_of_readsFor hpc rfl fun _ ↦ rfl) rfl))
  | handNone _ hpermits => exact .inr (.inl hpermits)
  | handEmpty hpc hempty =>
    exact .inr (.inr ⟨hempty, ht.isPushing_eq_false (Function.update_self ..) rfl rfl⟩)
  | nobody hpc hzero =>
    obtain ⟨hempty, hpushing⟩ := nobody_of_waiterCount hs hc hzero
    have hsame := view_update (f := Pc.isPushing) (congrArg Pc.isPushing hpc)
      (rfl : (Pc.returned Result.released : Pc ι).isPushing = false)
    exact .inr (.inr ⟨hempty, fun p ↦ (hsame p).trans (hpushing p)⟩)
  | @add p hpc =>
    rcases eq_or_ne q p with rfl | hne
    · rw [hpc] at hq
      cases hq
    · exact .inl ((congrArg Pc.handsOver (Function.update_of_ne hne ..)).trans hq)
  | lock hpc =>
    exact .inl (hkeep (view_update (congrArg Pc.handsOver hpc) (Section.handsOver_entry _)))
  | unlock hpc hnext =>
    exact .inl (hkeep (view_update (congrArg Pc.handsOver hpc)
      (hnext.view rfl rfl (fun _ ↦ rfl) rfl)))
  | cancelTake hpc hlinked =>
    exact .inl (hkeep (view_update_pair (congrArg Pc.handsOver hpc) rfl
      (fun _ ↦ Pc.handsOver_of_waits (hl.linked _ hlinked)) rfl))
  | callback hpc hkind hne htarget =>
    exact .inl (hkeep (view_update_pair (congrArg Pc.handsOver htarget) rfl
      (fun _ ↦ congrArg Pc.handsOver hpc) rfl))
  | acquireFast hpc | acquireLocked hpc | refuseCancelled hpc | announce hpc | push hpc
  | subtract hpc | unlockReturn hpc | resume hpc | cancelMark hpc | somebody hpc | handMore hpc
  | takeFor hpc | pop hpc | fix hpc | notified hpc | wake hpc | unwind _ hpc | guardUnlink hpc
  | guardAwait hpc | unwound hpc =>
    exact .inl (hkeep (view_update (congrArg Pc.handsOver hpc) rfl))

theorem dekker_step (hs : Holder s) (hc : Counts c s) (hl : Links c s) (hd : Dekker s)
    (h : Step c s a t) : Dekker t := by
  intro hnone hpermits
  by_cases hold : ∃ q, (s.pc q).handsOver = true
  · obtain ⟨q, hq⟩ := hold
    rcases handsOver_kept hs hc hl h hq with hkept | hzero | hnobody
    · rw [hnone q] at hkept
      cases hkept
    · exact absurd hzero hpermits
    · exact hnobody
  · have hfree := hd (by simpa using hold)
    have hkeep (hsome : s.permits ≠ 0) (hwaiters : t.waiters = s.waiters)
        (hview : ∀ q, (t.pc q).isPushing = (s.pc q).isPushing) :
        t.waiters = [] ∧ ∀ p, (t.pc p).isPushing = false :=
      ⟨hwaiters.trans (hfree hsome).1, fun p ↦ (hview p).trans ((hfree hsome).2 p)⟩
    cases h with
    | newWaiter => exact hfree hpermits
    | begin hbegin hentry =>
      exact hkeep hpermits rfl (view_update (State.view_of_isFree hbegin rfl fun _ ↦ rfl)
        (State.view_of_entry hentry (fun _ _ ↦ rfl) (fun _ ↦ rfl) rfl))
    | tryAgain hpc =>
      exact hkeep hpermits rfl (view_update (Pc.view_of_readsAt hpc rfl fun _ ↦ rfl) rfl)
    | refuse _ hzero | makeWaiter _ hzero | useWaiter _ hzero | recheckFails _ hzero
    | handNone _ hzero => exact absurd hzero hpermits
    | acquireFast hpc hleft | acquireLocked hpc hleft =>
      exact hkeep (by omega) rfl (view_update (congrArg Pc.isPushing hpc) rfl)
    | @push p mode hpc =>
      have hnot := (hfree hpermits).2 p
      rw [hpc] at hnot
      cases hnot
    | @add p =>
      have hchecking := hnone p
      simp [Pc.handsOver] at hchecking
    | cancelTake _ hlinked | guardUnlink _ hlinked =>
      rw [(hfree hpermits).1] at hlinked
      cases hlinked
    | handAgain hpc =>
      exact absurd ⟨_, Pc.view_of_readsFor hpc rfl fun _ ↦ rfl⟩ hold
    | nobody hpc | somebody hpc | handEmpty hpc | handMore hpc | takeFor hpc | pop hpc
    | fix hpc => exact absurd ⟨_, congrArg Pc.handsOver hpc⟩ hold
    | lock hpc =>
      exact hkeep hpermits rfl
        (view_update (congrArg Pc.isPushing hpc) (Section.isPushing_entry _))
    | unlock hpc hnext =>
      exact hkeep hpermits rfl (view_update (congrArg Pc.isPushing hpc)
        (hnext.view rfl rfl (fun _ ↦ rfl) rfl))
    | callback hpc hkind hne htarget =>
      exact hkeep hpermits rfl (view_update_pair (congrArg Pc.isPushing htarget) rfl
        (fun _ ↦ congrArg Pc.isPushing hpc) rfl)
    | refuseCancelled hpc | announce hpc | subtract hpc | unlockReturn hpc | resume hpc
    | cancelMark hpc | notified hpc | wake hpc | unwind _ hpc | guardAwait hpc | unwound hpc =>
      exact hkeep hpermits rfl (view_update (congrArg Pc.isPushing hpc) rfl)

end DekkerStep

end Stackfull.Sync.Semaphore
