import Stackfull.Sync.WaitGroup
import Stackfull.Lib.Detached
import Mathlib.Data.Fintype.Basic

/-!
# When a wait for zero returns

`done` brings the count to zero first and takes the waiters off the list later. A waiter that queues
itself in between belongs to another round, and is let go all the same (`wait_returns_early`);
without such a step, every wait that ends has seen zero (`waits_for_zero`).

`Sound` ties the list of waiters and the chains of the `done` calls to the parties, and every step
keeps it. `Fair` says that whoever is let go has seen zero, `Covered` that a `done` comes for those
who wait while the count is zero.
-/

set_option autoImplicit false
set_option relaxedAutoImplicit false
set_option linter.dupNamespace false

namespace Stackfull.Sync.WaitGroup

open Stackfull.Lib

universe u

variable {ι : Type u} [DecidableEq ι] {kind : ι → Kind} {s t : State ι}

/-! ### What the points of a call say -/

/-- The party has the lock. -/
def Pc.inside : Pc ι → Bool
  | .loading (.recheck _) | .pushing _ | .popping _ | .cancelling _ | .guarding
  | .unlocking _ => true
  | _ => false

/-- The waiter of the party is in use, on the list or taken off it. -/
def Pc.waits : Pc ι → Bool
  | .unlocking .waiting | .unlocking .enqueued | .unlocking .awaitingNotifier | .waiting | .enqueued
  | .locking .guard | .guarding | .awaitingNotifier => true
  | _ => false

/-- The party is going to queue its waiter, unless it finds zero. -/
def Pc.prepares : Pc ι → Bool
  | .locking (.enqueue _) | .loading (.recheck _) | .pushing _ => true
  | _ => false

/-- The waiters a `done` took off the list and has not notified yet. -/
def Pc.chain : Pc ι → List ι
  | .popping chain | .unlocking (.notifying chain) | .notifying chain => chain
  | _ => []

/-- A `done` that has brought the count to zero and has not taken everybody off the list. -/
def Pc.releases : Pc ι → Bool
  | .locking .release | .popping _ => true
  | _ => false

/-- The party has seen a count other than zero under the lock. -/
def Pc.pushes : Pc ι → Bool
  | .pushing _ => true
  | _ => false

/-- The party has begun to queue an operation. -/
def Pc.isAsync : Pc ι → Bool
  | .loading (.fast .waitOrEnqueue) => true
  | _ => false

/-- The lock, the list, the chains and the parties belong together. -/
structure Sound (kind : ι → Kind) (s : State ι) : Prop where
  lock : ∀ p, (s.pc p).inside = true ↔ s.lock = some p
  apart : Apart s.waiters (Pc.chain ∘ s.pc)
  queued : ∀ w ∈ s.waiters, (s.pc w).waits = true ∧ s.satisfied w = false
  chained : ∀ p, ∀ w ∈ (s.pc p).chain, (s.pc w).waits = true ∧ s.satisfied w = false
  fresh : ∀ p, (s.pc p).prepares = true → s.satisfied p = false
  plain : ∀ p, kind p = .callback → s.satisfied p = false
  async : ∀ p, (s.pc p).isAsync = true → kind p = .callback

omit [DecidableEq ι] in
theorem sound_initial (pending : ℕ) : Sound kind (initial ι pending) where
  lock p := ⟨nofun, nofun⟩
  apart := Apart.nil fun _ ↦ rfl
  queued w hw := nomatch hw
  chained p w hw := nomatch hw
  fresh p _ := rfl
  plain p _ := rfl
  async p h := nomatch h

/-- A point that stands for the same lock, chain and waiter as the one before it. -/
structure Pc.Continues (old new : Pc ι) : Prop where
  inside : new.inside = old.inside
  chain : new.chain = old.chain
  waits : old.waits = true → new.waits = true
  prepares : new.prepares = true → old.prepares = true
  async : new.isAsync = false

omit [DecidableEq ι] in
/-- A waiter in use has been pushed. -/
theorem Pc.not_prepares_of_waits {pc : Pc ι} (h : pc.waits = true) :
    pc.prepares = false ∧ pc.isAsync = false ∧ pc.chain = [] := by
  revert h
  fun_cases Pc.waits pc <;> rintro ⟨⟩ <;> exact ⟨rfl, rfl, rfl⟩

attribute [local grind] Pc.inside Pc.waits Pc.prepares Pc.chain Pc.isAsync

/-- Who stands at which point after one party has moved. -/
theorem at_update {p : ι} {pc : Pc ι} (hpc : t.pc = Function.update s.pc p pc) (q : ι) :
    t.pc q = if q = p then pc else s.pc q := by
  rw [hpc, Function.update_apply]

/-- A party moves on without the lock, the list, the chains or a waiter being touched. -/
theorem Sound.goto (hs : Sound kind s) {p : ι} {pc : Pc ι} (hpc : t.pc = Function.update s.pc p pc)
    (hlock : t.lock = s.lock) (hwaiters : t.waiters = s.waiters)
    (hsatisfied : t.satisfied = s.satisfied)
    (hcontinues : (s.pc p).Continues pc) : Sound kind t := by
  have hat := at_update hpc
  have happart := hs.apart
  obtain ⟨h1, h2, h3, h4, h5, h6, h7⟩ := hs
  obtain ⟨hinside, hchain, hwaits, hprepares, hasync⟩ := hcontinues
  refine ⟨?_, ?_, ?_, fun q w hw ↦ ?_, ?_, ?_, ?_⟩
  case refine_2 =>
    rw [hwaiters, hpc, Function.comp_update]
    exact happart.keep hchain
  case refine_4 =>
    have hmem : w ∈ (s.pc q).chain := by grind -linarith
    grind -linarith
  all_goals grind -linarith

omit [DecidableEq ι] in
/-- A party that goes for the lock has a waiter that nobody has notified. -/
theorem Sound.unsatisfied (hs : Sound kind s) {p : ι} {mode : Mode}
    (hpc : s.pc p = .loading (.fast mode)) : (decide (mode ≠ .wait) && s.satisfied p) = false := by
  cases mode with
  | wait => rfl
  | waitOrEnqueue => exact hs.plain p (hs.async p (by rw [hpc]; rfl))

theorem sound_load (hs : Sound kind s) {p : ι} {site : Site} (hpc : s.pc p = .loading site) :
    Sound kind (s.load p site) := by
  cases site with
  | ready => exact hs.goto rfl rfl rfl rfl (hpc ▸ ⟨rfl, rfl, id, id, rfl⟩)
  | fast mode =>
    simp only [State.load]
    split_ifs with hzero
    · exact hs.goto rfl rfl rfl rfl (hpc ▸ ⟨rfl, rfl, id, nofun, rfl⟩)
    · rw [hs.unsatisfied hpc]
      have hchain := (hs.apart.keep (p := p) (l := (Pc.locking (.enqueue mode)).chain)
        (by simp [hpc, Pc.chain]))
      obtain ⟨h1, h2, h3, h4, h5, h6, h7⟩ := hs
      refine ⟨?_, ?_, ?_, fun q w hw ↦ ?_, ?_, ?_, ?_⟩ <;> dsimp only [State.setPc] at *
      case refine_2 =>
        rw [Function.comp_update]
        exact hchain
      all_goals grind -linarith
  | recheck mode =>
    simp only [State.load]
    split_ifs with hcancelled hzero
    · exact hs.goto rfl rfl rfl rfl (hpc ▸ ⟨rfl, rfl, nofun, nofun, rfl⟩)
    · exact hs.goto rfl rfl rfl rfl (hpc ▸ ⟨rfl, rfl, nofun, nofun, rfl⟩)
    · exact hs.goto rfl rfl rfl rfl (hpc ▸ ⟨rfl, rfl, nofun, id, rfl⟩)

/-- A party that takes or gives back the lock. -/
theorem Sound.lockStep (hs : Sound kind s) {p : ι} {pc : Pc ι}
    (hpc : t.pc = Function.update s.pc p pc)
    (hlock : (s.lock = none ∧ pc.inside = true ∧ t.lock = some p) ∨
      (s.lock = some p ∧ pc.inside = false ∧ t.lock = none))
    (hwaiters : t.waiters = s.waiters) (hsatisfied : t.satisfied = s.satisfied)
    (hchain : pc.chain = (s.pc p).chain) (hwaits : (s.pc p).waits = true → pc.waits = true)
    (hprepares : pc.prepares = true → (s.pc p).prepares = true) (hasync : pc.isAsync = false) :
    Sound kind t := by
  have hat := at_update hpc
  have happart := hs.apart
  obtain ⟨h1, h2, h3, h4, h5, h6, h7⟩ := hs
  refine ⟨?_, ?_, ?_, fun q w hw ↦ ?_, ?_, ?_, ?_⟩
  case refine_2 =>
    rw [hwaiters, hpc, Function.comp_update]
    exact happart.keep hchain
  case refine_4 =>
    have hmem : w ∈ (s.pc q).chain := by grind -linarith
    grind -linarith
  all_goals grind -linarith

theorem sound_locking (hs : Sound kind s) {p : ι} {part : Section ι} (hpc : s.pc p = .locking part)
    (hfree : s.lock = none) : Sound kind { s.setPc p part.entry with lock := some p } := by
  cases part with
  | _ =>
    exact hs.lockStep rfl (Or.inl ⟨hfree, rfl, rfl⟩) rfl rfl (by rw [hpc]; rfl)
      (by rw [hpc]; exact id)
      (by rw [hpc]; exact id) rfl

theorem sound_unlock (hs : Sound kind s) {p : ι} {after : After ι} (hpc : s.pc p = .unlocking after)
    :
    Sound kind (s.unlock p after) := by
  have hheld : s.lock = some p := (hs.lock p).mp (by rw [hpc]; rfl)
  cases after with
  | _ =>
    exact hs.lockStep rfl (Or.inr ⟨hheld, rfl, rfl⟩) rfl rfl (by rw [hpc]; rfl)
      (by rw [hpc]; exact id)
      (by rw [hpc]; exact id) rfl

omit [DecidableEq ι] in
/-- A party that has not queued stands nowhere. -/
theorem Sound.not_linked (hs : Sound kind s) {p : ι} (hpc : (s.pc p).waits = false) :
    p ∉ s.waiters ∧ ∀ q, p ∉ (s.pc q).chain := by
  refine ⟨fun hmem ↦ ?_, fun q hmem ↦ ?_⟩
  · exact absurd (hs.queued p hmem).1 (by rw [hpc]; decide)
  · exact absurd (hs.chained q p hmem).1 (by rw [hpc]; decide)

theorem sound_push (hs : Sound kind s) {p : ι} {mode : Mode} (hpc : s.pc p = .pushing mode) :
    Sound kind (s.push p mode) := by
  obtain ⟨hqueue, hchain⟩ := hs.not_linked (p := p) (by rw [hpc]; rfl)
  have hnil : (if mode = .wait then After.waiting else After.enqueued : After ι) = .waiting ∨
      (if mode = .wait then After.waiting else After.enqueued : After ι) = .enqueued := by
    split_ifs <;> simp
  have happart := (hs.apart.push hqueue hchain).keep (p := p) (l := [])
    (by simp [hpc, Pc.chain])
  obtain ⟨h1, h2, h3, h4, h5, h6, h7⟩ := hs
  rcases hnil with h | h <;>
    refine ⟨?_, ?_, ?_, ?_, ?_, ?_, ?_⟩ <;>
    simp only [State.push, State.setPc, h, WaitList.pushBack, Function.comp_update] at *
  case inl.refine_2 => exact happart
  case inr.refine_2 => exact happart
  all_goals grind -linarith

theorem sound_popping (hs : Sound kind s) {p : ι} {chain : List ι} (hpc : s.pc p = .popping chain) :
    Sound kind (s.stepPopping p chain) := by
  unfold State.stepPopping
  cases hwaiters : s.waiters with
  | nil => exact hs.goto rfl rfl rfl rfl (hpc ▸ ⟨rfl, rfl, nofun, nofun, rfl⟩)
  | cons w rest =>
    have hchain : (Pc.chain ∘ s.pc) p = chain := by simp [hpc, Pc.chain]
    have happart : Apart rest (Function.update (Pc.chain ∘ s.pc) p (w :: chain)) :=
      hchain ▸ (hwaiters ▸ hs.apart).pop (p := p)
    obtain ⟨h1, h2, h3, h4, h5, h6, h7⟩ := hs
    refine ⟨?_, ?_, ?_, fun q v hv ↦ ?_, ?_, ?_, ?_⟩ <;>
      simp only [State.setPc, Function.comp_update] at *
    case refine_2 => exact happart
    all_goals grind -linarith

/-- Somebody leaves the list for another reason than a `done`. -/
theorem Sound.unlink (hs : Sound kind s) {w : ι} (hw : w ∈ s.waiters) {pc : Pc ι}
    (hpc : t.pc = Function.update s.pc w pc) (hlock : t.lock = s.lock)
    (hwaiters : t.waiters = s.waiters.unlink w) (hsatisfied : t.satisfied = s.satisfied)
    (hinside : pc.inside = (s.pc w).inside) (hchain : pc.chain = (s.pc w).chain)
    (hprepares : pc.prepares = false) (hasync : pc.isAsync = false) : Sound kind t := by
  have hat := at_update hpc
  have happart := hs.apart.erase w
  have hchains : ∀ q, w ∉ (s.pc q).chain := hs.apart.off_queue hw
  have herase : ∀ v, v ∈ s.waiters.erase w → v ∈ s.waiters ∧ v ≠ w := fun v hv ↦
    ((hs.apart.nodup.mem_erase_iff).mp hv).symm
  obtain ⟨h1, h2, h3, h4, h5, h6, h7⟩ := hs
  rw [WaitList.unlink] at hwaiters
  refine ⟨?_, ?_, ?_, fun q v hv ↦ ?_, ?_, ?_, ?_⟩
  case refine_2 =>
    rw [hwaiters, hpc, Function.comp_update]
    exact happart.keep hchain
  case refine_4 =>
    have hmem : v ∈ (s.pc q).chain := by grind -linarith
    have hne : v ≠ w := fun heq ↦ hchains q (heq ▸ hmem)
    grind -linarith
  all_goals grind -linarith

theorem sound_guarding (hs : Sound kind s) {p : ι} (hpc : s.pc p = .guarding) :
    Sound kind (s.stepGuarding p) := by
  unfold State.stepGuarding
  split_ifs with hmem
  · exact hs.unlink hmem rfl rfl rfl rfl (by rw [hpc]; rfl) (by rw [hpc]; rfl) rfl rfl
  · exact hs.goto rfl rfl rfl rfl (hpc ▸ ⟨rfl, rfl, id, nofun, rfl⟩)

theorem sound_cancelling (hs : Sound kind s) {p target : ι} (hpc : s.pc p = .cancelling target) :
    Sound kind (s.stepCancelling p target) := by
  unfold State.stepCancelling
  split_ifs with hmem
  · have hne : target ≠ p := fun heq ↦ by
      have := (hs.queued target hmem).1
      simp [heq, hpc, Pc.waits] at this
    have hout : (s.pc target).inside = false := by
      by_contra hin
      have hlock := (hs.lock target).mp (by simpa using hin)
      have hlock' := (hs.lock p).mp (by rw [hpc]; rfl)
      exact hne (Option.some.inj (hlock.symm.trans hlock'))
    have hchain : (s.pc target).chain = [] := by
      have := (hs.queued target hmem).1
      generalize s.pc target = pc at this
      revert this
      fun_cases Pc.waits pc <;> simp [Pc.chain]
    have htaken : Sound kind ({ s with waiters := s.waiters.unlink target }.finish target .stopped)
      :=
      hs.unlink hmem rfl rfl rfl rfl (by rw [hout]; rfl) (by rw [hchain]; rfl) rfl rfl
    refine htaken.goto rfl rfl rfl rfl ?_
    rw [State.finish_pc, Function.update_of_ne hne.symm]
    exact hpc ▸ ⟨rfl, rfl, nofun, nofun, rfl⟩
  · exact hs.goto rfl rfl rfl rfl (hpc ▸ ⟨rfl, rfl, nofun, nofun, rfl⟩)

/-- A party whose waiter stands nowhere. -/
theorem Sound.loose (hs : Sound kind s) {w : ι} {pc : Pc ι} {b : Bool}
    (hlinked : w ∉ s.waiters ∧ ∀ q, w ∉ (s.pc q).chain) (hpc : t.pc = Function.update s.pc w pc)
    (hsatisfied : t.satisfied = Function.update s.satisfied w b) (hlock : t.lock = s.lock)
    (hwaiters : t.waiters = s.waiters) (hinside : pc.inside = (s.pc w).inside)
    (hchain : pc.chain = (s.pc w).chain) (hprepares : pc.prepares = true → b = false)
    (hplain : kind w = .callback → b = false) (hasync : pc.isAsync = true → kind w = .callback) :
    Sound kind t := by
  have hat := at_update hpc
  have hsat : ∀ q, t.satisfied q = if q = w then b else s.satisfied q := fun q ↦ by
    rw [hsatisfied, Function.update_apply]
  have happart := hs.apart
  obtain ⟨hqueue, hchains⟩ := hlinked
  obtain ⟨h1, h2, h3, h4, h5, h6, h7⟩ := hs
  refine ⟨?_, ?_, ?_, fun q v hv ↦ ?_, ?_, ?_, ?_⟩
  case refine_2 =>
    rw [hwaiters, hpc, Function.comp_update]
    exact happart.keep hchain
  case refine_4 =>
    have hmem : v ∈ (s.pc q).chain := by grind -linarith
    have hne : v ≠ w := fun heq ↦ hchains q (heq ▸ hmem)
    grind -linarith
  all_goals grind -linarith

/-- A `done` lets go of the first of its chain. -/
theorem Sound.drop (hs : Sound kind s) {p w : ι} {rest : List ι}
    (hpc : s.pc p = .notifying (w :: rest)) :
    Sound kind (s.setPc p (.notifying rest)) ∧ w ≠ p ∧ w ∉ s.waiters ∧
      ∀ q, w ∉ ((s.setPc p (.notifying rest)).pc q).chain := by
  have hchain : (Pc.chain ∘ s.pc) p = w :: rest := by simp [hpc, Pc.chain]
  have hmem : w ∈ (s.pc p).chain := by simp [hpc, Pc.chain]
  have happart : Apart s.waiters (Function.update (Pc.chain ∘ s.pc) p rest) := hs.apart.take hchain
  have hgone := hs.apart.gone hchain
  have hoff := hs.apart.off p w hmem
  have hne : w ≠ p := fun heq ↦ by
    have hwaits := (hs.chained p w hmem).1
    simp [heq, hpc, Pc.waits] at hwaits
  refine ⟨?_, hne, hoff, fun q ↦ ?_⟩
  · obtain ⟨h1, h2, h3, h4, h5, h6, h7⟩ := hs
    refine ⟨?_, ?_, ?_, fun q v hv ↦ ?_, ?_, ?_, ?_⟩ <;>
      simp only [State.setPc, Function.comp_update] at *
    case refine_2 => exact happart
    all_goals grind -linarith
  · have := hgone q
    rw [State.setPc_pc]
    rcases eq_or_ne q p with rfl | hq
    · rwa [Function.update_self] at this ⊢
    · rwa [Function.update_of_ne hq] at this ⊢

theorem sound_notify (hs : Sound kind s) {p w : ι} {rest : List ι}
    (hpc : s.pc p = .notifying (w :: rest))
    (h : (s.setPc p (.notifying rest)).notify kind w = some t) : Sound kind t := by
  obtain ⟨hdrop, hne, hloose⟩ := hs.drop hpc
  unfold State.notify at h
  split at h
  case h_1 hcallback =>
    split at h
    · rename_i henqueued
      cases h
      exact hdrop.loose hloose rfl (Function.update_eq_self _ _).symm rfl rfl
        (by rw [henqueued]; rfl) (by rw [henqueued]; rfl) nofun (hdrop.plain w) nofun
    · cases h
  case h_2 hcallback =>
    cases h
    have hwaits : (s.pc w).waits = true := (hs.chained p w (by simp [hpc, Pc.chain])).1
    obtain ⟨hprepares, hasync, -⟩ := Pc.not_prepares_of_waits hwaits
    have hpcw : (s.setPc p (.notifying rest)).pc w = s.pc w := Function.update_of_ne hne _ _
    refine hdrop.loose hloose (Function.update_eq_self _ _).symm rfl rfl rfl rfl rfl ?_
      (fun h ↦ absurd h hcallback) ?_
    · rw [hpcw, hprepares]
      exact nofun
    · rw [hpcw, hasync]
      exact nofun

/-- A party that has been notified stands nowhere, and may end its call. -/
theorem sound_leave (hs : Sound kind s) {p : ι} {result : Result}
    (hpc : s.pc p = .waiting ∨ s.pc p = .awaitingNotifier) (hsatisfied : s.satisfied p = true) :
    Sound kind (s.finish p result) := by
  have hloose : p ∉ s.waiters ∧ ∀ q, p ∉ (s.pc q).chain := by
    refine ⟨fun hmem ↦ ?_, fun q hmem ↦ ?_⟩
    · exact absurd ((hs.queued p hmem).2.symm.trans hsatisfied) (by decide)
    · exact absurd ((hs.chained q p hmem).2.symm.trans hsatisfied) (by decide)
  refine hs.loose hloose rfl (Function.update_eq_self _ _).symm rfl rfl ?_ ?_ nofun (hs.plain p)
    nofun
  · rcases hpc with hpc | hpc <;> rw [hpc] <;> rfl
  · rcases hpc with hpc | hpc <;> rw [hpc] <;> rfl

theorem sound_act (hs : Sound kind s) {p : ι} (h : s.act kind p = some t) : Sound kind t := by
  unfold State.act at h
  split at h
  case h_1 => cases h
  case h_2 site hpc => exact Option.some.inj h ▸ sound_load hs hpc
  case h_3 part hpc =>
    split_ifs at h with hfree
    exact Option.some.inj h ▸ sound_locking hs hpc hfree
  case h_4 mode hpc => exact Option.some.inj h ▸ sound_push hs hpc
  case h_5 chain hpc => exact Option.some.inj h ▸ sound_popping hs hpc
  case h_6 target hpc => exact Option.some.inj h ▸ sound_cancelling hs hpc
  case h_7 hpc => exact Option.some.inj h ▸ sound_guarding hs hpc
  case h_8 after hpc => exact Option.some.inj h ▸ sound_unlock hs hpc
  case h_9 hpc =>
    split_ifs at h with hsatisfied
    exact Option.some.inj h ▸ sound_leave hs (Or.inl hpc) hsatisfied
  case h_10 => cases h
  case h_11 count hpc =>
    cases h
    exact hs.goto rfl rfl rfl rfl (hpc ▸ ⟨rfl, rfl, nofun, nofun, rfl⟩)
  case h_12 hpc =>
    split at h <;> cases h
    · exact hs.goto rfl rfl rfl rfl (hpc ▸ ⟨rfl, rfl, nofun, nofun, rfl⟩)
    · exact hs.goto rfl rfl rfl rfl (hpc ▸ ⟨rfl, rfl, nofun, nofun, rfl⟩)
  case h_13 hpc =>
    cases h
    exact hs.goto rfl rfl rfl rfl (hpc ▸ ⟨rfl, rfl, nofun, nofun, rfl⟩)
  case h_14 w rest hpc => exact sound_notify hs hpc h
  case h_15 hpc =>
    split_ifs at h with hsatisfied
    exact Option.some.inj h ▸ sound_leave hs (Or.inr hpc) hsatisfied
  case h_16 => cases h

omit [DecidableEq ι] in
/-- A party between two calls has no lock, no chain and no waiter in use. -/
theorem State.of_isFree {p : ι} (h : s.isFree p = true) :
    (s.pc p).inside = false ∧ (s.pc p).chain = [] ∧ (s.pc p).waits = false := by
  cases hpc : s.pc p <;> simp_all [State.isFree, Pc.inside, Pc.chain, Pc.waits]

/-- Nor has one at the beginning of a call, and it queues an operation only if it is one. -/
theorem State.of_entry {p : ι} {call : Call ι} {pc : Pc ι}
    (h : State.entry kind p call = some pc) :
    pc.inside = false ∧ pc.chain = [] ∧ pc.prepares = false ∧
      (pc.isAsync = true → kind p = .callback) := by
  cases call <;> simp only [State.entry, Option.some.injEq, Option.ite_none_left_eq_some,
    Option.ite_none_right_eq_some] at h <;> grind -linarith

theorem sound_begin (hs : Sound kind s) {p : ι} {call : Call ι}
    (h : s.begin kind p call = some t) : Sound kind t := by
  unfold State.begin at h
  split_ifs at h with hfree
  obtain ⟨pc, hentry, rfl⟩ := Option.map_eq_some_iff.mp h
  obtain ⟨hinside, hchain, hwaits⟩ := State.of_isFree hfree
  obtain ⟨hinside', hchain', hprepares, hasync⟩ := State.of_entry hentry
  exact hs.loose (hs.not_linked hwaits) rfl (Function.update_eq_self _ _).symm rfl rfl
    (hinside'.trans hinside.symm) (hchain'.trans hchain.symm) (by rw [hprepares]; nofun)
      (hs.plain p)
    hasync

/-- Every step keeps the lock, the list, the chains and the parties together. -/
theorem sound_move {a : Action ι} (hs : Sound kind s) (h : s.move kind a = some t) :
    Sound kind t := by
  cases a with
  | newWaiter p =>
    simp only [State.move] at h
    split_ifs at h
    exact Option.some.inj h ▸ ⟨hs.lock, hs.apart, hs.queued, hs.chained, hs.fresh, hs.plain,
      hs.async⟩
  | call p call => exact sound_begin hs h
  | act p => exact sound_act hs h
  | forcedUnwind p =>
    simp only [State.move, State.forcedUnwind] at h
    split at h
    · rename_i hpc
      cases h
      exact hs.goto rfl rfl rfl rfl (hpc ▸ ⟨rfl, rfl, id, nofun, rfl⟩)
    · cases h

theorem sound_step {a : Action ι} (hs : Sound kind s) (h : s.step kind a = some t) :
    Sound kind t := by
  obtain ⟨mid, hmove, rfl⟩ := Option.map_eq_some_iff.mp h
  have hmid := sound_move hs hmove
  exact ⟨hmid.lock, hmid.apart, hmid.queued, hmid.chained, hmid.fresh, hmid.plain, hmid.async⟩

/-! ### Who has been let go, and why -/

/-- What the party is about to add. -/
def Pc.added : Pc ι → Option ℕ
  | .adding count => some count
  | _ => none

/-- The condition on a step. A party queues itself only if it has seen zero since its call began or
if no `done` is between its decrement to zero and the end of its loop under the lock; and no `add`
brings a count to zero by wrapping around. -/
def InTime (s : State ι) : Action ι → Prop
  | .act p =>
    ((s.pc p).pushes = true → s.sawZero p = true ∨ ∀ q, (s.pc q).releases = false) ∧
      ∀ count ∈ (s.pc p).added, (s.pending + count) % countModulus = 0 → s.pending = 0
  | _ => True

instance [Fintype ι] (s : State ι) : (a : Action ι) → Decidable (InTime s a)
  | .act _ => inferInstanceAs (Decidable (_ ∧ _))
  | .newWaiter _ => isTrue trivial
  | .call _ _ => isTrue trivial
  | .forcedUnwind _ => isTrue trivial

/-- A task or a thread in `Waiter::wait`, or about to enter it. -/
def Pc.sleeps : Pc ι → Bool
  | .unlocking .waiting | .waiting => true
  | _ => false

/-- Whoever is let go has seen zero. -/
structure Fair (saw : ι → Prop) (s : State ι) : Prop where
  told : ∀ p, ∀ w ∈ (s.pc p).chain, saw w
  woken : ∀ w, s.satisfied w = true → (s.pc w).sleeps = true → saw w
  due : ∀ p, (s.pc p).releases = true → ∀ w ∈ s.waiters, saw w
  seen : ∀ p, s.pc p = .unlocking (.returned .completed) → saw p
  returns : ∀ r ∈ s.returns, r.2.1 = .completed → r.2.2 = true

/-- While the count is zero, somebody comes for those who wait. -/
def Covered (s : State ι) : Prop :=
  s.pending = 0 → (s.waiters ≠ [] ∨ ∃ p, (s.pc p).pushes = true) → ∃ p, (s.pc p).releases = true

attribute [local grind] Pc.releases Pc.pushes Pc.sleeps

/-- A party moves on and nobody is queued or taken. -/
theorem Fair.goto {saw : ι → Prop} (hf : Fair saw s) {p : ι} {pc : Pc ι}
    (hpc : t.pc = Function.update s.pc p pc) (hwaiters : ∀ w ∈ t.waiters, w ∈ s.waiters)
    (hsatisfied : ∀ w, t.satisfied w = true → s.satisfied w = true)
    (hreturns : ∀ r ∈ t.returns, r ∈ s.returns ∨ (r.2.1 = .completed → r.2.2 = true))
    (hchain : ∀ w ∈ pc.chain, saw w) (hreleases : pc.releases = true → (s.pc p).releases = true)
    (hwoken : pc.sleeps = true → s.satisfied p = true → saw p)
    (hseen : pc = .unlocking (.returned .completed) → saw p) : Fair saw t := by
  have hat := at_update hpc
  obtain ⟨h1, h2, h3, h4, h5⟩ := hf
  refine ⟨fun q w hw ↦ ?_, ?_, fun q hq ↦ ?_, ?_, fun r hr hcompleted ↦ ?_⟩
  · rw [hat q] at hw
    split_ifs at hw
    · exact hchain w hw
    · exact h1 q w hw
  · grind -linarith
  · have hold : (s.pc q).releases = true := by grind -linarith
    exact fun w hw ↦ h3 q hold w (hwaiters w hw)
  · grind -linarith
  · exact (hreturns r hr).elim (fun h ↦ h5 r h hcompleted) fun h ↦ h hcompleted

theorem Covered.goto (hc : Covered s) {p : ι} {pc : Pc ι} (hpc : t.pc = Function.update s.pc p pc)
    (hpending : t.pending = 0 → s.pending = 0)
    (hwaiters : t.waiters ≠ [] → s.waiters ≠ [] ∨ (s.pc p).pushes = true)
    (hpushes : pc.pushes = true → (s.pc p).pushes = true ∨ s.pending ≠ 0)
    (hreleases : (s.pc p).releases = true → pc.releases = true) : Covered t := by
  have hat := at_update hpc
  intro hzero hwaits
  have hbefore : s.waiters ≠ [] ∨ ∃ q, (s.pc q).pushes = true := by
    rcases hwaits with hwaits | ⟨q, hq⟩
    · exact (hwaiters hwaits).imp_right fun h ↦ ⟨p, h⟩
    · refine Or.inr ⟨q, ?_⟩
      grind -linarith
  obtain ⟨q, hq⟩ := hc (hpending hzero) hbefore
  refine ⟨q, ?_⟩
  grind -linarith

omit [DecidableEq ι] in
/-- A waiter in use does not belong to a `done`. -/
theorem Pc.not_releases_of_waits {pc : Pc ι} (h : pc.waits = true) : pc.releases = false := by
  revert h
  fun_cases Pc.waits pc <;> simp [Pc.releases]

omit [DecidableEq ι] in
/-- A party about to push has the lock. -/
theorem Pc.inside_of_pushes {pc : Pc ι} (h : pc.pushes = true) : pc.inside = true := by
  revert h
  fun_cases Pc.pushes pc <;> simp [Pc.inside]

theorem covered_load (hc : Covered s) {p : ι} {site : Site} (hpc : s.pc p = .loading site) :
    Covered (s.load p site) := by
  have hreleases : ∀ b, (s.pc p).releases = true → b = true := by
    rw [hpc]
    nofun
  cases site with
  | ready => exact hc.goto rfl id Or.inl nofun (hreleases _)
  | fast mode =>
    simp only [State.load]
    split_ifs with hzero
    · exact hc.goto rfl id Or.inl nofun (hreleases _)
    · exact hc.goto rfl id Or.inl nofun (hreleases _)
  | recheck mode =>
    simp only [State.load]
    split_ifs with hcancelled hzero
    · exact hc.goto rfl id Or.inl nofun (hreleases _)
    · exact hc.goto rfl id Or.inl nofun (hreleases _)
    · exact hc.goto rfl id Or.inl (fun _ ↦ Or.inr hzero) (hreleases _)

theorem covered_popping (hs : Sound kind s) (hc : Covered s) {p : ι} {chain : List ι}
    (hpc : s.pc p = .popping chain) : Covered (s.stepPopping p chain) := by
  unfold State.stepPopping
  cases hwaiters : s.waiters with
  | nil =>
    -- Nobody is about to queue: that takes the lock.
    have hlock : s.lock = some p := (hs.lock p).mp (by rw [hpc]; rfl)
    rintro - (hwaits | ⟨q, hq⟩)
    · exact absurd hwaiters hwaits
    · rw [State.setPc_pc] at hq
      rcases eq_or_ne q p with rfl | hne
      · rw [Function.update_self] at hq
        cases hq
      · rw [Function.update_of_ne hne] at hq
        have hinside : (s.pc q).inside = true := Pc.inside_of_pushes hq
        exact absurd (Option.some.inj (((hs.lock q).mp hinside).symm.trans hlock)) hne
  | cons w rest => exact hc.goto rfl id (fun _ ↦ Or.inl (by simp [hwaiters])) nofun (fun _ ↦ rfl)

theorem covered_notify (hc : Covered s) {p w : ι} {rest : List ι}
    (hpc : s.pc p = .notifying (w :: rest))
    (h : (s.setPc p (.notifying rest)).notify kind w = some t) : Covered t := by
  have hdrop : Covered (s.setPc p (.notifying rest)) :=
    hc.goto rfl id Or.inl nofun (by rw [hpc]; nofun)
  unfold State.notify at h
  split at h
  · split at h
    · rename_i henqueued
      cases h
      exact hdrop.goto rfl id Or.inl nofun (by rw [henqueued]; nofun)
    · cases h
  · cases h
    exact hdrop

theorem covered_act (hs : Sound kind s) (hc : Covered s) {p : ι} (hin : InTime s (.act p))
    (h : s.act kind p = some t) : Covered t := by
  unfold State.act at h
  split at h
  case h_1 => cases h
  case h_2 site hpc => exact Option.some.inj h ▸ covered_load hc hpc
  case h_3 part hpc =>
    split_ifs at h
    cases h
    refine hc.goto rfl id Or.inl ?_ ?_
    · cases part <;> nofun
    · rw [hpc]
      cases part <;> exact id
  case h_4 mode hpc =>
    cases h
    exact hc.goto rfl id (fun _ ↦ Or.inr (by rw [hpc]; rfl)) nofun (by rw [hpc]; nofun)
  case h_5 chain hpc => exact Option.some.inj h ▸ covered_popping hs hc hpc
  case h_6 target hpc =>
    cases h
    unfold State.stepCancelling
    have hreleases : ∀ b, (s.pc p).releases = true → b = true := by
      rw [hpc]
      nofun
    split_ifs with hmem
    · have hne : p ≠ target := fun heq ↦ by
        have := (hs.queued target hmem).1
        simp [← heq, hpc, Pc.waits] at this
      have hwaits : (s.pc target).releases = false :=
        Pc.not_releases_of_waits (hs.queued target hmem).1
      have htaken : Covered ({ s with waiters := s.waiters.unlink target }.finish target .stopped)
        :=
        hc.goto rfl id (fun _ ↦ Or.inl (List.ne_nil_of_mem hmem)) nofun (by rw [hwaits]; nofun)
      exact htaken.goto rfl id Or.inl nofun (by
        rw [State.finish_pc, Function.update_of_ne hne]
        exact hreleases _)
    · exact hc.goto rfl id Or.inl nofun (hreleases _)
  case h_7 hpc =>
    cases h
    unfold State.stepGuarding
    split_ifs with hmem
    · exact hc.goto rfl id (fun _ ↦ Or.inl (List.ne_nil_of_mem hmem)) nofun (by rw [hpc]; nofun)
    · exact hc.goto rfl id Or.inl nofun (by rw [hpc]; nofun)
  case h_8 after hpc =>
    cases h
    cases after <;> exact hc.goto rfl id Or.inl nofun (by rw [hpc]; nofun)
  case h_9 hpc =>
    split_ifs at h
    cases h
    exact hc.goto rfl id Or.inl nofun (by rw [hpc]; nofun)
  case h_10 => cases h
  case h_11 count hpc =>
    cases h
    exact hc.goto rfl (hin.2 count (by rw [hpc]; rfl)) Or.inl nofun (by rw [hpc]; nofun)
  case h_12 hpc =>
    split at h <;> cases h
    · exact fun _ _ ↦ ⟨p, by rw [State.setPc_pc, Function.update_self]; rfl⟩
    · exact fun hzero ↦ absurd hzero (Nat.succ_ne_zero _)
  case h_13 hpc =>
    cases h
    exact hc.goto rfl id Or.inl nofun (by rw [hpc]; nofun)
  case h_14 w rest hpc => exact covered_notify hc hpc h
  case h_15 hpc =>
    split_ifs at h
    cases h
    exact hc.goto rfl id Or.inl nofun (by rw [hpc]; nofun)
  case h_16 => cases h

/-- In every run whose steps are in time, the count is not zero while somebody waits, unless a
`done` is coming for them. -/
theorem covered_step {a : Action ι} (hs : Sound kind s) (hc : Covered s) (hin : InTime s a)
    (h : s.step kind a = some t) : Covered t := by
  obtain ⟨mid, hmove, rfl⟩ := Option.map_eq_some_iff.mp h
  show Covered mid
  cases a with
  | newWaiter p =>
    simp only [State.move] at hmove
    split_ifs at hmove
    cases hmove
    exact hc
  | call p call =>
    simp only [State.move, State.begin] at hmove
    split_ifs at hmove with hfree
    obtain ⟨pc, hentry, rfl⟩ := Option.map_eq_some_iff.mp hmove
    refine hc.goto rfl id Or.inl (fun hpushes ↦ ?_) (fun hreleases ↦ ?_)
    · exact absurd (Pc.inside_of_pushes hpushes) (by simp [(State.of_entry hentry).1])
    · cases hpc : s.pc p <;> simp_all [State.isFree, Pc.releases]
  | act p => exact covered_act hs hc hin hmove
  | forcedUnwind p =>
    simp only [State.move, State.forcedUnwind] at hmove
    split at hmove
    · rename_i hpc
      cases hmove
      exact hc.goto rfl id Or.inl nofun (by rw [hpc]; nofun)
    · cases hmove

/-- What a call reports is what its party has seen. -/
theorem returns_finish {p : ι} {result : Result}
    (h : result = .completed → s.sawZero p = true) :
    ∀ r ∈ (s.finish p result).returns, r ∈ s.returns ∨ (r.2.1 = .completed → r.2.2 = true) := by
  intro r hr
  rw [State.finish_returns, List.mem_append, List.mem_singleton] at hr
  rcases hr with hr | rfl
  · exact Or.inl hr
  · exact Or.inr h

/-- A call ends. -/
theorem Fair.leave {saw : ι → Prop} (hf : Fair saw s) {p : ι} {result : Result}
    (hpc : t.pc = Function.update s.pc p (.returned result))
      (hwaiters : ∀ w ∈ t.waiters, w ∈ s.waiters)
    (hsatisfied : t.satisfied = s.satisfied) (hreturns : t.returns = (s.finish p result).returns)
    (hresult : result = .completed → s.sawZero p = true) : Fair saw t :=
  hf.goto hpc hwaiters (fun _ h ↦ hsatisfied ▸ h) (hreturns ▸ returns_finish hresult) nofun nofun
    nofun
    nofun

theorem fair_load (hf : Fair (s.sawZero · = true) s)
    (hzero : s.pending = 0 → ∀ w, s.sawZero w = true) {p : ι} {site : Site}
    (hpc : s.pc p = .loading site) : Fair (s.sawZero · = true) (s.load p site) := by
  cases site with
  | ready =>
    refine hf.goto rfl (fun _ ↦ id) (fun _ ↦ id) (returns_finish fun h ↦ ?_) nofun nofun nofun nofun
    split_ifs at h with hpending
    exact hzero hpending p
  | fast mode =>
    simp only [State.load]
    split_ifs with hpending
    · exact hf.leave rfl (fun _ ↦ id) rfl rfl fun _ ↦ hzero hpending p
    · refine hf.goto rfl (fun _ ↦ id) (fun w hw ↦ ?_) (fun _ ↦ Or.inl) nofun nofun nofun nofun
      grind -linarith
  | recheck mode =>
    simp only [State.load]
    split_ifs with hcancelled hpending
    · exact hf.goto rfl (fun _ ↦ id) (fun _ ↦ id) (fun _ ↦ Or.inl) nofun nofun nofun nofun
    · exact hf.goto rfl (fun _ ↦ id) (fun _ ↦ id) (fun _ ↦ Or.inl) nofun nofun nofun
        fun _ ↦ hzero hpending p
    · exact hf.goto rfl (fun _ ↦ id) (fun _ ↦ id) (fun _ ↦ Or.inl) nofun nofun nofun nofun

theorem fair_push (hs : Sound kind s) (hf : Fair (s.sawZero · = true) s) {p : ι} {mode : Mode}
    (hpc : s.pc p = .pushing mode) (hin : InTime s (.act p)) :
    Fair (s.sawZero · = true) (s.push p mode) := by
  have htime := hin.1 (by rw [hpc]; rfl)
  obtain ⟨h1, h2, h3, h4, h5⟩ := hf
  have hat : ∀ q, (s.push p mode).pc q = if q = p
      then .unlocking (if mode = .wait then .waiting else .enqueued) else s.pc q :=
    fun q ↦ Function.update_apply ..
  refine ⟨fun q w hw ↦ ?_, fun w hw hsleeps ↦ ?_, fun q hq w hw ↦ ?_, fun q hq ↦ h4 q ?_, h5⟩
  · rw [hat q] at hw
    split_ifs at hw
    · exact nomatch hw
    · exact nomatch hw
    · exact h1 q w hw
  · rcases eq_or_ne w p with rfl | hne
    · have hfresh := hs.fresh w (by rw [hpc]; rfl)
      exact absurd (hfresh.symm.trans hw) (by decide)
    · exact h2 w hw (by rwa [hat w, if_neg hne] at hsleeps)
  · have hold : (s.pc q).releases = true := by
      rw [hat q] at hq
      split_ifs at hq
      · exact nomatch hq
      · exact nomatch hq
      · exact hq
    rcases List.mem_append.mp hw with hw | hw
    · exact h3 q hold w hw
    · obtain rfl := List.mem_singleton.mp hw
      exact htime.resolve_right fun hnone ↦ by simp [hnone q] at hold
  · rw [hat q] at hq
    split_ifs at hq
    · exact nomatch hq
    · exact nomatch hq
    · exact hq

theorem fair_notify (hf : Fair (s.sawZero · = true) s) {p w : ι} {rest : List ι}
    (hpc : s.pc p = .notifying (w :: rest))
    (h : (s.setPc p (.notifying rest)).notify kind w = some t) : Fair (s.sawZero · = true) t := by
  have hmem : ∀ v ∈ w :: rest, s.sawZero v = true := fun v hv ↦ hf.told p v (by rw [hpc]; exact hv)
  have hdrop : Fair (s.sawZero · = true) (s.setPc p (.notifying rest)) :=
    hf.goto rfl (fun _ ↦ id) (fun _ ↦ id) (fun _ ↦ Or.inl)
      (fun v hv ↦ hmem v (List.mem_cons_of_mem w hv))
      nofun nofun nofun
  unfold State.notify at h
  split at h
  · split at h
    · rename_i henqueued
      cases h
      exact hdrop.goto rfl (fun _ ↦ id) (fun _ ↦ id)
        (returns_finish fun _ ↦ hmem w List.mem_cons_self) nofun nofun nofun nofun
    · cases h
  · cases h
    refine ⟨hdrop.told, fun v hv hwaiting ↦ ?_, hdrop.due, hdrop.seen, hdrop.returns⟩
    rcases eq_or_ne v w with rfl | hne
    · exact hmem v List.mem_cons_self
    · exact hdrop.woken v ((Function.update_of_ne hne _ _).symm.trans hv) hwaiting

omit [DecidableEq ι] in
/-- More parties have seen zero. -/
theorem Fair.mono {saw saw' : ι → Prop} (hf : Fair saw s) (himp : ∀ w, saw w → saw' w) :
    Fair saw' s where
  told p w hw := himp w (hf.told p w hw)
  woken w hw hwaiting := himp w (hf.woken w hw hwaiting)
  due p hp w hw := himp w (hf.due p hp w hw)
  seen p hp := himp p (hf.seen p hp)
  returns := hf.returns

theorem fair_act (hs : Sound kind s) (hf : Fair (s.sawZero · = true) s)
    (hzero : s.pending = 0 → ∀ w, s.sawZero w = true) {p : ι} (hin : InTime s (.act p))
    (h : s.act kind p = some t) : Fair (fun w ↦ s.sawZero w = true ∨ t.pending = 0) t := by
  have hmono : ∀ {u : State ι}, Fair (s.sawZero · = true) u →
      Fair (fun w ↦ s.sawZero w = true ∨ u.pending = 0) u := fun hu ↦ hu.mono fun _ ↦ Or.inl
  unfold State.act at h
  split at h
  case h_1 => cases h
  case h_2 site hpc => exact Option.some.inj h ▸ hmono (fair_load hf hzero hpc)
  case h_3 part hpc =>
    split_ifs at h
    cases h
    refine hmono (hf.goto rfl (fun _ ↦ id) (fun _ ↦ id) (fun _ ↦ Or.inl) ?_ ?_ ?_ ?_)
    · cases part <;> nofun
    · rw [hpc]
      cases part <;> exact id
    · cases part <;> nofun
    · cases part <;> nofun
  case h_4 mode hpc => exact Option.some.inj h ▸ hmono (fair_push hs hf hpc hin)
  case h_5 chain hpc =>
    cases h
    have htold : ∀ w ∈ chain, s.sawZero w = true := fun w hw ↦ hf.told p w (by rw [hpc]; exact hw)
    unfold State.stepPopping
    cases hwaiters : s.waiters with
    | nil => exact hmono (hf.goto rfl (fun _ ↦ id) (fun _ ↦ id) (fun _ ↦ Or.inl) htold nofun nofun
          nofun)
    | cons w rest =>
      have hdue : ∀ v ∈ s.waiters, s.sawZero v = true := hf.due p (by rw [hpc]; rfl)
      refine hmono (hf.goto rfl (fun v hv ↦ ?_) (fun _ ↦ id) (fun _ ↦ Or.inl) (fun v hv ↦ ?_)
        (fun _ ↦ by rw [hpc]; rfl) nofun nofun)
      · exact hwaiters ▸ List.mem_cons_of_mem w hv
      · rcases List.mem_cons.mp hv with rfl | hv
        · exact hdue v (hwaiters ▸ List.mem_cons_self)
        · exact htold v hv
  case h_6 target hpc =>
    cases h
    unfold State.stepCancelling
    split_ifs with hmem
    · have htaken : Fair (s.sawZero · = true)
          ({ s with waiters := s.waiters.unlink target }.finish target .stopped) :=
        hf.leave rfl (fun _ ↦ List.mem_of_mem_erase) rfl rfl nofun
      exact hmono (htaken.goto rfl (fun _ ↦ id) (fun _ ↦ id) (fun _ ↦ Or.inl) nofun nofun nofun
        nofun)
    · exact hmono (hf.goto rfl (fun _ ↦ id) (fun _ ↦ id) (fun _ ↦ Or.inl) nofun nofun nofun nofun)
  case h_7 hpc =>
    cases h
    unfold State.stepGuarding
    split_ifs with hmem
    · exact hmono (hf.goto rfl (fun _ ↦ List.mem_of_mem_erase) (fun _ ↦ id) (fun _ ↦ Or.inl) nofun
        nofun
        nofun nofun)
    · exact hmono (hf.goto rfl (fun _ ↦ id) (fun _ ↦ id) (fun _ ↦ Or.inl) nofun nofun nofun nofun)
  case h_8 after hpc =>
    cases h
    refine hmono ?_
    cases after with
    | returned result =>
      refine hf.goto rfl (fun _ ↦ id) (fun _ ↦ id) (returns_finish fun hresult ↦ ?_) nofun nofun
        nofun
        nofun
      exact hf.seen p (hresult ▸ hpc)
    | waiting =>
      exact hf.goto rfl (fun _ ↦ id) (fun _ ↦ id) (fun _ ↦ Or.inl) nofun nofun
        (fun _ hsatisfied ↦ hf.woken p hsatisfied (by rw [hpc]; rfl)) nofun
    | enqueued =>
      exact hf.goto rfl (fun _ ↦ id) (fun _ ↦ id) (fun _ ↦ Or.inl) nofun nofun nofun nofun
    | notifying chain =>
      exact hf.goto rfl (fun _ ↦ id) (fun _ ↦ id) (fun _ ↦ Or.inl)
        (fun w hw ↦ hf.told p w (by rw [hpc]; exact hw)) nofun nofun nofun
    | awaitingNotifier =>
      exact hf.goto rfl (fun _ ↦ id) (fun _ ↦ id) (fun _ ↦ Or.inl) nofun nofun nofun nofun
  case h_9 hpc =>
    split_ifs at h with hsatisfied
    cases h
    exact hmono (hf.leave rfl (fun _ ↦ id) rfl rfl fun _ ↦ hf.woken p hsatisfied (by rw [hpc]; rfl))
  case h_10 => cases h
  case h_11 count hpc =>
    cases h
    exact hmono (hf.leave rfl (fun _ ↦ id) rfl rfl nofun)
  case h_12 hpc =>
    split at h <;> cases h
    · exact ⟨fun _ _ _ ↦ Or.inr rfl, fun _ _ _ ↦ Or.inr rfl, fun _ _ _ _ ↦ Or.inr rfl,
        fun _ _ ↦ Or.inr rfl, hf.returns⟩
    · exact hmono (hf.leave rfl (fun _ ↦ id) rfl rfl nofun)
  case h_13 hpc =>
    cases h
    exact hmono (hf.leave rfl (fun _ ↦ id) rfl rfl nofun)
  case h_14 w rest hpc => exact hmono (fair_notify hf hpc h)
  case h_15 hpc =>
    split_ifs at h
    cases h
    exact hmono (hf.leave rfl (fun _ ↦ id) rfl rfl nofun)
  case h_16 => cases h

/-- A count of zero is seen by every call under way. -/
theorem zero_step {a : Action ι} (h : s.step kind a = some t) (hzero : t.pending = 0) (w : ι) :
    t.sawZero w = true := by
  obtain ⟨mid, -, rfl⟩ := Option.map_eq_some_iff.mp h
  have hmid : mid.pending = 0 := hzero
  simp [State.observe, hmid]

/-- Only the beginning of a call forgets a zero. -/
theorem State.act_sawZero {p : ι} (h : s.act kind p = some t) : t.sawZero = s.sawZero := by
  unfold State.act at h
  split at h
  case h_2 site hpc =>
    cases h
    cases site <;> simp only [State.load] <;> split_ifs <;> rfl
  case h_3 =>
    split_ifs at h
    exact Option.some.inj h ▸ rfl
  case h_5 chain hpc =>
    cases h
    unfold State.stepPopping
    split <;> rfl
  case h_6 target hpc =>
    cases h
    unfold State.stepCancelling
    split_ifs <;> rfl
  case h_7 hpc =>
    cases h
    unfold State.stepGuarding
    split_ifs <;> rfl
  case h_8 after hpc =>
    cases h
    cases after <;> rfl
  case h_9 =>
    split_ifs at h
    exact Option.some.inj h ▸ rfl
  case h_12 => split at h <;> cases h <;> rfl
  case h_14 w rest hpc =>
    unfold State.notify at h
    split at h
    · split at h <;> cases h
      rfl
    · exact Option.some.inj h ▸ rfl
  case h_15 =>
    split_ifs at h
    exact Option.some.inj h ▸ rfl
  all_goals
    cases h
    try rfl

/-- Nobody who waits begins a call. -/
theorem fair_begin (hs : Sound kind s) (hf : Fair (s.sawZero · = true) s) {p : ι} {call : Call ι}
    {pc : Pc ι} {sawZero : ι → Bool} (hfree : s.isFree p = true)
    (hentry : State.entry kind p call = some pc) :
    Fair (fun w ↦ w ≠ p ∧ s.sawZero w = true) { s.setPc p pc with sawZero := sawZero } := by
  obtain ⟨-, -, hwaits⟩ := State.of_isFree hfree
  obtain ⟨hqueue, hchains⟩ := hs.not_linked hwaits
  obtain ⟨hinside, hchain, hreleases, hsleeps⟩ : pc.inside = false ∧ pc.chain = [] ∧
      pc.releases = false ∧ pc.sleeps = false := by
    cases call <;> simp only [State.entry, Option.some.injEq, Option.ite_none_left_eq_some,
      Option.ite_none_right_eq_some] at hentry <;> grind -linarith
  obtain ⟨h1, h2, h3, h4, h5⟩ := hf
  refine ⟨fun q w hw ↦ ?_, fun w hw hsl ↦ ?_, fun q hq w hw ↦ ?_, fun q hq ↦ ?_, h5⟩ <;>
    simp only [State.setPc] at *
  · have hold : w ∈ (s.pc q).chain := by grind -linarith
    exact ⟨fun heq ↦ hchains q (heq ▸ hold), h1 q w hold⟩
  · have hne : w ≠ p := by grind -linarith
    exact ⟨hne, h2 w hw (by rwa [Function.update_of_ne hne] at hsl)⟩
  · have hold : (s.pc q).releases = true := by grind -linarith
    exact ⟨fun heq ↦ hqueue (heq ▸ hw), h3 q hold w hw⟩
  · have hne : q ≠ p := by grind -linarith
    exact ⟨hne, h4 q (by rwa [Function.update_of_ne hne] at hq)⟩

theorem fair_step {a : Action ι} (hs : Sound kind s) (hf : Fair (s.sawZero · = true) s)
    (hzero : s.pending = 0 → ∀ w, s.sawZero w = true) (hin : InTime s a)
    (h : s.step kind a = some t) : Fair (t.sawZero · = true) t := by
  obtain ⟨mid, hmove, rfl⟩ := Option.map_eq_some_iff.mp h
  have hobserve : ∀ {saw : ι → Prop}, Fair saw mid →
      (∀ w, saw w → mid.sawZero w = true ∨ mid.pending = 0) →
      Fair (mid.observe.sawZero · = true) mid.observe := fun hmid himp ↦
    ⟨fun p w hw ↦ by simpa [State.observe] using himp w (hmid.told p w hw),
      fun w hw hsleeps ↦ by simpa [State.observe] using himp w (hmid.woken w hw hsleeps),
      fun p hp w hw ↦ by simpa [State.observe] using himp w (hmid.due p hp w hw),
      fun p hp ↦ by simpa [State.observe] using himp p (hmid.seen p hp), hmid.returns⟩
  cases a with
  | newWaiter p =>
    simp only [State.move] at hmove
    split_ifs at hmove
    cases hmove
    have hmid : Fair (s.sawZero · = true) { s with cancelled := Function.update s.cancelled p false
      } :=
      ⟨hf.told, hf.woken, hf.due, hf.seen, hf.returns⟩
    exact hobserve hmid fun _ ↦ Or.inl
  | call p call =>
    simp only [State.move, State.begin] at hmove
    split_ifs at hmove with hfree
    obtain ⟨pc, hentry, rfl⟩ := Option.map_eq_some_iff.mp hmove
    exact hobserve (fair_begin hs hf hfree hentry) fun w hw ↦
      Or.inl ((Function.update_of_ne hw.1 _ _).trans hw.2)
  | act p =>
    refine hobserve (fair_act hs hf hzero hin hmove) fun w hw ↦ hw.imp_left fun hsaw ↦ ?_
    rwa [State.act_sawZero hmove]
  | forcedUnwind p =>
    simp only [State.move, State.forcedUnwind] at hmove
    split at hmove
    · cases hmove
      exact hobserve (hf.goto rfl (fun _ ↦ id) (fun _ ↦ id) (fun _ ↦ Or.inl) nofun nofun nofun
        nofun)
        fun _ ↦ Or.inl
    · cases hmove

/-! ### The results -/

/-- No call is under way but those that wait. -/
def State.Quiet (s : State ι) : Prop :=
  ∀ p, s.isFree p = true ∨ s.pc p = .waiting ∨ s.pc p = .enqueued

theorem invariant_of_reachable (hs : (system kind).ReachableUnder InTime s) :
    Sound kind s ∧ Fair (s.sawZero · = true) s ∧ Covered s ∧
      (s.pending = 0 → ∀ w, s.sawZero w = true) := by
  refine System.ReachableUnder.invariant
    (P := fun s ↦ Sound kind s ∧ Fair (s.sawZero · = true) s ∧ Covered s ∧
      (s.pending = 0 → ∀ w, s.sawZero w = true)) ?_ ?_ hs
  · rintro _ rfl
    refine ⟨sound_initial 0, ⟨nofun, nofun, nofun, nofun, nofun⟩, ?_, fun _ _ ↦ rfl⟩
    rintro - (hwaits | ⟨p, hp⟩)
    · exact absurd rfl hwaits
    · exact nomatch hp
  · rintro s a t ⟨hsound, hfair, hcovered, hzero⟩ hin hnext
    exact ⟨sound_step hsound hnext, fair_step hsound hfair hzero hin hnext,
      covered_step hsound hcovered hin hnext, zero_step hnext⟩

/-- In every run whose steps are in time: a wait that has been completed saw a count of zero between
its beginning and its end; and when no call is under way and the count is zero, nobody is queued. -/
theorem waits_for_zero {kind : ι → Kind} {s : State ι}
    (hs : (system kind).ReachableUnder InTime s) :
    (∀ p saw, (p, .completed, saw) ∈ s.returns → saw = true) ∧
      (s.Quiet → s.pending = 0 → s.waiters = []) := by
  obtain ⟨-, hfair, hcovered, -⟩ := invariant_of_reachable hs
  refine ⟨fun p saw hmem ↦ hfair.returns _ hmem rfl, fun hquiet hzero ↦ ?_⟩
  by_contra hwaiters
  obtain ⟨p, hp⟩ := hcovered hzero (Or.inl hwaiters)
  rcases hquiet p with hfree | hpc | hpc
  · cases hpc : s.pc p <;> simp [State.isFree, hpc] at hfree <;> simp [hpc, Pc.releases] at hp
  · simp [hpc, Pc.releases] at hp
  · simp [hpc, Pc.releases] at hp

/-- One party counts up, a second waits, and the first counts down: the second is queued, taken off
the list and notified, and returns. -/
def oneRound : List (Action (Fin 2)) :=
  [.call 0 (.add 1), .act 0, .call 1 .wait, .act 1, .act 1, .act 1, .act 1, .act 1, .call 0 .done,
    .act 0, .act 0, .act 0, .act 0, .act 0, .act 0, .act 1, .act 0]

theorem waits_for_zero_oneRound :
    ∃ s, (system fun _ : Fin 2 ↦ .thread).ReachableUnder InTime s ∧
      s.returns = [(0, .added, true), (1, .completed, true), (0, .done, true)] ∧ s.waiters = [] :=
        by
  let check : State (Fin 2) → Action (Fin 2) → Bool := fun s a ↦ decide (InTime s a)
  let s := ((system fun _ ↦ .thread).runUnder check (initial _ 0) oneRound).get (by decide +kernel)
  have hs : (system fun _ ↦ .thread).ReachableUnder InTime s :=
    (System.reachableUnder_of_run rfl (Option.some_get _).symm).mono fun _ _ ↦ of_decide_eq_true
  have hquiet : s.Quiet := fun p ↦ Or.inl (by revert p; decide +kernel)
  exact ⟨s, hs, by decide +kernel, (waits_for_zero hs).2 hquiet (by decide +kernel)⟩

/-- The first party brings the count to zero and is delayed before it takes the lock. The second
adds one for another round, the third waits and is queued; then the first takes it off the list. -/
def twoRounds : List (Action (Fin 3)) :=
  [.call 0 (.add 1), .act 0, .call 0 .done, .act 0, .call 1 (.add 1), .act 1, .call 2 .wait, .act 2,
    .act 2, .act 2, .act 2, .act 2, .act 0, .act 0, .act 0, .act 0, .act 0, .act 2]

/-- Without the condition, a `wait` returns although the count has not been zero since it was
called. -/
theorem wait_returns_early :
    ¬∀ s, (system fun _ : Fin 3 ↦ .thread).Reachable s →
      (∀ p saw, (p, .completed, saw) ∈ s.returns → saw = true) ∧
        (s.Quiet → s.pending = 0 → s.waiters = []) := by
  intro h
  let s := ((system fun _ ↦ .thread).run (initial (Fin 3) 0) twoRounds).get (by decide +kernel)
  have hs : (system fun _ ↦ .thread).Reachable s :=
    System.reachable_of_run rfl (Option.some_get _).symm
  exact absurd ((h s hs).1 2 false (by decide +kernel)) (by decide)

end Stackfull.Sync.WaitGroup
