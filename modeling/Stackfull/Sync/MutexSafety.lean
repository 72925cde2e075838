import Stackfull.Lib.Refinement
import Stackfull.Sync.Mutex

/-!
# A mutex has one owner

What the parties of a `Mutex` see of it are their own acquisitions and releases (`Turn`). The mutex
keeps no owner, hands a permit from the release of one party to a waiter before that waiter knows,
lets calls be cancelled and tasks be unwound, and still shows nothing that a plain lock with one
owner (`owner`) would not: parties take turns, and each turn ends with the release of the party that
began it.
-/

set_option autoImplicit false
set_option relaxedAutoImplicit false
set_option linter.dupNamespace false

namespace Stackfull.Sync.Semaphore

open Stackfull.Lib

universe u

/-- A call that acquired returns, or a release adds its permit. -/
inductive Turn (ι : Type u)
  | begins (party : ι)
  | ends (party : ι)
  deriving DecidableEq

variable {ι : Type u} [DecidableEq ι]

/-- The lock that the mutex stands for. -/
def owner (ι : Type u) [DecidableEq ι] : System (Option ι) (Turn ι) where
  init holder := holder = none
  step
    | none, .begins party => some (some party)
    | some party, .ends party' => if party = party' then some none else none
    | _, _ => none

/-- What a step shows. -/
def State.turn (c : Config ι) (s : State ι) (a : Action ι) : Option (Turn ι) :=
  (s.step c a).bind fun t ↦
    match t.increments.drop s.increments.length, t.returns.drop s.returns.length with
    | call :: _, _ => some (.ends call.1)
    | [], (call, .acquired) :: _ => some (.begins call.1)
    | _, _ => none

variable {c : Config ι} {kind : ι → Kind} {s t : State ι} {a : Action ι} {holder : Option ι}

/-- A step ends a call, adds a permit, or does neither. -/
theorem turn_cases (h : Step c s a t) :
    (t.returns = s.returns ∧ t.increments = s.increments) ∨
      (∃ p result, t.returns = s.returns ++ [(s.callOf p, result)] ∧
        t.increments = s.increments) ∨
      ∃ p, s.pc p = .adding ∧ t.returns = s.returns ∧
        t.increments = s.increments ++ [s.callOf p] := by
  cases h with
  | @add p hpc => exact Or.inr (Or.inr ⟨p, hpc, rfl, rfl⟩)
  | refuse | acquireFast | unlockReturn | resume | nobody | notified | unwound | cancelTake
  | callback => exact Or.inr (Or.inl ⟨_, _, rfl, rfl⟩)
  | _ => exact Or.inl ⟨rfl, rfl⟩

/-- **The relation.** The acquisitions are the releases, and one more of the holder. -/
structure Owns (kind : ι → Kind) (s : State ι) (holder : Option ι) : Prop where
  sound : Sound (mutex kind) s
  accounts : Accounts s
  calls : s.acquirers.Perm (s.releasers ++ holder.toList)

/-- Whoever holds the mutex is the holder. -/
theorem Owns.holds_iff (h : Owns kind s holder) (p : ι) : Holds s p ↔ holder = some p := by
  have hcount := h.calls.count_eq p
  rw [List.count_append] at hcount
  unfold Holds
  rw [hcount]
  cases holder with
  | none => simp
  | some q =>
    rw [Option.toList_some, List.count_singleton, Option.some.injEq]
    by_cases heq : q = p <;> simp [heq]

/-- Nobody acquires while another holds. -/
theorem Owns.free (h : Owns kind s holder) (hsound : Sound (mutex kind) t) {p : ι}
    (hacquirers : t.acquirers = s.acquirers ++ [p]) (hincrements : t.increments = s.increments) :
    holder = none := by
  cases holder with
  | none => rfl
  | some q =>
    exfalso
    have hacquired := h.calls.length_eq
    have hle := length_acquirers_le hsound
    have hpermits := hsound.counts.permits
    have hreleasers : s.releasers.length = s.increments.length := List.length_map _
    simp only [List.length_append, Option.toList_some, List.length_singleton] at hacquired
    rw [hacquirers, List.length_append, List.length_singleton] at hle
    simp only [mutex, hincrements] at hpermits
    omega

/-- One step is at most one turn of the lock. -/
theorem Owns.step (h : Owns kind s holder) (hdisciplined : Disciplined s a = true)
    (hstep : s.step (mutex kind) a = some t) :
    (s.turn (mutex kind) a = none ∧ Owns kind t holder) ∨
      ∃ turn holder', (owner ι).step holder turn = some holder' ∧
        s.turn (mutex kind) a = some turn ∧ Owns kind t holder' := by
  have hcases := step_of_eq hstep
  have hsound : Sound (mutex kind) t := sound_step h.sound hcases
  have haccounts := accounts_step h.accounts hdisciplined hcases
  rcases turn_cases hcases with ⟨hreturns, hincrements⟩ | ⟨p, result, hreturns, hincrements⟩ |
    ⟨p, hpc, hreturns, hincrements⟩
  · refine Or.inl ⟨?_, hsound, haccounts, ?_⟩
    · simp [State.turn, hstep, hreturns, hincrements]
    · simpa [State.acquirers, State.releasers, hreturns, hincrements] using h.calls
  · by_cases hresult : result = .acquired
    · subst hresult
      have hacquirers : t.acquirers = s.acquirers ++ [p] := by
        simp [State.acquirers, hreturns, State.callOf]
      have hfree := h.free hsound hacquirers hincrements
      subst hfree
      refine Or.inr ⟨.begins p, some p, rfl, ?_, hsound, haccounts, ?_⟩
      · simp [State.turn, hstep, hreturns, hincrements, State.callOf]
      · have hcalls := h.calls
        rw [Option.toList_none, List.append_nil] at hcalls
        rw [hacquirers]
        simpa [State.releasers, hincrements] using hcalls.append_right [p]
    · refine Or.inl ⟨?_, hsound, haccounts, ?_⟩
      · simp [State.turn, hstep, hreturns, hincrements, hresult]
      · simpa [State.acquirers, State.releasers, hreturns, hincrements, hresult] using h.calls
  · have hholder := (h.holds_iff p).mp (h.accounts.adding p hpc)
    subst hholder
    refine Or.inr ⟨.ends p, none, if_pos rfl, ?_, hsound, haccounts, ?_⟩
    · simp [State.turn, hstep, hincrements, State.callOf]
    · simpa [State.acquirers, State.releasers, hreturns, hincrements, State.callOf] using h.calls

/-- **The mutex is a lock with one owner.** -/
theorem mutex_refines_owner (kind : ι → Kind) {events : List (Turn ι)}
    (h : (system (mutex kind)).Produces (fun s a ↦ Disciplined s a = true)
      (fun s a ↦ s.turn (mutex kind) a) events s) :
    ∃ holder, (owner ι).Produces (fun _ _ ↦ True) (fun _ turn ↦ some turn) events holder ∧
      ∀ p, Holds s p ↔ holder = some p := by
  have hsimulation : System.Simulation (system (mutex kind)) (fun s a ↦ Disciplined s a = true)
      (fun s a ↦ s.turn (mutex kind) a) (owner ι) (fun _ _ ↦ True) (fun _ turn ↦ some turn)
      (Owns kind) := by
    refine ⟨fun s hinit ↦ ⟨none, rfl, ?_⟩, fun s a t holder howns hdisciplined hstep ↦ ?_⟩
    · have hreachable : (system (mutex kind)).ReachableUnder
          (fun s a ↦ Disciplined s a = true) s := .init hinit
      refine ⟨sound_of_reachableUnder hreachable, accounts_of_reachableUnder hreachable, ?_⟩
      cases hinit
      exact List.Perm.refl _
    · exact (howns.step hdisciplined hstep).imp_right fun ⟨turn, holder', hturn, hevent, howns'⟩ ↦
        ⟨turn, holder', trivial, hturn, hevent.symm, howns'⟩
  obtain ⟨holder, hproduces, howns⟩ := hsimulation.produces h
  exact ⟨holder, hproduces, howns.holds_iff⟩

/-! ### Three parties -/

def lockCancelUnlockEnd : Option (State (Fin 3)) :=
  (system sharedMutex).runUnder Disciplined (initial sharedMutex) lockCancelUnlock

theorem lockCancelUnlockEnd_isSome : lockCancelUnlockEnd.isSome = true := by decide +kernel

theorem mutex_refines_owner_lockCancelUnlock : ∃ holder,
    (owner (Fin 3)).Produces (fun _ _ ↦ True) (fun _ turn ↦ some turn)
      [.begins 1, .ends 1, .begins 0] holder ∧
    ∀ p, Holds (lockCancelUnlockEnd.get lockCancelUnlockEnd_isSome) p ↔ holder = some p := by
  have hstart : (system sharedMutex).Produces (fun s a ↦ Disciplined s a = true)
      (fun s a ↦ s.turn sharedMutex a) [] (initial sharedMutex) := .init rfl
  have hrun : (system sharedMutex).Produces (fun s a ↦ Disciplined s a = true)
      (fun s a ↦ s.turn sharedMutex a) [.begins 1, .ends 1, .begins 0]
      (lockCancelUnlockEnd.get lockCancelUnlockEnd_isSome) := by
    convert hstart.runUnder (fun _ _ _ hcheck ↦ hcheck)
      (Option.some_get lockCancelUnlockEnd_isSome).symm using 1
    decide +kernel
  exact mutex_refines_owner sharedMutex.kind hrun

end Stackfull.Sync.Semaphore
