import Stackfull.Exec.SpawnSafety
import Stackfull.Runtime.Async

/-!
# When the completion of `async` becomes ready

`Fits` says what the place in the code of a call tells about its completion and about who waits for
it. Where its task is, is what it is for a spawned operation in the corresponding place
(`Code.seat`), so a task that is released has come to the end of its code (`Seat.gone`).

In the runs that spare the tasks of `async` every call delivers (`delivers_when_spared`). The reaper
breaks it: a task that is unwound out of its body leaves its consumer blocked
(`unwound_without_completion`).
-/

set_option autoImplicit false
set_option relaxedAutoImplicit false
set_option linter.dupNamespace false

namespace Stackfull.Runtime.Async

open Stackfull.Lib
open Stackfull.Sched
open Stackfull.Exec.Spawn (Placed Seat seat_running seat_unspawned)
open Stackfull.Sched.Tasks (Agent Place)

universe u v

variable {n : ℕ} {κ : Type u} {τ : Type v}

/-! ### What the place in the code tells -/

namespace Code

/-- Where the task is, in the terms of a spawned operation. -/
def seat : Code n κ → Exec.Spawn.Code n κ Unit
  | .unstarted | .spawning _ | .failing _ _ | .failed => .unstarted
  | .body => .body
  | .setting _ => .entry
  | .returned | .cut => .returned
  | .lost => .lost

/-- Nobody has claimed the completion. -/
def isUnclaimed : Code n κ → Bool
  | .unstarted | .spawning _ | .failing _ (.claim _) | .body | .setting (.claim _) => true
  | _ => false

/-- The completion is ready. -/
def isReady : Code n κ → Bool
  | .failing _ (.wake _) | .failed | .setting (.wake _) | .returned => true
  | _ => false

/-- The consumer is about to be woken. -/
def wakes : Code n κ → Bool
  | .failing _ (.wake true) | .setting (.wake true) => true
  | _ => false

/-- The task ended without its completion. -/
def isBroken : Code n κ → Bool
  | .cut | .lost => true
  | _ => false

end Code

/-- What the place in the code of a call tells about its completion. -/
structure Fits (s : State n κ τ) (x : τ) : Prop where
  claimed : (s.code x).isUnclaimed = true → s.claimed x = false
  ready : s.ready x = (s.code x).isReady
  attached : s.attached x = true → s.ready x = false
  waits : s.getter x = .blocked →
    s.attached x = true ∨ s.notified x = true ∨ (s.code x).wakes = true
  whole : (s.code x).isBroken = false

variable [DecidableEq κ] [DecidableEq τ]

/-- What holds in every state of the runs that spare the tasks of `async`. -/
structure Sound (c : Config τ) (s : State n κ τ) : Prop where
  placed : ∃ place, Placed s.tasks place
  fits : ∀ x, c.operation x = true → Fits s x
  seat : ∀ x, c.operation x = true → Seat s.tasks (s.code x).seat x

variable {c : Config τ} {s t : State n κ τ} {u : Tasks.State n κ τ}
  {place : τ → Option (Place n κ)} {x y : τ} {w : Fin n} {a : Agent n κ}
  {code : Code n κ} {action : Tasks.Action n κ τ}

/-! ### Steps of a call -/

/-- A step leaves a call as it is. -/
structure SameAt (s t : State n κ τ) (y : τ) : Prop where
  code : t.code y = s.code y
  claimed : t.claimed y = s.claimed y
  ready : t.ready y = s.ready y
  attached : t.attached y = s.attached y
  getter : t.getter y = s.getter y
  notified : t.notified y = s.notified y

omit [DecidableEq κ] [DecidableEq τ] in
theorem Fits.same (h : Fits s y) (hsame : SameAt s t y) : Fits t y := by
  obtain ⟨hcode, hclaimed, hready, hattached, hgetter, hnotified⟩ := hsame
  constructor
  · rw [hcode, hclaimed]
    exact h.claimed
  · rw [hcode, hready]
    exact h.ready
  · rw [hattached, hready]
    exact h.attached
  · rw [hcode, hattached, hgetter, hnotified]
    exact h.waits
  · rw [hcode]
    exact h.whole

/-- A step of one call. -/
theorem Sound.next (h : Sound c s) (code : Code n κ)
    (hcode : t.code = Function.update s.code x code)
    (hplaced : ∃ place, Placed t.tasks place) (hsame : ∀ y, y ≠ x → SameAt s t y)
    (hseats : ∀ y, y ≠ x → c.operation y = true → Seat t.tasks (s.code y).seat y)
    (hfits : c.operation x = true → Fits t x)
    (hseat : c.operation x = true → Seat t.tasks code.seat x) : Sound c t where
  placed := hplaced
  fits y hy := by
    rcases eq_or_ne y x with rfl | hne
    · exact hfits hy
    · exact (h.fits y hy).same (hsame y hne)
  seat y hy := by
    rcases eq_or_ne y x with rfl | hne
    · rw [hcode, Function.update_self]
      exact hseat hy
    · rw [(hsame y hne).code]
      exact hseats y hne hy

/-- A step of one call that leaves the tasks. -/
theorem Sound.local (h : Sound c s) (code : Code n κ) (htasks : t.tasks = s.tasks)
    (hcode : t.code = Function.update s.code x code) (hsame : ∀ y, y ≠ x → SameAt s t y)
    (hfits : c.operation x = true → Fits t x)
    (hseat : c.operation x = true → Seat s.tasks code.seat x) : Sound c t := by
  refine h.next code hcode (htasks ▸ h.placed) hsame ?_ hfits (htasks ▸ hseat)
  intro y _ hy
  rw [htasks]
  exact h.seat y hy

/-- A step of the consumer. -/
theorem Sound.consumer (h : Sound c s) (htasks : t.tasks = s.tasks) (hcode : t.code = s.code)
    (hsame : ∀ y, y ≠ x → SameAt s t y) (hfits : c.operation x = true → Fits s x → Fits t x) :
    Sound c t := by
  refine h.local (s.code x) htasks ?_ hsame (fun hx ↦ hfits hx (h.fits x hx)) (h.seat x)
  rw [hcode, Function.update_eq_self]

attribute [local simp] Code.seat Code.isUnclaimed Code.isReady Code.wakes Code.isBroken State.goto

omit [DecidableEq κ] in
/-- One step of `set`, `setException` or `fail`. The last one leaves the completion ready. -/
theorem Fits.produce (h : Fits s x) {wrap : Stage → Code n κ} {last : Code n κ}
    (hwrap : wrap = Code.setting ∧ last = Code.returned ∨
      ∃ a, wrap = Code.failing a ∧ last = Code.failed) {stage : Stage}
    (hcode : s.code x = wrap stage) :
    Fits ((s.produce x stage).1.goto x ((s.produce x stage).2.elim last wrap)) x := by
  obtain ⟨hclaimed, hready, hattached, hwaits, -⟩ := h
  rw [hcode] at hclaimed hready hwaits
  obtain ⟨rfl, rfl⟩ | ⟨a, rfl, rfl⟩ := hwrap <;> cases stage with
  | claim result =>
    have hfree := hclaimed rfl
    constructor <;> simp_all [State.produce]
  | store result =>
    constructor <;> simp_all [State.produce]
  | publish =>
    constructor <;> simp_all [State.produce]
    intro hblocked
    cases hheld : s.attached x <;> simp_all
  | wake attached =>
    cases attached <;> constructor <;> simp_all [State.produce]

omit [DecidableEq κ] in
/-- It concerns no other call and no task. -/
theorem State.produce_frame (s : State n κ τ) (x : τ) (stage : Stage) :
    (s.produce x stage).1.tasks = s.tasks ∧ (s.produce x stage).1.code = s.code ∧
      ∀ y, y ≠ x → SameAt s (s.produce x stage).1 y := by
  cases stage with
  | claim result =>
    simp only [State.produce]
    split_ifs
    · exact ⟨rfl, rfl, fun y _ ↦ ⟨rfl, rfl, rfl, rfl, rfl, rfl⟩⟩
    · refine ⟨rfl, rfl, fun y hne ↦ ?_⟩
      constructor <;> simp [hne]
  | store result => exact ⟨rfl, rfl, fun y _ ↦ ⟨rfl, rfl, rfl, rfl, rfl, rfl⟩⟩
  | publish =>
    refine ⟨rfl, rfl, fun y hne ↦ ?_⟩
    constructor <;> simp [State.produce, hne]
  | wake attached =>
    cases attached with
    | true =>
      refine ⟨rfl, rfl, fun y hne ↦ ?_⟩
      constructor <;> simp [State.produce, hne]
    | false => exact ⟨rfl, rfl, fun y _ ↦ ⟨rfl, rfl, rfl, rfl, rfl, rfl⟩⟩

/-- The call goes on in `set`, `setException` or `fail`. -/
theorem Sound.produce (h : Sound c s) {wrap : Stage → Code n κ} {last : Code n κ}
    (hwrap : wrap = Code.setting ∧ last = Code.returned ∨
      ∃ a, wrap = Code.failing a ∧ last = Code.failed) {stage : Stage}
    (hcode : s.code x = wrap stage)
    (hseat : c.operation x = true →
      Seat s.tasks ((s.produce x stage).2.elim last wrap).seat x) :
    Sound c ((s.produce x stage).1.goto x ((s.produce x stage).2.elim last wrap)) := by
  obtain ⟨htasks, hsame, hothers⟩ := s.produce_frame x stage
  refine h.local _ htasks (congrArg (Function.update · x _) hsame) (fun y hne ↦ ?_)
    (fun hx ↦ (h.fits x hx).produce hwrap hcode) hseat
  obtain ⟨hcode', hclaimed, hready, hattached, hgetter, hnotified⟩ := hothers y hne
  exact ⟨(Function.update_of_ne hne ..).trans hcode', hclaimed, hready, hattached, hgetter,
    hnotified⟩

/-- The call goes on and has changed nothing else. -/
theorem Sound.goto (h : Sound c s) {code' : Code n κ} (hcode : s.code x = code)
    (hfits : code'.isUnclaimed = code.isUnclaimed ∧ code'.isReady = code.isReady ∧
      code'.wakes = code.wakes ∧ code'.isBroken = code.isBroken)
    (hseat : c.operation x = true → Seat s.tasks code'.seat x) : Sound c (s.goto x code') := by
  refine h.local code' rfl rfl (fun y hne ↦ ?_) (fun hx ↦ ?_) hseat
  · constructor <;> simp [hne]
  · obtain ⟨hclaimed, hready, hattached, hwaits, hwhole⟩ := h.fits x hx
    rw [hcode] at hclaimed hready hwaits hwhole
    obtain ⟨h1, h2, h3, h4⟩ := hfits
    constructor <;> simp only [State.goto, Function.update_self, h1, h2, h3, h4] <;> assumption

/-! ### The caller and the task -/

/-- A place of a call that has no task. -/
theorem Sound.seat_unspawned (h : Sound c s) (hx : c.operation x = true)
    (hcode : (s.code x).seat = .unstarted) :
    Seat s.tasks (.unstarted : Exec.Spawn.Code n κ Unit) x := by
  have hseat := h.seat x hx
  rwa [hcode] at hseat

/-- The task of `async` that a worker runs is in none of the places that a seat is about. -/
theorem Sound.seat_running (h : Sound c s) (code : Code n κ) (hx : s.running c w = some x)
    (hspawned : code.seat.unspawned = false) (hdropped : code.seat.isDropped = false) :
    Seat s.tasks code.seat x := by
  obtain ⟨place, hplaced⟩ := h.placed
  exact Exec.Spawn.seat_running hplaced (Option.filter_eq_some_iff.mp hx).1 hspawned hdropped

/-- `completion.fail`. -/
theorem Sound.fail (h : Sound c s) (hstep : s.fail a x = some t) : Sound c t := by
  unfold State.fail at hstep
  split at hstep
  · rename_i b stage hcode
    obtain ⟨rfl, heq⟩ := Option.ite_none_right_eq_some.mp hstep
    obtain rfl := Option.some.inj heq
    refine h.produce (Or.inr ⟨a, rfl, rfl⟩) hcode fun hx ↦ ?_
    have hseat := h.seat_unspawned hx (by rw [hcode]; rfl)
    cases (s.produce x stage).2 <;> exact hseat
  · nomatch hstep

/-- The body ends, and `ForcedUnwind` does not leave it. -/
theorem Sound.finishBody (h : Sound c s) {ending : Ending} (hspared : ending ≠ .unwound)
    (hstep : s.finishBody c w ending = some t) : Sound c t := by
  obtain ⟨x, hx, hend⟩ := Option.bind_eq_some_iff.mp hstep
  obtain ⟨hcode, hend⟩ := Option.ite_none_right_eq_some.mp hend
  cases ending with
  | returned =>
    obtain rfl := Option.some.inj hend
    exact h.goto hcode ⟨rfl, rfl, rfl, rfl⟩ fun _ ↦ h.seat_running _ hx rfl rfl
  | threw =>
    obtain ⟨-, heq⟩ := Option.ite_none_right_eq_some.mp hend
    obtain rfl := Option.some.inj heq
    exact h.goto hcode ⟨rfl, rfl, rfl, rfl⟩ fun _ ↦ h.seat_running _ hx rfl rfl
  | unwound => exact absurd rfl hspared

/-- The task goes on in `set` or `setException`. -/
theorem Sound.set (h : Sound c s) (hstep : s.set c w = some t) : Sound c t := by
  obtain ⟨x, hx, hset⟩ := Option.bind_eq_some_iff.mp hstep
  split at hset
  · rename_i stage hcode
    obtain rfl := Option.some.inj hset
    refine h.produce (Or.inl ⟨rfl, rfl⟩) hcode fun _ ↦ ?_
    cases (s.produce x stage).2 with
    | none => exact h.seat_running .returned hx rfl rfl
    | some next => exact h.seat_running (.setting next) hx rfl rfl
  · nomatch hset

/-- `scheduler.spawn` starts the task. -/
theorem Sound.spawn (h : Sound c s) (hstep : s.spawn c a x = some t) : Sound c t := by
  obtain ⟨hcode, hmap⟩ := Option.ite_none_right_eq_some.mp hstep
  obtain ⟨u, hspawn, rfl⟩ := Option.map_eq_some_iff.mp hmap
  obtain ⟨place, hplaced⟩ := h.placed
  obtain ⟨hparking, -, -⟩ := Exec.Spawn.spawn_frame hspawn
  refine h.next .body rfl (hplaced.step hspawn) ?_ ?_ (fun hx ↦ ?_) fun hx ↦ ?_
  · intro y hne
    constructor <;> simp [hne]
  · intro y hne hy
    refine (h.seat y hy).step hplaced hspawn ?_ ?_ ?_ ?_ ?_
    · rintro b ⟨⟩
      exact hne rfl
    · exact fun _ _ hpark ↦ by cases hpark
    · exact fun _ _ hfinish ↦ by cases hfinish
    · exact fun _ _ hadvance ↦ by cases hadvance
    · rintro ⟨-, -, w, choice, hadvance, -⟩
      cases hadvance
  · obtain ⟨hclaimed, hready, hattached, hwaits, -⟩ := h.fits x hx
    rw [hcode] at hclaimed hready hwaits
    constructor <;> simp_all
  · obtain ⟨hpublished, hdone⟩ := (h.seat_unspawned hx (by rw [hcode]; rfl)).unspawned rfl
    have hnowhere (p : Place n κ) : place x ≠ some p := by
      intro hplace
      rw [hplaced.published hplace] at hpublished
      cases hpublished
    obtain ⟨hexits, hends, hdone'⟩ := hplaced.quiet hspawn (fun w ↦ hnowhere _)
      (fun b ↦ hnowhere _) hdone
    refine Exec.Spawn.seat_reaped hexits hdone' rfl (.inl ⟨hparking, fun b hb ↦ ?_, rfl⟩)
    obtain ⟨-, -, w, choice, haction, -⟩ := hends b hb
    cases haction

/-! ### Steps of the tasks -/

omit [DecidableEq κ] [DecidableEq τ] in
/-- The task of `async` that a step unwinds or drops. -/
theorem reaps_eq_some : s.reaps c action = some x ↔ ∃ w choice,
    action = .advance (.worker w) choice ∧ s.tasks.op (.worker w) = .reapShields x ∧
      c.operation x = true ∧ s.tasks.forcedStopShields x = 0 := by
  constructor
  · intro h
    unfold State.reaps at h
    split at h
    · split at h
      · rename_i y hop
        obtain ⟨⟨hoperation, hzero⟩, heq⟩ := Option.ite_none_right_eq_some.mp h
        obtain rfl := Option.some.inj heq
        exact ⟨_, _, rfl, hop, hoperation, hzero⟩
      · nomatch h
    · nomatch h
  · rintro ⟨w, choice, rfl, hop, hoperation, hzero⟩
    simp [State.reaps, hop, hoperation, hzero]

/-- The reaper unwinds a task of `async`: its `park` throws. -/
theorem Sound.reaped (h : Sound c s) (hexceptions : c.hasExceptions = true)
    (hreaps : s.reaps c action = some x) (hstep : s.tasks.step c.toConfig action = some u) :
    Sound c { s.reaped c x with tasks := u } := by
  obtain ⟨w, choice, rfl, hop, hoperation, hzero⟩ := reaps_eq_some.mp hreaps
  obtain ⟨place, hplaced⟩ := h.placed
  have hplace := hplaced.place_reaped hop
  obtain ⟨-, -, hparking, -⟩ := Exec.Spawn.reapShields_frame hop hzero hstep
  obtain ⟨hexits, hdrops, hdone⟩ := hplaced.quiet hstep (by simp [hplace]) (by simp [hplace])
    (hplaced.not_done hplace)
  have huser := (h.seat x hoperation).reaped hplaced hop
  have hcode : s.code x = .body := by
    cases hcode : s.code x <;> simp_all [Exec.Spawn.Code.isUser]
  unfold State.reaped
  rw [if_pos hexceptions]
  refine h.next _ (Function.update_eq_self x s.code).symm (hplaced.step hstep)
    (fun y _ ↦ ⟨rfl, rfl, rfl, rfl, rfl, rfl⟩) (fun y hne hy ↦ ?_)
    (fun hx ↦ (h.fits x hx).same ⟨rfl, rfl, rfl, rfl, rfl, rfl⟩) fun _ ↦ ?_
  · refine (h.seat y hy).step hplaced hstep ?_ ?_ ?_ ?_ ?_
    · exact fun _ hspawn ↦ by cases hspawn
    · exact fun _ _ hpark ↦ by cases hpark
    · exact fun _ _ hfinish ↦ by cases hfinish
    · rintro b choice' ⟨⟩ hrelease
      rw [hop] at hrelease
      cases hrelease
    · rintro ⟨-, -, v, choice', ⟨⟩, hy'⟩
      rw [hop] at hy'
      exact hne (Tasks.Op.reapShields.inj hy').symm
  · rw [hcode]
    refine Exec.Spawn.seat_reaped hexits hdone rfl (.inl ⟨hparking hexceptions, fun b hb ↦ ?_, rfl⟩)
    have hdrop := (hdrops b hb).1
    rw [hexceptions] at hdrop
    cases hdrop

/-- A step of the tasks. -/
theorem Sound.act (h : Sound c s) (hspared : (c.hasExceptions || (s.reaps c action).isNone) = true)
    (hstep : s.act c action = some t) : Sound c t := by
  obtain ⟨hallows, hmap⟩ := Option.ite_none_right_eq_some.mp hstep
  obtain ⟨u, htask, rfl⟩ := Option.map_eq_some_iff.mp hmap
  cases hreaps : s.reaps c action with
  | some x =>
    rw [hreaps, Option.isNone_some, Bool.or_false] at hspared
    exact h.reaped hspared hreaps htask
  | none =>
    obtain ⟨place, hplaced⟩ := h.placed
    refine ⟨hplaced.step htask, fun x hx ↦ (h.fits x hx).same ⟨rfl, rfl, rfl, rfl, rfl, rfl⟩,
      fun x hx ↦ ?_⟩
    refine (h.seat x hx).step hplaced htask ?_ ?_ ?_ ?_ ?_
    · rintro b rfl
      simp [State.allows, hx] at hallows
    · rintro w hw rfl
      simp only [State.allows, hw, Option.all_some, hx, Bool.not_true, Bool.false_or] at hallows
      cases hcode : s.code x <;> simp_all [Code.isUser, Exec.Spawn.Code.isUser]
    · rintro w hw rfl
      simp only [State.allows, hw, Option.all_some, hx, Bool.not_true, Bool.false_or] at hallows
      cases hcode : s.code x <;> simp_all [Code.isOver]
    · intro b choice _ _
      cases hcode : s.code x <;> simp [Exec.Spawn.Code.isDropping]
    · rintro ⟨-, hzero, w, choice, haction, hop⟩
      have hsome := reaps_eq_some.mpr ⟨w, choice, haction, hop, hx, hzero⟩
      rw [hreaps] at hsome
      cases hsome

/-! ### The consumer -/

omit [DecidableEq κ] in
/-- The consumer's next step in `get`. -/
theorem Fits.get (h : Fits s x) (hstep : s.get x = some t) : Fits t x := by
  obtain ⟨hclaimed, hready, hattached, hwaits, hwhole⟩ := h
  unfold State.get at hstep
  split at hstep
  · obtain ⟨-, heq⟩ := Option.ite_none_right_eq_some.mp hstep
    obtain rfl := Option.some.inj heq
    constructor <;> simp_all
  · obtain rfl := Option.some.inj hstep
    refine ⟨hclaimed, hready, hattached, fun hblocked ↦ ?_, hwhole⟩
    simp only [Function.update_self] at hblocked
    split at hblocked <;> nomatch hblocked
  · split at hstep
    · obtain rfl := Option.some.inj hstep
      constructor <;> simp_all
    · obtain rfl := Option.some.inj hstep
      constructor <;> simp_all
  · nomatch hstep

/-- The consumer goes on. -/
theorem Sound.get (h : Sound c s) (hstep : s.get x = some t) : Sound c t := by
  have hframe : t.tasks = s.tasks ∧ t.code = s.code ∧ ∀ y, y ≠ x → SameAt s t y := by
    unfold State.get at hstep
    split at hstep
    · obtain ⟨-, heq⟩ := Option.ite_none_right_eq_some.mp hstep
      obtain rfl := Option.some.inj heq
      refine ⟨rfl, rfl, fun y hne ↦ ?_⟩
      constructor <;> simp [hne]
    · obtain rfl := Option.some.inj hstep
      refine ⟨rfl, rfl, fun y hne ↦ ?_⟩
      constructor <;> simp [hne]
    · split at hstep <;>
      · obtain rfl := Option.some.inj hstep
        refine ⟨rfl, rfl, fun y hne ↦ ?_⟩
        constructor <;> simp [hne]
    · nomatch hstep
  exact h.consumer hframe.1 hframe.2.1 hframe.2.2 fun _ hx ↦ hx.get hstep

/-- The consumer's `block` returns. -/
theorem Sound.unblock (h : Sound c s) {spurious : Bool} (hstep : s.unblock x spurious = some t) :
    Sound c t := by
  obtain ⟨-, heq⟩ := Option.ite_none_right_eq_some.mp hstep
  obtain rfl := Option.some.inj heq
  refine h.consumer (x := x) rfl rfl (fun y hne ↦ ?_) fun _ hx ↦ ?_
  · constructor <;> simp [hne]
  · obtain ⟨hclaimed, hready, hattached, hwaits, hwhole⟩ := hx
    constructor <;> simp_all

/-- The consumer gives up. -/
theorem Sound.leave (h : Sound c s) (hstep : s.leave x = some t) : Sound c t := by
  obtain ⟨-, heq⟩ := Option.ite_none_right_eq_some.mp hstep
  obtain rfl := Option.some.inj heq
  refine h.consumer (x := x) rfl rfl (fun y hne ↦ ?_) fun _ hx ↦ ?_
  · constructor <;> simp [hne]
  · obtain ⟨hclaimed, hready, hattached, hwaits, hwhole⟩ := hx
    constructor <;> simp_all

/-! ### Runs -/

/-- Every step that spares the tasks of `async` keeps it. -/
theorem Sound.step (h : Sound c s) {action : Action n κ τ} (hspared : spares c s action = true)
    (hstep : Async.step c s action = some t) : Sound c t := by
  cases action with
  | task action => exact h.act hspared hstep
  | async a x =>
    obtain ⟨⟨hcode, -⟩, heq⟩ := Option.ite_none_right_eq_some.mp hstep
    obtain rfl := Option.some.inj heq
    exact h.goto hcode ⟨rfl, rfl, rfl, rfl⟩ fun hx ↦ h.seat_unspawned hx (by rw [hcode]; rfl)
  | spawn a x => exact h.spawn hstep
  | refuse a x =>
    obtain ⟨hcode, heq⟩ := Option.ite_none_right_eq_some.mp hstep
    obtain rfl := Option.some.inj heq
    exact h.goto hcode ⟨rfl, rfl, rfl, rfl⟩ fun hx ↦ h.seat_unspawned hx (by rw [hcode]; rfl)
  | fail a x => exact h.fail hstep
  | finishBody w ending =>
    refine h.finishBody ?_ hstep
    rintro rfl
    nomatch hspared
  | set w => exact h.set hstep
  | storeThrows w => nomatch hspared
  | get x => exact h.get hstep
  | unblock x spurious => exact h.unblock hstep
  | leave x => exact h.leave hstep

theorem sound_initial : Sound c (initial : State n κ τ) := by
  obtain ⟨hcontrol, place, htracked⟩ := Tasks.sound_initial (n := n) (κ := κ) (τ := τ)
  have hplaced : Placed (Tasks.initial : Tasks.State n κ τ) place :=
    ⟨hcontrol, htracked, fun _ _ ↦ rfl⟩
  refine ⟨⟨place, hplaced⟩, fun x _ ↦ ?_, fun x _ ↦ ?_⟩
  · constructor <;> simp [initial]
  · exact Exec.Spawn.seat_unspawned hplaced rfl (fun h ↦ nomatch h) rfl

/-- A call whose spawn has failed or whose task has ended delivers. -/
theorem Sound.delivers (h : Sound c s) (hx : c.operation x = true) : Delivers s x := by
  intro hend
  obtain ⟨-, hready, hattached, hwaits, hwhole⟩ := h.fits x hx
  have hcode : s.code x = .failed ∨ s.code x = .returned := by
    rcases hend with hfailed | hover | hlost | hdone
    · exact Or.inl hfailed
    · cases hcode : s.code x <;> simp_all [Code.isOver]
    · rw [hlost] at hwhole
      nomatch hwhole
    · have hgone := (h.seat x hx).gone hdone
      cases hcode : s.code x <;> simp_all [Exec.Spawn.Code.isOver]
  rcases hcode with hcode | hcode <;>
  · rw [hcode] at hready hwaits
    refine ⟨hready, fun hblocked ↦ ?_⟩
    simp_all

/-- A thread calls `async` and waits for the completion; a worker takes the task and comes to the
body. -/
def blockOn : List (Action 1 Unit Unit) :=
  [Action.async (.foreign ()) (), .spawn (.foreign ()) ()] ++
    (List.replicate 3 (Tasks.Action.advance (.foreign ()) Tasks.plain)).map Action.task ++
    [Action.get (), .get (), .get (), .task (.popInjection 0),
      .task (.advance (.worker 0) Tasks.plain)]

/-- The body returns after the reaper has come for it, and the task is released. -/
def swallows : List (Action 1 Unit Unit) :=
  Tasks.parkAndReap.map Action.task ++
    [Action.finishBody 0 .returned, .set 0, .set 0, .set 0, .set 0, .task (.finish 0)] ++
    (List.replicate 4 (Tasks.Action.advance (.worker 0) Tasks.plain)).map Action.task

/-- The reaper unwinds the body, and the task is released. -/
def unwinds : List (Action 1 Unit Unit) :=
  Tasks.parkAndReap.map Action.task ++ [Action.finishBody 0 .unwound, .task (.finish 0)] ++
    (List.replicate 4 (Tasks.Action.advance (.worker 0) Tasks.plain)).map Action.task

end Stackfull.Runtime.Async
