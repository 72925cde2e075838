import Stackfull.Exec.Spawn
import Stackfull.Sched.SweepSafety
import Stackfull.Sched.TasksExit

/-!
# A spawned operation completes its receiver once

`Fits` says what the place in the code of an operation tells about its receiver, its callback and
its context. `Seat` says what it tells about the task: a task that is in a `park` is in its body or
in the receiver's code, and a task that is being released has returned from `run` or was dropped. So
the reaper finds the task of an operation in one of two places, and every way through the code calls
the receiver once (`spawn_completes_once`).
-/

set_option autoImplicit false
set_option relaxedAutoImplicit false
set_option linter.dupNamespace false

namespace Stackfull.Exec.Spawn

open Stackfull.Lib
open Stackfull.Sched
open Stackfull.Sched.Tasks (Agent Tracked Control Place Leads Next)

universe u v w

variable {n : ℕ} {κ : Type u} {τ : Type v} {ν : Type w}

/-! ### What the place in the code tells -/

namespace Code

/-- The receiver was called. -/
def completed : Code n κ ν → Bool
  | .failed | .receiver _ | .returned | .dropped | .cut | .lost => true
  | _ => false

/-- The callback was destroyed. -/
def severed : Code n κ ν → Bool
  | .refusing _ _ | .clearing _ | .shielding _ | .calling _ | .dropCalling _ => true
  | code => code.completed

/-- The completion that is about to be called. -/
def pending : Code n κ ν → Option (Completion ν)
  | .completing completion | .clearing completion | .shielding completion | .calling completion =>
    some completion
  | .refused _ .operationCanceled | .refusing _ .operationCanceled => some .setStopped
  | .refused _ (.other code) | .refusing _ (.other code) => some (.setErrorCode (.other code))
  | .dropping _ | .dropCalling _ => some .setStopped
  | _ => none

/-- The task's context is the operation. -/
def hasContext : Code n κ ν → Bool
  | .body | .completing _ | .clearing _ | .dropping _ | .dropCalling _ | .dropped => true
  | _ => false

/-- The task was dropped with the operation as its context. -/
def drops : Code n κ ν → Bool
  | .dropping _ | .dropCalling _ | .dropped => true
  | _ => false

/-- The task was dropped. -/
def isDropped : Code n κ ν → Bool
  | .dropping _ | .dropCalling _ | .dropped | .lost => true
  | _ => false

/-- The operation has no task yet, and has none after a spawn that has failed. -/
def unspawned : Code n κ ν → Bool
  | .unstarted | .spawning _ | .refused _ _ | .refusing _ _ | .failed => true
  | _ => false

/-- The task may be gone. -/
def isOver : Code n κ ν → Bool
  | .returned | .dropped | .lost => true
  | _ => false

variable {code : Code n κ ν}

theorem isDropped_of_isDropping (h : code.isDropping = true) :
    code.isDropped = true ∧ code.isUser = false ∧ code.isOver = false := by
  cases code <;> first | exact ⟨rfl, rfl, rfl⟩ | nomatch h

theorem eq_of_isUser (h : code.isUser = true) : code = .body ∨ ∃ base, code = .receiver base := by
  cases code <;> simp_all [isUser]

theorem unspawned_of_isDropped (h : code.isDropped = true) : code.unspawned = false := by
  cases code <;> first | rfl | nomatch h

theorem isOver_of_isDropped (h : code.isDropped = true) (hend : code.isDropping = false) :
    code.isOver = true := by
  cases code <;> first | rfl | cases h <;> nomatch hend

end Code

/-- What the place in the code of an operation tells about the operation. -/
structure Fits (s : State n κ τ ν) (x : τ) : Prop where
  count : (s.completions x).length = (s.code x).completed.toNat
  matching : ∀ completion, completion ∈ s.completions x ∨ (s.code x).pending = some completion →
    ∃ ending, s.ending x = some ending ∧ Matches ending completion
  severed : (s.code x).severed = true → s.callback x = .absent
  context : s.context x = (s.code x).hasContext
  dropped : (s.code x).drops = true → s.ending x = some .dropped
  guarded : ∀ base, s.code x = .receiver base → 0 < base ∧ base ≤ s.tasks.guards x
  calling : ∀ completion, s.code x = .calling completion → 0 < s.tasks.guards x
  uncut : s.code x = .cut ∨ s.code x = .lost →
    ∃ guards, 0 < guards ∧ guards % 2 ^ 8 = 0 ∧ (x, guards) ∈ s.tasks.history.unwound

/-- What the place in the code of an operation tells about its task. -/
structure Seat (u : Tasks.State n κ τ) (code : Code n κ ν) (x : τ) : Prop where
  unspawned : code.unspawned = true → u.published x = false ∧ u.parkState x ≠ .done
  parked : u.published x = true → u.history.parking x = true →
    code.isUser = true ∨ code.isDropped = true
  parks : u.Exits .parked x → code.isUser = true
  finishes : u.Exits .finished x → code = .returned
  ends : ∀ a, x ∈ u.endsOf a → code = .returned ∨ code.isDropped = true
  gone : u.parkState x = .done → code.isOver = true
  dropped : code.isDropped = true → (∃ a, x ∈ u.endsOf a) ∨ u.published x = false

variable [DecidableEq κ] [DecidableEq τ]

/-- What holds of the tasks: everyone is in one place, and who runs is not in a `park` it has
switched out in. -/
structure Placed (u : Tasks.State n κ τ) (place : τ → Option (Place n κ)) : Prop where
  control : Control u
  tracked : Tracked u place
  calm : ∀ x, (place x).map Place.kind = some .running → u.history.parking x = false

/-- What holds in every reachable state. -/
structure Sound (c : Config τ) (s : State n κ τ ν) : Prop where
  placed : ∃ place, Placed s.tasks place
  fits : ∀ x, c.operation x = true → Fits s x
  seat : ∀ x, c.operation x = true → Seat s.tasks (s.code x) x

variable {c : Config τ} {s t : State n κ τ ν} {u u' : Tasks.State n κ τ}
  {place : τ → Option (Place n κ)} {x y : τ} {w : Fin n} {a : Agent n κ}
  {code code' : Code n κ ν} {action : Tasks.Action n κ τ}

/-! ### Where a task is -/

namespace Placed

/-- A step of the tasks. -/
theorem step {d : Tasks.Config} (h : Placed u place) (hstep : u.step d action = some u') :
    ∃ place', Placed u' place' := by
  obtain ⟨hcontrol, place', htracked, hevolves⟩ := Tasks.next_step h.control h.tracked hstep
  exact ⟨place', hcontrol, htracked, fun x ↦ Tasks.calm_next (h.calm x) (hevolves x).view⟩

/-- A task that is somewhere is published. -/
theorem published (h : Placed u place) {p : Place n κ} (hplace : place x = some p) :
    u.published x = true := by
  have hdead := (h.tracked.ok x).dead
  simp only [Tasks.State.view, hplace, Option.map_some, reduceCtorEq] at hdead
  exact Bool.eq_true_of_not_eq_false hdead

/-- A task that is somewhere is not done. -/
theorem not_done (h : Placed u place) {p : Place n κ} (hplace : place x = some p) :
    u.parkState x ≠ .done :=
  (h.tracked.ok x).live (h.published hplace)

theorem place_current (h : Placed u place) (hx : u.current w = some x) :
    place x = some (.running w) := by
  have hcontents : x ∈ u.contents (.running w) := Option.mem_toList.mpr hx
  exact h.tracked.located.mem_iff.mp hcontents

theorem place_ends (h : Placed u place) (hx : x ∈ u.endsOf a) : place x = some (.leaving a) := by
  have hcontents : x ∈ u.contents (.leaving a) := by
    rcases List.mem_append.mp hx with hop | hafter
    · refine List.mem_append_left _ ?_
      generalize u.op a = op at hop
      cases op with
      | arrived hook _ =>
        cases hook with
        | finished => exact hop
        | parked | yielded => nomatch hop
      | release _ => exact hop
      | _ => nomatch hop
    · exact List.mem_append_right _ hafter
  exact h.tracked.located.mem_iff.mp hcontents

theorem place_reaped (h : Placed u place) (hop : u.op a = .reapShields x) :
    place x = some (.parking a) := by
  have hcontents : x ∈ u.contents (.parking a) := by
    simp only [Tasks.State.contents, hop, Tasks.Op.parking, List.mem_singleton]
  exact h.tracked.located.mem_iff.mp hcontents

/-- A task in another place than on a worker is in no call of its own. -/
theorem not_exits (h : Placed u place) (hplace : ∀ w, place x ≠ some (.running w))
    {hook : Tasks.Hook} : ¬ u.Exits hook x := by
  rintro ⟨w, hx, -⟩
  exact hplace w (h.place_current hx)

/-- A task that neither runs nor is released makes no call in a step, and is released after it only
if it is dropped. -/
theorem quiet {d : Tasks.Config} (h : Placed u place) (hstep : u.step d action = some u')
    (hrunning : ∀ w, place x ≠ some (.running w)) (hleaving : ∀ b, place x ≠ some (.leaving b))
    (hdone : u.parkState x ≠ .done) :
    (∀ hook, ¬ u'.Exits hook x) ∧ (∀ b, x ∈ u'.endsOf b → u.Drops d action x) ∧
      u'.parkState x ≠ .done := by
  have hleads := Tasks.leads_step h.control hstep
  refine ⟨fun hook hexit ↦ ?_, fun b hb ↦ ?_, fun hdone' ↦ ?_⟩
  · rcases hleads.exits hook x hexit with hold | ⟨w, hw, -⟩
    · exact h.not_exits hrunning hold
    · exact hrunning w (h.place_current (Tasks.State.of_runningTask hw).2)
  · rcases hleads.ends b x hb with hold | hexit | hdrops
    · exact absurd (h.place_ends hold) (hleaving b)
    · exact absurd hexit (h.not_exits hrunning)
    · exact hdrops
  · rcases hleads.done x hdone' with hold | ⟨b, choice, -, hb⟩
    · exact hdone hold
    · refine hleaving b (h.place_ends ?_)
      rw [Tasks.State.endsOf, hb]
      exact List.mem_append_left _ (List.mem_singleton_self x)

end Placed

/-! ### Places in the code and seats -/

/-- A worker's task is in none of the places that a seat is about. -/
theorem seat_running (h : Placed u place) (hx : u.runningTask w = some x)
    (hspawned : code.unspawned = false) (hdropped : code.isDropped = false) : Seat u code x := by
  obtain ⟨hidle, hcurrent⟩ := Tasks.State.of_runningTask hx
  have hplace := h.place_current hcurrent
  have hexits {hook : Tasks.Hook} : ¬ u.Exits hook x := by
    rintro ⟨v, hv, hexit⟩
    have hsame := (h.place_current hv).symm.trans hplace
    obtain rfl := Place.running.inj (Option.some.inj hsame)
    rw [hidle] at hexit
    nomatch hexit
  constructor
  · intro hnot
    rw [hspawned] at hnot
    nomatch hnot
  · intro _ hparking
    rw [h.calm x (by rw [hplace]; rfl)] at hparking
    nomatch hparking
  · exact fun hexit ↦ absurd hexit hexits
  · exact fun hexit ↦ absurd hexit hexits
  · intro a ha
    have hsame := (h.place_ends ha).symm.trans hplace
    nomatch hsame
  · exact fun hdone ↦ absurd hdone (h.not_done hplace)
  · intro hnot
    rw [hdropped] at hnot
    nomatch hnot

/-- An operation without a task. -/
theorem seat_unspawned (h : Placed u place) (hpublished : u.published x = false)
    (hdone : u.parkState x ≠ .done) (hdropped : code.isDropped = false) : Seat u code x := by
  have hnowhere (p : Place n κ) : place x ≠ some p := by
    intro hplace
    rw [h.published hplace] at hpublished
    nomatch hpublished
  constructor
  · exact fun _ ↦ ⟨hpublished, hdone⟩
  · intro hnot
    rw [hpublished] at hnot
    nomatch hnot
  · exact fun hexit ↦ absurd hexit (h.not_exits fun w ↦ hnowhere _)
  · exact fun hexit ↦ absurd hexit (h.not_exits fun w ↦ hnowhere _)
  · exact fun a ha ↦ absurd (h.place_ends ha) (hnowhere _)
  · exact fun hnot ↦ absurd hnot hdone
  · intro hnot
    rw [hdropped] at hnot
    nomatch hnot

omit [DecidableEq κ] [DecidableEq τ] in
/-- The worker that drops a task goes on. -/
theorem Seat.drop (h : Seat u code x) (hold : code.isDropping = true)
    (hnew : code'.isDropped = true) : Seat u code' x := by
  obtain ⟨hdropped, huser, hover⟩ := Code.isDropped_of_isDropping hold
  constructor
  · intro hnot
    rw [Code.unspawned_of_isDropped hnew] at hnot
    nomatch hnot
  · exact fun _ _ ↦ .inr hnew
  · intro hexit
    rw [h.parks hexit] at huser
    nomatch huser
  · intro hexit
    rw [h.finishes hexit] at hdropped
    nomatch hdropped
  · exact fun _ _ ↦ .inr hnew
  · intro hdone
    rw [h.gone hdone] at hover
    nomatch hover
  · exact fun _ ↦ h.dropped hdropped

/-- The reaper holds a task that is in its body or in the receiver's code. -/
theorem Seat.reaped (h : Seat u code x) (hplaced : Placed u place)
    (hop : u.op a = .reapShields x) : code.isUser = true := by
  have hplace := hplaced.place_reaped hop
  have hparking : u.history.parking x = true := by
    have hslept := (hplaced.tracked.ok x).slept
    simp only [Tasks.State.view, hplace, Option.map_some, Place.kind] at hslept
    exact hslept (.inl trivial)
  rcases h.parked (hplaced.published hplace) hparking with huser | hdropped
  · exact huser
  · rcases h.dropped hdropped with ⟨b, hb⟩ | hpublished
    · have hsame := (hplaced.place_ends hb).symm.trans hplace
      cases hsame
    · rw [hplaced.published hplace] at hpublished
      cases hpublished

/-- A step of the tasks that leaves the place in the code. -/
theorem Seat.step {d : Tasks.Config} (h : Seat u code x) (hplaced : Placed u place)
    (hstep : u.step d action = some u') (hspawn : ∀ b, action ≠ .spawn b x)
    (hpark : ∀ w, u.runningTask w = some x → action = .park w → code.isUser = true)
    (hfinish : ∀ w, u.runningTask w = some x → action = .finish w → code = .returned)
    (hrelease : ∀ b choice, action = .advance b choice → u.op b = .release x →
      code.isDropping = false)
    (hdrops : ¬ u.Drops d action x) : Seat u' code x := by
  have hleads := Tasks.leads_step hplaced.control hstep
  have hpublished (hx : u'.published x = true) : u.published x = true := by
    rcases (Tasks.moves_step hstep).published x hx with hold | ⟨b, hb⟩
    · exact hold
    · exact absurd hb (hspawn b)
  have hreleases {b : Agent n κ} (hb : u.op b = .release x) : x ∈ u.endsOf b := by
    rw [Tasks.State.endsOf, hb]
    exact List.mem_append_left _ (List.mem_singleton_self x)
  constructor
  · intro hcode
    obtain ⟨hunpublished, hdone⟩ := h.unspawned hcode
    refine ⟨?_, fun hdone' ↦ ?_⟩
    · by_contra hx
      rw [hpublished (Bool.eq_true_of_not_eq_false hx)] at hunpublished
      cases hunpublished
    · rcases hleads.done x hdone' with hold | ⟨b, choice, -, hb⟩
      · exact hdone hold
      · rw [hplaced.published (hplaced.place_ends (hreleases hb))] at hunpublished
        cases hunpublished
  · intro hx hparking
    rcases hleads.parking x hparking with hold | hexit
    · exact h.parked (hpublished hx) hold
    · exact .inl (h.parks hexit)
  · intro hexit
    rcases hleads.exits _ x hexit with hold | ⟨w, hw, ⟨hpark', -⟩ | ⟨-, hhook⟩⟩
    · exact h.parks hold
    · exact hpark w hw hpark'
    · cases hhook
  · intro hexit
    rcases hleads.exits _ x hexit with hold | ⟨w, hw, ⟨-, hhook⟩ | ⟨hfinish', -⟩⟩
    · exact h.finishes hold
    · cases hhook
    · exact hfinish w hw hfinish'
  · intro b hb
    rcases hleads.ends b x hb with hold | hexit | hdrop
    · exact h.ends b hold
    · exact .inl (h.finishes hexit)
    · exact absurd hdrop hdrops
  · intro hdone
    rcases hleads.done x hdone with hold | ⟨b, choice, haction, hb⟩
    · exact h.gone hold
    · have hdropping := hrelease b choice haction hb
      rcases h.ends b (hreleases hb) with hreturned | hdropped
      · rw [hreturned]
        rfl
      · exact Code.isOver_of_isDropped hdropped hdropping
  · intro hcode
    rcases h.dropped hcode with ⟨b, hb⟩ | hunpublished
    · exact (hleads.stays b x hb).imp_left fun hb' ↦ ⟨b, hb'⟩
    · right
      by_contra hx
      rw [hpublished (Bool.eq_true_of_not_eq_false hx)] at hunpublished
      cases hunpublished

/-! ### Steps of an operation -/

/-- A step leaves an operation as it is, but for a callback that runs. -/
structure SameAt (s t : State n κ τ ν) (y : τ) : Prop where
  code : t.code y = s.code y
  completions : t.completions y = s.completions y
  ending : t.ending y = s.ending y
  context : t.context y = s.context y
  callback : s.callback y = .absent → t.callback y = .absent

omit [DecidableEq κ] [DecidableEq τ] in
theorem Fits.same (h : Fits s y) (hsame : SameAt s t y)
    (hguards : ∀ base, s.code y = .receiver base → base ≤ s.tasks.guards y → base ≤ t.tasks.guards y)
    (hcalling : ∀ completion, s.code y = .calling completion → 0 < s.tasks.guards y →
      0 < t.tasks.guards y)
    (hunwound : ∀ p ∈ s.tasks.history.unwound, p ∈ t.tasks.history.unwound) : Fits t y := by
  obtain ⟨hcode, hcompletions, hending, hcontext, hcallback⟩ := hsame
  constructor
  · rw [hcompletions, hcode]
    exact h.count
  · rw [hcompletions, hcode, hending]
    exact h.matching
  · rw [hcode]
    exact fun hsevered ↦ hcallback (h.severed hsevered)
  · rw [hcontext, hcode]
    exact h.context
  · rw [hcode, hending]
    exact h.dropped
  · intro base hbase
    rw [hcode] at hbase
    obtain ⟨hpos, hle⟩ := h.guarded base hbase
    exact ⟨hpos, hguards base hbase hle⟩
  · intro completion hcall
    rw [hcode] at hcall
    exact hcalling completion hcall (h.calling completion hcall)
  · rw [hcode]
    intro hcut
    obtain ⟨guards, hpos, hmod, hmem⟩ := h.uncut hcut
    exact ⟨guards, hpos, hmod, hunwound _ hmem⟩

/-- A step of one operation. -/
theorem Sound.next (h : Sound c s) (hcode : t.code = Function.update s.code x code)
    (hplaced : ∃ place, Placed t.tasks place) (hsame : ∀ y, y ≠ x → SameAt s t y)
    (hguards : ∀ y, y ≠ x → t.tasks.guards y = s.tasks.guards y)
    (hunwound : ∀ p ∈ s.tasks.history.unwound, p ∈ t.tasks.history.unwound)
    (hseats : ∀ y, y ≠ x → c.operation y = true → Seat t.tasks (s.code y) y)
    (hfits : c.operation x = true → Fits t x) (hseat : c.operation x = true → Seat t.tasks code x) :
    Sound c t where
  placed := hplaced
  fits y hy := by
    rcases eq_or_ne y x with rfl | hne
    · exact hfits hy
    · refine (h.fits y hy).same (hsame y hne) ?_ ?_ hunwound
      · intro _ _ hle
        rwa [hguards y hne]
      · intro _ _ hpos
        rwa [hguards y hne]
  seat y hy := by
    rcases eq_or_ne y x with rfl | hne
    · rw [hcode, Function.update_self]
      exact hseat hy
    · rw [(hsame y hne).code]
      exact hseats y hne hy

/-- A step of one operation that leaves the tasks. -/
theorem Sound.local (h : Sound c s) (htasks : t.tasks = s.tasks)
    (hcode : t.code = Function.update s.code x code) (hsame : ∀ y, y ≠ x → SameAt s t y)
    (hfits : c.operation x = true → Fits t x) (hseat : c.operation x = true → Seat s.tasks code x) :
    Sound c t := by
  refine h.next hcode (htasks ▸ h.placed) hsame (fun y _ ↦ by rw [htasks]) (fun p hp ↦ htasks ▸ hp)
    ?_ hfits (htasks ▸ hseat)
  intro y _ hy
  rw [htasks]
  exact h.seat y hy

attribute [local simp] Code.completed Code.severed Code.pending Code.hasContext Code.drops
  State.goto State.complete State.ends

/-- `start` constructs the callback. -/
theorem Sound.start (h : Sound c s) (hstep : s.start c a x = some t) : Sound c t := by
  unfold State.start at hstep
  split at hstep
  · rename_i hcode
    split_ifs at hstep with hoperation hforwards hrequested
    all_goals
      obtain rfl := Option.some.inj hstep
      obtain ⟨hcount, hmatching, -, hcontext, -, -, -, -⟩ := h.fits x hoperation
      have hseat := h.seat x hoperation
      obtain ⟨place, hplaced⟩ := h.placed
      rw [hcode] at hcount hmatching hcontext hseat
      obtain ⟨hpublished, hdone⟩ := hseat.unspawned rfl
      refine h.local rfl rfl ?_ (fun _ ↦ ?_) fun _ ↦ seat_unspawned hplaced hpublished hdone rfl
      · intro y hne
        constructor <;> simp [hne]
      · clear * - hcode hcount hmatching hcontext
        constructor <;> simp_all
  · nomatch hstep

/-- `start` without a task. -/
theorem Sound.refuse (h : Sound c s) {error : SpawnError}
    (hstep : s.refuse a x error = some t) : Sound c t := by
  unfold State.refuse at hstep
  split at hstep
  · rename_i b hcode
    split_ifs at hstep
    obtain rfl := Option.some.inj hstep
    obtain ⟨place, hplaced⟩ := h.placed
    refine h.local rfl rfl ?_ (fun hx ↦ ?_) fun hx ↦ ?_
    · intro y hne
      constructor <;> simp [hne]
    · obtain ⟨hcount, hmatching, -, hcontext, -, -, -, -⟩ := h.fits x hx
      rw [hcode] at hcount hmatching hcontext
      clear * - hcode hcount hmatching hcontext
      constructor <;> simp_all
      cases error <;> simp_all <;> constructor
    · have hseat := h.seat x hx
      rw [hcode] at hseat
      obtain ⟨hpublished, hdone⟩ := hseat.unspawned rfl
      exact seat_unspawned hplaced hpublished hdone rfl
  · nomatch hstep

/-- The rest of `start` without a task. -/
theorem Sound.fail (h : Sound c s) (hstep : s.fail a x = some t) : Sound c t := by
  obtain ⟨place, hplaced⟩ := h.placed
  unfold State.fail at hstep
  split at hstep
  · rename_i b error hcode
    split_ifs at hstep
    obtain ⟨t', hstop, rfl⟩ := Option.map_eq_some_iff.mp hstep
    obtain ⟨-, rfl⟩ := Option.ite_none_right_eq_some.mp hstop |>.imp_right Option.some.inj
    refine h.local rfl rfl ?_ (fun hx ↦ ?_) fun hx ↦ ?_
    · intro y hne
      constructor <;> simp [hne]
    · obtain ⟨hcount, hmatching, -, hcontext, -, -, -, -⟩ := h.fits x hx
      rw [hcode] at hcount hmatching hcontext
      clear * - hcode hcount hmatching hcontext
      constructor <;> simp_all
      cases error <;> simp_all
    · have hseat := h.seat x hx
      rw [hcode] at hseat
      obtain ⟨hpublished, hdone⟩ := hseat.unspawned rfl
      exact seat_unspawned hplaced hpublished hdone rfl
  · rename_i b error hcode
    split_ifs at hstep
    obtain rfl := Option.some.inj hstep
    refine h.local rfl rfl ?_ (fun hx ↦ ?_) fun hx ↦ ?_
    · intro y hne
      constructor <;> simp [hne]
    · obtain ⟨hcount, hmatching, hsevered, hcontext, -, -, -, -⟩ := h.fits x hx
      rw [hcode] at hcount hmatching hsevered hcontext
      clear * - hcode hcount hmatching hsevered hcontext
      constructor <;> simp_all
      cases error <;> simp_all
    · have hseat := h.seat x hx
      rw [hcode] at hseat
      obtain ⟨hpublished, hdone⟩ := hseat.unspawned rfl
      exact seat_unspawned hplaced hpublished hdone rfl
  · nomatch hstep

omit [DecidableEq κ] [DecidableEq τ] in
/-- The running task of a worker, if it is that of an operation. -/
theorem operation_of_filter (h : (s.tasks.runningTask w).filter (fun x ↦ c.operation x) = some x) :
    s.tasks.runningTask w = some x ∧ c.operation x = true :=
  Option.filter_eq_some_iff.mp h

/-- The body ends. -/
theorem Sound.finishBody (h : Sound c s) {ending : Ending ν}
    (hstep : s.finishBody c w ending = some t) : Sound c t := by
  obtain ⟨x, hfilter, hend⟩ := Option.bind_eq_some_iff.mp hstep
  obtain ⟨hx, hoperation⟩ := operation_of_filter hfilter
  obtain ⟨place, hplaced⟩ := h.placed
  have hends {completion : Completion ν} (hcode : s.code x = .body)
      (hmatches : Matches ending completion) :
      Sound c ((s.ends x ending).goto x (.completing completion)) := by
    refine h.local rfl rfl ?_ (fun _ ↦ ?_) fun _ ↦ seat_running hplaced hx rfl rfl
    · intro y hne
      constructor <;> simp [hne]
    · obtain ⟨hcount, hmatching, -, hcontext, -, -, -, -⟩ := h.fits x hoperation
      rw [hcode] at hcount hmatching hcontext
      clear * - hcode hmatches hcount hmatching hcontext
      constructor <;> simp_all
  split at hend
  · rename_i value hcode
    exact Option.some.inj hend ▸ hends hcode (.returned value)
  · rename_i error hcode
    split_ifs at hend
    exact Option.some.inj hend ▸ hends hcode (.threw error)
  · rename_i hcode
    split_ifs at hend
    exact Option.some.inj hend ▸ hends hcode .threwStopped
  · rename_i hcode
    split_ifs at hend
    exact Option.some.inj hend ▸ hends hcode .unwound
  · nomatch hend

omit [DecidableEq κ] [DecidableEq τ] in
/-- A seat is not about guards. -/
theorem Seat.setGuards (h : Seat u code x) (guards : τ → ℕ) :
    Seat { u with guards := guards } code x :=
  ⟨h.unspawned, h.parked, h.parks, h.finishes, h.ends, h.gone, h.dropped⟩

/-- A guard of the running task is opened or closed. -/
theorem Sound.guard (h : Sound c s) (hx : s.tasks.runningTask w = some x)
    (hstep : s.tasks.step c.toConfig action = some u)
    (haction : action = .shield w ∨ action = .unshield w)
    (hcode : code.unspawned = false) (hdropped : code.isDropped = false)
    (hfits : c.operation x = true → Fits { s.goto x code with tasks := u } x) :
    Sound c { s.goto x code with tasks := u } := by
  obtain ⟨place, hplaced⟩ := h.placed
  have hupdate : ∃ guards, u = { s.tasks with guards := Function.update s.tasks.guards x guards } := by
    rcases haction with rfl | rfl
    · obtain ⟨y, hy, rfl⟩ := Option.map_eq_some_iff.mp hstep
      obtain rfl := Option.some.inj (hx.symm.trans hy)
      exact ⟨_, rfl⟩
    · obtain ⟨y, hy, rfl⟩ := Option.map_eq_some_iff.mp hstep
      obtain rfl := Option.some.inj (hx.symm.trans (Option.filter_eq_some_iff.mp hy).1)
      exact ⟨_, rfl⟩
  obtain ⟨guards, rfl⟩ := hupdate
  refine h.next rfl (hplaced.step hstep) ?_ ?_ (fun _ hp ↦ hp) (fun y hne hy ↦ ?_) hfits
    fun _ ↦ ?_
  · intro y hne
    constructor <;> simp [hne]
  · exact fun y hne ↦ Function.update_of_ne hne _ _
  · exact (h.seat y hy).setGuards _
  · exact (seat_running hplaced hx hcode hdropped).setGuards _

/-- The next step of `run` and of `complete`. -/
theorem Sound.run (h : Sound c s) (hstep : s.run c w = some t) : Sound c t := by
  obtain ⟨x, hfilter, hrun⟩ := Option.bind_eq_some_iff.mp hstep
  obtain ⟨hx, hoperation⟩ := operation_of_filter hfilter
  obtain ⟨place, hplaced⟩ := h.placed
  obtain ⟨hcount, hmatching, hsevered, hcontext, -, -, hcalling, -⟩ := h.fits x hoperation
  split at hrun
  · rename_i hcode
    obtain rfl := Option.some.inj hrun
    rw [hcode] at hcount hmatching
    refine h.local rfl rfl ?_ (fun _ ↦ ?_) fun _ ↦ seat_running hplaced hx rfl rfl
    · intro y hne
      constructor <;> simp [hne]
    · clear * - hcode hcount hmatching hsevered hcontext hcalling
      constructor <;> simp_all
  · rename_i completion hcode
    obtain ⟨t', hstop, rfl⟩ := Option.map_eq_some_iff.mp hrun
    obtain ⟨-, rfl⟩ := Option.ite_none_right_eq_some.mp hstop |>.imp_right Option.some.inj
    rw [hcode] at hcount hmatching hcontext
    refine h.local rfl rfl ?_ (fun _ ↦ ?_) fun _ ↦ seat_running hplaced hx rfl rfl
    · intro y hne
      constructor <;> simp [hne]
    · clear * - hcode hcount hmatching hsevered hcontext hcalling
      constructor <;> simp_all
  · rename_i completion hcode
    obtain rfl := Option.some.inj hrun
    rw [hcode] at hcount hmatching hsevered
    refine h.local rfl rfl ?_ (fun _ ↦ ?_) fun _ ↦ seat_running hplaced hx rfl rfl
    · intro y hne
      constructor <;> simp [hne]
    · clear * - hcode hcount hmatching hsevered hcontext hcalling
      constructor <;> simp_all
  · rename_i completion hcode
    obtain ⟨u, hshield, rfl⟩ := Option.map_eq_some_iff.mp hrun
    rw [hcode] at hcount hmatching hsevered hcontext
    refine h.guard hx hshield (.inl rfl) rfl rfl fun _ ↦ ?_
    obtain ⟨y, hy, rfl⟩ := Option.map_eq_some_iff.mp hshield
    obtain rfl := Option.some.inj (hx.symm.trans hy)
    clear * - hcode hcount hmatching hsevered hcontext hcalling
    constructor <;> simp_all
  · rename_i completion hcode
    obtain rfl := Option.some.inj hrun
    have hpos := hcalling completion hcode
    rw [hcode] at hcount hmatching hsevered hcontext
    refine h.local rfl rfl ?_ (fun _ ↦ ?_) fun _ ↦ seat_running hplaced hx rfl rfl
    · intro y hne
      constructor <;> simp [hne]
    · clear * - hcode hcount hmatching hsevered hcontext hcalling hpos
      constructor <;> simp_all
  · nomatch hrun

/-- The receiver's code returns. -/
theorem Sound.finishReceiver (h : Sound c s) (hstep : s.finishReceiver c w = some t) :
    Sound c t := by
  obtain ⟨x, hfilter, hrun⟩ := Option.bind_eq_some_iff.mp hstep
  obtain ⟨hx, hoperation⟩ := operation_of_filter hfilter
  split at hrun
  · rename_i base hcode
    split_ifs at hrun
    obtain ⟨u, hunshield, rfl⟩ := Option.map_eq_some_iff.mp hrun
    obtain ⟨hcount, hmatching, hsevered, hcontext, -, -, -, -⟩ := h.fits x hoperation
    rw [hcode] at hcount hmatching hsevered hcontext
    refine h.guard hx hunshield (.inr rfl) rfl rfl fun _ ↦ ?_
    clear * - hcode hcount hmatching hsevered hcontext
    constructor <;> simp_all
  · nomatch hrun

/-- The next step of `dropped`. -/
theorem Sound.drop (h : Sound c s) (hstep : s.drop w x = some t) : Sound c t := by
  unfold State.drop at hstep
  split at hstep
  · rename_i v hcode
    split_ifs at hstep
    obtain ⟨t', hstop, rfl⟩ := Option.map_eq_some_iff.mp hstep
    obtain ⟨-, rfl⟩ := Option.ite_none_right_eq_some.mp hstop |>.imp_right Option.some.inj
    refine h.local rfl rfl ?_ (fun hx ↦ ?_) fun hx ↦ ?_
    · intro y hne
      constructor <;> simp [hne]
    · obtain ⟨hcount, hmatching, -, hcontext, hdropped, -, -, -⟩ := h.fits x hx
      rw [hcode] at hcount hmatching hcontext hdropped
      clear * - hcode hcount hmatching hcontext hdropped
      constructor <;> simp_all
    · have hseat := h.seat x hx
      rw [hcode] at hseat
      exact hseat.drop rfl rfl
  · rename_i v hcode
    split_ifs at hstep
    obtain rfl := Option.some.inj hstep
    refine h.local rfl rfl ?_ (fun hx ↦ ?_) fun hx ↦ ?_
    · intro y hne
      constructor <;> simp [hne]
    · obtain ⟨hcount, hmatching, hsevered, hcontext, hdropped, -, -, -⟩ := h.fits x hx
      rw [hcode] at hcount hmatching hsevered hcontext hdropped
      clear * - hcode hcount hmatching hsevered hcontext hdropped
      constructor <;> simp_all
    · have hseat := h.seat x hx
      rw [hcode] at hseat
      exact hseat.drop rfl rfl
  · nomatch hstep

/-- A step that is about the callback. -/
theorem Sound.callback (h : Sound c s) (htasks : t.tasks = s.tasks) (hcode : t.code = s.code)
    (hcompletions : t.completions = s.completions) (hending : t.ending = s.ending)
    (hcontext : t.context = s.context)
    (hcallback : ∀ y, s.callback y = .absent → t.callback y = .absent) : Sound c t where
  placed := htasks ▸ h.placed
  fits y hy := by
    refine (h.fits y hy).same ?_ ?_ ?_ ?_
    · exact ⟨by rw [hcode], by rw [hcompletions], by rw [hending], by rw [hcontext], hcallback y⟩
    · intro _ _ hle
      rwa [htasks]
    · intro _ _ hpos
      rwa [htasks]
    · rw [htasks]
      exact fun _ hp ↦ hp
  seat y hy := by
    rw [htasks, hcode]
    exact h.seat y hy

omit [DecidableEq τ] in
/-- A call concerns the caller. -/
theorem enter_frame {op : Tasks.Op τ} (h : u.enter a op = some u') :
    u'.history = u.history ∧ u'.guards = u.guards := by
  unfold Tasks.State.enter at h
  split at h
  · exact Option.some.inj h ▸ ⟨rfl, rfl⟩
  · exact Option.some.inj h ▸ ⟨rfl, rfl⟩
  · exact Option.some.inj h ▸ ⟨rfl, rfl⟩
  · nomatch h

/-- What a spawn does to the guards and the history. -/
theorem spawn_frame {d : Tasks.Config} (h : u.step d (.spawn a x) = some u') :
    u'.history.parking x = false ∧ u'.history.unwound = u.history.unwound ∧
      ∀ y, y ≠ x → u'.guards y = u.guards y := by
  simp only [Tasks.State.step.eq_def] at h
  split_ifs at h
  obtain ⟨hhistory, hguards⟩ := enter_frame h
  rw [hhistory, hguards]
  refine ⟨Function.update_self _ _ _, rfl, fun y hne ↦ Function.update_of_ne hne _ _⟩

/-- `start` spawns the task. -/
theorem Sound.spawn (h : Sound c s) (hstep : s.spawn c a x = some t) : Sound c t := by
  unfold State.spawn at hstep
  split at hstep
  · rename_i b hcode
    split_ifs at hstep
    obtain ⟨u, hspawn, rfl⟩ := Option.map_eq_some_iff.mp hstep
    obtain ⟨place, hplaced⟩ := h.placed
    obtain ⟨hparking, hunwound, hguards⟩ := spawn_frame hspawn
    refine h.next rfl (hplaced.step hspawn) ?_ hguards (fun p hp ↦ hunwound ▸ hp) ?_ (fun hx ↦ ?_)
      fun hx ↦ ?_
    · intro y hne
      constructor <;> simp [hne]
    · intro y hne hy
      refine (h.seat y hy).step hplaced hspawn ?_ ?_ ?_ ?_ ?_
      · rintro b ⟨⟩
        exact hne rfl
      · exact fun _ _ hpark ↦ nomatch hpark
      · exact fun _ _ hfinish ↦ nomatch hfinish
      · exact fun _ _ hadvance ↦ nomatch hadvance
      · rintro ⟨-, -, w, choice, hadvance, -⟩
        nomatch hadvance
    · obtain ⟨hcount, hmatching, -, hcontext, -, -, -, -⟩ := h.fits x hx
      rw [hcode] at hcount hmatching hcontext
      clear * - hcode hcount hmatching hcontext
      constructor <;> simp_all
    · have hseat := h.seat x hx
      rw [hcode] at hseat
      obtain ⟨hpublished, hdone⟩ := hseat.unspawned rfl
      have hnowhere (p : Place n κ) : place x ≠ some p := by
        intro hplace
        rw [hplaced.published hplace] at hpublished
        nomatch hpublished
      obtain ⟨hexits, hends, hdone'⟩ := hplaced.quiet hspawn (fun w ↦ hnowhere _)
        (fun b ↦ hnowhere _) hdone
      constructor
      · exact fun hnot ↦ nomatch hnot
      · intro _ hnot
        rw [hparking] at hnot
        nomatch hnot
      · exact fun hexit ↦ absurd hexit (hexits _)
      · exact fun hexit ↦ absurd hexit (hexits _)
      · intro b hb
        obtain ⟨-, -, w, choice, haction, -⟩ := hends b hb
        nomatch haction
      · exact fun hnot ↦ absurd hnot hdone'
      · exact fun hnot ↦ nomatch hnot
  · nomatch hstep

/-! ### Steps of the tasks -/

/-- What the reaper's look at the shields of a task does if it finds none. -/
theorem reapShields_frame {d : Tasks.Config} {choice : Tasks.Choice}
    (hop : u.op (.worker w) = .reapShields x) (hzero : u.forcedStopShields x = 0)
    (hstep : u.step d (.advance (.worker w) choice) = some u') :
    u'.guards = u.guards ∧ u'.history.unwound = u.history.unwound ++ [(x, u.guards x)] ∧
      (d.hasExceptions = true → u'.history.parking x = false) ∧
      (d.hasExceptions = false → x ∈ u'.endsOf (.worker w)) := by
  have hadvance : u' = u.reapShields d w x := by
    simp only [Tasks.State.step.eq_def, Tasks.State.advance.eq_def, hop, Option.some.injEq] at hstep
    exact hstep.symm
  subst hadvance
  unfold Tasks.State.reapShields
  rw [if_neg (not_not.mpr hzero)]
  split_ifs with hexceptions
  · refine ⟨rfl, rfl, fun _ ↦ ?_, fun hnot ↦ ?_⟩
    · exact Function.update_self _ _ _
    · rw [hexceptions] at hnot
      cases hnot
  · refine ⟨rfl, rfl, fun hyes ↦ absurd hyes hexceptions, fun _ ↦ ?_⟩
    simp [Tasks.State.endsOf, Tasks.Op.ends]

omit [DecidableEq κ] [DecidableEq τ] in
/-- A task that the reaper has unwound or dropped. -/
theorem seat_reaped (hexits : ∀ hook, ¬ u.Exits hook x) (hdone : u.parkState x ≠ .done)
    (hspawned : code.unspawned = false)
    (hcode : u.history.parking x = false ∧ (∀ b, x ∉ u.endsOf b) ∧ code.isDropped = false ∨
      code.isDropped = true ∧ ∃ b, x ∈ u.endsOf b) : Seat u code x := by
  constructor
  · intro hnot
    rw [hspawned] at hnot
    nomatch hnot
  · intro _ hparking
    rcases hcode with ⟨hnot, -, -⟩ | ⟨hdropped, -⟩
    · rw [hnot] at hparking
      nomatch hparking
    · exact .inr hdropped
  · exact fun hexit ↦ absurd hexit (hexits _)
  · exact fun hexit ↦ absurd hexit (hexits _)
  · intro b hb
    rcases hcode with ⟨-, hnot, -⟩ | ⟨hdropped, -⟩
    · exact absurd hb (hnot b)
    · exact .inr hdropped
  · exact fun hnot ↦ absurd hnot hdone
  · intro hdropped
    rcases hcode with ⟨-, -, hnot⟩ | ⟨-, hends⟩
    · rw [hnot] at hdropped
      nomatch hdropped
    · exact .inl hends

/-- The reaper unwinds or drops the task of an operation. -/
theorem Sound.reaped (h : Sound c s) {choice : Tasks.Choice} (hoperation : c.operation x = true)
    (hop : s.tasks.op (.worker w) = .reapShields x) (hzero : s.tasks.forcedStopShields x = 0)
    (hstep : s.tasks.step c.toConfig (.advance (.worker w) choice) = some u) :
    Sound c { s.reaped c w x with tasks := u } := by
  obtain ⟨place, hplaced⟩ := h.placed
  have hplace := hplaced.place_reaped hop
  obtain ⟨hguards, hunwound, hparking, hends⟩ := reapShields_frame hop hzero hstep
  obtain ⟨hexits, hdrops, hdone⟩ := hplaced.quiet hstep (by simp [hplace]) (by simp [hplace])
    (hplaced.not_done hplace)
  have huser := (h.seat x hoperation).reaped hplaced hop
  have hseats (y : τ) (hne : y ≠ x) (hy : c.operation y = true) : Seat u (s.code y) y := by
    refine (h.seat y hy).step hplaced hstep ?_ ?_ ?_ ?_ ?_
    · exact fun _ hspawn ↦ by cases hspawn
    · exact fun _ _ hpark ↦ by cases hpark
    · exact fun _ _ hfinish ↦ by cases hfinish
    · rintro b choice' ⟨⟩ hrelease
      rw [hop] at hrelease
      cases hrelease
    · rintro ⟨-, -, v, choice', ⟨⟩, hy'⟩
      rw [hop] at hy'
      exact hne (Tasks.Op.reapShields.inj hy').symm
  have hkeeps : ∀ p ∈ s.tasks.history.unwound, p ∈ u.history.unwound := by
    rw [hunwound]
    exact fun p hp ↦ List.mem_append_left _ hp
  have hcut (base : ℕ) (hcode : s.code x = .receiver base) : ∃ guards, 0 < guards ∧
      guards % 2 ^ 8 = 0 ∧ (x, guards) ∈ u.history.unwound := by
    obtain ⟨hpos, hle⟩ := (h.fits x hoperation).guarded base hcode
    refine ⟨s.tasks.guards x, lt_of_lt_of_le hpos hle, hzero, ?_⟩
    rw [hunwound]
    exact List.mem_append_right _ (List.mem_singleton_self _)
  obtain ⟨hcount, hmatching, hsevered, hcontext, -, -, -, -⟩ := h.fits x hoperation
  unfold State.reaped
  split_ifs with hexceptions hset
  · have hnotDropped (b : Agent n κ) (hb : x ∈ u.endsOf b) : False := by
      have hdrops' := (hdrops b hb).1
      rw [hexceptions] at hdrops'
      cases hdrops'
    split
    · rename_i base hcode
      have huncut := hcut base hcode
      rw [hcode] at hcount hmatching hsevered hcontext
      refine h.next rfl (hplaced.step hstep) ?_ (fun y _ ↦ congrFun hguards y) hkeeps hseats
        (fun _ ↦ ?_) fun _ ↦ ?_
      · intro y hne
        constructor <;> simp [hne]
      · clear * - hcount hmatching hsevered hcontext huncut
        constructor <;> simp_all
      · exact seat_reaped hexits hdone rfl (.inl ⟨hparking hexceptions, hnotDropped, rfl⟩)
    · rename_i hnot
      have hcode : s.code x = .body :=
        (Code.eq_of_isUser huser).resolve_right fun ⟨base, hcode⟩ ↦ hnot base hcode
      rw [hcode] at hcount hmatching hcontext
      refine h.next (Function.update_eq_self x s.code).symm (hplaced.step hstep) ?_
        (fun y _ ↦ congrFun hguards y) hkeeps hseats (fun _ ↦ ?_) fun _ ↦ ?_
      · exact fun y _ ↦ ⟨rfl, rfl, rfl, rfl, id⟩
      · clear * - hcode hcount hmatching hsevered hcontext
        constructor <;> simp_all
      · rw [hcode]
        exact seat_reaped hexits hdone rfl (.inl ⟨hparking hexceptions, hnotDropped, rfl⟩)
  · have hcode : s.code x = .body := by
      refine (Code.eq_of_isUser huser).resolve_right fun ⟨base, hcode⟩ ↦ ?_
      rw [hcode] at hcontext
      exact absurd (hset.symm.trans hcontext) (by simp)
    rw [hcode] at hcount hmatching hcontext
    refine h.next rfl (hplaced.step hstep) ?_ (fun y _ ↦ congrFun hguards y) hkeeps hseats
      (fun _ ↦ ?_) fun _ ↦ ?_
    · intro y hne
      constructor <;> simp [hne]
    · clear * - hcount hmatching hsevered hcontext hset
      constructor <;> simp_all
      exact .dropped
    · exact seat_reaped hexits hdone rfl
        (.inr ⟨rfl, .worker w, hends (Bool.eq_false_of_not_eq_true hexceptions)⟩)
  · have hreceiver : ∃ base, s.code x = .receiver base := by
      refine (Code.eq_of_isUser huser).resolve_left fun hcode ↦ ?_
      rw [hcode] at hcontext
      exact hset hcontext
    obtain ⟨base, hcode⟩ := hreceiver
    have huncut := hcut base hcode
    rw [hcode] at hcount hmatching hsevered hcontext
    refine h.next rfl (hplaced.step hstep) ?_ (fun y _ ↦ congrFun hguards y) hkeeps hseats
      (fun _ ↦ ?_) fun _ ↦ ?_
    · intro y hne
      constructor <;> simp [hne]
    · clear * - hcount hmatching hsevered hcontext hset huncut
      constructor <;> simp_all
    · exact seat_reaped hexits hdone rfl
        (.inr ⟨rfl, .worker w, hends (Bool.eq_false_of_not_eq_true hexceptions)⟩)

/-- A step that the code of an operation allows keeps the guards that the receiver was called with.
-/
theorem guards_of_allows (hoperation : c.operation x = true) (hallows : s.allows c action = true)
    (hplaced : Placed s.tasks place) (hstep : s.tasks.step c.toConfig action = some u) :
    (∀ base, s.code x = .receiver base → base ≤ s.tasks.guards x → base ≤ u.guards x) ∧
      ∀ completion, s.code x = .calling completion → 0 < s.tasks.guards x → 0 < u.guards x := by
  have hkeeps (hsame : u.guards x = s.tasks.guards x) :
      (∀ base, s.code x = .receiver base → base ≤ s.tasks.guards x → base ≤ u.guards x) ∧
      ∀ completion, s.code x = .calling completion → 0 < s.tasks.guards x → 0 < u.guards x := by
    rw [hsame]
    exact ⟨fun _ _ h ↦ h, fun _ _ h ↦ h⟩
  by_cases hsets : action.setsGuards = false
  · exact hkeeps (congrFun ((Tasks.leads_step hplaced.control hstep).guards hsets) x)
  · cases action with
    | shield w =>
      obtain ⟨y, hy, rfl⟩ := Option.map_eq_some_iff.mp hstep
      rcases eq_or_ne x y with rfl | hne
      · simp only [Function.update_self]
        exact ⟨fun _ _ h ↦ Nat.le_succ_of_le h, fun _ _ h ↦ Nat.succ_pos _⟩
      · exact hkeeps (Function.update_of_ne hne _ _)
    | unshield w =>
      obtain ⟨y, hy, rfl⟩ := Option.map_eq_some_iff.mp hstep
      rcases eq_or_ne x y with rfl | hne
      · simp only [Function.update_self]
        simp only [State.allows, (Option.filter_eq_some_iff.mp hy).1, Option.all_some, hoperation,
          Bool.not_true, Bool.false_or] at hallows
        refine ⟨fun base hcode _ ↦ ?_, fun completion hcode _ ↦ ?_⟩
        · rw [hcode] at hallows
          exact Nat.le_sub_one_of_lt (of_decide_eq_true hallows)
        · rw [hcode] at hallows
          nomatch hallows
      · exact hkeeps (Function.update_of_ne hne _ _)
    | spawn a y =>
      refine hkeeps ((spawn_frame hstep).2.2 x ?_)
      rintro rfl
      simp [State.allows, hoperation] at hallows
    | _ => exact absurd rfl hsets

/-- The reaper's look at the shields is the step that concerns the operations. -/
theorem follow_cases (hstep : s.tasks.step c.toConfig action = some u) :
    s.follow c action = s ∧ (∀ x, c.operation x = true → ¬ s.tasks.Drops c.toConfig action x) ∨
      ∃ w choice x, action = .advance (.worker w) choice ∧ s.tasks.op (.worker w) = .reapShields x ∧
        c.operation x = true ∧ s.tasks.forcedStopShields x = 0 ∧
        s.follow c action = s.reaped c w x := by
  by_cases hreap : ∃ w choice x, action = .advance (.worker w) choice ∧
      s.tasks.op (.worker w) = .reapShields x ∧ c.operation x = true ∧
      s.tasks.forcedStopShields x = 0
  · obtain ⟨w, choice, x, rfl, hop, hoperation, hzero⟩ := hreap
    exact .inr ⟨w, choice, x, rfl, hop, hoperation, hzero, by simp [State.follow, hop, hoperation, hzero]⟩
  · refine .inl ⟨?_, ?_⟩
    · unfold State.follow
      split
      · split
        · rename_i hop
          rw [if_neg]
          rintro ⟨hoperation, hzero⟩
          exact hreap ⟨_, _, _, rfl, hop, hoperation, hzero⟩
        · rfl
      · rfl
    · rintro x hoperation ⟨-, hzero, w, choice, haction, hop⟩
      exact hreap ⟨w, choice, x, haction, hop, hoperation, hzero⟩

/-- A step of the tasks. -/
theorem Sound.act (h : Sound c s) (hstep : s.act c action = some t) : Sound c t := by
  obtain ⟨hallows, hmap⟩ := Option.ite_none_right_eq_some.mp hstep
  obtain ⟨u, htask, rfl⟩ := Option.map_eq_some_iff.mp hmap
  rcases follow_cases (s := s) (c := c) htask with
    ⟨hfollow, hdrops⟩ | ⟨w, choice, x, rfl, hop, hoperation, hzero, hfollow⟩
  · rw [hfollow]
    obtain ⟨place, hplaced⟩ := h.placed
    refine ⟨hplaced.step htask, fun x hx ↦ ?_, fun x hx ↦ ?_⟩
    · obtain ⟨hguards, hcalling⟩ := guards_of_allows hx hallows hplaced htask
      refine (h.fits x hx).same ⟨rfl, rfl, rfl, rfl, id⟩ hguards hcalling ?_
      rcases Tasks.unwound_step htask with hsame | ⟨_, _, _, _, _, _, hadd⟩
      · exact fun p hp ↦ hsame ▸ hp
      · intro p hp
        change p ∈ u.history.unwound
        rw [hadd]
        exact List.mem_append_left _ hp
    · refine (h.seat x hx).step hplaced htask ?_ ?_ ?_ ?_ (hdrops x hx)
      · rintro b rfl
        simp [State.allows, hx] at hallows
      · rintro w hw rfl
        simpa [State.allows, hw, hx] using hallows
      · rintro w hw rfl
        simp only [State.allows, hw, Option.all_some, hx, Bool.not_true, Bool.false_or] at hallows
        split at hallows
        · assumption
        · nomatch hallows
      · rintro b choice rfl hrelease
        simpa [State.allows, hrelease, hx] using hallows
  · rw [hfollow]
    exact h.reaped hoperation hop hzero htask

/-! ### Runs -/

/-- Every step keeps it. -/
theorem Sound.step (h : Sound c s) {action : Action n κ τ ν}
    (hstep : Spawn.step c s action = some t) : Sound c t := by
  cases action with
  | task action => exact h.act hstep
  | start a x => exact h.start hstep
  | spawn a x => exact h.spawn hstep
  | refuse a x error => exact h.refuse hstep
  | fail a x => exact h.fail hstep
  | finishBody w ending => exact h.finishBody hstep
  | run w => exact h.run hstep
  | finishReceiver w => exact h.finishReceiver hstep
  | drop w x => exact h.drop hstep
  | requestStop x =>
    obtain rfl := Option.some.inj hstep
    exact h.callback rfl rfl rfl rfl rfl fun _ hy ↦ hy
  | invoke a x =>
    obtain ⟨⟨-, hregistered⟩, hsome⟩ := Option.ite_none_right_eq_some.mp hstep
    obtain rfl := Option.some.inj hsome
    refine h.callback rfl rfl rfl rfl rfl fun y hy ↦ ?_
    rcases eq_or_ne y x with rfl | hne
    · rw [hregistered] at hy
      nomatch hy
    · exact (Function.update_of_ne hne _ _).trans hy
  | forward a x =>
    obtain ⟨hrunning, hsome⟩ := Option.ite_none_right_eq_some.mp hstep
    obtain rfl := Option.some.inj hsome
    refine h.callback rfl rfl rfl rfl rfl fun y hy ↦ ?_
    rcases eq_or_ne y x with rfl | hne
    · rw [hrunning] at hy
      nomatch hy
    · exact (Function.update_of_ne hne _ _).trans hy

theorem sound_initial : Sound c (initial : State n κ τ ν) := by
  obtain ⟨hcontrol, place, htracked⟩ := Tasks.sound_initial (n := n) (κ := κ) (τ := τ)
  have hplaced : Placed (Tasks.initial : Tasks.State n κ τ) place :=
    ⟨hcontrol, htracked, fun _ _ ↦ rfl⟩
  refine ⟨⟨place, hplaced⟩, fun x _ ↦ ?_, fun x _ ↦ ?_⟩
  · constructor <;> simp [initial]
  · exact seat_unspawned hplaced rfl (fun h ↦ nomatch h) rfl

omit [DecidableEq κ] [DecidableEq τ] in
/-- Who has called the receiver is past the call. -/
theorem Fits.completed (h : Fits s x) (hne : s.completions x ≠ []) :
    (s.code x).completed = true := by
  by_contra hnot
  have hcount := h.count
  rw [Bool.eq_false_of_not_eq_true hnot] at hcount
  exact hne (List.length_eq_zero_iff.mp hcount)

omit [DecidableEq κ] [DecidableEq τ] in
/-- What is promised of an operation. -/
theorem Fits.contract (h : Fits s x) (hseat : Seat s.tasks (s.code x) x) : Contract s x where
  once := by
    rw [h.count]
    exact Bool.toNat_le _
  ended := by
    intro hend
    rw [h.count]
    have hcompleted : (s.code x).completed = true := by
      rcases hend with hdone | hfailed
      · have hover := hseat.gone hdone
        cases hcode : s.code x <;> simp_all [Code.isOver]
      · rw [hfailed]
        rfl
    rw [hcompleted]
    rfl
  matching completion hin := h.matching completion (.inl hin)
  forwarding := by
    intro hne
    have hcompleted := h.completed hne
    refine h.severed ?_
    cases hcode : s.code x <;> simp_all
  cleared := by
    intro hne
    have hcompleted := h.completed hne
    have hcontext := h.context
    have hdropped := h.dropped
    cases hcode : s.code x <;> simp_all
  guarded base hcode := by
    obtain ⟨hpos, hle⟩ := h.guarded base hcode
    exact lt_of_lt_of_le hpos hle
  uncut := h.uncut

/-- A thread starts an operation, and a worker takes its task and comes to the body. -/
def runBody : List (Action 1 Unit Unit ℕ) :=
  [Action.start (.foreign ()) (), .spawn (.foreign ()) ()] ++
    (List.replicate 3 (Tasks.Action.advance (.foreign ()) Tasks.plain)).map Action.task ++
    [Action.task (.popInjection 0), .task (.advance (.worker 0) Tasks.plain), .run 0]

/-- The receiver's stop token is requested, the reaper unwinds the task, and `run` goes on to its
end; then the task is released. -/
def unwindBody : List (Action 1 Unit Unit ℕ) :=
  [Action.requestStop (), .invoke (.foreign ()) (), .forward (.foreign ()) ()] ++
    Tasks.parkAndReap.map Action.task ++
    [Action.finishBody 0 .unwound, .run 0, .run 0, .run 0, .run 0, .finishReceiver 0,
      .task (.finish 0)] ++
    (List.replicate 4 (Tasks.Action.advance (.worker 0) Tasks.plain)).map Action.task

/-- Without exceptions the reaper drops the task. -/
def dropBody : List (Action 1 Unit Unit ℕ) :=
  Tasks.parkAndReap.map Action.task ++ [Action.drop 0 (), .drop 0 ()]

/-- The body returns, the receiver's code opens 255 guards of its own, and the reaper unwinds the
task. -/
def unwindReceiver : List (Action 1 Unit Unit ℕ) :=
  [Action.finishBody 0 (.returned 7), .run 0, .run 0, .run 0, .run 0] ++
    List.replicate 255 (Action.task (.shield 0)) ++ Tasks.parkAndReap.map Action.task

end Stackfull.Exec.Spawn
