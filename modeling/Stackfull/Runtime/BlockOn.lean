import Stackfull.Sync.CompletionSafety

/-!
# What `blockOn` and `blocking` hand back

`async`, `runGuarded`, `unwrap`, `blockOn` and `blocking` (`runtime/Runtime.h`) with the failure
exits of `createTask` (`TaskFactory.h`), over the completion they share. The caller and the body's
task are its two producers, and the caller is its consumer. A call of `blockOn` may be refused a
task, and the move of the body into the task may throw; `blocking` on a task may fail to hand the
job over, and on a thread it runs the body itself. The body returns, throws, or is unwound with its
task; storing its value may throw. The caller may be unwound where it waits.

`body` and `refusal` are history: how the body ended, and what `createTask` refused the task with.
-/

set_option autoImplicit false
set_option relaxedAutoImplicit false
set_option linter.dupNamespace false

namespace Stackfull.Runtime.BlockOn

open Stackfull.Lib
open Stackfull.Sync

universe v

/-- How a body or a call ends: with a value, an exception, or a forced unwinding. -/
inductive Ending (α χ : Type v)
  | returned (value : α)
  | threw (exception : χ)
  | unwound
  deriving DecidableEq

/-- What `createTask` meets: whether the scheduler is stopping, whether a slot is free, what the
allocator answers, whether the task fits on the stack, and what the move of the body throws. -/
structure Resources (ε χ : Type v) where
  stopping : Bool
  slot : Bool
  allocation : Option ε
  fits : Bool
  move : Option χ
  deriving DecidableEq

/-- The error codes of `createTask`. -/
structure Errors (ε : Type v) where
  operationCanceled : ε
  resourceUnavailableTryAgain : ε
  invalidArgument : ε

/-- What comes of `createTask`. -/
inductive Creation (ε χ : Type v)
  | created
  | refused (error : ε)
  | threw (exception : χ)
  deriving DecidableEq

variable {α ε χ : Type v}

/-- `createTask`. -/
def createTask (errors : Errors ε) (r : Resources ε χ) : Creation ε χ :=
  if r.stopping then .refused errors.operationCanceled
  else if r.slot = false then .refused errors.resourceUnavailableTryAgain
  else
    match r.allocation with
    | some error => .refused error
    | none =>
      if r.fits = false then .refused errors.invalidArgument
      else
        match r.move with
        | some exception => .threw exception
        | none => .created

/-- `unwrap`: the error of the outcome is not looked at. -/
def unwrap (outcome : Completion.Outcome α ε χ) : Ending α χ :=
  match outcome.exception with
  | some exception => .threw exception
  | none => .returned outcome.value

/-- The two producers. -/
inductive Producer
  | caller
  | task
  deriving DecidableEq

/-- Where the caller stands: before its call, running the body itself, in `fail`, in `get`, or back.
-/
inductive CallerPc (α χ : Type v)
  | idle
  | inline
  | failing
  | getting
  | ended (ending : Ending α χ)
  deriving DecidableEq

/-- The completion of the call, where the caller stands, and whether the body is running or will. -/
structure State (α ε χ : Type v) where
  completion : Completion.State Producer α ε χ
  caller : CallerPc α χ
  running : Bool
  body : Option (Ending α χ)
  refusal : Option ε

/-- A step: the caller begins, with what it meets; the body ends; the handler of `runGuarded` takes
over after the value has thrown; the completion takes a step; the caller goes from `fail` to `get`,
or from `get` to `unwrap`, or leaves it by a forced unwinding. -/
inductive Action (α ε χ : Type v)
  | blockOn (resources : Resources ε χ)
  | blocking (inTask : Bool) (submitThrows : Option χ)
  | bodyEnds (ending : Ending α χ)
  | handle (exception : χ)
  | completion (action : Completion.Action Producer α ε χ)
  | failed
  | unwrap
  | unwind

/-- No call yet. -/
def initial (α ε χ : Type v) [Inhabited α] [Inhabited ε] : State α ε χ where
  completion := Completion.initial _ _ _ _
  caller := .idle
  running := false
  body := none
  refusal := none

namespace State

/-- A step of the completion, after which the caller stands elsewhere. -/
def advance (s : State α ε χ) (action : Completion.Action Producer α ε χ)
    (caller : CallerPc α χ) : Option (State α ε χ) :=
  (Completion.step s.completion action).map fun completion ↦
    { s with completion := completion, caller := caller }

/-- `blockOn` up to `get`, or into `fail` where the task is refused. -/
def blockOn (errors : Errors ε) (s : State α ε χ) (r : Resources ε χ) : Option (State α ε χ) :=
  match createTask errors r with
  | .created => { s with running := true }.advance (.get false) .getting
  | .refused error => { s with refusal := some error }.advance (.call .caller (.fail error)) .failing
  | .threw exception => some { s with caller := .ended (.threw exception) }

/-- `blocking` up to `get`. A job whose submission throws may be in the queue all the same. -/
def blocking (s : State α ε χ) (inTask : Bool) (submitThrows : Option χ) : Option (State α ε χ) :=
  if inTask then
    match submitThrows with
    | some exception => some { s with running := true, caller := .ended (.threw exception) }
    | none => { s with running := true }.advance (.get false) .getting
  else some { s with caller := .inline }

/-- `runGuarded` after the body, or the end of a body that the caller runs itself. -/
def bodyEnds (s : State α ε χ) (ending : Ending α χ) : Option (State α ε χ) :=
  match s.caller with
  | .inline => some { s with caller := .ended ending, body := some ending }
  | _ =>
    if s.running then
      let after := { s with running := false, body := some ending }
      match ending with
      | .returned value => after.advance (.call .task (.set value)) s.caller
      | .threw exception => after.advance (.call .task (.setException (some exception))) s.caller
      | .unwound => some after
    else none

/-- The completion is left to its producers and its consumer; nobody begins a call here. -/
def allows : Completion.Action Producer α ε χ → Bool
  | .produce _ | .throws .task | .read _ | .spurious | .unwind | .staleWake => true
  | _ => false

end State

/-- One step. -/
def step (errors : Errors ε) (s : State α ε χ) : Action α ε χ → Option (State α ε χ)
  | .blockOn r =>
    match s.caller with
    | .idle => s.blockOn errors r
    | _ => none
  | .blocking inTask submitThrows =>
    match s.caller with
    | .idle => s.blocking inTask submitThrows
    | _ => none
  | .bodyEnds ending => s.bodyEnds ending
  | .handle exception =>
    match s.completion.producer .task with
    | .threw => s.advance (.call .task (.setException (some exception))) s.caller
    | _ => none
  | .completion action => if State.allows action then s.advance action s.caller else none
  | .failed =>
    match s.caller, s.completion.producer .caller with
    | .failing, .returned => s.advance (.get false) .getting
    | _, _ => none
  | .unwrap =>
    match s.caller, s.completion.reader, s.completion.delivered with
    | .getting, .idle, some outcome :: _ => some { s with caller := .ended (unwrap outcome) }
    | _, _, _ => none
  | .unwind =>
    match s.caller, s.completion.reader, s.completion.delivered with
    | .getting, .idle, [] => some { s with caller := .ended .unwound }
    | _, _, _ => none

/-- One call of `blockOn` or `blocking` under every order of steps. -/
def system (α ε χ : Type v) [Inhabited α] [Inhabited ε] (errors : Errors ε) :
    System (State α ε χ) (Action α ε χ) where
  init s := s = initial α ε χ
  step := step errors

/-! ### The invariant -/

section Completion

variable {c d : Completion.State Producer α ε χ} {a : Completion.Action Producer α ε χ}

/-- The caller has failed the completion, or will, and nobody else has a call. -/
structure Refused (c : Completion.State Producer α ε χ) : Prop where
  task : c.producer .task = .idle
  threw : c.threw = false
  claimed : c.claimed = true ∨ ∃ call, c.producer .caller = .claiming call

/-- The caller finds the completion ready and does not wait. -/
structure Served (c : Completion.State Producer α ε χ) : Prop where
  ready : c.ready = true
  reader : c.reader = .testing false ∨ c.reader = .moving ∨ c.reader = .idle ∧ c.delivered ≠ []

/-- A producer that has not begun a call does not act. -/
theorem task_idle_step (hallowed : State.allows a = true) (hidle : c.producer .task = .idle)
    (h : Completion.step c a = some d) : d.producer .task = .idle := by
  cases a with
  | produce p =>
    cases p with
    | task => simp [Completion.step.eq_def, Completion.State.produce, hidle] at h
    | caller => exact ((Completion.produce_frame h).1 .task (by simp)).trans hidle
  | throws p =>
    cases p with
    | task => simp [Completion.step.eq_def, Completion.State.throws, hidle] at h
    | caller => cases hallowed
  | read again =>
    obtain ⟨-, -, -, hp, -⟩ := Completion.read_frame h
    rwa [hp]
  | staleWake => exact Option.some.inj h ▸ hidle
  | spurious =>
    simp only [Completion.step.eq_def] at h
    split at h <;> cases h <;> exact hidle
  | unwind =>
    simp only [Completion.step.eq_def] at h
    split at h <;> cases h <;> exact hidle
  | _ => cases hallowed

theorem Refused.step (hr : Refused c) (hallowed : State.allows a = true)
    (h : Completion.step c a = some d) : Refused d := by
  obtain ⟨htask, hthrew, hclaimed⟩ := hr
  cases a with
  | produce p =>
    cases p with
    | task => simp [Completion.step.eq_def, Completion.State.produce, htask] at h
    | caller =>
      obtain ⟨hother, hkeeps, -⟩ := Completion.produce_frame h
      have hthrew' := Completion.threw_step (a := Completion.Action.produce Producer.caller) rfl h
      refine ⟨(hother .task (by simp)).trans htask, hthrew'.trans hthrew, Or.inl ?_⟩
      rcases hclaimed with hclaimed | ⟨call, hpc⟩
      · exact hkeeps hclaimed
      · simp only [Completion.step.eq_def, Completion.State.produce, hpc, Option.some.injEq] at h
        subst h
        unfold Completion.State.claim
        split_ifs with hclaimed
        · exact hclaimed
        · rfl
  | throws p =>
    cases p with
    | task => simp [Completion.step.eq_def, Completion.State.throws, htask] at h
    | caller => cases hallowed
  | read again =>
    obtain ⟨hc, -, ht, hp, -⟩ := Completion.read_frame h
    exact ⟨hp ▸ htask, ht.trans hthrew, by rwa [hc, hp]⟩
  | staleWake => exact Option.some.inj h ▸ ⟨htask, hthrew, hclaimed⟩
  | spurious =>
    simp only [Completion.step.eq_def] at h
    split at h <;> cases h <;> exact ⟨htask, hthrew, hclaimed⟩
  | unwind =>
    simp only [Completion.step.eq_def] at h
    split at h <;> cases h <;> exact ⟨htask, hthrew, hclaimed⟩
  | _ => cases hallowed

theorem Served.step (hs : Served c) (hallowed : State.allows a = true)
    (h : Completion.step c a = some d) : Served d := by
  obtain ⟨hready, hreader⟩ := hs
  cases a with
  | produce p =>
    obtain ⟨-, -, hkeeps, hdelivered, hsame⟩ := Completion.produce_frame h
    refine ⟨hkeeps hready, ?_⟩
    rcases hsame with hsame | ⟨k, hk⟩
    · rwa [hsame, hdelivered]
    · rw [hk] at hreader
      simp at hreader
  | throws p =>
    simp only [Completion.step.eq_def, Completion.State.throws] at h
    split at h <;> cases h
    exact ⟨hready, hreader⟩
  | read again =>
    rcases hreader with hreader | hreader | ⟨hreader, -⟩
    · simp only [Completion.step.eq_def, Completion.State.read, hreader, hready, if_true,
        Option.some.injEq] at h
      exact h ▸ ⟨rfl, Or.inr (Or.inl rfl)⟩
    · simp only [Completion.step.eq_def, Completion.State.read, hreader, Option.some.injEq] at h
      exact h ▸ ⟨hready, Or.inr (Or.inr ⟨rfl, by simp⟩)⟩
    · simp [Completion.step.eq_def, Completion.State.read, hreader] at h
  | staleWake => exact Option.some.inj h ▸ ⟨hready, hreader⟩
  | spurious =>
    rcases hreader with hreader | hreader | ⟨hreader, -⟩ <;> simp [Completion.step.eq_def, hreader] at h
  | unwind =>
    rcases hreader with hreader | hreader | ⟨hreader, -⟩ <;> simp [Completion.step.eq_def, hreader] at h
  | _ => cases hallowed

/-- Without a call, the consumer and its wakes leave the producers where they are. -/
theorem idle_step (hidle : ∀ p, c.producer p = .idle) (hallowed : State.allows a = true)
    (h : Completion.step c a = some d) :
    (∀ p, d.producer p = .idle) ∧ d.claimed = c.claimed ∧ d.threw = c.threw := by
  cases a with
  | produce p => simp [Completion.step.eq_def, Completion.State.produce, hidle p] at h
  | throws p => simp [Completion.step.eq_def, Completion.State.throws, hidle p] at h
  | read again =>
    obtain ⟨hc, -, ht, hp, -⟩ := Completion.read_frame h
    exact ⟨fun p ↦ by rw [hp]; exact hidle p, hc, ht⟩
  | staleWake => exact Option.some.inj h ▸ ⟨hidle, rfl, rfl⟩
  | spurious =>
    simp only [Completion.step.eq_def] at h
    split at h <;> cases h <;> exact ⟨hidle, rfl, rfl⟩
  | unwind =>
    simp only [Completion.step.eq_def] at h
    split at h <;> cases h <;> exact ⟨hidle, rfl, rfl⟩
  | _ => cases hallowed

end Completion

/-- Where a call on the completion comes from: a refusal, or the body as it ended. -/
def Origin (refusal : Option ε) (body : Option (Ending α χ)) : Completion.Call α ε χ → Prop
  | .fail _ => refusal ≠ none
  | .set value => refusal = none ∧ body = some (.returned value)
  | .setException (some _) => refusal = none ∧ body ≠ none
  | .setException none => False

/-- How the caller, the body and the completion stand to each other. -/
structure Kept [Inhabited α] [Inhabited ε] (s : State α ε χ) : Prop where
  settled : Completion.Settled s.completion
  completes : Completion.Completes s.completion
  claims : ∀ call ∈ s.completion.claims, Origin s.refusal s.body call
  claiming : ∀ p call, s.completion.producer p = .claiming call → Origin s.refusal s.body call
  untouched : s.caller = .idle ∨ s.caller = .inline →
    (∀ p, s.completion.producer p = .idle) ∧ s.completion.claimed = false ∧
      s.completion.threw = false ∧ s.body = none ∧ s.running = false ∧ s.refusal = none
  running : s.running = true → s.body = none ∧ s.refusal = none
  acted : s.completion.producer .task ≠ .idle → s.body ≠ none
  refused : s.refusal ≠ none → s.body = none ∧ Refused s.completion
  served : s.refusal ≠ none → s.caller = .getting → Served s.completion
  returned : ∀ value, s.caller = .ended (.returned value) →
    s.refusal ≠ none ∧ value = default ∨ s.body = some (.returned value)
  threw : ∀ exception, s.caller = .ended (.threw exception) → s.refusal = none
  unwound : s.caller = .ended .unwound → s.refusal = none

section Steps

variable [Inhabited α] [Inhabited ε] {errors : Errors ε} {s t : State α ε χ}

theorem kept_initial : Kept (initial α ε χ) := by
  refine ⟨Completion.settled_initial, nofun, nofun, nofun, fun _ ↦ ?_, nofun, fun h ↦ absurd rfl h,
    nofun, nofun, nofun, nofun, nofun⟩
  exact ⟨fun _ ↦ rfl, rfl, rfl, rfl, rfl, rfl⟩

/-- The completion takes a step of its own. -/
theorem kept_completion (hs : Kept s) {a : Completion.Action Producer α ε χ}
    (hallowed : State.allows a = true) (h : s.advance a s.caller = some t) : Kept t := by
  obtain ⟨c, hstep, rfl⟩ := Option.map_eq_some_iff.mp h
  obtain ⟨hclaiming, hclaims⟩ := Completion.claims_step hstep
  have hnew : ∀ p call, a ≠ .call p call := fun p call heq ↦ by
    rw [heq] at hallowed
    cases hallowed
  have hclaiming' : ∀ p call, c.producer p = .claiming call →
      s.completion.producer p = .claiming call :=
    fun p call hp ↦ (hclaiming p call hp).resolve_right (hnew p call)
  refine ⟨Completion.settled_step hs.settled hstep,
    Completion.completes_step hs.settled hs.completes hstep, fun call hcall ↦ ?_,
    fun p call hp ↦ hs.claiming p call (hclaiming' p call hp), fun hcaller ↦ ?_, hs.running,
    fun hacted ↦ hs.acted (mt (task_idle_step hallowed · hstep) hacted), fun hrefused ↦ ?_, fun hrefused hgetting ↦ (hs.served hrefused hgetting).step hallowed hstep,
    hs.returned, hs.threw, hs.unwound⟩
  · rcases hclaims call hcall with hcall | ⟨p, hp⟩
    · exact hs.claims call hcall
    · exact hs.claiming p call hp
  · obtain ⟨hidle, hclaimed, hthrew, hrest⟩ := hs.untouched hcaller
    obtain ⟨hidle', hclaimed', hthrew'⟩ := idle_step hidle hallowed hstep
    exact ⟨hidle', hclaimed'.trans hclaimed, hthrew'.trans hthrew, hrest⟩
  · exact ⟨(hs.refused hrefused).1, (hs.refused hrefused).2.step hallowed hstep⟩

omit [Inhabited α] [Inhabited ε] in
/-- Somebody begins a call on the completion. -/
theorem call_step {c d : Completion.State Producer α ε χ} {p : Producer}
    {call : Completion.Call α ε χ} (h : Completion.step c (.call p call) = some d) :
    d = c.goto p (.claiming call) := by
  simp only [Completion.step.eq_def] at h
  split at h <;> cases h <;> rfl

omit [Inhabited α] [Inhabited ε] in
/-- The consumer begins to wait. -/
theorem get_step {c d : Completion.State Producer α ε χ}
    (h : Completion.step c (.get false) = some d) : d = { c with reader := .testing false } := by
  simp only [Completion.step.eq_def] at h
  split_ifs at h
  exact (Option.some.inj h).symm

omit [Inhabited α] [Inhabited ε] in
/-- Before a refusal and before the end of the body, no call has a reason. -/
theorem not_origin (call : Completion.Call α ε χ) : ¬Origin none (none : Option (Ending α χ)) call := by
  rcases call with value | error | _ | exception
  · exact fun h ↦ nomatch h.2
  · exact fun h ↦ h rfl
  · exact id
  · exact fun h ↦ h.2 rfl

/-- An unclaimed completion has no claims. -/
theorem claims_eq_nil {c : Completion.State Producer α ε χ} (hs : Completion.Settled c)
    (hclaimed : c.claimed = false) : c.claims = [] := by
  simpa [Completion.State.winner] using hs.winner.symm.trans hclaimed

/-- The caller, which has no call yet, goes to `get` while its body runs or is queued. -/
theorem kept_get (hs : Kept s) (hcaller : s.caller = .idle)
    (h : { s with running := true }.advance (.get false) .getting = some t) : Kept t := by
  obtain ⟨hidle, hclaimed, hthrew, hbody, hrunning, hrefusal⟩ := hs.untouched (Or.inl hcaller)
  obtain ⟨c, hstep, rfl⟩ := Option.map_eq_some_iff.mp h
  have hsettled := Completion.settled_step hs.settled hstep
  have hcompletes := Completion.completes_step hs.settled hs.completes hstep
  obtain rfl := get_step hstep
  exact ⟨hsettled, hcompletes, hs.claims, hs.claiming, nofun, fun _ ↦ ⟨hbody, hrefusal⟩, hs.acted,
    fun h ↦ absurd hrefusal h, fun h ↦ absurd hrefusal h, nofun, nofun, nofun⟩

theorem kept_blockOn (hs : Kept s) (hcaller : s.caller = .idle) {r : Resources ε χ}
    (h : s.blockOn errors r = some t) : Kept t := by
  obtain ⟨hidle, hclaimed, hthrew, hbody, hrunning, hrefusal⟩ := hs.untouched (Or.inl hcaller)
  unfold State.blockOn at h
  split at h
  case h_1 => exact kept_get hs hcaller h
  case h_2 error _ =>
    obtain ⟨c, hstep, rfl⟩ := Option.map_eq_some_iff.mp h
    have hsettled := Completion.settled_step hs.settled hstep
    have hcompletes := Completion.completes_step hs.settled hs.completes hstep
    have hc : c = s.completion.goto .caller (.claiming (.fail error)) := call_step hstep
    have htask : c.producer .task = .idle := by
      simpa [hc, Completion.State.goto] using hidle .task
    have hpc : c.producer .caller = .claiming (.fail error) := by
      simp [hc, Completion.State.goto]
    have hclaims : c.claims = [] := by
      rw [hc]
      show s.completion.claims = []
      exact claims_eq_nil hs.settled hclaimed
    have hthrew' : c.threw = false := by rwa [hc]
    refine ⟨hsettled, hcompletes, fun call hcall ↦ ?_, fun p call hp ↦ ?_, nofun, fun h ↦ ?_,
      fun h ↦ absurd htask h, fun _ ↦ ⟨hbody, htask, hthrew', Or.inr ⟨_, hpc⟩⟩, nofun, nofun, nofun,
      nofun⟩
    · simp [hclaims] at hcall
    · cases p with
      | caller =>
        obtain rfl := Completion.ProducerPc.claiming.inj (hpc.symm.trans hp)
        exact nofun
      | task => exact absurd (htask.symm.trans hp) nofun
    · exact absurd (hrunning.symm.trans h) (by decide)
  case h_3 =>
    cases h
    exact ⟨hs.settled, hs.completes, hs.claims, hs.claiming, nofun, hs.running, hs.acted, hs.refused,
      nofun, nofun, fun _ _ ↦ hrefusal, nofun⟩

theorem kept_blocking (hs : Kept s) (hcaller : s.caller = .idle) {inTask : Bool}
    {submitThrows : Option χ} (h : s.blocking inTask submitThrows = some t) : Kept t := by
  obtain ⟨hidle, hclaimed, hthrew, hbody, hrunning, hrefusal⟩ := hs.untouched (Or.inl hcaller)
  unfold State.blocking at h
  split_ifs at h
  · split at h
    · cases h
      exact ⟨hs.settled, hs.completes, hs.claims, hs.claiming, nofun, fun _ ↦ ⟨hbody, hrefusal⟩,
        hs.acted, hs.refused, nofun, nofun, fun _ _ ↦ hrefusal, nofun⟩
    · exact kept_get hs hcaller h
  · cases h
    exact ⟨hs.settled, hs.completes, hs.claims, hs.claiming,
      fun _ ↦ ⟨hidle, hclaimed, hthrew, hbody, hrunning, hrefusal⟩, hs.running, hs.acted, hs.refused,
      nofun, nofun, nofun, nofun⟩

/-- The body has ended: no call had a reason before. -/
theorem kept_ended (hs : Kept s) (hrunning : s.running = true) (ending : Ending α χ) :
    Kept { s with running := false, body := some ending } := by
  obtain ⟨hbody, hrefusal⟩ := hs.running hrunning
  have hnone : ∀ call, ¬Origin s.refusal s.body call := fun call ↦ by
    rw [hbody, hrefusal]
    exact not_origin call
  refine ⟨hs.settled, hs.completes, fun call hcall ↦ absurd (hs.claims call hcall) (hnone call),
    fun p call hp ↦ absurd (hs.claiming p call hp) (hnone call), fun hcaller ↦ ?_, nofun,
    fun _ ↦ nofun, fun hrefused ↦ absurd hrefusal hrefused, fun hrefused ↦ absurd hrefusal hrefused,
    fun value hcaller ↦ ?_, hs.threw, hs.unwound⟩
  · exact absurd (hrunning.symm.trans (hs.untouched hcaller).2.2.2.2.1) (by decide)
  · rcases hs.returned value hcaller with ⟨hrefused, -⟩ | hreturned
    · exact absurd hrefusal hrefused
    · exact absurd (hbody.symm.trans hreturned) nofun

/-- After the end of the body its task begins a call. -/
theorem kept_call (hs : Kept s) (hbody : s.body ≠ none) {call : Completion.Call α ε χ}
    (h : s.advance (.call .task call) s.caller = some t) (horigin : Origin s.refusal s.body call) :
    Kept t := by
  have hrefusal : s.refusal = none := by
    by_contra hrefused
    exact hbody (hs.refused hrefused).1
  obtain ⟨c, hstep, rfl⟩ := Option.map_eq_some_iff.mp h
  obtain ⟨hclaiming, -⟩ := Completion.claims_step hstep
  have hc : c = s.completion.goto .task (.claiming call) := call_step hstep
  have hclaims : c.claims = s.completion.claims := by rw [hc]; rfl
  refine ⟨Completion.settled_step hs.settled hstep,
    Completion.completes_step hs.settled hs.completes hstep,
    fun call hcall ↦ hs.claims call (hclaims ▸ hcall), fun p call' hp ↦ ?_, fun hcaller ↦ ?_,
    hs.running, fun _ ↦ hbody, fun hrefused ↦ absurd hrefusal hrefused,
    fun hrefused ↦ absurd hrefusal hrefused, hs.returned, hs.threw, hs.unwound⟩
  · rcases hclaiming p call' hp with hp | heq
    · exact hs.claiming p call' hp
    · cases heq
      exact horigin
  · exact absurd (hs.untouched hcaller).2.2.2.1 hbody

theorem kept_bodyEnds (hs : Kept s) {ending : Ending α χ} (h : s.bodyEnds ending = some t) :
    Kept t := by
  unfold State.bodyEnds at h
  split at h
  case h_1 hcaller =>
    obtain ⟨hidle, hclaimed, -, hbody, hrunning, hrefusal⟩ := hs.untouched (Or.inr hcaller)
    have hnil := claims_eq_nil hs.settled hclaimed
    cases h
    refine ⟨hs.settled, hs.completes, fun call hcall ↦ ?_, fun p call hp ↦ ?_, nofun, fun h ↦ ?_,
      fun _ ↦ nofun, fun hrefused ↦ absurd hrefusal hrefused,
      fun hrefused ↦ absurd hrefusal hrefused, fun value hvalue ↦ ?_, fun _ _ ↦ hrefusal,
      fun _ ↦ hrefusal⟩
    · simp [hnil] at hcall
    · simp [hidle p] at hp
    · exact absurd (hrunning.symm.trans h) (by decide)
    · cases hvalue
      exact Or.inr rfl
  case h_2 =>
    split_ifs at h with hrunning
    have hended := kept_ended hs hrunning ending
    have hrefusal := (hs.running hrunning).2
    cases ending with
    | returned value => exact kept_call hended nofun h ⟨hrefusal, rfl⟩
    | threw exception => exact kept_call hended nofun h ⟨hrefusal, nofun⟩
    | unwound => exact Option.some.inj h ▸ hended

/-- The handler of `runGuarded` stores the exception that the value has thrown. -/
theorem kept_handle (hs : Kept s) {exception : χ}
    (h : step errors s (.handle exception) = some t) : Kept t := by
  simp only [step.eq_def] at h
  split at h
  case h_1 hpc =>
    have hbody := hs.acted (by rw [hpc]; nofun)
    refine kept_call hs hbody h ⟨?_, hbody⟩
    by_contra hrefused
    exact hbody (hs.refused hrefused).1
  case h_2 => cases h

/-- After `fail` the caller finds the completion ready. -/
theorem kept_failed (hs : Kept s) (h : step errors s .failed = some t) : Kept t := by
  simp only [step.eq_def] at h
  split at h
  case h_2 => cases h
  case h_1 hcaller hpc =>
    obtain ⟨c, hstep, rfl⟩ := Option.map_eq_some_iff.mp h
    have hsettled := Completion.settled_step hs.settled hstep
    have hcompletes := Completion.completes_step hs.settled hs.completes hstep
    have hc : c = { s.completion with reader := .testing false } := get_step hstep
    subst hc
    refine ⟨hsettled, hcompletes, hs.claims, hs.claiming, nofun, hs.running, hs.acted,
      fun hrefused ↦ ?_, fun hrefused _ ↦ ⟨?_, Or.inl rfl⟩, nofun, nofun, nofun⟩
    · obtain ⟨hbody, htask, hthrew, hclaimed⟩ := hs.refused hrefused
      exact ⟨hbody, htask, hthrew, hclaimed⟩
    · obtain ⟨-, htask, hthrew, hclaimed⟩ := hs.refused hrefused
      have hclaimed : s.completion.claimed = true :=
        hclaimed.resolve_right fun ⟨call, hcall⟩ ↦ absurd (hpc.symm.trans hcall) nofun
      rcases hs.completes hclaimed with hready | hthrew' | ⟨p, hp⟩
      · exact hready
      · exact absurd (hthrew.symm.trans hthrew') (by decide)
      · cases p with
        | caller => simp [hpc, Completion.ProducerPc.works] at hp
        | task => simp [htask, Completion.ProducerPc.works] at hp

/-- What the caller unwraps is the outcome of a call that had a reason. -/
theorem delivered_origin (hs : Kept s) {outcome : Completion.Outcome α ε χ}
    {rest : List (Option (Completion.Outcome α ε χ))}
    (h : s.completion.delivered = some outcome :: rest) :
    ∃ call, outcome = call.outcome ∧ Origin s.refusal s.body call := by
  have hready : s.completion.ready = true := by
    by_contra hready
    exact absurd ((hs.settled.unready (by simpa using hready)).1.symm.trans h) nofun
  obtain ⟨call, hwinner, ⟨hnil, -⟩ | ⟨-, n, hdelivered⟩⟩ := hs.settled.published hready
  · exact absurd (hnil.symm.trans h) nofun
  · rw [h] at hdelivered
    cases hdelivered
    exact ⟨call, rfl, hs.claims call (List.mem_of_head? hwinner)⟩

/-- A value that is handed back is the default after a refusal, and else the body's; an exception
comes from the body. -/
theorem unwrap_origin {refusal : Option ε} {body : Option (Ending α χ)}
    {call : Completion.Call α ε χ} (h : Origin refusal body call) :
    (∀ value, unwrap call.outcome = .returned value →
      refusal ≠ none ∧ value = default ∨ body = some (.returned value)) ∧
    (∀ exception, unwrap call.outcome = .threw exception → refusal = none) ∧
      unwrap call.outcome ≠ .unwound := by
  rcases call with value | error | _ | exception
  · refine ⟨fun value' hvalue ↦ Or.inr ?_, nofun, nofun⟩
    cases hvalue
    exact h.2
  · refine ⟨fun value' hvalue ↦ Or.inl ⟨h, ?_⟩, nofun, nofun⟩
    cases hvalue
    rfl
  · exact absurd h id
  · exact ⟨nofun, fun _ _ ↦ h.1, nofun⟩

theorem kept_unwrap (hs : Kept s) (h : step errors s .unwrap = some t) : Kept t := by
  simp only [step.eq_def] at h
  split at h
  case h_2 => cases h
  case h_1 outcome rest hcaller hreader hdelivered =>
    cases h
    obtain ⟨call, rfl, horigin⟩ := delivered_origin hs hdelivered
    obtain ⟨hreturned, hthrew, hunwound⟩ := unwrap_origin horigin
    exact ⟨hs.settled, hs.completes, hs.claims, hs.claiming, nofun, hs.running, hs.acted, hs.refused,
      nofun, fun value hvalue ↦ hreturned value (CallerPc.ended.inj hvalue),
      fun exception hexception ↦ hthrew exception (CallerPc.ended.inj hexception),
      fun h ↦ absurd (CallerPc.ended.inj h) hunwound⟩

/-- A caller that is refused does not wait, so that it is not unwound. -/
theorem kept_unwind (hs : Kept s) (h : step errors s .unwind = some t) : Kept t := by
  simp only [step.eq_def] at h
  split at h
  case h_2 => cases h
  case h_1 hcaller hreader hdelivered =>
    cases h
    refine ⟨hs.settled, hs.completes, hs.claims, hs.claiming, nofun, hs.running, hs.acted, hs.refused,
      nofun, nofun, nofun, fun _ ↦ ?_⟩
    by_contra hrefused
    rcases (hs.served hrefused hcaller).reader with h | h | ⟨-, h⟩
    · exact absurd (hreader.symm.trans h) nofun
    · exact absurd (hreader.symm.trans h) nofun
    · exact h hdelivered

theorem kept_step (hs : Kept s) {a : Action α ε χ} (h : step errors s a = some t) : Kept t := by
  cases a with
  | blockOn r =>
    simp only [step.eq_def] at h
    split at h
    case h_1 hcaller => exact kept_blockOn hs hcaller h
    case h_2 => cases h
  | blocking inTask submitThrows =>
    simp only [step.eq_def] at h
    split at h
    case h_1 hcaller => exact kept_blocking hs hcaller h
    case h_2 => cases h
  | bodyEnds ending => exact kept_bodyEnds hs h
  | handle exception => exact kept_handle hs h
  | completion action =>
    simp only [step.eq_def] at h
    split_ifs at h with hallowed
    exact kept_completion hs hallowed h
  | failed => exact kept_failed hs h
  | unwrap => exact kept_unwrap hs h
  | unwind => exact kept_unwind hs h

theorem kept_of_reachable (hs : (system α ε χ errors).Reachable s) : Kept s := by
  refine System.Reachable.invariant (P := Kept) ?_ (fun _ _ _ hs ↦ kept_step hs) hs
  rintro _ rfl
  exact kept_initial

omit [Inhabited α] [Inhabited ε] in
/-- What every step but a call keeps. -/
theorem advance_frame {a : Completion.Action Producer α ε χ} {caller : CallerPc α χ}
    (h : s.advance a caller = some t) : t.refusal = s.refusal ∧ t.caller = caller := by
  obtain ⟨c, -, rfl⟩ := Option.map_eq_some_iff.mp h
  exact ⟨rfl, rfl⟩

end Steps

/-! ### The result -/

/-- `createTask` gets what it needs. -/
def Resources.suffice (r : Resources ε χ) : Bool :=
  !r.stopping && r.slot && r.allocation.isNone && r.fits

/-- Where the resources suffice, `createTask` refuses nothing, and else it refuses. -/
theorem createTask_refused (errors : Errors ε) (r : Resources ε χ) :
    (∃ error, createTask errors r = .refused error) ↔ r.suffice = false := by
  unfold createTask Resources.suffice
  cases r.stopping <;> cases r.slot <;> cases r.allocation <;> cases r.fits <;> cases r.move <;> simp

/-- No `blockOn` meets a lack of resources. -/
def Spawns (_ : State α ε χ) : Action α ε χ → Bool
  | .blockOn r => r.suffice
  | _ => true

/-- Only `blockOn` is called, and it meets a lack of resources. -/
def Refuses (_ : State α ε χ) : Action α ε χ → Bool
  | .blockOn r => !r.suffice
  | .blocking _ _ => false
  | _ => true

section Results

variable [Inhabited α] [Inhabited ε] {errors : Errors ε} {s t : State α ε χ}

omit [Inhabited α] [Inhabited ε] in
/-- A step that is no call keeps the refusal, and a caller that has not called. -/
theorem step_frame {a : Action α ε χ} (hblockOn : ∀ r, a ≠ .blockOn r)
    (hblocking : ∀ inTask submitThrows, a ≠ .blocking inTask submitThrows)
    (h : step errors s a = some t) :
    t.refusal = s.refusal ∧ (s.caller = .idle → t.caller = .idle) := by
  have hadvance : ∀ {u : State α ε χ} {action}, u.advance action s.caller = some t →
      u.refusal = s.refusal → t.refusal = s.refusal ∧ (s.caller = .idle → t.caller = .idle) := by
    intro u action hadvance hu
    obtain ⟨hrefusal, hcaller⟩ := advance_frame hadvance
    exact ⟨hrefusal.trans hu, fun h ↦ hcaller.trans h⟩
  cases a with
  | blockOn r => exact absurd rfl (hblockOn r)
  | blocking inTask submitThrows => exact absurd rfl (hblocking inTask submitThrows)
  | bodyEnds ending =>
    simp only [step.eq_def, State.bodyEnds] at h
    split at h
    case h_1 hcaller =>
      cases h
      exact ⟨rfl, fun h ↦ absurd (hcaller.symm.trans h) nofun⟩
    case h_2 =>
      split_ifs at h with hrunning
      cases ending with
      | returned value => exact hadvance h rfl
      | threw exception => exact hadvance h rfl
      | unwound => exact Option.some.inj h ▸ ⟨rfl, id⟩
  | handle exception =>
    simp only [step.eq_def] at h
    split at h
    case h_1 => exact hadvance h rfl
    case h_2 => cases h
  | completion action =>
    simp only [step.eq_def] at h
    split_ifs at h
    exact hadvance h rfl
  | failed =>
    simp only [step.eq_def] at h
    split at h
    case h_1 hcaller _ =>
      exact ⟨(advance_frame h).1, fun h ↦ absurd (hcaller.symm.trans h) nofun⟩
    case h_2 => cases h
  | unwrap =>
    simp only [step.eq_def] at h
    split at h
    case h_1 hcaller _ _ =>
      cases h
      exact ⟨rfl, fun h ↦ absurd (hcaller.symm.trans h) nofun⟩
    case h_2 => cases h
  | unwind =>
    simp only [step.eq_def] at h
    split at h
    case h_1 hcaller _ _ =>
      cases h
      exact ⟨rfl, fun h ↦ absurd (hcaller.symm.trans h) nofun⟩
    case h_2 => cases h

omit [Inhabited α] [Inhabited ε] in
/-- `blockOn` records the refusal of the task, and nothing else. -/
theorem blockOn_refusal {r : Resources ε χ} (h : step errors s (.blockOn r) = some t) :
    (r.suffice = true → t.refusal = s.refusal) ∧ (r.suffice = false → t.refusal ≠ none) := by
  have hrefused := createTask_refused errors r
  simp only [step.eq_def] at h
  split at h
  case h_2 => cases h
  case h_1 =>
    unfold State.blockOn at h
    split at h
    case h_1 hcreate =>
      simp only [hcreate, reduceCtorEq, exists_false, false_iff, Bool.not_eq_false] at hrefused
      exact ⟨fun _ ↦ (advance_frame h).1, fun h ↦ absurd (hrefused.symm.trans h) (by decide)⟩
    case h_2 error hcreate =>
      have hsuffice := hrefused.mp ⟨error, hcreate⟩
      refine ⟨fun h ↦ absurd (hsuffice.symm.trans h) (by decide), fun _ ↦ ?_⟩
      rw [(advance_frame h).1]
      nofun
    case h_3 hcreate =>
      simp only [hcreate, reduceCtorEq, exists_false, false_iff, Bool.not_eq_false] at hrefused
      cases h
      exact ⟨fun _ ↦ rfl, fun h ↦ absurd (hrefused.symm.trans h) (by decide)⟩

omit [Inhabited α] [Inhabited ε] in
/-- `blocking` is refused nothing. -/
theorem blocking_refusal {inTask : Bool} {submitThrows : Option χ}
    (h : step errors s (.blocking inTask submitThrows) = some t) : t.refusal = s.refusal := by
  simp only [step.eq_def] at h
  split at h
  case h_2 => cases h
  case h_1 =>
    unfold State.blocking at h
    split_ifs at h
    · split at h
      · cases h
        rfl
      · exact (advance_frame h).1
    · cases h
      rfl

/-- Where the resources suffice there is no refusal. -/
theorem refusal_eq_none
    (hs : (system α ε χ errors).ReachableUnder (fun s a ↦ Spawns s a = true) s) :
    s.refusal = none := by
  refine System.ReachableUnder.invariant (P := fun s ↦ s.refusal = none) ?_ ?_ hs
  · rintro _ rfl
    rfl
  · intro s a t hrefusal hspawns (hnext : step errors s a = some t)
    cases a with
    | blockOn r => exact ((blockOn_refusal hnext).1 hspawns).trans hrefusal
    | blocking inTask submitThrows => exact (blocking_refusal hnext).trans hrefusal
    | _ => exact (step_frame (by nofun) (by nofun) hnext).1.trans hrefusal

/-- Where they do not, a caller that has called was refused. -/
theorem refusal_ne_none
    (hs : (system α ε χ errors).ReachableUnder (fun s a ↦ Refuses s a = true) s) :
    s.caller = .idle ∨ s.refusal ≠ none := by
  refine System.ReachableUnder.invariant (P := fun s ↦ s.caller = .idle ∨ s.refusal ≠ none) ?_ ?_ hs
  · rintro _ rfl
    exact Or.inl rfl
  · intro s a t hrefused hrefuses (hnext : step errors s a = some t)
    cases a with
    | blockOn r => exact Or.inr ((blockOn_refusal hnext).2 (by simpa [Refuses] using hrefuses))
    | blocking inTask submitThrows => cases hrefuses
    | _ =>
      obtain ⟨hrefusal, hcaller⟩ := step_frame (by nofun) (by nofun) hnext
      exact hrefused.imp hcaller fun h ↦ hrefusal ▸ h

/-- A call that returns hands back what its body has returned, in every run in which a `blockOn`
gets its task. In a run in which it is refused its task, it always returns, and hands back the
default value, without a body that has ended. -/
theorem hands_back_unless_refused (s : State α ε χ) :
    ((system α ε χ errors).ReachableUnder (fun s a ↦ Spawns s a = true) s →
      ∀ value, s.caller = .ended (.returned value) → s.body = some (.returned value)) ∧
    ((system α ε χ errors).ReachableUnder (fun s a ↦ Refuses s a = true) s →
      ∀ ending, s.caller = .ended ending → ending = .returned default ∧ s.body = none) := by
  refine ⟨fun hs value hcaller ↦ ?_, fun hs ending hcaller ↦ ?_⟩
  · have hkept := kept_of_reachable hs.reachable
    rcases hkept.returned value hcaller with ⟨hrefused, -⟩ | hreturned
    · exact absurd (refusal_eq_none hs) hrefused
    · exact hreturned
  · have hkept := kept_of_reachable hs.reachable
    have hrefused := (refusal_ne_none hs).resolve_left (by rw [hcaller]; nofun)
    have hbody := (hkept.refused hrefused).1
    refine ⟨?_, hbody⟩
    cases ending with
    | returned value =>
      rcases hkept.returned value hcaller with ⟨-, rfl⟩ | hreturned
      · rfl
      · exact absurd (hbody.symm.trans hreturned) nofun
    | threw exception => exact absurd (hkept.threw exception hcaller) hrefused
    | unwound => exact absurd (hkept.unwound hcaller) hrefused

/-! ### Runs -/

/-- The error codes, numbered. -/
def codes : Errors ℕ where
  operationCanceled := 125
  resourceUnavailableTryAgain := 11
  invalidArgument := 22

/-- The body returns 7 while the caller waits for it. -/
def returnsSeven : List (Action ℕ ℕ ℕ) :=
  [.blockOn ⟨false, true, none, true, none⟩, .completion (.read false), .completion (.read false),
    .bodyEnds (.returned 7), .completion (.produce .task), .completion (.produce .task),
    .completion (.produce .task), .completion (.produce .task), .completion (.read false),
    .completion (.read false), .completion (.read false), .completion (.read false), .unwrap]

/-- The scheduler is stopping when the caller calls. -/
def stopping : List (Action ℕ ℕ ℕ) :=
  [.blockOn ⟨true, true, none, true, none⟩, .completion (.produce .caller),
    .completion (.produce .caller), .completion (.produce .caller), .completion (.produce .caller),
    .failed, .completion (.read false), .completion (.read false), .unwrap]

theorem hands_back_unless_refused_returnsSeven :
    ∃ s, (system ℕ ℕ ℕ codes).ReachableUnder (fun s a ↦ Spawns s a = true) s ∧
      s.caller = .ended (.returned 7) ∧ s.body = some (.returned 7) := by
  let s := ((system ℕ ℕ ℕ codes).runUnder Spawns (initial _ _ _) returnsSeven).get
    (by decide +kernel)
  have hs : (system ℕ ℕ ℕ codes).ReachableUnder (fun s a ↦ Spawns s a = true) s :=
    System.reachableUnder_of_run rfl (Option.some_get _).symm
  have hcaller : s.caller = .ended (.returned 7) := by decide +kernel
  exact ⟨s, hs, hcaller, (hands_back_unless_refused s).1 hs 7 hcaller⟩

/-- While the scheduler is stopping, `blockOn` returns 0, and no body has run. -/
theorem refused_spawn_returns :
    ¬∀ s, (system ℕ ℕ ℕ codes).Reachable s → ∀ value, s.caller = .ended (.returned value) →
      s.body = some (.returned value) := by
  intro h
  let s := ((system ℕ ℕ ℕ codes).run (initial _ _ _) stopping).get (by decide +kernel)
  have hs : (system ℕ ℕ ℕ codes).Reachable s := System.reachable_of_run rfl (Option.some_get _).symm
  have hcaller : s.caller = .ended (.returned 0) := by decide +kernel
  have hbody : s.body = none := by decide +kernel
  exact absurd (hbody.symm.trans (h s hs 0 hcaller)) nofun

end Results

end Stackfull.Runtime.BlockOn
