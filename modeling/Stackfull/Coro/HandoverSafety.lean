import Stackfull.Coro.Handover
import Stackfull.Lib.Refinement

/-!
# A switch is one step

`Follows` says how far a thread is with a switch and what the blocks of the two contexts hold
meanwhile, `Stands` what the block of a context holds that stands somewhere. Both speak of contexts
that the thread owns, or nobody runs, so a step of one thread leaves alone what they say of the
others (`Related.of_changes`), and each line of `Switch.h` is followed by itself. A switch counts
when its last line is done: `State.produces_coroutines`.
-/

set_option autoImplicit false
set_option relaxedAutoImplicit false
set_option linter.dupNamespace false

namespace Stackfull.Coro.Handover

open Stackfull.Lib

universe u u' v w x

/-- Only this thread may switch to the context, or it runs it. -/
def Right.Of {Θ : Type u} (thread : Θ) : Right Θ → Prop
  | .running owner | .held owner => owner = thread
  | .absent | .free => False

/-- The context that the thread is about to go on with. -/
def Control.Aims {Θ : Type u} {κ : Type v} {α : Type w} {H : Type x} (c : κ) :
    Control Θ κ α H → Prop
  | .departs d _ => d.target = c
  | .enters stack _ _ _ => stack = c
  | .arrives a _ => a.stack = c
  | .body _ | .lost => False

/-- What stands where a context left. -/
def standing {κ : Type v} (c : κ) : CoroutineState → Frame κ
  | .created => .entry c
  | .suspended | .running => .call c c false
  | .done => .call c c true

namespace State

variable {Θ : Type u} {κ : Type v} {α : Type w} {H : Type x} {home : α → κ}
  {s s' : State Θ κ α H} {t t' : Coroutines Θ κ H} {thread other : Θ} {c : κ}

/-! ### What holds of a context, and of a thread -/

/-- The block of a context that stands somewhere. -/
structure Stands (home : α → κ) (s : State Θ κ α H) (t : Coroutines Θ κ H) (c : κ) : Prop where
  frame : s.frame (s.block c).fctx = some (standing c (t.state c))
  home_fctx : home (s.block c).fctx = c
  exceptions : (s.block c).ehGlobals = t.exceptions c
  hook : (s.block c).postSwitch = t.hook c
  entered : t.state c ≠ .created → ∀ d ∈ s.entered c, d = c

/-- The block of the context that a thread runs. -/
structure Runs (s : State Θ κ α H) (t : Coroutines Θ κ H) (thread : Θ) (c : κ) : Prop where
  running : t.running thread = c
  right : t.right c = .running thread
  thread_eq : (s.block c).thread = some thread
  entered : ∀ d ∈ s.entered c, d = c

/-- The thread may switch to the context. -/
structure Awaits (t : Coroutines Θ κ H) (thread : Θ) (c : κ) : Prop where
  right : t.right c = .held thread
  resumable : Resumable (t.state c)

/-- What a context leaves behind is still where it was. -/
structure Keeps (s : State Θ κ α H) (t : Coroutines Θ κ H) (thread : Θ) (c : κ) : Prop where
  hook : (s.block c).postSwitch = t.hook c
  exceptions : s.live thread = t.exceptions c

/-- A departure before one of its lines. -/
structure Leaves (home : α → κ) (s : State Θ κ α H) (t : Coroutines Θ κ H) (thread : Θ)
    (d : Departure κ α) (line : Departing) : Prop where
  runs : Runs s t thread d.fromBlock
  keeps : Keeps s t thread d.fromBlock
  awaits : Awaits t thread d.target
  stack : d.stack = d.fromBlock
  home_fctx : home d.fctx = d.fromBlock
  fate : d.fromState = .suspended ∨ d.fromState = .done
  onTop : d.onTop = true → t.state d.target = .suspended
  current : s.current thread = if line = .current then d.fromBlock else d.target
  state : line = .targetState ∨ line = .jump → (s.block d.fromBlock).state = d.fromState
  targetState : line = .jump → (s.block d.target).state = .running

/-- The other stack goes on. -/
structure Lands (home : α → κ) (s : State Θ κ α H) (t : Coroutines Θ κ H) (thread : Θ)
    (stack previous : κ) (fctx : α) : Prop where
  runs : Runs s t thread previous
  awaits : Awaits t thread stack
  current : s.current thread = stack
  frame : s.frame fctx = some (standing previous (s.block previous).state)
  home_fctx : home fctx = previous
  state : (s.block stack).state = .running

/-- What the lines of `onArrival` before this one have written. -/
def Written (s : State Θ κ α H) (t : Coroutines Θ κ H) (thread : Θ) (a : Arrival κ α) :
    Arriving Θ H → Prop
  | .save => Keeps s t thread a.previous
  | .adopt => Keeps s t thread a.previous ∧ (s.block a.previous).fctx = a.fctx
  | .stash on => Keeps s t thread a.previous ∧ (s.block a.previous).fctx = a.fctx ∧ on = thread ∧
      (s.block a.self).thread = some thread
  | .restore on => (s.block a.previous).postSwitch = t.hook a.previous ∧
      (s.block a.previous).fctx = a.fctx ∧ on = thread ∧ (s.block a.self).thread = some thread ∧
      (s.block a.previous).ehGlobals = t.exceptions a.previous
  | .hook on => (s.block a.previous).postSwitch = t.hook a.previous ∧
      (s.block a.previous).fctx = a.fctx ∧ on = thread ∧ (s.block a.self).thread = some thread ∧
      (s.block a.previous).ehGlobals = t.exceptions a.previous ∧ s.live thread = t.exceptions a.self
  | .publish on hook => t.hook a.previous = some hook ∧ (s.block a.previous).postSwitch = none ∧
      (s.block a.previous).fctx = a.fctx ∧ on = thread ∧ (s.block a.self).thread = some thread ∧
      (s.block a.previous).ehGlobals = t.exceptions a.previous ∧ s.live thread = t.exceptions a.self

/-- How far a thread is. -/
def Follows (home : α → κ) (s : State Θ κ α H) (t : Coroutines Θ κ H) (thread : Θ) :
    Control Θ κ α H → Prop
  | .body stack => Runs s t thread stack ∧ Keeps s t thread stack ∧ s.current thread = stack
  | .departs d line => Leaves home s t thread d line
  | .enters stack previous fctx fresh => Lands home s t thread stack previous fctx ∧
      Keeps s t thread previous ∧ fresh = decide (t.state stack = .created)
  | .arrives a line => Lands home s t thread a.stack a.previous a.fctx ∧ a.self = a.stack ∧
      (∀ d ∈ s.entered a.stack, d = a.stack) ∧ Written s t thread a line
  | .lost => False

/-- A context that stands somewhere is as its block says, up to the state while somebody is about to
go on with it. -/
def Rests (home : α → κ) (s : State Θ κ α H) (t : Coroutines Θ κ H) (c : κ) : Prop :=
  Stands home s t c ∧
    ((∀ thread, ¬ (s.control thread).Aims c) → (s.block c).state = t.state c)

/-- **The relation.** -/
structure Related (home : α → κ) (s : State Θ κ α H) (t : Coroutines Θ κ H) : Prop where
  right : s.right = t.right
  follows : ∀ thread, Follows home s t thread (s.control thread)
  rests : ∀ c, (t.right c).Idle → Rests home s t c

/-! ### What a step of another thread leaves alone -/

/-- Nothing of the context changes. -/
structure AgreeAt (home : α → κ) (s s' : State Θ κ α H) (t t' : Coroutines Θ κ H) (c : κ) :
    Prop where
  block : s'.block c = s.block c
  entered : s'.entered c = s.entered c
  frame : ∀ a, home a = c → s'.frame a = s.frame a
  right : t'.right c = t.right c
  state : t'.state c = t.state c
  exceptions : t'.exceptions c = t.exceptions c
  hook : t'.hook c = t.hook c

/-- Nothing of the thread changes. -/
structure AgreeOn (s s' : State Θ κ α H) (t t' : Coroutines Θ κ H) (thread : Θ) : Prop where
  control : s'.control thread = s.control thread
  current : s'.current thread = s.current thread
  live : s'.live thread = s.live thread
  running : t'.running thread = t.running thread

theorem Stands.congr (h : Stands home s t c) (hc : AgreeAt home s s' t t' c) :
    Stands home s' t' c where
  frame := by rw [hc.block, hc.state, hc.frame _ h.home_fctx, h.frame]
  home_fctx := by rw [hc.block, h.home_fctx]
  exceptions := by rw [hc.block, hc.exceptions, h.exceptions]
  hook := by rw [hc.block, hc.hook, h.hook]
  entered := by
    rw [hc.state, hc.entered]
    exact h.entered

theorem Runs.congr (h : Runs s t thread c) (hthread : AgreeOn s s' t t' thread)
    (hc : AgreeAt home s s' t t' c) : Runs s' t' thread c where
  running := hthread.running.trans h.running
  right := hc.right.trans h.right
  thread_eq := by rw [hc.block, h.thread_eq]
  entered := by
    rw [hc.entered]
    exact h.entered

theorem Awaits.congr (h : Awaits t thread c) (hc : AgreeAt home s s' t t' c) :
    Awaits t' thread c where
  right := hc.right.trans h.right
  resumable := by
    rw [hc.state]
    exact h.resumable

theorem Keeps.congr (h : Keeps s t thread c) (hthread : AgreeOn s s' t t' thread)
    (hc : AgreeAt home s s' t t' c) : Keeps s' t' thread c where
  hook := by rw [hc.block, hc.hook, h.hook]
  exceptions := by rw [hthread.live, hc.exceptions, h.exceptions]

theorem Leaves.congr {d : Departure κ α} {line : Departing} (h : Leaves home s t thread d line)
    (hthread : AgreeOn s s' t t' thread) (hfrom : AgreeAt home s s' t t' d.fromBlock)
    (htarget : AgreeAt home s s' t t' d.target) : Leaves home s' t' thread d line where
  runs := h.runs.congr hthread hfrom
  keeps := h.keeps.congr hthread hfrom
  awaits := h.awaits.congr htarget
  stack := h.stack
  home_fctx := h.home_fctx
  fate := h.fate
  onTop := by
    rw [htarget.state]
    exact h.onTop
  current := by rw [hthread.current, h.current]
  state := by
    rw [hfrom.block]
    exact h.state
  targetState := by
    rw [htarget.block]
    exact h.targetState

theorem Lands.congr {stack previous : κ} {fctx : α}
    (h : Lands home s t thread stack previous fctx) (hthread : AgreeOn s s' t t' thread)
    (hstack : AgreeAt home s s' t t' stack) (hprevious : AgreeAt home s s' t t' previous) :
    Lands home s' t' thread stack previous fctx where
  runs := h.runs.congr hthread hprevious
  awaits := h.awaits.congr hstack
  current := hthread.current.trans h.current
  frame := by rw [hprevious.frame _ h.home_fctx, hprevious.block, h.frame]
  home_fctx := h.home_fctx
  state := by rw [hstack.block, h.state]

theorem Written.congr {a : Arrival κ α} {line : Arriving Θ H} (h : Written s t thread a line)
    (hthread : AgreeOn s s' t t' thread) (hself : AgreeAt home s s' t t' a.self)
    (hprevious : AgreeAt home s s' t t' a.previous) : Written s' t' thread a line := by
  cases line with
  | save => exact Keeps.congr h hthread hprevious
  | adopt => exact ⟨h.1.congr hthread hprevious, by rw [hprevious.block, h.2]⟩
  | stash on =>
    refine ⟨h.1.congr hthread hprevious, ?_⟩
    rw [hprevious.block, hself.block]
    exact h.2
  | restore on =>
    unfold Written
    rw [hprevious.block, hself.block, hprevious.hook, hprevious.exceptions]
    exact h
  | hook on =>
    unfold Written
    rw [hprevious.block, hself.block, hprevious.hook, hprevious.exceptions, hthread.live,
      hself.exceptions]
    exact h
  | publish on hook =>
    unfold Written
    rw [hprevious.block, hself.block, hprevious.hook, hprevious.exceptions, hthread.live,
      hself.exceptions]
    exact h

/-- The contexts that a thread is concerned with are its own. -/
theorem Follows.congr {control : Control Θ κ α H} (h : Follows home s t thread control)
    (hthread : AgreeOn s s' t t' thread)
    (hown : ∀ c, (t.right c).Of thread → AgreeAt home s s' t t' c) :
    Follows home s' t' thread control := by
  have hruns : ∀ {c}, Runs s t thread c → AgreeAt home s s' t t' c := by
    intro c hc
    refine hown c ?_
    rw [hc.right]
    rfl
  have hawaits : ∀ {c}, Awaits t thread c → AgreeAt home s s' t t' c := by
    intro c hc
    refine hown c ?_
    rw [hc.right]
    rfl
  cases control with
  | body stack =>
    obtain ⟨h, hkeeps, hcurrent⟩ := h
    exact ⟨h.congr hthread (hruns h), hkeeps.congr hthread (hruns h),
      hthread.current.trans hcurrent⟩
  | departs d line =>
    exact Leaves.congr h hthread (hruns (Leaves.runs h)) (hawaits (Leaves.awaits h))
  | enters stack previous fctx fresh =>
    obtain ⟨h, hkeeps, hfresh⟩ := h
    refine ⟨h.congr hthread (hawaits h.awaits) (hruns h.runs), hkeeps.congr hthread (hruns h.runs),
      ?_⟩
    rw [(hawaits h.awaits).state]
    exact hfresh
  | arrives a line =>
    obtain ⟨h, hself, hentered, hwritten⟩ := h
    have hstack := hawaits h.awaits
    refine ⟨h.congr hthread hstack (hruns h.runs), hself, ?_,
      hwritten.congr hthread (hself ▸ hstack) (hruns h.runs)⟩
    rw [hstack.entered]
    exact hentered
  | lost => exact h

/-- **The frame rule.** A thread has taken a step that changes some contexts, none of which another
thread owns. -/
theorem Related.of_changes (h : Related home s t) (mover : Θ) (changed : Set κ)
    (hright : s'.right = t'.right)
    (hthreads : ∀ other, other ≠ mover → AgreeOn s s' t t' other)
    (hcontexts : ∀ c, c ∉ changed → AgreeAt home s s' t t' c)
    (hown : ∀ c ∈ changed, ∀ other, other ≠ mover → ¬ (t.right c).Of other)
    (hfollows : Follows home s' t' mover (s'.control mover))
    (haims : ∀ c, c ∉ changed → (s.control mover).Aims c → (s'.control mover).Aims c)
    (hrests : ∀ c ∈ changed, (t'.right c).Idle → Rests home s' t' c) : Related home s' t' where
  right := hright
  follows := by
    intro other
    rcases eq_or_ne other mover with rfl | hne
    · exact hfollows
    · rw [(hthreads other hne).control]
      exact (h.follows other).congr (hthreads other hne) fun c hc ↦
        hcontexts c fun hmem ↦ hown c hmem other hne hc
  rests := by
    intro c hidle
    by_cases hmem : c ∈ changed
    · exact hrests c hmem hidle
    · have hc := hcontexts c hmem
      obtain ⟨hstands, hstate⟩ := h.rests c (hc.right ▸ hidle)
      refine ⟨hstands.congr hc, fun hnone ↦ ?_⟩
      rw [hc.block, hc.state]
      refine hstate fun other ↦ ?_
      rcases eq_or_ne other mover with rfl | hne
      · exact fun haim ↦ hnone other (haims c hmem haim)
      · rw [← (hthreads other hne).control]
        exact hnone other

/-! ### The lines of a switch -/

section Lines

variable {leaving arriving : κ}

theorem Runs.ne_of_awaits (h : Runs s t thread leaving) (hto : Awaits t thread arriving) :
    arriving ≠ leaving := by
  rintro rfl
  have hright := h.right
  rw [hto.right] at hright
  cases hright

/-- A line of a switch writes to nothing but its thread, the two blocks, and the stack that is
left. -/
structure Touches (home : α → κ) (s s' : State Θ κ α H) (thread : Θ) (leaving arriving : κ) :
    Prop where
  right : s'.right = s.right
  threads : ∀ other, other ≠ thread → s'.control other = s.control other ∧
    s'.current other = s.current other ∧ s'.live other = s.live other
  blocks : ∀ c, c ≠ leaving → c ≠ arriving → s'.block c = s.block c ∧ s'.entered c = s.entered c
  frame : ∀ a, home a ≠ leaving → s'.frame a = s.frame a

/-- The atomic switch is yet to come. -/
theorem Related.line (h : Related home s t) (hruns : Runs s t thread leaving)
    (hawaits : Awaits t thread arriving) (htouches : Touches home s s' thread leaving arriving)
    (haims : ∀ c, (s.control thread).Aims c → c = arriving)
    (haim : (s'.control thread).Aims arriving) (hstands : Stands home s' t arriving)
    (hfollows : Follows home s' t thread (s'.control thread)) : Related home s' t := by
  have hidle : ¬ (t.right leaving).Idle := by
    rw [hruns.right]
    exact id
  refine h.of_changes thread {leaving, arriving} (htouches.right.trans h.right) (fun other hne ↦ ?_)
    (fun c hc ↦ ?_) (fun c hc other hne ↦ ?_) hfollows (fun c hc hold ↦ ?_) fun c hc hc' ↦ ?_
  · obtain ⟨hcontrol, hcurrent, hlive⟩ := htouches.threads other hne
    exact ⟨hcontrol, hcurrent, hlive, rfl⟩
  · obtain ⟨hleaving, harriving⟩ := not_or.mp hc
    obtain ⟨hblock, hentered⟩ := htouches.blocks c hleaving harriving
    exact ⟨hblock, hentered, fun a ha ↦ htouches.frame a (ha ▸ hleaving), rfl, rfl, rfl, rfl⟩
  · rcases hc with rfl | rfl
    · rw [hruns.right]
      exact hne.symm
    · rw [hawaits.right]
      exact hne.symm
  · exact absurd (Or.inr (haims c hold)) hc
  · rcases hc with rfl | rfl
    · exact absurd hc' hidle
    · exact ⟨hstands, fun hnone ↦ absurd haim (hnone thread)⟩

/-- The block of the target is not written to in a way that matters to it. -/
theorem Stands.of_block (h : Stands home s t c) (hfctx : (s'.block c).fctx = (s.block c).fctx)
    (hexceptions : (s'.block c).ehGlobals = (s.block c).ehGlobals)
    (hhook : (s'.block c).postSwitch = (s.block c).postSwitch)
    (hframe : s'.frame (s.block c).fctx = s.frame (s.block c).fctx)
    (hentered : t.state c ≠ .created → s'.entered c = s.entered c) : Stands home s' t c where
  frame := by rw [hfctx, hframe, h.frame]
  home_fctx := by rw [hfctx, h.home_fctx]
  exceptions := hexceptions.trans h.exceptions
  hook := hhook.trans h.hook
  entered := fun hstate d hd ↦ h.entered hstate d (hentered hstate ▸ hd)

theorem Awaits.idle (h : Awaits t thread c) : (t.right c).Idle := by
  rw [h.right]
  trivial

theorem Runs.of_block (h : Runs s t thread c) (hthread : (s'.block c).thread = (s.block c).thread)
    (hentered : s'.entered c = s.entered c) : Runs s' t thread c where
  running := h.running
  right := h.right
  thread_eq := hthread.trans h.thread_eq
  entered := fun d hd ↦ h.entered d (hentered ▸ hd)

theorem Lands.of_block {stack previous : κ} {fctx : α}
    (h : Lands home s t thread stack previous fctx)
    (hthread : (s'.block previous).thread = (s.block previous).thread)
    (hstate : ∀ c, (s'.block c).state = (s.block c).state) (hframe : s'.frame = s.frame)
    (hentered : s'.entered previous = s.entered previous) (hcurrent : s'.current = s.current) :
    Lands home s' t thread stack previous fctx where
  runs := h.runs.of_block hthread hentered
  awaits := h.awaits
  current := by rw [hcurrent, h.current]
  frame := by rw [hframe, hstate, h.frame]
  home_fctx := h.home_fctx
  state := (hstate stack).trans h.state

theorem Keeps.of_block (h : Keeps s t thread c)
    (hhook : (s'.block c).postSwitch = (s.block c).postSwitch)
    (hlive : s'.live thread = s.live thread) : Keeps s' t thread c where
  hook := hhook.trans h.hook
  exceptions := hlive.trans h.exceptions

end Lines

section Steps

variable [DecidableEq Θ] [DecidableEq κ] {leaving arriving : κ}
  {f : ContextBlock Θ α H → ContextBlock Θ α H} {k : Control Θ κ α H}

omit [DecidableEq κ] in
@[simp] theorem goto_control : (s.goto thread k).control = Function.update s.control thread k := rfl

omit [DecidableEq κ] in
@[simp] theorem goto_block : (s.goto thread k).block = s.block := rfl

omit [DecidableEq Θ] in
@[simp] theorem assign_block_self : (s.assign c f).block c = f (s.block c) :=
  Function.update_self ..

omit [DecidableEq Θ] in
theorem assign_block_of_ne {e : κ} (hne : c ≠ e) : (s.assign e f).block c = s.block c :=
  Function.update_of_ne hne ..

omit [DecidableEq Θ] in
/-- An assignment keeps what its function keeps. -/
theorem assign_field {γ : Type u'} (field : ContextBlock Θ α H → γ)
    (hf : ∀ b, field (f b) = field b) (e c : κ) :
    field ((s.assign e f).block c) = field (s.block c) := by
  rcases eq_or_ne c e with rfl | hne
  · rw [assign_block_self, hf]
  · rw [assign_block_of_ne hne]

omit [DecidableEq κ] in
theorem Runs.goto (h : Runs s t thread c) (other : Θ) (k : Control Θ κ α H) :
    Runs (s.goto other k) t thread c :=
  h.of_block rfl rfl

omit [DecidableEq κ] in
theorem Keeps.goto (h : Keeps s t thread c) (other : Θ) (k : Control Θ κ α H) :
    Keeps (s.goto other k) t thread c :=
  h.of_block rfl rfl

omit [DecidableEq κ] in
theorem Stands.goto (h : Stands home s t c) (other : Θ) (k : Control Θ κ α H) :
    Stands home (s.goto other k) t c :=
  h.of_block rfl rfl rfl rfl fun _ ↦ rfl

omit [DecidableEq Θ] in
theorem Runs.assign (h : Runs s t thread c) (hf : ∀ b, (f b).thread = b.thread) (e : κ) :
    Runs (s.assign e f) t thread c :=
  h.of_block (assign_field ContextBlock.thread hf e c) rfl

omit [DecidableEq Θ] in
theorem Keeps.assign (h : Keeps s t thread c) (hf : ∀ b, (f b).postSwitch = b.postSwitch) (e : κ) :
    Keeps (s.assign e f) t thread c :=
  h.of_block (assign_field ContextBlock.postSwitch hf e c) rfl

omit [DecidableEq Θ] in
theorem Stands.assign (h : Stands home s t c) (hfctx : ∀ b, (f b).fctx = b.fctx)
    (hexceptions : ∀ b, (f b).ehGlobals = b.ehGlobals)
    (hhook : ∀ b, (f b).postSwitch = b.postSwitch) (e : κ) : Stands home (s.assign e f) t c :=
  h.of_block (assign_field ContextBlock.fctx hfctx e c)
    (assign_field ContextBlock.ehGlobals hexceptions e c)
    (assign_field ContextBlock.postSwitch hhook e c) rfl fun _ ↦ rfl

omit [DecidableEq Θ] in
theorem Lands.assign {stack previous : κ} {fctx : α}
    (h : Lands home s t thread stack previous fctx) (hthread : ∀ b, (f b).thread = b.thread)
    (hstate : ∀ b, (f b).state = b.state) (e : κ) :
    Lands home (s.assign e f) t thread stack previous fctx :=
  h.of_block (assign_field ContextBlock.thread hthread e previous)
    (assign_field ContextBlock.state hstate e) rfl rfl rfl

omit [DecidableEq Θ] in
theorem Stands.assign_of_ne (h : Stands home s t c) {e : κ} (hne : c ≠ e) :
    Stands home (s.assign e f) t c := by
  have hblock := assign_block_of_ne (s := s) (f := f) hne
  exact h.of_block (by rw [hblock]) (by rw [hblock]) (by rw [hblock]) rfl fun _ ↦ rfl

omit [DecidableEq κ] in
theorem Touches.goto (h : Touches home s s' thread leaving arriving) (k : Control Θ κ α H) :
    Touches home s (s'.goto thread k) thread leaving arriving where
  right := h.right
  threads := by
    intro other hne
    rw [goto_control, Function.update_of_ne hne]
    exact h.threads other hne
  blocks := h.blocks
  frame := h.frame

omit [DecidableEq Θ] in
theorem touches_assign (hc : c = leaving ∨ c = arriving) :
    Touches home s (s.assign c f) thread leaving arriving where
  right := rfl
  threads := fun _ _ ↦ ⟨rfl, rfl, rfl⟩
  blocks := by
    intro other hleaving harriving
    refine ⟨assign_block_of_ne ?_, rfl⟩
    rintro rfl
    exact hc.elim hleaving harriving
  frame := fun _ _ ↦ rfl

variable [DecidableEq α]

/-- A line before the jump. -/
theorem Related.prepareDeparture (h : Related home s t) {d : Departure κ α} {line : Departing}
    (hcontrol : s.control thread = .departs d line) (hline : line ≠ .jump) :
    Related home (s.depart thread d line) t := by
  have hd : Leaves home s t thread d line := by
    have hfollows := h.follows thread
    rwa [hcontrol] at hfollows
  have hne := hd.runs.ne_of_awaits hd.awaits
  have hstands := (h.rests _ hd.awaits.idle).1
  have haims : ∀ c, (s.control thread).Aims c → c = d.target := by
    intro c hc
    rw [hcontrol] at hc
    exact hc.symm
  cases line with
  | current =>
    unfold depart
    rw [hd.runs.thread_eq]
    have htouches : Touches home s { s with current := Function.update s.current thread d.target }
        thread d.fromBlock d.target :=
      ⟨rfl, fun other hother ↦ ⟨rfl, Function.update_of_ne hother .., rfl⟩,
        fun _ _ _ ↦ ⟨rfl, rfl⟩, fun _ _ ↦ rfl⟩
    refine h.line hd.runs hd.awaits (htouches.goto _) haims ?_
      (hstands.of_block rfl rfl rfl rfl fun _ ↦ rfl) ?_
    · rw [goto_control, Function.update_self]
      rfl
    · rw [goto_control, Function.update_self]
      exact
        { runs := hd.runs.of_block rfl rfl
          keeps := hd.keeps.of_block rfl rfl
          awaits := hd.awaits
          stack := hd.stack
          home_fctx := hd.home_fctx
          fate := hd.fate
          onTop := hd.onTop
          current := Function.update_self ..
          state := by simp
          targetState := nofun }
  | fromState =>
    have htouches : Touches home s (s.assign d.fromBlock fun b ↦ { b with state := d.fromState })
        thread d.fromBlock d.target := touches_assign (.inl rfl)
    refine h.line hd.runs hd.awaits (htouches.goto _) haims ?_
      ((hstands.assign (by simp) (by simp) (by simp) _).goto _ _) ?_
    · rw [depart, goto_control, Function.update_self]
      rfl
    · rw [depart, goto_control, Function.update_self]
      exact
        { runs := (hd.runs.assign (by simp) _).goto _ _
          keeps := (hd.keeps.assign (by simp) _).goto _ _
          awaits := hd.awaits
          stack := hd.stack
          home_fctx := hd.home_fctx
          fate := hd.fate
          onTop := hd.onTop
          current := hd.current
          state := by simp
          targetState := nofun }
  | targetState =>
    have htouches : Touches home s (s.assign d.target fun b ↦ { b with state := .running })
        thread d.fromBlock d.target := touches_assign (.inr rfl)
    refine h.line hd.runs hd.awaits (htouches.goto _) haims ?_
      ((hstands.assign (by simp) (by simp) (by simp) _).goto _ _) ?_
    · rw [depart, goto_control, Function.update_self]
      rfl
    · rw [depart, goto_control, Function.update_self]
      exact
        { runs := (hd.runs.assign (by simp) _).goto _ _
          keeps := (hd.keeps.assign (by simp) _).goto _ _
          awaits := hd.awaits
          stack := hd.stack
          home_fctx := hd.home_fctx
          fate := hd.fate
          onTop := hd.onTop
          current := hd.current
          state := by simp [assign_block_of_ne hne.symm, hd.state]
          targetState := by simp }
  | jump => exact absurd rfl hline

omit [DecidableEq κ] in
/-- The jump finds the target where its block says. -/
theorem Related.jump (h : Related home s t) {d : Departure κ α}
    (hcontrol : s.control thread = .departs d .jump) : Related home (s.jump thread d) t := by
  have hd : Leaves home s t thread d .jump := by
    have hfollows := h.follows thread
    rwa [hcontrol] at hfollows
  have hne := hd.runs.ne_of_awaits hd.awaits
  have hstands := (h.rests _ hd.awaits.idle).1
  have haims : ∀ c, (s.control thread).Aims c → c = d.target := by
    intro c hc
    rw [hcontrol] at hc
    exact hc.symm
  obtain ⟨saved, hsaved⟩ : ∃ saved : State Θ κ α H, saved = { s with
      frame := Function.update s.frame d.fctx
        (some (.call d.stack d.fromBlock (decide (d.fromState = CoroutineState.done)))) } :=
    ⟨_, rfl⟩
  have hfctx : (s.block d.target).fctx ≠ d.fctx := by
    intro heq
    have hhome := hstands.home_fctx
    rw [heq, hd.home_fctx] at hhome
    exact hne hhome.symm
  have hframe : saved.frame (s.block d.target).fctx = s.frame (s.block d.target).fctx := by
    rw [hsaved]
    exact Function.update_of_ne hfctx ..
  have hleft : saved.frame d.fctx = some (standing d.fromBlock (s.block d.fromBlock).state) := by
    rw [hsaved, hd.state (.inr rfl)]
    refine (Function.update_self ..).trans ?_
    rcases hd.fate with hfate | hfate <;> simp [hfate, hd.stack, standing]
  have htouches : Touches home s saved thread d.fromBlock d.target := by
    rw [hsaved]
    refine ⟨rfl, fun _ _ ↦ ⟨rfl, rfl, rfl⟩, fun _ _ _ ↦ ⟨rfl, rfl⟩, fun a ha ↦ ?_⟩
    refine Function.update_of_ne ?_ ..
    rintro rfl
    exact ha hd.home_fctx
  have hblock : saved.block = s.block := by rw [hsaved]
  have hentered : saved.entered = s.entered := by rw [hsaved]
  have hgo : ∀ k : Control Θ κ α H, k.Aims d.target →
      Follows home (saved.goto thread k) t thread k → Related home (saved.goto thread k) t := by
    intro k haim hfollows
    refine h.line hd.runs hd.awaits (htouches.goto k) haims ?_ ?_ ?_
    · rw [goto_control, Function.update_self]
      exact haim
    · refine Stands.goto (hstands.of_block ?_ ?_ ?_ hframe fun _ ↦ ?_) _ _
      · rw [hblock]
      · rw [hblock]
      · rw [hblock]
      · rw [hentered]
    · rw [goto_control, Function.update_self]
      exact hfollows
  have hlands : ∀ k : Control Θ κ α H,
      Lands home (saved.goto thread k) t thread d.target d.fromBlock d.fctx := by
    intro k
    exact
      { runs := (hd.runs.of_block (by rw [hblock]) (by rw [hentered])).goto _ _
        awaits := hd.awaits
        current := by
          have hcurrent : saved.current = s.current := by rw [hsaved]
          have hline := hd.current
          rw [if_neg (by simp), ← hcurrent] at hline
          exact hline
        frame := by
          rw [← hblock] at hleft
          exact hleft
        home_fctx := hd.home_fctx
        state := by
          rw [goto_block, hblock]
          exact hd.targetState rfl }
  have hkeeps : ∀ k : Control Θ κ α H, Keeps (saved.goto thread k) t thread d.fromBlock := by
    intro k
    refine (hd.keeps.of_block ?_ ?_).goto _ _
    · rw [hblock]
    · rw [hsaved]
  have hfound : Function.update s.frame d.fctx
      (some (.call d.stack d.fromBlock (decide (d.fromState = CoroutineState.done))))
        (s.block d.target).fctx = some (standing d.target (t.state d.target)) :=
    (Function.update_of_ne hfctx ..).trans hstands.frame
  simp only [State.jump, ← hsaved, hfound]
  rcases hd.awaits.resumable with hstate | hstate
  · have honTop : ¬ d.onTop = true := fun honTop ↦ by
      have hsuspended := hd.onTop honTop
      rw [hstate] at hsuspended
      cases hsuspended
    simp only [hstate, standing, if_neg honTop]
    exact hgo _ rfl ⟨hlands _, hkeeps _, by simp [hstate]⟩
  · simp only [hstate, standing, Bool.false_eq_true, if_false]
    split_ifs with honTop
    · exact hgo _ rfl ⟨hlands _, hkeeps _, by simp [hstate]⟩
    · refine hgo _ rfl ⟨hlands _, rfl, ?_, hkeeps _⟩
      intro e he
      rw [State.goto, hentered] at he
      exact hstands.entered (by simp [hstate]) e he

omit [DecidableEq α] in
/-- `contextEntry` and `throwForcedUnwind` find the context that their stack is of. -/
theorem Related.enter (h : Related home s t) {stack previous : κ} {fctx : α} {fresh : Bool}
    (hcontrol : s.control thread = .enters stack previous fctx fresh) :
    Related home (s.enter thread stack previous fctx fresh) t := by
  obtain ⟨hlands, hkeeps, hfresh⟩ : Lands home s t thread stack previous fctx ∧
      Keeps s t thread previous ∧ fresh = decide (t.state stack = .created) := by
    have hfollows := h.follows thread
    rwa [hcontrol] at hfollows
  have hne := hlands.runs.ne_of_awaits hlands.awaits
  have hstands := (h.rests _ hlands.awaits.idle).1
  have haims : ∀ c, (s.control thread).Aims c → c = stack := by
    intro c hc
    rw [hcontrol] at hc
    exact hc.symm
  unfold State.enter
  simp only [hlands.runs.thread_eq, hlands.current]
  obtain ⟨entered, heq⟩ : ∃ entered, entered =
      if fresh then Function.update s.entered stack (some stack) else s.entered := ⟨_, rfl⟩
  have hself : ∀ d ∈ entered stack, d = stack := by
    intro d hd
    rw [heq] at hd
    split_ifs at hd with hcreated
    · rw [Function.update_self] at hd
      cases hd
      rfl
    · refine hstands.entered (fun hstate ↦ hcreated ?_) d hd
      rw [hfresh, hstate]
      rfl
  have hother : ∀ c, c ≠ stack → entered c = s.entered c := by
    intro c hc
    rw [heq]
    split_ifs
    · exact Function.update_of_ne hc ..
    · rfl
  have htouches : Touches home s { s with entered := entered } thread previous stack :=
    ⟨rfl, fun _ _ ↦ ⟨rfl, rfl, rfl⟩, fun c _ hc ↦ ⟨rfl, hother c hc⟩, fun _ _ ↦ rfl⟩
  rw [← heq]
  refine h.line hlands.runs hlands.awaits (htouches.goto _) haims ?_ ?_ ?_
  · rw [goto_control, Function.update_self]
    rfl
  · exact ⟨hstands.frame, hstands.home_fctx, hstands.exceptions, hstands.hook, fun _ ↦ hself⟩
  · rw [goto_control, Function.update_self]
    exact ⟨hlands.of_block rfl (fun _ ↦ rfl) rfl (hother _ hne.symm) rfl, rfl, hself,
      hkeeps.of_block rfl rfl⟩

/-- A line of `onArrival` before its last. -/
theorem Related.arrive (h : Related home s t) {a : Arrival κ α} {line : Arriving Θ H}
    (hcontrol : s.control thread = .arrives a line) (hsilent : s.event (.advance thread) = none) :
    Related home (s.onArrival thread a line) t := by
  obtain ⟨hlands, hself, hentered, hwritten⟩ : Lands home s t thread a.stack a.previous a.fctx ∧
      a.self = a.stack ∧ (∀ d ∈ s.entered a.stack, d = a.stack) ∧ Written s t thread a line := by
    have hfollows := h.follows thread
    rwa [hcontrol] at hfollows
  have hruns := hlands.runs
  have hne := hlands.runs.ne_of_awaits hlands.awaits
  have hstands := (h.rests _ hlands.awaits.idle).1
  have haims : ∀ c, (s.control thread).Aims c → c = a.stack := by
    intro c hc
    rw [hcontrol] at hc
    exact hc.symm
  have hgo : ∀ (s₁ : State Θ κ α H) (next : Arriving Θ H),
      Touches home s s₁ thread a.previous a.stack → Stands home s₁ t a.stack →
        Lands home s₁ t thread a.stack a.previous a.fctx → s₁.entered = s.entered →
          Written (s₁.goto thread (.arrives a next)) t thread a next →
            Related home (s₁.goto thread (.arrives a next)) t := by
    intro s₁ next htouches hstands hlands hsame hwritten
    refine h.line (hruns) hlands.awaits (htouches.goto _) haims ?_
      (hstands.goto _ _) ?_
    · rw [goto_control, Function.update_self]
      rfl
    · rw [goto_control, Function.update_self]
      refine ⟨hlands.of_block rfl (fun _ ↦ rfl) rfl rfl rfl, hself, ?_, hwritten⟩
      rw [State.goto, hsame]
      exact hentered
  cases line with
  | save =>
    refine hgo (s.assign a.previous fun b ↦ { b with fctx := a.fctx }) .adopt
      (touches_assign (.inl rfl)) (hstands.assign_of_ne hne) (hlands.assign (by simp) (by simp) _)
      rfl ⟨(Keeps.assign hwritten (by simp) _).goto _ _, ?_⟩
    simp
  | adopt =>
    obtain ⟨hkeeps, hfctx⟩ := hwritten
    unfold onArrival
    simp only [hlands.runs.thread_eq]
    refine hgo (s.assign a.self fun b ↦ { b with thread := some thread }) (.stash thread)
      (touches_assign (.inr hself)) (hstands.assign (by simp) (by simp) (by simp) _) ?_ rfl
      ⟨(hkeeps.assign (by simp) _).goto _ _, ?_, rfl, by simp⟩
    · refine hlands.of_block ?_ (fun c ↦ ?_) rfl rfl rfl
      · rw [assign_block_of_ne (hself ▸ hne.symm)]
      · rw [assign_field ContextBlock.state]
        exact fun _ ↦ rfl
    · rw [goto_block, assign_field ContextBlock.fctx]
      · exact hfctx
      · exact fun _ ↦ rfl
  | stash on =>
    obtain ⟨hkeeps, hfctx, hon, hadopted⟩ := hwritten
    refine hgo (s.assign a.previous fun b ↦ { b with ehGlobals := s.live thread }) (.restore on)
      (touches_assign (.inl rfl)) (hstands.assign_of_ne hne) (hlands.assign (by simp) (by simp) _)
      rfl ⟨?_, ?_, hon, ?_, ?_⟩
    · simpa using hkeeps.hook
    · simpa using hfctx
    · rw [goto_block, assign_block_of_ne (hself ▸ hne)]
      exact hadopted
    · simpa using hkeeps.exceptions
  | restore on =>
    obtain ⟨hhook, hfctx, hon, hadopted, hstashed⟩ := hwritten
    have htouches : Touches home s
        { s with live := Function.update s.live thread (s.block a.self).ehGlobals } thread
        a.previous a.stack :=
      ⟨rfl, fun _ hother ↦ ⟨rfl, rfl, Function.update_of_ne hother ..⟩, fun _ _ _ ↦ ⟨rfl, rfl⟩,
        fun _ _ ↦ rfl⟩
    refine hgo _ (.hook on) htouches (hstands.of_block rfl rfl rfl rfl fun _ ↦ rfl)
      (hlands.of_block rfl (fun _ ↦ rfl) rfl rfl rfl) rfl
      ⟨hhook, hfctx, hon, hadopted, hstashed, ?_⟩
    refine (Function.update_self ..).trans ?_
    rw [hself]
    exact hstands.exceptions
  | hook on =>
    obtain ⟨hhook, hfctx, hon, hadopted, hstashed, hlive⟩ := hwritten
    cases hpost : (s.block a.previous).postSwitch with
    | none => simp [State.event, hcontrol, hpost] at hsilent
    | some hook =>
      unfold onArrival
      simp only [hpost]
      refine hgo (s.assign a.previous fun b ↦ { b with postSwitch := none }) (.publish on hook)
        (touches_assign (.inl rfl)) (hstands.assign_of_ne hne)
        (hlands.assign (by simp) (by simp) _) rfl ⟨?_, ?_, ?_, hon, ?_, ?_, hlive⟩
      · exact hhook.symm.trans hpost
      · simp
      · simpa using hfctx
      · rw [goto_block, assign_block_of_ne (hself ▸ hne)]
        exact hadopted
      · simpa using hstashed
  | publish on hook => simp [State.event, hcontrol] at hsilent

omit [DecidableEq α] in
/-- The last line of a switch is the switch. -/
theorem Related.settle (h : Related home s t) {a : Arrival κ α} {line : Arriving Θ H}
    (hcontrol : s.control thread = .arrives a line)
    (hlands : Lands home s t thread a.stack a.previous a.fctx)
    (hentered : ∀ d ∈ s.entered a.stack, d = a.stack)
    (hpost : (s.block a.previous).postSwitch = none) (hfctx : (s.block a.previous).fctx = a.fctx)
    (hadopted : (s.block a.stack).thread = some thread)
    (hstashed : (s.block a.previous).ehGlobals = t.exceptions a.previous)
    (hlive : s.live thread = t.exceptions a.stack) :
    Related home ({ s with
      right := Function.update (Function.update s.right a.previous
        (if (t.hook a.previous).isSome then .free else .held thread)) a.stack
          (.running thread) }.goto thread (.body a.stack))
      (t.switch thread a.stack (s.block a.previous).state) := by
  have hne := hlands.runs.ne_of_awaits hlands.awaits
  have hstands := (h.rests _ hlands.awaits.idle).1
  have hrunning := hlands.runs.running
  have hswitch {c : κ} (hprevious : c ≠ a.previous) (hstack : c ≠ a.stack) :
      AgreeAt home s s t (t.switch thread a.stack (s.block a.previous).state) c := by
    refine ⟨rfl, rfl, fun _ _ ↦ rfl, ?_, ?_, rfl, ?_⟩
    · simp [Coroutines.switch, hrunning, hprevious, hstack]
    · simp [Coroutines.switch, hrunning, hprevious, hstack]
    · simp [Coroutines.switch, hrunning, hprevious]
  refine h.of_changes thread {a.previous, a.stack} ?_ (fun other hother ↦ ?_) (fun c hc ↦ ?_)
    (fun c hc other hother ↦ ?_) ?_ (fun c hc haim ↦ ?_) fun c hc hidle ↦ ?_
  · simp [Coroutines.switch, hrunning, h.right, State.goto]
  · exact ⟨Function.update_of_ne hother .., rfl, rfl, Function.update_of_ne hother ..⟩
  · obtain ⟨hprevious, hstack⟩ := not_or.mp hc
    obtain ⟨-, -, -, hright, hstate, hexceptions, hhook⟩ := hswitch hprevious hstack
    exact ⟨rfl, rfl, fun _ _ ↦ rfl, hright, hstate, hexceptions, hhook⟩
  · rcases hc with rfl | rfl
    · rw [hlands.runs.right]
      exact hother.symm
    · rw [hlands.awaits.right]
      exact hother.symm
  · rw [goto_control, Function.update_self]
    refine ⟨⟨Function.update_self .., Function.update_self .., hadopted, hentered⟩, ⟨?_, hlive⟩,
      hlands.current⟩
    refine hstands.hook.trans ?_
    simp [Coroutines.switch, hrunning, hne]
  · rw [hcontrol] at haim
    exact absurd (Or.inr haim.symm) hc
  · rcases hc with rfl | rfl
    · have hstate : (t.switch thread a.stack (s.block a.previous).state).state a.previous =
          (s.block a.previous).state := by
        simp [Coroutines.switch, hrunning, hne.symm]
      refine ⟨⟨?_, ?_, hstashed, ?_, fun _ ↦ hlands.runs.entered⟩, fun _ ↦ hstate.symm⟩
      · rw [hstate, goto_block, hfctx]
        exact hlands.frame
      · rw [goto_block, hfctx]
        exact hlands.home_fctx
      · simp [Coroutines.switch, hrunning, hpost]
    · have hright : (t.switch thread a.stack (s.block a.previous).state).right a.stack =
          .running thread := Function.update_self ..
      rw [hright] at hidle
      exact hidle.elim

/-- A line that shows something is the last of `onArrival`. -/
theorem Related.finish (h : Related home s t) {a : Arrival κ α} {line : Arriving Θ H}
    (hcontrol : s.control thread = .arrives a line) {shown : Event Θ κ H}
    (hshown : s.event (.advance thread) = some shown) :
    ∃ b t', t.step b = some t' ∧ t.event b = some shown ∧
      Related home (s.onArrival thread a line) t' := by
  obtain ⟨hlands, hself, hentered, hwritten⟩ : Lands home s t thread a.stack a.previous a.fctx ∧
      a.self = a.stack ∧ (∀ d ∈ s.entered a.stack, d = a.stack) ∧ Written s t thread a line := by
    have hfollows := h.follows thread
    rwa [hcontrol] at hfollows
  have hstep : t.step (.switch thread a.stack (s.block a.previous).state) =
      some (t.switch thread a.stack (s.block a.previous).state) :=
    if_pos ⟨hlands.awaits.right, hlands.awaits.resumable⟩
  have hsettle := h.settle hcontrol hlands hentered
  cases line with
  | hook on =>
    obtain ⟨hhook, hfctx, rfl, hadopted, hstashed, hlive⟩ := hwritten
    cases hpost : (s.block a.previous).postSwitch with
    | some hook => simp [State.event, hcontrol, hpost] at hshown
    | none =>
      rw [hpost] at hhook
      rw [hself] at hadopted hlive
      refine ⟨_, _, hstep, ?_, ?_⟩
      · simp only [State.event, hcontrol, hpost, Option.isNone_none, if_true] at hshown
        rw [← hshown, hself]
        simp [Coroutines.event, hlands.runs.running, ← hhook]
      · have hdone := hsettle hpost hfctx hadopted hstashed hlive
        rw [← hhook] at hdone
        simp only [onArrival, hpost, hself]
        exact hdone
  | publish on hook =>
    obtain ⟨hhook, hpost, hfctx, rfl, hadopted, hstashed, hlive⟩ := hwritten
    rw [hself] at hadopted hlive
    refine ⟨_, _, hstep, ?_, ?_⟩
    · simp only [State.event, hcontrol] at hshown
      rw [← hshown, hself]
      simp [Coroutines.event, hlands.runs.running, hhook]
    · have hdone := hsettle hpost hfctx hadopted hstashed hlive
      rw [hhook] at hdone
      simp only [onArrival, hself]
      exact hdone
  | save | adopt | stash on | restore on =>
    simp [State.event, State.step, hcontrol, onArrival, hlands.runs.thread_eq,
      Control.isLost] at hshown

/-! ### The program -/

omit [DecidableEq Θ] [DecidableEq κ] [DecidableEq α] in
/-- A context that a thread goes on with is held by it. -/
theorem Related.right_of_aims (h : Related home s t) (haims : (s.control thread).Aims c) :
    t.right c = .held thread := by
  have hfollows := h.follows thread
  cases hcontrol : s.control thread with
  | body stack | lost =>
    rw [hcontrol] at haims
    exact haims.elim
  | departs d line =>
    rw [hcontrol] at haims hfollows
    exact haims ▸ (Leaves.awaits hfollows).right
  | enters stack previous fctx fresh | arrives a line =>
    rw [hcontrol] at haims hfollows
    exact haims ▸ hfollows.1.awaits.right

omit [DecidableEq Θ] [DecidableEq κ] [DecidableEq α] in
/-- The state of a context that a thread holds while it runs the program. -/
theorem Related.state_of_held (h : Related home s t) {stack : κ}
    (hcontrol : s.control thread = .body stack) (hheld : t.right c = .held thread) :
    (s.block c).state = t.state c := by
  refine (h.rests c (by rw [hheld]; trivial)).2 fun other haims ↦ ?_
  have hright := h.right_of_aims haims
  rw [hheld] at hright
  cases hright
  rw [hcontrol] at haims
  exact haims

omit [DecidableEq Θ] [DecidableEq κ] [DecidableEq α] in
/-- The program has changed something about the context that it runs in. -/
theorem Related.within (h : Related home s t) {stack : κ}
    (hcontrol : s.control thread = .body stack) (hsame : s'.control = s.control)
    (hruns : Runs s t thread stack) (hright : s'.right = s.right) (hright' : t'.right = t.right)
    (hthreads : ∀ other, other ≠ thread → AgreeOn s s' t t' other)
    (hcontexts : ∀ c, c ≠ stack → AgreeAt home s s' t t' c)
    (hfollows : Runs s' t' thread stack ∧ Keeps s' t' thread stack ∧ s'.current thread = stack) :
    Related home s' t' := by
  refine h.of_changes thread {stack} (by rw [hright, hright', h.right]) hthreads hcontexts
    (fun c hc other hother ↦ ?_) ?_ (fun c hc haim ↦ ?_) fun c hc hidle ↦ ?_
  · rw [hc, hruns.right]
    exact hother.symm
  · rw [hsame, hcontrol]
    exact hfollows
  · rw [hsame]
    exact haim
  · rw [hc, hright', hruns.right] at hidle
    exact hidle.elim

omit [DecidableEq Θ] [DecidableEq α] in
/-- Another right to a context that nobody else has one to. -/
theorem Related.regrant (h : Related home s t) {stack context : κ} {right : Right Θ}
    (hcontrol : s.control thread = .body stack) (hsame : s'.control = s.control)
    (hcurrent : s'.current = s.current) (hlive : s'.live = s.live)
    (hrunning : t'.running = t.running)
    (hright : s'.right = Function.update s.right context right)
    (hright' : t'.right = Function.update t.right context right)
    (hown : ∀ other, other ≠ thread → ¬ (t.right context).Of other)
    (hne : t.right context ≠ .running thread)
    (hcontexts : ∀ c, c ≠ context → t'.right c = t.right c → AgreeAt home s s' t t' c)
    (hrests : right.Idle → Rests home s' t' context) : Related home s' t' := by
  have hothers : ∀ c, c ≠ context → AgreeAt home s s' t t' c := by
    intro c hc
    refine hcontexts c hc ?_
    rw [hright']
    exact Function.update_of_ne hc ..
  obtain ⟨hruns, hkeeps, hstack⟩ : Runs s t thread stack ∧ Keeps s t thread stack ∧
      s.current thread = stack := by
    have hfollows := h.follows thread
    rwa [hcontrol] at hfollows
  have hagree : AgreeAt home s s' t t' stack := by
    refine hothers stack ?_
    rintro rfl
    exact hne hruns.right
  have hthread : ∀ other, AgreeOn s s' t t' other := fun other ↦
    ⟨by rw [hsame], by rw [hcurrent], by rw [hlive], by rw [hrunning]⟩
  refine h.of_changes thread {context} (by rw [hright, hright', h.right])
    (fun other _ ↦ hthread other) hothers (fun c hc other hother ↦ ?_) ?_ (fun c hc haim ↦ ?_)
    fun c hc hidle ↦ ?_
  · rw [hc]
    exact hown other hother
  · rw [hsame, hcontrol]
    exact ⟨hruns.congr (hthread thread) hagree, hkeeps.congr (hthread thread) hagree,
      (hthread thread).current.trans hstack⟩
  · rw [hsame]
    exact haim
  · rw [hc, hright', Function.update_self] at hidle
    rw [hc]
    exact hrests hidle

omit [DecidableEq κ] [DecidableEq α] in
/-- A departure begins. -/
theorem Related.beginSwitch (h : Related home s t) {d : Departure κ α}
    (hcontrol : s.control thread = .body d.stack) (hstack : d.stack = d.fromBlock)
    (hheld : s.right d.target = .held thread) (hresumable : Resumable (s.block d.target).state)
    (honTop : d.onTop = true → (s.block d.target).state = .suspended)
    (hhome : home d.fctx = d.stack) (hfate : d.fromState = .suspended ∨ d.fromState = .done) :
    Related home (s.goto thread (.departs d .current)) t := by
  obtain ⟨hruns, hkeeps, hcurrent⟩ : Runs s t thread d.fromBlock ∧ Keeps s t thread d.fromBlock ∧
      s.current thread = d.fromBlock := by
    have hfollows := h.follows thread
    rwa [hcontrol, hstack] at hfollows
  rw [h.right] at hheld
  have hstate := h.state_of_held hcontrol hheld
  have hawaits : Awaits t thread d.target := ⟨hheld, hstate ▸ hresumable⟩
  have htouches : Touches home s s thread d.fromBlock d.target :=
    ⟨rfl, fun _ _ ↦ ⟨rfl, rfl, rfl⟩, fun _ _ _ ↦ ⟨rfl, rfl⟩, fun _ _ ↦ rfl⟩
  refine h.line hruns hawaits (htouches.goto _) (fun c hc ↦ ?_) ?_
    ((h.rests _ hawaits.idle).1.goto _ _) ?_
  · rw [hcontrol] at hc
    exact hc.elim
  · rw [goto_control, Function.update_self]
    rfl
  · rw [goto_control, Function.update_self]
    exact
      { runs := hruns.goto _ _
        keeps := hkeeps.goto _ _
        awaits := hawaits
        stack := hstack
        home_fctx := hhome.trans hstack
        fate := hfate
        onTop := fun h ↦ hstate ▸ honTop h
        current := hcurrent
        state := by simp
        targetState := nofun }

/-- What the program does between switches. -/
theorem Related.move (h : Related home s t) {stack : κ} {move : Move κ α H}
    (hcontrol : s.control thread = .body stack) (hcontract : s.Contract home (.move thread move))
    (hstep : s.move thread stack move = some s') :
    (s.event (.move thread move) = none ∧ Related home s' t) ∨
      ∃ b t', t.step b = some t' ∧ t.event b = s.event (.move thread move) ∧
        Related home s' t' := by
  obtain ⟨hruns, hkeeps, hcurrent⟩ : Runs s t thread stack ∧ Keeps s t thread stack ∧
      s.current thread = stack := by
    have hfollows := h.follows thread
    rwa [hcontrol] at hfollows
  have hrunning := hruns.running
  cases move with
  | raise exceptions =>
    cases hstep
    refine Or.inr ⟨.raise thread exceptions, _, rfl, rfl, ?_⟩
    rw [hrunning]
    refine h.within hcontrol rfl hruns rfl rfl (fun other hother ↦ ?_) (fun c hc ↦ ?_) ?_
    · exact ⟨rfl, rfl, Function.update_of_ne hother .., rfl⟩
    · exact ⟨rfl, rfl, fun _ _ ↦ rfl, rfl, rfl, Function.update_of_ne hc .., rfl⟩
    · exact ⟨⟨hrunning, hruns.right, hruns.thread_eq, hruns.entered⟩,
        ⟨hkeeps.hook, by simp⟩, hcurrent⟩
  | look =>
    cases hstep
    refine Or.inr ⟨.look thread, t, rfl, ?_, h⟩
    simp [State.event, Coroutines.event, hcontrol, hcurrent, hrunning, hruns.thread_eq,
      hkeeps.exceptions]
  | arm hook =>
    cases hstep
    refine Or.inr ⟨.arm thread hook, _, rfl, rfl, ?_⟩
    rw [hrunning, hcurrent]
    refine h.within hcontrol rfl hruns rfl rfl (fun other hother ↦ ⟨rfl, rfl, rfl, rfl⟩)
      (fun c hc ↦ ?_) ?_
    · exact ⟨assign_block_of_ne hc, rfl, fun _ _ ↦ rfl, rfl, rfl, rfl,
        Function.update_of_ne hc ..⟩
    · exact ⟨⟨hrunning, hruns.right, by simp [hruns.thread_eq], hruns.entered⟩,
        ⟨by simp, hkeeps.exceptions⟩, hcurrent⟩
  | acquire context =>
    cases hstep
    have hfree : t.right context = .free := h.right ▸ hcontract
    refine Or.inr ⟨.acquire thread context, _, if_pos hfree, rfl, ?_⟩
    obtain ⟨hstands, hstate⟩ := h.rests context (by rw [hfree]; trivial)
    refine h.regrant hcontrol rfl rfl rfl rfl rfl rfl ?_ ?_
      (fun c _ hright ↦ ⟨rfl, rfl, fun _ _ ↦ rfl, hright, rfl, rfl, rfl⟩) fun _ ↦ ?_
    · rw [hfree]
      exact fun _ _ ↦ id
    · rw [hfree]
      exact nofun
    · exact ⟨⟨hstands.frame, hstands.home_fctx, hstands.exceptions, hstands.hook,
        hstands.entered⟩, hstate⟩
  | release context =>
    cases hstep
    have hheld : t.right context = .held thread := h.right ▸ hcontract
    refine Or.inr ⟨.release thread context, _, if_pos hheld, rfl, ?_⟩
    obtain ⟨hstands, hstate⟩ := h.rests context (by rw [hheld]; trivial)
    refine h.regrant hcontrol rfl rfl rfl rfl rfl rfl ?_ ?_
      (fun c _ hright ↦ ⟨rfl, rfl, fun _ _ ↦ rfl, hright, rfl, rfl, rfl⟩) fun _ ↦ ?_
    · rw [hheld]
      exact fun _ hother ↦ hother.symm
    · rw [hheld]
      exact nofun
    · exact ⟨⟨hstands.frame, hstands.home_fctx, hstands.exceptions, hstands.hook,
        hstands.entered⟩, hstate⟩
  | make context fctx =>
    cases hstep
    have habsent : t.right context = .absent := h.right ▸ hcontract.1
    refine Or.inr ⟨.make thread context, _, if_pos habsent, rfl, ?_⟩
    refine h.regrant hcontrol rfl rfl rfl rfl rfl rfl ?_ ?_ (fun c hc hright ↦ ?_) fun _ ↦ ?_
    · rw [habsent]
      exact fun _ _ ↦ id
    · rw [habsent]
      exact nofun
    · refine ⟨Function.update_of_ne hc .., rfl, fun a ha ↦ Function.update_of_ne ?_ .., hright,
        Function.update_of_ne hc .., Function.update_of_ne hc .., Function.update_of_ne hc ..⟩
      rintro rfl
      exact hc (ha.symm.trans hcontract.2)
    · refine ⟨⟨?_, ?_, ?_, ?_, ?_⟩, fun _ ↦ ?_⟩
      · simp [standing]
      · simpa using hcontract.2
      · simp
      · simp
      · simp
      · simp
  | destroy context =>
    cases hstep
    have hheld : t.right context = .held thread := h.right ▸ hcontract.1
    have hstate := h.state_of_held hcontrol hheld
    refine Or.inr ⟨.destroy thread context, _, if_pos ⟨hheld, hstate ▸ hcontract.2⟩, rfl, ?_⟩
    refine h.regrant hcontrol rfl rfl rfl rfl rfl rfl ?_ ?_
      (fun c _ hright ↦ ⟨rfl, rfl, fun _ _ ↦ rfl, hright, rfl, rfl, rfl⟩) False.elim
    · rw [hheld]
      exact fun _ hother ↦ hother.symm
    · rw [hheld]
      exact nofun
  | switchTo target onTop fctx =>
    cases hstep
    obtain ⟨hheld, hresumable, honTop, hbody⟩ := hcontract
    have hhome : home fctx = stack := by
      rw [hcontrol] at hbody
      exact (Option.some.inj hbody).symm
    exact Or.inl ⟨rfl, h.beginSwitch hcontrol hcurrent.symm hheld hresumable honTop hhome
      (.inl rfl)⟩
  | finishAndSwitchTo target fctx =>
    obtain ⟨hheld, hresumable, hbody⟩ := hcontract
    have hhome : home fctx = stack := by
      rw [hcontrol] at hbody
      exact (Option.some.inj hbody).symm
    obtain ⟨self, hself, rfl⟩ := Option.map_eq_some_iff.mp hstep
    exact Or.inl ⟨rfl, h.beginSwitch hcontrol (hruns.entered self hself).symm hheld hresumable
      nofun hhome (.inr rfl)⟩

end Steps

/-! ### Whole runs -/

variable [DecidableEq Θ] [DecidableEq κ] [DecidableEq α]

omit [DecidableEq Θ] [DecidableEq κ] [DecidableEq α] in
theorem Related.not_lost (h : Related home s t) (thread : Θ) :
    (s.control thread).isLost = false := by
  have hfollows := h.follows thread
  cases hcontrol : s.control thread with
  | lost =>
    rw [hcontrol] at hfollows
    exact hfollows.elim
  | _ => rfl

/-- Each step of the code is nothing, or a step of what it means. -/
theorem Related.step (h : Related home s t) {a : Action Θ κ α H} (hcontract : s.Contract home a)
    (hstep : s.step a = some s') :
    (s.event a = none ∧ Related home s' t) ∨
      ∃ b t', t.step b = some t' ∧ t.event b = s.event a ∧ Related home s' t' := by
  cases a with
  | move thread move =>
    simp only [State.step] at hstep
    split at hstep
    · next stack hcontrol => exact h.move hcontrol hcontract hstep
    · cases hstep
  | advance thread =>
    have hstep' := hstep
    simp only [State.step] at hstep
    split at hstep
    · next d line hcontrol =>
      cases hstep
      have hnext : Related home (s.depart thread d line) t := by
        by_cases hline : line = .jump
        · subst hline
          exact h.jump hcontrol
        · exact h.prepareDeparture hcontrol hline
      refine Or.inl ⟨?_, hnext⟩
      simp [State.event, hcontrol, hstep', hnext.not_lost]
    · next stack previous fctx fresh hcontrol =>
      cases hstep
      have hnext := h.enter hcontrol
      refine Or.inl ⟨?_, hnext⟩
      simp [State.event, hcontrol, hstep', hnext.not_lost]
    · next a line hcontrol =>
      cases hstep
      cases hshown : s.event (.advance thread) with
      | none => exact Or.inl ⟨rfl, h.arrive hcontrol hshown⟩
      | some shown => exact Or.inr (h.finish hcontrol hshown)
    · cases hstep
    · cases hstep

omit [DecidableEq Θ] [DecidableEq κ] [DecidableEq α] in
/-- At the start the threads run their native contexts. -/
theorem related_initial (h : s.Initial) : ∃ t : Coroutines Θ κ H, t.Initial ∧ Related home s t := by
  classical
  obtain ⟨hthreads, hcontexts⟩ := h
  have hinj : ∀ thread other, s.current thread = s.current other → thread = other := by
    intro thread other heq
    have hright := (hthreads thread).2.1
    rw [heq, (hthreads other).2.1] at hright
    cases hright
    rfl
  refine ⟨⟨s.current, s.right, fun _ ↦ .running,
    fun c ↦ if hc : ∃ thread, c = s.current thread then s.live hc.choose else ⟨0, 0⟩,
    fun _ ↦ none⟩, ⟨fun thread ↦ ⟨(hthreads thread).2.1, rfl⟩, hcontexts⟩, rfl, fun thread ↦ ?_,
    fun c hidle ↦ ?_⟩
  · obtain ⟨hcontrol, hright, hentered, hthread, -, hhook⟩ := hthreads thread
    rw [hcontrol]
    refine ⟨⟨rfl, hright, hthread, by simp [hentered]⟩, ⟨hhook, ?_⟩, rfl⟩
    have hexists : ∃ other, s.current thread = s.current other := ⟨thread, rfl⟩
    simp only [dif_pos hexists]
    rw [← hinj _ _ hexists.choose_spec]
  · rcases hcontexts c with habsent | ⟨thread, rfl⟩
    · simp only [habsent] at hidle
      exact hidle.elim
    · simp only [(hthreads thread).2.1] at hidle
      exact hidle.elim

/-- Two threads with their native contexts. -/
def sample : State Bool (Option Bool) (Option Bool × Bool) Unit where
  block c := ⟨(c, false), c, .running, none, ⟨0, 0⟩⟩
  current thread := some thread
  live _ := ⟨0, 0⟩
  frame _ := none
  entered _ := none
  control thread := .body (some thread)
  right
    | some thread => .running thread
    | none => .absent

theorem sample_initial : sample.Initial := by
  refine ⟨fun thread ↦ ⟨rfl, rfl, rfl, rfl, rfl, rfl⟩, fun c ↦ ?_⟩
  cases c with
  | none => exact Or.inl rfl
  | some thread => exact Or.inr ⟨thread, rfl⟩

/-- A coroutine is made and resumed on one thread, where it catches an exception and parks; the
other thread takes it and resumes it. -/
def sampleRun : List (Action Bool (Option Bool) (Option Bool × Bool) Unit) :=
  [Action.move false (.make none (none, false)),
      .move false (.switchTo none false (some false, false))] ++
    List.replicate 10 (Action.advance false) ++
    [Action.move false (.raise ⟨7, 1⟩), .move false (.arm ()),
      .move false (.switchTo (some false) false (none, true))] ++
    List.replicate 10 (Action.advance false) ++
    [Action.move true (.acquire none), .move true (.switchTo none false (some true, false))] ++
    List.replicate 9 (Action.advance true) ++ [Action.move true .look]

def sampleEnd : Option (State Bool (Option Bool) (Option Bool × Bool) Unit) :=
  (system Bool (Option Bool) (Option Bool × Bool) Unit).runUnder
    (fun s a ↦ decide (s.Contract Prod.fst a)) sample sampleRun

theorem sampleEnd_isSome : sampleEnd.isSome = true := by decide +kernel

end State

end Stackfull.Coro.Handover
