import Mathlib
import Stackfull.Lib.History
import Stackfull.Lib.LossyFifo

/-!
# Waiting for several sources

`select`, `selectUntil` and `selectFor` (`sync/Select.h`) over any number of `Completion`s, `Stream`s and
`Mailbox`es, each as far as it decides whether it is ready and whom it wakes. A source may be named
several times. Any number of parties set, push, post and close; one consumer selects, and takes from
the sources between its calls.

A critical section is one step, and so is each `isReady` of a scan. `consumer` says whether a source
stores the waker of the selecting task or thread: a wake sets `token`, and a return from `park` takes
it. The clock may go forward at any moment; when the deadline has passed, `blockUntil` may give up,
with or without the token. Somebody else may wake the consumer, `park` may return for no reason, and a
task may be unwound there.

`scans` and `before` are history: how many scans have begun, and how many before the current call.
-/

set_option autoImplicit false
set_option relaxedAutoImplicit false
set_option linter.dupNamespace false

namespace Stackfull.Sync.Select

open Stackfull.Lib

universe u v w

/-! ### The sources -/

/-- `CompletionState`. -/
structure CompletionSource where
  claimed : Bool
  ready : Bool
  consumer : Bool
  deriving DecidableEq

/-- `Stream`. -/
structure StreamSource where
  overflow : Overflow
  capacity : ℕ
  count : ℕ
  closed : Bool
  consumer : Bool
  deriving DecidableEq

/-- `Mailbox`. -/
structure MailboxSource where
  queue : ℕ
  closed : Bool
  consumer : Bool
  deriving DecidableEq

/-- `publish` under the lock, and whether it takes the consumer. -/
def CompletionSource.publish (s : CompletionSource) : CompletionSource × Bool :=
  ({ s with ready := true, consumer := false }, s.consumer)

/-- `push` under the lock, and whether it takes the consumer. -/
def StreamSource.push (s : StreamSource) : StreamSource × Bool :=
  if s.closed = true ∨ s.count = s.capacity ∧ s.overflow = .dropNewest then (s, false)
  else if s.count = s.capacity then
    ({ s with count := s.count - 1 + 1, consumer := false }, s.consumer)
  else ({ s with count := s.count + 1, consumer := false }, s.consumer)

/-- `close` under the lock, and whether it takes the consumer. -/
def StreamSource.close (s : StreamSource) : StreamSource × Bool :=
  ({ s with closed := true, consumer := false }, s.consumer)

/-- `post` under the lock, where it also wakes the consumer. -/
def MailboxSource.post (s : MailboxSource) : MailboxSource × Bool :=
  if s.closed then (s, false) else ({ s with queue := s.queue + 1 }, s.consumer)

/-- `close` under the lock, and whether there is a consumer to wake. -/
def MailboxSource.close (s : MailboxSource) : MailboxSource × Bool :=
  ({ s with closed := true }, s.consumer)

/-- A source. -/
inductive Source
  | completion (state : CompletionSource)
  | stream (state : StreamSource)
  | mailbox (state : MailboxSource)
  deriving DecidableEq

namespace Source

/-- Whether the waker of the consumer is stored. -/
def consumer : Source → Bool
  | completion s => s.consumer
  | stream s => s.consumer
  | mailbox s => s.consumer

/-- `isReady`. -/
def isReady : Source → Bool
  | completion s => s.ready
  | stream s => s.count != 0 || s.closed
  | mailbox s => s.queue != 0 || s.closed

/-- Stores the waker, or deletes it. -/
def setConsumer (consumer : Bool) : Source → Source
  | completion s => completion { s with consumer := consumer }
  | stream s => stream { s with consumer := consumer }
  | mailbox s => mailbox { s with consumer := consumer }

/-- `attach` under the lock: false if there is nothing to wait for. -/
def attach (s : Source) : Source × Bool :=
  if s.isReady then (s, false) else (s.setConsumer true, true)

/-- `detach` under the lock. -/
def detach (s : Source) : Source :=
  if s.consumer then s.setConsumer false else s

/-- The consumer takes an item or a closure. -/
def take : Source → Option Source
  | completion _ => none
  | stream s => if s.count = 0 then none else some (stream { s with count := s.count - 1 })
  | mailbox s => if s.queue = 0 then none else some (mailbox { s with queue := s.queue - 1 })

end Source

/-- `firstReady`, of what the scan has read. -/
def firstReady (ready : List Bool) : Option ℕ :=
  ready.findIdx? id

/-! ### The parties -/

/-- What a producer calls; `fail` and `setException` are as `set`. -/
inductive Call
  | set
  | push
  | post
  | close
  deriving DecidableEq

/-- Where a producer stands. -/
inductive ProducerPc (σ : Type u)
  | idle
  | calling (call : Call) (source : σ)
  | publishing (source : σ)
  | waking (wakes : Bool)
  deriving DecidableEq

/-- What follows `~DetachAllOnExit`. -/
inductive Leave
  | again
  | result (result : Option ℕ)
  | unwound
  deriving DecidableEq

/-- Where the consumer stands: what its scan has read (`final` after a timeout), what `attachAll` has
answered so far, asleep, how many sources it has left, or back. `none` is `kSelectTimedOut`. -/
inductive Pc
  | idle
  | scanning (ready : List Bool) (final : Bool)
  | attaching (attached : List Bool)
  | blocked
  | detaching (next : ℕ) (leave : Leave)
  | returned (result : Option ℕ)
  | unwound
  deriving DecidableEq

/-- The sources, the clock, and where everybody stands. -/
structure State (σ : Type u) (π : Type v) (T : Type w) where
  source : σ → Source
  producer : π → ProducerPc σ
  pc : Pc
  args : List σ
  deadline : Option T
  token : Bool
  clock : T
  scans : ℕ
  before : ℕ

/-- A step: a producer begins a call or goes on in it; the consumer selects, goes on, takes from a
source, or parks elsewhere; time passes; the deadline ends the wait, `park` returns for no reason, or
the consumer is unwound there; somebody else wakes it. -/
inductive Action (σ : Type u) (π : Type v) (T : Type w)
  | call (party : π) (call : Call) (source : σ)
  | produce (party : π)
  | select (args : List σ)
  | selectUntil (deadline : T) (args : List σ)
  | selectFor (timeout : T) (args : List σ)
  | go
  | take (source : σ)
  | park
  | tick (time : T)
  | timeout (takesToken : Bool)
  | spurious
  | unwind
  | staleWake

/-- Nobody waits, and nobody produces. -/
def initial {σ : Type u} {T : Type w} (π : Type v) (source : σ → Source) (clock : T) :
    State σ π T where
  source := source
  producer := fun _ ↦ .idle
  pc := .idle
  args := []
  deadline := none
  token := false
  clock := clock
  scans := 0
  before := 0

/-- The consumer is in no call. -/
def Pc.isFree : Pc → Bool
  | .idle | .returned _ | .unwound => true
  | _ => false

namespace State

variable {σ : Type u} {π : Type v} {T : Type w} [DecidableEq σ]

/-- A source changes. -/
def setSource (s : State σ π T) (x : σ) (source : Source) : State σ π T :=
  { s with source := Function.update s.source x source }

omit [DecidableEq σ] in
/-- The consumer begins to scan the sources. -/
def scan (s : State σ π T) (final : Bool) : State σ π T :=
  { s with pc := .scanning [] final, scans := s.scans + 1 }

omit [DecidableEq σ] in
/-- `selectImpl`. -/
def selectImpl (s : State σ π T) (deadline : Option T) (args : List σ) : Option (State σ π T) :=
  if s.pc.isFree = true ∧ args ≠ [] then
    some ({ s with args := args, deadline := deadline, before := s.scans }.scan false)
  else none

omit [DecidableEq σ] in
/-- What the consumer does once it has detached itself. -/
def leave (s : State σ π T) : Leave → State σ π T
  | .again => s.scan false
  | .result result => { s with pc := .returned result }
  | .unwound => { s with pc := .unwound }

/-- The consumer takes its next step. -/
def go (s : State σ π T) : Option (State σ π T) :=
  match s.pc with
  | .scanning ready final =>
    match s.args[ready.length]? with
    | some x => some { s with pc := .scanning (ready ++ [(s.source x).isReady]) final }
    | none =>
      if final then some { s with pc := .detaching 0 (.result (firstReady ready)) }
      else
        match firstReady ready with
        | some i => some { s with pc := .returned (some i) }
        | none => some { s with pc := .attaching [] }
  | .attaching attached =>
    match s.args[attached.length]? with
    | some x =>
      some { s.setSource x (s.source x).attach.1 with
        pc := .attaching (attached ++ [(s.source x).attach.2]) }
    | none =>
      if attached.all id then some { s with pc := .blocked }
      else some { s with pc := .detaching 0 .again }
  | .blocked =>
    if s.token then some { s with token := false, pc := .detaching 0 .again } else none
  | .detaching next leave =>
    match s.args[next]? with
    | some x => some { s.setSource x (s.source x).detach with pc := .detaching (next + 1) leave }
    | none => some (s.leave leave)
  | _ => none

variable [DecidableEq π]

omit [DecidableEq σ] in
/-- A producer goes on. -/
def goto (s : State σ π T) (p : π) (pc : ProducerPc σ) : State σ π T :=
  { s with producer := Function.update s.producer p pc }

omit [DecidableEq σ] in
/-- `Waker::wake`. -/
def wake (s : State σ π T) (wakes : Bool) : State σ π T :=
  { s with token := s.token || wakes }

/-- A producer takes its next step. -/
def produce (s : State σ π T) (p : π) : Option (State σ π T) :=
  match s.producer p with
  | .idle => none
  | .calling call x =>
    match call, s.source x with
    | .set, .completion c =>
      if c.claimed then some (s.goto p .idle)
      else some ((s.goto p (.publishing x)).setSource x (.completion { c with claimed := true }))
    | .push, .stream c => some ((s.goto p (.waking c.push.2)).setSource x (.stream c.push.1))
    | .close, .stream c => some ((s.goto p (.waking c.close.2)).setSource x (.stream c.close.1))
    | .post, .mailbox c =>
      some (((s.goto p .idle).setSource x (.mailbox c.post.1)).wake c.post.2)
    | .close, .mailbox c => some ((s.goto p (.waking c.close.2)).setSource x (.mailbox c.close.1))
    | _, _ => none
  | .publishing x =>
    match s.source x with
    | .completion c =>
      some ((s.goto p (.waking c.publish.2)).setSource x (.completion c.publish.1))
    | _ => none
  | .waking wakes => some ((s.goto p .idle).wake wakes)

end State

variable {σ : Type u} {π : Type v} {T : Type w} [DecidableEq σ] [DecidableEq π]
  [LinearOrder T] [Add T]

/-- One step. -/
def step (s : State σ π T) : Action σ π T → Option (State σ π T)
  | .call p call x =>
    match s.producer p with
    | .idle => some (s.goto p (.calling call x))
    | _ => none
  | .produce p => s.produce p
  | .select args => s.selectImpl none args
  | .selectUntil deadline args => s.selectImpl (some deadline) args
  | .selectFor timeout args => s.selectImpl (some (s.clock + timeout)) args
  | .go => s.go
  | .take x => if s.pc.isFree then (s.source x).take.map (s.setSource x) else none
  | .park => if s.pc.isFree then some { s with token := false } else none
  | .tick time => if s.clock ≤ time then some { s with clock := time } else none
  | .timeout takesToken =>
    match s.pc, s.deadline with
    | .blocked, some deadline =>
      if deadline ≤ s.clock then some ({ s with token := s.token && !takesToken }.scan true)
      else none
    | _, _ => none
  | .spurious =>
    match s.pc with
    | .blocked => some { s with pc := .detaching 0 .again }
    | _ => none
  | .unwind =>
    match s.pc with
    | .blocked => some { s with pc := .detaching 0 .unwound }
    | _ => none
  | .staleWake => some { s with token := true }

/-- Sources to which nobody is attached, under every order of steps. -/
def system (σ : Type u) (π : Type v) (T : Type w) [DecidableEq σ] [DecidableEq π] [LinearOrder T]
    [Add T] : System (State σ π T) (Action σ π T) where
  init s := s = initial π s.source s.clock ∧ ∀ x, (s.source x).consumer = false
  step := step

end Stackfull.Sync.Select
