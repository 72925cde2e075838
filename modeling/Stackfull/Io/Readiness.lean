import Mathlib
import Stackfull.Lib.Transition

/-!
# Counted readiness of a registered descriptor

`Registration` (`Registration.h`, `Registration.cpp`), `tryCall` and `retryWhenReady` (`Async.h`)
and the two pollers (`EpollPoller.cpp`, `PollPoller.cpp`), for one registration that its poller has
accepted.

Each direction has one party, which reads the event count, tries a system call, and on
`wouldBlock` waits for a newer report, with `waitFor` or with `watch`. One thread at a time polls:
it enters the system call, returns with a report or without one, and hands the report to `collect`.
A step is one access to shared memory, one system call, or one critical section; `collect` and the
loads of `events` and `closed` outside the lock interleave.

The kernel is what the program relies on: it says `EAGAIN` only when nothing is there, a byte
stream that moves fewer bytes than asked has nothing left, an arrival puts the descriptor on the
ready list of an edge-triggered poller, and a report names at least what is there when the poller
takes it (for `poll`: of what its snapshot asks for). A report may also name what is not there: one
for an earlier user of the descriptor number does.

The accesses are ordered by the lock, by the release and acquire of `events`, or belong to one
party, so a step sees every earlier one.
-/

set_option autoImplicit false
set_option relaxedAutoImplicit false
set_option linter.dupNamespace false

namespace Stackfull.Io.Readiness

open Stackfull.Lib

/-- The directions of `Interest`. -/
inductive Interest
  | readable
  | writable
  deriving DecidableEq

/-- `Registration::Kind`. -/
inductive Kind
  | other
  | pipe
  | streamSocket
  | datagramSocket
  deriving DecidableEq

/-- A short transfer leaves nothing behind. -/
def Kind.isStream : Kind → Bool
  | .pipe | .streamSocket => true
  | .other | .datagramSocket => false

/-- The poller's `reportsEveryArrival` (epoll) and the descriptor's kind. -/
structure Config where
  everyArrivalReported : Bool
  kind : Kind

/-- `byteStream`, as `setKind` sets it. -/
def Config.byteStream (c : Config) : Bool :=
  c.kind.isStream && c.everyArrivalReported

/-- The width of the event counts. -/
def countModulus : ℕ := 2 ^ 32

/-! ### The kernel's side -/

/-- What is there on the descriptor: bytes or space, the end of the stream, a hang-up, an error. -/
structure Kernel where
  data : Interest → Bool
  readEnded : Bool
  hungUp : Bool
  error : Bool

/-- The direction is over, or an error stands. -/
def Kernel.ended (k : Kernel) : Interest → Bool
  | .readable => k.readEnded || k.hungUp || k.error
  | .writable => k.hungUp || k.error

/-- A call in this direction has something to return. -/
def Kernel.available (k : Kernel) (d : Interest) : Bool :=
  k.data d || k.ended d

/-- What comes in. -/
inductive Arrival
  | data (direction : Interest)
  | readEnd
  | hangUp
  | error
  deriving DecidableEq

/-- The descriptor after an arrival. -/
def Kernel.arrive (k : Kernel) : Arrival → Kernel
  | .data d => { k with data := Function.update k.data d true }
  | .readEnd => { k with readEnded := true }
  | .hangUp => { k with hungUp := true }
  | .error => { k with error := true }

/-- The event bits of a report: `IN`, `OUT`, `RDHUP`, `HUP`, `ERR`, `NVAL`. -/
structure Events where
  input : Bool
  output : Bool
  readHangUp : Bool
  hangUp : Bool
  error : Bool
  invalid : Bool
  deriving DecidableEq

/-- `EpollPoller::readyOf`. -/
def Events.epollReady (e : Events) : Interest → Bool
  | .readable => e.input || e.readHangUp || e.hangUp || e.error
  | .writable => e.output || e.hangUp || e.error

/-- `EpollPoller::closedOf`. -/
def Events.epollClosed (e : Events) : Interest → Bool
  | .readable => e.readHangUp || e.hangUp || e.error
  | .writable => e.hangUp || e.error

/-- The directions `PollPoller::collectLocked` takes for ready. -/
def Events.pollReady (e : Events) : Interest → Bool
  | .readable => e.input || e.hangUp || e.error || e.invalid
  | .writable => e.output || e.hangUp || e.error || e.invalid

/-- The directions `PollPoller::collectLocked` takes for closed: both or none. -/
def Events.pollClosed (e : Events) : Interest → Bool
  | _ => e.hangUp || e.error || e.invalid

/-- `epoll_wait` names everything that is there. -/
def Events.coversEpoll (e : Events) (k : Kernel) : Bool :=
  (k.data .readable → e.input) && (k.data .writable → e.output) && (k.readEnded → e.readHangUp) &&
    (k.hungUp → e.hangUp) && (k.error → e.error)

/-- `poll` names what is there of what it was asked for; the end of the stream counts as input. -/
def Events.coversPoll (e : Events) (k : Kernel) (snapshot : Interest → Bool) : Bool :=
  (snapshot .readable → (k.data .readable || k.readEnded) → e.input) &&
    (snapshot .writable → k.data .writable → e.output) &&
    (k.hungUp → e.hangUp) && (k.error → e.error)

/-! ### The program's side -/

/-- Where the party of a direction stands. Every place after `idle` holds the count it has read. -/
inductive Pc
  | idle
  | counted (seen : ℕ)
  | calling (seen : ℕ)
  | noting (seen bytes asked : ℕ)
  | blocked (seen : ℕ)
  | skipped (seen : ℕ)
  | waitLock (seen : ℕ)
  | waitArm (seen : ℕ)
  | waiting (seen : ℕ)
  | detaching (seen : ℕ)
  | watchArm (seen : ℕ)
  | watchLock (seen : ℕ)
  | watching (seen : ℕ)
  deriving DecidableEq

/-- Where the polling thread stands: outside, in the system call with its snapshot, back with a
report, or in `collect`, before its three parts. -/
inductive PollerPc
  | idle
  | polling (snapshot : Interest → Bool)
  | reported (events : Events)
  | closing (ready closed : Interest → Bool)
  | countRead (ready : Interest → Bool)
  | countWrite (ready : Interest → Bool)

/-- The poller holds the registration's lock. -/
def PollerPc.locked : PollerPc → Bool
  | .closing _ _ | .countRead _ | .countWrite _ => true
  | .idle | .polling _ | .reported _ => false

/-- The registration, its entry in the poller, the kernel's side and the threads. `armed` are the
bits of `poll`'s table, `pending` says that `epoll` has the descriptor on its ready list. -/
structure State where
  kernel : Kernel
  pending : Bool
  armed : Interest → Bool
  events : Interest → ℕ
  waker : Interest → Bool
  cancelled : Interest → Bool
  closed : Interest → Bool
  exhausted : Interest → Bool
  exhaustedAt : Interest → ℕ
  poller : PollerPc
  pc : Interest → Pc

/-- What a system call returns: a byte count out of `asked` with or without something left, an
error other than `EAGAIN` that clears a standing error or not, `EAGAIN`, or `EINTR`. -/
inductive Outcome
  | transferred (bytes asked : ℕ) (left : Bool)
  | failed (clears : Bool)
  | wouldBlock
  | interrupted
  deriving DecidableEq

/-- A step. -/
inductive Action
  | arrive (arrival : Arrival)
  | enter
  | report (events : Events)
  | giveUp
  | collect
  | count (direction : Interest) (fresh : Bool)
  | attempt (direction : Interest)
  | call (direction : Interest) (outcome : Outcome)
  | noteTransfer (direction : Interest)
  | waitFor (direction : Interest)
  | watch (direction : Interest)
  | work (direction : Interest)
  | wakeUp (direction : Interest)
  | leave (direction : Interest)
  | unwatch (direction : Interest)

/-- The registration as its constructor leaves it: `epoll_ctl` puts the descriptor on the ready
list if something is there. A connection being set up waits for its first write report. -/
def initial (c : Config) (kernel : Kernel) (connecting : Bool) : State where
  kernel := kernel
  pending := c.everyArrivalReported
  armed := fun _ ↦ false
  events := fun _ ↦ 0
  waker := fun _ ↦ false
  cancelled := fun _ ↦ false
  closed := fun _ ↦ false
  exhausted := fun _ ↦ false
  exhaustedAt := fun _ ↦ 0
  poller := .idle
  pc := Function.update (fun _ ↦ .idle) .writable (if connecting then .blocked 0 else .idle)

namespace State

/-- A party goes on. -/
def goto (s : State) (d : Interest) (pc : Pc) : State :=
  { s with pc := Function.update s.pc d pc }

/-- Something to return in this direction. -/
def available (s : State) (d : Interest) : Bool :=
  s.kernel.available d

/-- `Registration::exhausted`. -/
def isExhausted (s : State) (d : Interest) (seen : ℕ) : Bool :=
  s.exhausted d && decide (s.exhaustedAt d = seen) && !s.closed d

/-- An arrival. -/
def arrive (c : Config) (s : State) (arrival : Arrival) : State :=
  { s with kernel := s.kernel.arrive arrival, pending := s.pending || c.everyArrivalReported }

/-- The poller takes its snapshot of the table and enters the system call. -/
def enter (s : State) : Option State :=
  match s.poller with
  | .idle => some { s with poller := .polling s.armed }
  | _ => none

/-- The system call returns with a report for the descriptor. -/
def report (c : Config) (s : State) (events : Events) : Option State :=
  match s.poller with
  | .polling snapshot =>
    if c.everyArrivalReported then
      if events.coversEpoll s.kernel then
        some { s with pending := false, poller := .reported events }
      else none
    else if events.coversPoll s.kernel snapshot then
      some { s with poller := .reported events }
    else none
  | _ => none

/-- The system call returns with nothing for the descriptor. -/
def giveUp (s : State) : Option State :=
  match s.poller with
  | .polling _ => some { s with poller := .idle }
  | _ => none

/-- `PollPoller::collectLocked` up to its call of `collect`: what is ready is no longer watched. -/
def collectLocked (s : State) (events : Events) : State :=
  { s with
    armed := fun d ↦ s.armed d && !events.pollReady d
    poller :=
      if s.armed .readable || s.armed .writable then .closing events.pollReady events.pollClosed
      else .idle }

/-- One direction's part of `collect`: count the report and take the waker. -/
def bump (s : State) (ready : Interest → Bool) (d : Interest) : State :=
  if ready d then
    { s with
      events := Function.update s.events d ((s.events d + 1) % countModulus)
      waker := Function.update s.waker d false }
  else s

/-- The next step of `collect`. -/
def collect (c : Config) (s : State) : Option State :=
  match s.poller with
  | .idle => none
  | .polling _ => none
  | .reported events =>
    some (if c.everyArrivalReported then
      { s with poller := .closing events.epollReady events.epollClosed }
    else s.collectLocked events)
  | .closing ready closed =>
    some { s with closed := fun d ↦ s.closed d || closed d, poller := .countRead ready }
  | .countRead ready => some { s.bump ready .readable with poller := .countWrite ready }
  | .countWrite ready => some { s.bump ready .writable with poller := .idle }

/-- The party reads the event count, for a new operation or to try again. -/
def count (s : State) (d : Interest) (fresh : Bool) : Option State :=
  match s.pc d with
  | .idle | .counted _ =>
    some ({ s with cancelled := Function.update s.cancelled d (s.cancelled d && !fresh) }.goto d
      (.counted (s.events d)))
  | _ => none

/-- `tryCall` up to its system call. -/
def attempt (s : State) (d : Interest) : Option State :=
  match s.pc d with
  | .counted seen => some (s.goto d (if s.isExhausted d seen then .skipped seen else .calling seen))
  | _ => none

/-- A byte stream that moved fewer bytes than asked has nothing left; nothing moves where nothing
is. -/
def transfer (c : Config) (s : State) (d : Interest) (bytes asked : ℕ) (left : Bool) :
    Option Kernel :=
  if bytes ≤ asked ∧ (bytes ≠ 0 → s.kernel.data d = true) ∧ (left = true → s.kernel.data d = true) ∧
      (c.kind.isStream = true → bytes ≠ 0 → bytes < asked → left = false) then
    some { s.kernel with data := Function.update s.kernel.data d left }
  else none

/-- The system call of `tryCall`. -/
def call (c : Config) (s : State) (d : Interest) (outcome : Outcome) : Option State :=
  match s.pc d, outcome with
  | .calling seen, .transferred bytes asked left =>
    (s.transfer c d bytes asked left).map fun kernel ↦
      { s with kernel := kernel }.goto d (.noting seen bytes asked)
  | .calling seen, .failed clears =>
    some ({ s with kernel := { s.kernel with error := s.kernel.error && !clears } }.goto d
      (.counted seen))
  | .calling seen, .wouldBlock =>
    if s.available d then none else some (s.goto d (.blocked seen))
  | .calling _, .interrupted => some s
  | _, _ => none

/-- `Registration::noteTransfer`. -/
def noteTransfer (c : Config) (s : State) (d : Interest) : Option State :=
  match s.pc d with
  | .noting seen bytes asked =>
    some ({ s with
      exhausted := Function.update s.exhausted d
        (c.byteStream && decide (bytes ≠ 0) && decide (bytes < asked))
      exhaustedAt := Function.update s.exhaustedAt d seen }.goto d (.counted seen))
  | _ => none

/-- `waitFor` up to its lock. -/
def waitFor (s : State) (d : Interest) : Option State :=
  match s.pc d with
  | .blocked seen | .skipped seen =>
    some (s.goto d (if s.events d = seen then .waitLock seen else .idle))
  | _ => none

/-- `watch` is called. -/
def watch (c : Config) (s : State) (d : Interest) : Option State :=
  match s.pc d with
  | .blocked seen | .skipped seen =>
    some (s.goto d (if c.everyArrivalReported then .watchLock seen else .watchArm seen))
  | _ => none

/-- The next critical section of `waitFor`, `watch` or `detach`; `arm` takes the lock of `poll`'s
table, which the poller holds throughout `collect`. -/
def work (c : Config) (s : State) (d : Interest) : Option State :=
  if s.poller.locked then none
  else
    match s.pc d with
    | .waitLock seen =>
      some (if s.events d = seen then
        { s with waker := Function.update s.waker d true }.goto d
          (if c.everyArrivalReported then .waiting seen else .waitArm seen)
      else s.goto d .idle)
    | .waitArm seen =>
      some ({ s with armed := Function.update s.armed d true }.goto d (.waiting seen))
    | .detaching _ => some ({ s with waker := Function.update s.waker d false }.goto d .idle)
    | .watchArm seen =>
      some ({ s with armed := Function.update s.armed d true }.goto d (.watchLock seen))
    | .watchLock seen =>
      some (if s.cancelled d then s.goto d .idle
      else if s.events d = seen then
        { s with waker := Function.update s.waker d true }.goto d (.watching seen)
      else s.goto d .idle)
    | _ => none

/-- A report has come: `waitFor` leaves its loop, or the callback of `watch` runs. -/
def wakeUp (s : State) (d : Interest) : Option State :=
  match s.pc d with
  | .waiting seen => if s.events d = seen then none else some (s.goto d .idle)
  | .watching _ => if s.waker d then none else some (s.goto d .idle)
  | _ => none

/-- `waitFor` times out or is unwound. -/
def leave (s : State) (d : Interest) : Option State :=
  match s.pc d with
  | .waiting seen => some (s.goto d (.detaching seen))
  | _ => none

/-- `unwatch`. -/
def unwatch (s : State) (d : Interest) : Option State :=
  if s.poller.locked then none
  else
    match s.pc d with
    | .watching _ =>
      some (if s.waker d then { s with waker := Function.update s.waker d false }.goto d .idle
        else { s with cancelled := Function.update s.cancelled d true })
    | _ => some { s with cancelled := Function.update s.cancelled d true }

end State

/-- One step. -/
def step (c : Config) (s : State) : Action → Option State
  | .arrive arrival => some (s.arrive c arrival)
  | .enter => s.enter
  | .report events => s.report c events
  | .giveUp => s.giveUp
  | .collect => s.collect c
  | .count d fresh => s.count d fresh
  | .attempt d => s.attempt d
  | .call d outcome => s.call c d outcome
  | .noteTransfer d => s.noteTransfer c d
  | .waitFor d => s.waitFor d
  | .watch d => s.watch c d
  | .work d => s.work c d
  | .wakeUp d => s.wakeUp d
  | .leave d => s.leave d
  | .unwatch d => s.unwatch d

/-- A registration under every order of its parties' steps, whatever is on the descriptor when it
is registered. -/
def system (c : Config) : System State Action where
  init s := ∃ kernel connecting, s = initial c kernel connecting
  step := step c

/-! ### What the protocol promises -/

/-- The poller has a report for the direction that is not counted yet. -/
def PollerPc.delivers (c : Config) : PollerPc → Interest → Bool
  | .idle, _ => false
  | .polling _, _ => false
  | .reported events, d => c.everyArrivalReported && events.epollReady d
  | .closing ready _, d => ready d
  | .countRead ready, d => ready d
  | .countWrite ready, d => decide (d = .writable) && ready d

/-- A report for the direction is on its way. With `poll`, a bit of the table that is set, or is
about to be, brings one; a report the poller has not started to collect does not count. -/
def State.coming (c : Config) (s : State) (d : Interest) : Prop :=
  s.poller.delivers c d = true ∨
    if c.everyArrivalReported then s.pending = true
    else s.armed d = true ∨ ∃ seen, s.pc d = .waitArm seen

/-- The count a party waits for to change, from where its waker may be stored. -/
def Pc.awaits : Pc → Option ℕ
  | .waitArm seen | .waiting seen | .detaching seen | .watching seen => some seen
  | _ => none

/-- Nobody waits, and no transfer is skipped, while something is there and no report is coming. -/
structure Contract (c : Config) (s : State) : Prop where
  waiting : ∀ d seen, (s.pc d).awaits = some seen → s.waker d = true → s.events d = seen →
    s.available d = true → s.coming c d
  skipped : ∀ d seen, s.pc d = .skipped seen → s.events d = seen → s.available d = true →
    s.coming c d

/-- The count a party relies on: with it, nothing was there. -/
def Pc.relies : Pc → Option ℕ
  | .noting seen _ _ | .blocked seen | .skipped seen | .waitLock seen | .waitArm seen
  | .waiting seen | .detaching seen | .watchArm seen | .watchLock seen | .watching seen => some seen
  | .idle | .counted _ | .calling _ => none

/-- The count a report brings the direction to is not one that its party, or its last short
transfer, relies on. -/
def State.fresh (s : State) (d : Interest) : Bool :=
  decide ((s.pc d).relies ≠ some ((s.events d + 1) % countModulus)) &&
    !(s.exhausted d && decide (s.exhaustedAt d = (s.events d + 1) % countModulus))

/-- The step does not bring an event count round to a value still in use. -/
def noWrap (s : State) : Action → Bool
  | .collect =>
    match s.poller with
    | .countRead ready => !ready .readable || s.fresh .readable
    | .countWrite ready => !ready .writable || s.fresh .writable
    | _ => true
  | _ => true

end Stackfull.Io.Readiness
