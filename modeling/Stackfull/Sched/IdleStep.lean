import Stackfull.Sched.Idle

/-!
# What a step of the scheduler can do

The points of a worker's loop matter to its wakeups only through a few properties: whether it
holds the timekeeper role, whether it counts as a searcher, whether it has marked itself idle, how
far its last look at the queues has got, and which sleep it is bound for. `Quiet` is a move that
changes none of them for the worse. `Step` lists the effects a step can have up to such moves, and
`step_of_eq` says that the list is complete.
-/

set_option autoImplicit false
set_option relaxedAutoImplicit false
set_option linter.dupNamespace false

namespace Stackfull.Sched.Idle

open Stackfull.Lib

universe u v

variable {n : ℕ} {κ : Type u} {τ : Type v}

/-! ### What the points of the loop say -/

/-- The worker holds the timekeeper role. -/
def WorkerPc.keeps : WorkerPc τ → Bool
  | .maintainPoll => true
  | .maintainDispatch => true
  | .maintainRelease => true
  | .scanning _ => true
  | .keeping _ => true
  | .inDriver _ => true
  | .dispatching => true
  | .releasing => true
  | _ => false

/-- A look at the worker's own queues is part of a spin. -/
def Site.isSpin : Site → Bool
  | .spin => true
  | _ => false

/-- A look at the worker's own queues is the last one before it sleeps. -/
def Site.isPark : Site → Bool
  | .park => true
  | _ => false

/-- The worker counts as a searcher. -/
def WorkerPc.isSearching : WorkerPc τ → Bool
  | .takeLocal site => site.isSpin
  | .popInbox site _ => site.isSpin
  | .searchPop searcher => searcher
  | .searchSteal => true
  | .searchPopAgain => true
  | .searchEnd _ => true
  | .spinProbe => true
  | .spinPop => true
  | .spinSteal => true
  | .spinTime => true
  | .spinEnd _ => true
  | _ => false

/-- The worker looked at its last queue before it sleeps and found nothing. -/
def WorkerPc.committed : WorkerPc τ → Bool
  | .sleepSample => true
  | .sleepClaim _ => true
  | .parked _ => true
  | .scanning _ => true
  | .keeping _ => true
  | .inDriver _ => true
  | _ => false

/-- The worker found its inbox empty after it marked itself idle. -/
def WorkerPc.lookedInside : WorkerPc τ → Bool
  | .parkPop => true
  | pc => pc.committed

/-- The worker has marked itself idle and not yet been woken. -/
def WorkerPc.marked : WorkerPc τ → Bool
  | .takeLocal site => site.isPark
  | .popInbox site _ => site.isPark
  | pc => pc.lookedInside

/-- The sleep the worker is in, or bound for, is the one in the driver. -/
def WorkerPc.driverBound (c : Config) : WorkerPc τ → Bool
  | .scanning _ => c.hasDriver
  | .inDriver _ => true
  | _ => false

/-- The worker found that the scheduler is not stopping, and may sleep without a timeout. -/
def WorkerPc.untimed : WorkerPc τ → Bool
  | .sleepClaim stopping => !stopping
  | .parked timed => !timed
  | .scanning stopping => !stopping
  | .keeping timed => !timed
  | .inDriver timed => !timed
  | _ => false

/-- Where the worker stands in `pinnedInbox.pop()`. -/
def WorkerPc.popping : WorkerPc τ → Option (PopPc τ)
  | .popInbox _ pop => some pop
  | _ => none

/-- A move that leaves the worker's role and count as they are, brings it no nearer to sleep, and
is not inside a pop. -/
structure Quiet (c : Config) (pc pc' : WorkerPc τ) : Prop where
  keeps : pc'.keeps = pc.keeps
  isSearching : pc'.isSearching = pc.isSearching
  committed : pc'.committed = true → pc.committed = true
  lookedInside : pc'.lookedInside = true → pc.lookedInside = true
  marked : pc'.marked = true → pc.marked = true
  driverBound : pc'.marked = true → pc'.driverBound c = pc.driverBound c
  untimed : pc'.untimed = true → pc.untimed = true
  from_pop : pc.popping = none
  to_pop : ∀ pop, pc'.popping = some pop → pop = .start

/-- The worker goes to a point at which nothing in particular is the case. -/
theorem Quiet.plain {c : Config} {pc pc' : WorkerPc τ}
    (h : (pc'.keeps, pc'.isSearching, pc'.committed, pc'.lookedInside, pc'.marked, pc'.untimed,
        pc'.popping, pc.popping) =
      (pc.keeps, pc.isSearching, false, false, false, false, none, none)) : Quiet c pc pc' := by
  simp only [Prod.mk.injEq] at h
  obtain ⟨hkeeps, hsearching, hcommitted, hlooked, hmarked, huntimed, hto, hfrom⟩ := h
  constructor <;> simp_all

/-- The worker is awake and has nothing to do with the queues at this point. -/
structure Awake (pc : WorkerPc τ) : Prop where
  marked : pc.marked = false
  popping : pc.popping = none

attribute [grind →] Quiet.keeps Quiet.isSearching Quiet.committed Quiet.lookedInside Quiet.marked
  Quiet.driverBound Quiet.untimed Quiet.from_pop Awake.marked Awake.popping

/-! ### What the points of a call say -/

/-- The call will look at the idle mask. -/
def CallPc.notifying : CallPc n τ → Bool
  | .injecting _ => true
  | .notifySearching => true
  | .notifyMask => true
  | .notifyKeeper _ => true
  | .notifySwap _ _ => true
  | _ => false

/-- The call has put a task into the worker's inbox and will look at its bit of the mask. -/
def CallPc.delivers (w : Fin n) : CallPc n τ → Bool
  | .pushing target _ (.link _) => decide (target = w)
  | .notifyWorker target => decide (target = w)
  | _ => false

/-- The reason is among those asked for: all, or only the end of the scheduler. -/
def Reason.counts (stopOnly : Bool) : Reason → Bool
  | .stop => true
  | _ => !stopOnly

/-- The poke will still leave the worker's token. -/
def CallPc.owesToken (stopOnly : Bool) (w : Fin n) : CallPc n τ → Bool
  | .stopWake => true
  | .stopWoken => true
  | .poke _ target rest reason => reason.counts stopOnly && (decide (w = target) || decide (w ∈ rest))
  | _ => false

/-- The poke will still wake the driver for the worker, if the worker holds the role. -/
def CallPc.owesWake (stopOnly : Bool) (w : Fin n) : CallPc n τ → Bool
  | .stopWake => true
  | .stopWoken => true
  | .poke .load target rest reason =>
    reason.counts stopOnly && (decide (w = target) || decide (w ∈ rest))
  | .poke .wake _ _ reason => reason.counts stopOnly
  | .poke .unpark _ rest reason => reason.counts stopOnly && decide (w ∈ rest)
  | _ => false

/-- The call has a task in hand that is in no queue yet. -/
def CallPc.carries (task : τ) : CallPc n τ → Prop
  | .injecting tasks => task ∈ tasks
  | .pushing _ held .reset => held = task
  | .pushing _ held .swap => held = task
  | _ => False

/-- The call is between the two accesses of a push. -/
def CallPc.links (w : Fin n) (previous : Node τ) (task : τ) : CallPc n τ → Prop
  | .pushing target held (.link before) => target = w ∧ held = task ∧ before = previous
  | _ => False

/-- The call is a `releaseTask` that has seen the scheduler stopping. -/
def CallPc.sawStopping : CallPc n τ → Bool
  | .releaseSwap => true
  | _ => false

/-- A point of a call that neither wakes anybody nor touches a queue. -/
structure Plain (pc : CallPc n τ) : Prop where
  notifying : pc.notifying = false
  delivers : ∀ w, pc.delivers w = false
  owesToken : ∀ w, pc.owesToken true w = false
  owesWake : ∀ w, pc.owesWake true w = false
  owesAnyToken : ∀ w, pc.owesToken false w = false
  owesAnyWake : ∀ w, pc.owesWake false w = false
  carries : ∀ task, ¬ pc.carries task
  links : ∀ w previous task, ¬ pc.links w previous task

variable [DecidableEq κ] [DecidableEq τ]

/-- The effects of a step, up to quiet moves of a worker. -/
inductive Step (c : Config) (s : State n κ τ) : Action n κ τ → State n κ τ → Prop
  | quiet {w : Fin n} {flag : Bool} {pc' : WorkerPc τ} {tick' : Fin n → ℕ}
      (hquiet : Quiet c (s.pc w) pc') :
      Step c s (.work w flag) { s.setPc w pc' with tick := tick' }
  | commit {w : Fin n} {flag : Bool} (hpc : s.pc w = .parkPop) (hinjection : s.injection = []) :
      Step c s (.work w flag) (s.setPc w .sleepSample)
  | sample {w : Fin n} {flag : Bool} (hpc : s.pc w = .sleepSample) (hstop : s.stopping = false) :
      Step c s (.work w flag) (s.setPc w (.sleepClaim false))
  | pop {w : Fin n} {flag : Bool} {task : τ} {rest : List τ} {pc' : WorkerPc τ}
      (hinjection : s.injection = task :: rest) (hquiet : Quiet c (s.pc w) pc')
      (hawake : Awake pc') : Step c s (.work w flag) (s.popped w task rest pc')
  | inboxNext {w : Fin n} {flag : Bool} {site : Site} {pop next : PopPc τ} {q : MpscQueue τ}
      (hpc : s.pc w = .popInbox site pop) (hpop : (s.inbox w).popStep pop = (q, .inl next)) :
      Step c s (.work w flag) (s.setInbox w q (.popInbox site next))
  | inboxNone {w : Fin n} {flag : Bool} {site : Site} {pop : PopPc τ} {q : MpscQueue τ}
      (hpc : s.pc w = .popInbox site pop) (hpop : (s.inbox w).popStep pop = (q, .inr none)) :
      Step c s (.work w flag) (s.setInbox w q site.missed)
  | inboxTake {w : Fin n} {flag : Bool} {site : Site} {pop : PopPc τ} {q : MpscQueue τ} {task : τ}
      (hpc : s.pc w = .popInbox site pop)
      (hpop : (s.inbox w).popStep pop = (q, .inr (some (.task task)))) :
      Step c s (.work w flag) (s.taken w task q site.found)
  | enterSearch {w : Fin n} {flag : Bool} {pc' : WorkerPc τ} (hawake : Awake (s.pc w))
      (hbefore : (s.pc w).isSearching = false) (hafter : pc'.isSearching = true)
      (hkeeps : pc'.keeps = (s.pc w).keeps) (hawake' : Awake pc') :
      Step c s (.work w flag) (s.enterSearch w pc')
  | leaveSearch {w : Fin n} {flag : Bool} {pc' : WorkerPc τ} (hawake : Awake (s.pc w))
      (hbefore : (s.pc w).isSearching = true) (hafter : pc'.isSearching = false)
      (hkeeps : pc'.keeps = (s.pc w).keeps) (hawake' : Awake pc') :
      Step c s (.work w flag) (s.leaveSearch w pc')
  | mark {w : Fin n} {flag : Bool} (hpc : s.pc w = .marking) :
      Step c s (.work w flag) (s.mark w (.takeLocal .park))
  | unmark {w : Fin n} {flag : Bool} {pc' : WorkerPc τ} (hquiet : Quiet c (s.pc w) pc')
      (hawake' : Awake pc') : Step c s (.work w flag) (s.unmark w pc')
  | maintainClaim {w : Fin n} {flag : Bool} (hpc : s.pc w = .maintainClaim)
      (hfree : s.timekeeper = none) : Step c s (.work w flag) (s.claim w .maintainPoll)
  | sleepClaim {w : Fin n} {flag stopping : Bool} (hpc : s.pc w = .sleepClaim stopping)
      (hfree : s.timekeeper = none) : Step c s (.work w flag) (s.claim w (.scanning stopping))
  | yieldRole {w : Fin n} {flag : Bool} {pc' : WorkerPc τ} (hawake : Awake (s.pc w))
      (hbefore : (s.pc w).keeps = true) (hafter : pc'.keeps = false)
      (hsearch : pc'.isSearching = (s.pc w).isSearching) (hawake' : Awake pc') :
      Step c s (.work w flag) (s.yieldRole w pc')
  | takeToken {w : Fin n} {flag : Bool} {pc' : WorkerPc τ} (hquiet : Quiet c (s.pc w) pc')
      (hawake' : Awake pc') : Step c s (.work w flag) (s.takeToken w pc')
  | leaveDriver {w : Fin n} {flag : Bool} {pc' : WorkerPc τ} (hquiet : Quiet c (s.pc w) pc')
      (hkeeps : (s.pc w).keeps = true) (hawake' : Awake pc') :
      Step c s (.work w flag) (s.leaveDriver w pc')
  | beginInject {a : Agent n κ} {tasks : List τ} (hidle : s.call a = .idle)
      (hnodup : tasks.Nodup) (hfree : ∀ task ∈ tasks, s.place task = .free) :
      Step c s (.call a (.inject tasks))
        { s.setCall a (.injecting tasks) with
          place := fun task ↦ if task ∈ tasks then .carried a else s.place task }
  | beginPin {a : Agent n κ} {target : Fin n} {task : τ} (hidle : s.call a = .idle)
      (hfree : s.place task = .free) :
      Step c s (.call a (.pin target task))
        { s.setCall a (.pushing target task .reset) with
          place := Function.update s.place task (.carried a) }
  | beginCall {a : Agent n κ} {call : Call n τ} {pc' : CallPc n τ} (hidle : s.call a = .idle)
      (hcarries : ∀ task, ¬ pc'.carries task)
      (hlinks : ∀ w previous task, ¬ pc'.links w previous task)
      (hsaw : pc'.sawStopping = false) :
      Step c s (.call a call) (s.setCall a pc')
  | inject {a : Agent n κ} {flag : Bool} {task : τ} {rest : List τ}
      (hpc : s.call a = .injecting (task :: rest)) :
      Step c s (.act a flag) (s.inject a task (.injecting rest))
  | notifyNext {a : Agent n κ} {flag : Bool} {pc' : CallPc n τ}
      (hpc : (s.call a).notifying = true) (hpc' : pc'.notifying = true)
      (hcarries : ∀ task, ¬ pc'.carries task) : Step c s (.act a flag) (s.setCall a pc')
  | searcherSeen {a : Agent n κ} {flag : Bool} (hpc : s.call a = .notifySearching)
      (hsearching : 0 < s.searching) : Step c s (.act a flag) (s.setCall a .idle)
  | nobodyIdle {a : Agent n κ} {flag : Bool} (hpc : (s.call a).notifying = true)
      (hmask : s.idleMask = ∅) : Step c s (.act a flag) (s.setCall a .idle)
  | claimIdle {a : Agent n κ} {flag : Bool} {target : Fin n}
      (hpc : (s.call a).notifying = true ∨ s.call a = .notifyWorker target) :
      Step c s (.act a flag) (s.claimIdle a target (.poke .load target [] .handOff))
  | notIdle {a : Agent n κ} {flag : Bool} {target : Fin n}
      (hpc : s.call a = .notifyWorker target) (hmask : target ∉ s.idleMask) :
      Step c s (.act a flag) (s.setCall a .idle)
  | pushReset {a : Agent n κ} {flag : Bool} {target : Fin n} {task : τ}
      (hpc : s.call a = .pushing target task .reset) :
      Step c s (.act a flag)
        (s.setInboxBy a target ((s.inbox target).reset (.task task)) task (.carried a)
          (.pushing target task .swap))
  | pushSwap {a : Agent n κ} {flag : Bool} {target : Fin n} {task : τ}
      (hpc : s.call a = .pushing target task .swap) :
      Step c s (.act a flag)
        (s.setInboxBy a target ((s.inbox target).swap (.task task)) task (.linking a target)
          (.pushing target task (.link (s.inbox target).head)))
  | pushLink {a : Agent n κ} {flag : Bool} {target : Fin n} {task : τ} {previous : Node τ}
      (hpc : s.call a = .pushing target task (.link previous)) :
      Step c s (.act a flag)
        (s.setInboxBy a target ((s.inbox target).link previous (.task task)) task
          (.resting target) (.notifyWorker target))
  | pokeKeeper {a : Agent n κ} {flag : Bool} {target : Fin n} {rest : List (Fin n)}
      {reason : Reason} (hpc : s.call a = .poke .load target rest reason)
      (hdriver : c.hasDriver = true) (hkeeper : s.timekeeper = some target) :
      Step c s (.act a flag) (s.setCall a (.poke .wake target rest reason))
  | pokeOther {a : Agent n κ} {flag : Bool} {target : Fin n} {rest : List (Fin n)}
      {reason : Reason} (hpc : s.call a = .poke .load target rest reason)
      (hother : ¬ (c.hasDriver = true ∧ s.timekeeper = some target)) :
      Step c s (.act a flag) (s.setCall a (.poke .unpark target rest reason))
  | pokeWake {a : Agent n κ} {flag : Bool} {target : Fin n} {rest : List (Fin n)}
      {reason : Reason} (hpc : s.call a = .poke .wake target rest reason) :
      Step c s (.act a flag) (s.wakeDriver a (.poke .unpark target rest reason))
  | pokeUnpark {a : Agent n κ} {flag : Bool} {target : Fin n} {rest : List (Fin n)}
      {reason : Reason} (hpc : s.call a = .poke .unpark target rest reason) :
      Step c s (.act a flag) (s.unpark a target (pokeAll rest reason))
  | stopFirst {a : Agent n κ} {flag : Bool} (hpc : s.call a = .stopSet)
      (hstop : s.stopping = false) :
      Step c s (.act a flag) { s.setCall a .stopWake with stopping := true }
  | stopWake {a : Agent n κ} {flag : Bool} (hpc : s.call a = .stopWake) :
      Step c s (.act a flag) (s.setCall a .stopWoken)
  | stopWoken {a : Agent n κ} {flag : Bool} (hpc : s.call a = .stopWoken) :
      Step c s (.act a flag)
        { s.setCall a (pokeAll (List.finRange n) .stop) with parkedWoken := true }
  | counted {a : Agent n κ} {flag : Bool} {pc' : CallPc n τ} {liveTasks' : ℕ}
      (hpc : Plain (s.call a)) (hcarries : ∀ task, ¬ pc'.carries task)
      (hlinks : ∀ w previous task, ¬ pc'.links w previous task)
      (hsaw : pc'.sawStopping = true → s.stopping = true) :
      Step c s (.act a flag) { s.setCall a pc' with liveTasks := liveTasks' }
  | releaseSwap {a : Agent n κ} {flag : Bool} (hpc : s.call a = .releaseSwap) :
      Step c s (.act a flag) { s.setCall a .releaseLive with stopping := true }

/-! ### The list is complete -/

section Complete

attribute [local simp] WorkerPc.keeps WorkerPc.isSearching WorkerPc.committed
  WorkerPc.lookedInside WorkerPc.marked WorkerPc.driverBound WorkerPc.untimed WorkerPc.popping
  Site.isSpin Site.isPark Site.missed Site.found

variable {c : Config} {s t : State n κ τ} {w : Fin n} {a : Agent n κ} {flag : Bool}

theorem Step.move {pc' : WorkerPc τ} (hquiet : Quiet c (s.pc w) pc') :
    Step c s (.work w flag) (s.setPc w pc') :=
  @Step.quiet n κ τ _ _ c s w flag pc' s.tick hquiet

/-- `popInjection` away from the last look before a sleep. -/
theorem step_of_popInjection {found missed : WorkerPc τ} (hfound : Quiet c (s.pc w) found)
    (hawake : Awake found) (hmissed : Quiet c (s.pc w) missed) :
    Step c s (.work w flag) (s.popInjection w found missed) := by
  unfold State.popInjection
  split
  case h_1 => exact .move hmissed
  case h_2 task rest hinjection => exact .pop hinjection hfound hawake

theorem step_of_popInbox {site : Site} {pop : PopPc τ} (hpc : s.pc w = .popInbox site pop)
    (h : s.popInbox w site pop = some t) : Step c s (.work w flag) t := by
  unfold State.popInbox at h
  split at h
  case h_1 q next hpop => exact Option.some.inj h ▸ .inboxNext hpc hpop
  case h_2 q hpop => exact Option.some.inj h ▸ .inboxNone hpc hpop
  case h_3 q task hpop => exact Option.some.inj h ▸ .inboxTake hpc hpop
  case h_4 => cases h

theorem step_of_searchRead (hswap : ∀ current, Quiet c (s.pc w) (.searchSwap current))
    (hpop : Quiet c (s.pc w) (.searchPop false)) :
    Step c s (.work w flag) (s.searchRead w) := by
  unfold State.searchRead
  split_ifs
  · exact .move (hswap _)
  · exact .move hpop

theorem step_of_spinRead (hswap : ∀ current, Quiet c (s.pc w) (.spinSwap current))
    (hmark : Quiet c (s.pc w) .marking) : Step c s (.work w flag) (s.spinRead w) := by
  unfold State.spinRead
  split_ifs
  · exact .move hmark
  · exact .move (hswap _)

/-- A step of a worker has one of the listed effects. -/
theorem step_of_work (h : s.work c w flag = some t) : Step c s (.work w flag) t := by
  have hquiet : ∀ {pc pc' : WorkerPc τ}, s.pc w = pc → Quiet c pc pc' → Quiet c (s.pc w) pc' :=
    fun hpc hq ↦ hpc ▸ hq
  cases hpc : s.pc w <;> simp only [State.work, hpc] at h
  case exited => cases h
  case popInbox site pop => exact step_of_popInbox hpc h
  case maintainDispatch => exact Option.some.inj h ▸ .move (hquiet hpc (.plain rfl))
  case maintainPlace => exact Option.some.inj h ▸ .move (hquiet hpc (.plain rfl))
  case leftovers => exact Option.some.inj h ▸ .move (hquiet hpc (.plain rfl))
  case running => exact Option.some.inj h ▸ .move (hquiet hpc (.plain rfl))
  case reaping => exact Option.some.inj h ▸ .move (hquiet hpc (.plain rfl))
  case dispatching => exact Option.some.inj h ▸ .move (hquiet hpc (.plain rfl))
  case firing => exact Option.some.inj h ▸ .move (hquiet hpc (.plain rfl))
  case top =>
    split_ifs at h
    · exact Option.some.inj h ▸ .move (hquiet hpc (.plain rfl))
    · exact Option.some.inj h ▸ .move (hquiet hpc (.plain rfl))
  case maintaining =>
    split_ifs at h
    · exact Option.some.inj h ▸ .move (hquiet hpc (.plain rfl))
    · exact Option.some.inj h ▸ .move (hquiet hpc (.plain rfl))
  case searchSteal =>
    split_ifs at h
    · exact Option.some.inj h ▸ .move (hquiet hpc (.plain rfl))
    · exact Option.some.inj h ▸ .move (hquiet hpc (.plain rfl))
  case stopCheck =>
    split_ifs at h
    · exact Option.some.inj h ▸ .move (hquiet hpc (.plain rfl))
    · exact Option.some.inj h ▸ .move (hquiet hpc (.plain rfl))
  case reapCheck =>
    split_ifs at h
    · exact Option.some.inj h ▸ .move (hquiet hpc (.plain rfl))
    · exact Option.some.inj h ▸ .move (hquiet hpc (.plain rfl))
  case parkStart =>
    split_ifs at h
    · exact Option.some.inj h ▸ .move (hquiet hpc (.plain rfl))
    · exact Option.some.inj h ▸ .move (hquiet hpc (.plain rfl))
  case spinStart =>
    split_ifs at h
    · exact Option.some.inj h ▸ .move (hquiet hpc (.plain rfl))
    · exact Option.some.inj h ▸ .move (hquiet hpc (.plain rfl))
  case spinProbe =>
    split_ifs at h
    · exact Option.some.inj h ▸ .move (hquiet hpc (.plain rfl))
    · exact Option.some.inj h ▸ .move (hquiet hpc (.plain rfl))
  case spinSteal =>
    split_ifs at h
    · exact Option.some.inj h ▸ .move (hquiet hpc (.plain rfl))
    · exact Option.some.inj h ▸ .move (hquiet hpc (.plain rfl))
  case spinTime =>
    split_ifs at h
    · exact Option.some.inj h ▸ .move (hquiet hpc (.plain rfl))
    · exact Option.some.inj h ▸ .move (hquiet hpc (.plain rfl))
  case placing =>
    split_ifs at h
    · exact Option.some.inj h ▸ .move (hquiet hpc (.plain rfl))
    · exact Option.some.inj h ▸ .move (hquiet hpc (.plain rfl))
  case starting => exact Option.some.inj h ▸ .quiet (hquiet hpc (.plain rfl))
  case maintainClaim =>
    split_ifs at h with hfree
    · exact Option.some.inj h ▸ .maintainClaim hpc hfree
    · exact Option.some.inj h ▸ .move (hquiet hpc (.plain rfl))
  case maintainPoll =>
    exact Option.some.inj h ▸ .leaveDriver (hquiet hpc (.plain rfl)) (by rw [hpc]; rfl)
      ⟨rfl, rfl⟩
  case maintainRelease =>
    exact Option.some.inj h ▸ .yieldRole (by rw [hpc]; constructor <;> simp) (by rw [hpc]; rfl)
      (by simp) (by rw [hpc]; simp) ⟨rfl, rfl⟩
  case releasing =>
    exact Option.some.inj h ▸ .yieldRole (by rw [hpc]; constructor <;> simp) (by rw [hpc]; rfl)
      (by simp) (by rw [hpc]; simp) ⟨rfl, rfl⟩
  case popTop =>
    exact Option.some.inj h ▸ step_of_popInjection (hquiet hpc (.plain rfl))
      ⟨rfl, rfl⟩ (hquiet hpc (.plain rfl))
  case searchPopAgain =>
    exact Option.some.inj h ▸ step_of_popInjection (hquiet hpc (.plain rfl))
      ⟨rfl, rfl⟩ (hquiet hpc (.plain rfl))
  case spinPop =>
    exact Option.some.inj h ▸ step_of_popInjection (hquiet hpc (.plain rfl))
      ⟨rfl, rfl⟩ (hquiet hpc (.plain rfl))
  case spinLeavePop wasLast =>
    cases wasLast
    · exact Option.some.inj h ▸ step_of_popInjection (hquiet hpc (.plain rfl))
        ⟨rfl, rfl⟩ (hquiet hpc (.plain rfl))
    · exact Option.some.inj h ▸ step_of_popInjection (hquiet hpc (.plain rfl))
        ⟨rfl, rfl⟩ (hquiet hpc (.plain rfl))
  case searchPop searcher =>
    cases searcher
    · exact Option.some.inj h ▸ step_of_popInjection (hquiet hpc (.plain rfl))
        ⟨rfl, rfl⟩ (hquiet hpc (.plain rfl))
    · exact Option.some.inj h ▸ step_of_popInjection (hquiet hpc (.plain rfl))
        ⟨rfl, rfl⟩ (hquiet hpc (.plain rfl))
  case takeLocal site =>
    split_ifs at h
    · refine Option.some.inj h ▸ .move (hquiet hpc ?_)
      rcases site with _ | _ | (_ | _) | _ | _ <;> constructor <;> simp
    · exact Option.some.inj h ▸ .move (hquiet hpc (by constructor <;> simp))
  case searchLoad =>
    exact Option.some.inj h ▸ step_of_searchRead
      (fun _ ↦ hquiet hpc (.plain rfl)) (hquiet hpc (.plain rfl))
  case searchSwap current =>
    split_ifs at h
    · exact Option.some.inj h ▸ .enterSearch (by rw [hpc]; constructor <;> simp) (by rw [hpc]; rfl)
        rfl (by rw [hpc]; rfl) ⟨rfl, rfl⟩
    · exact Option.some.inj h ▸ step_of_searchRead
        (fun _ ↦ hquiet hpc (.plain rfl)) (hquiet hpc (.plain rfl))
  case spinLoad =>
    exact Option.some.inj h ▸ step_of_spinRead
      (fun _ ↦ hquiet hpc (.plain rfl)) (hquiet hpc (.plain rfl))
  case spinSwap current =>
    split_ifs at h
    · exact Option.some.inj h ▸ .enterSearch (by rw [hpc]; constructor <;> simp) (by rw [hpc]; rfl)
        rfl (by rw [hpc]; rfl) ⟨rfl, rfl⟩
    · exact Option.some.inj h ▸ step_of_spinRead
        (fun _ ↦ hquiet hpc (.plain rfl)) (hquiet hpc (.plain rfl))
  case searchEnd found =>
    split_ifs at h
    · exact Option.some.inj h ▸ .leaveSearch (by rw [hpc]; constructor <;> simp) (by rw [hpc]; rfl)
        (by simp) (by rw [hpc]; simp) ⟨rfl, rfl⟩
    · exact Option.some.inj h ▸ .leaveSearch (by rw [hpc]; constructor <;> simp) (by rw [hpc]; rfl)
        (by simp) (by rw [hpc]; simp) ⟨rfl, rfl⟩
    · exact Option.some.inj h ▸ .leaveSearch (by rw [hpc]; constructor <;> simp) (by rw [hpc]; rfl)
        (by simp) (by rw [hpc]; simp) ⟨rfl, rfl⟩
  case spinEnd found =>
    split_ifs at h
    · exact Option.some.inj h ▸ .leaveSearch (by rw [hpc]; constructor <;> simp) (by rw [hpc]; rfl)
        (by simp) (by rw [hpc]; simp) ⟨rfl, rfl⟩
    · exact Option.some.inj h ▸ .leaveSearch (by rw [hpc]; constructor <;> simp) (by rw [hpc]; rfl)
        (by simp) (by rw [hpc]; simp) ⟨rfl, rfl⟩
    · exact Option.some.inj h ▸ .leaveSearch (by rw [hpc]; constructor <;> simp) (by rw [hpc]; rfl)
        (by simp) (by rw [hpc]; simp) ⟨rfl, rfl⟩
  case liveCheck =>
    split_ifs at h
    · exact Option.some.inj h ▸ .move (hquiet hpc (.plain rfl))
    · exact Option.some.inj h ▸ .move (hquiet hpc (.plain rfl))
  case marking => exact Option.some.inj h ▸ .mark hpc
  case parkPop =>
    obtain rfl := Option.some.inj h
    unfold State.popInjection
    split
    case h_1 hinjection => exact .commit hpc hinjection
    case h_2 task rest hinjection =>
      exact .pop hinjection (hquiet hpc (.plain rfl)) ⟨rfl, rfl⟩
  case parkClear =>
    split_ifs at h
    · exact Option.some.inj h ▸ .unmark (hquiet hpc (.plain rfl)) ⟨rfl, rfl⟩
    · exact Option.some.inj h ▸ .unmark (hquiet hpc (.plain rfl)) ⟨rfl, rfl⟩
  case clearing => exact Option.some.inj h ▸ .unmark (hquiet hpc (.plain rfl)) ⟨rfl, rfl⟩
  case parkDrain => exact Option.some.inj h ▸ .takeToken (hquiet hpc (.plain rfl)) ⟨rfl, rfl⟩
  case sleepSample =>
    obtain rfl := Option.some.inj h
    cases hstop : s.stopping with
    | true => exact .move (hquiet hpc (by constructor <;> simp))
    | false => exact .sample hpc hstop
  case sleepClaim stopping =>
    split_ifs at h with hfree
    · exact Option.some.inj h ▸ .sleepClaim hpc hfree
    · exact Option.some.inj h ▸ .move (hquiet hpc (by constructor <;> simp))
  case parked timed =>
    split_ifs at h
    · exact Option.some.inj h ▸ .takeToken (hquiet hpc (.plain rfl)) ⟨rfl, rfl⟩
    · exact Option.some.inj h ▸ .move (hquiet hpc (.plain rfl))
  case keeping timed =>
    split_ifs at h
    · exact Option.some.inj h ▸ .takeToken (hquiet hpc (.plain rfl)) ⟨rfl, rfl⟩
    · exact Option.some.inj h ▸ .move (hquiet hpc (.plain rfl))
  case scanning stopping =>
    split_ifs at h with hdriver
    · refine Option.some.inj h ▸ .move (hquiet hpc ?_)
      cases stopping <;> constructor <;> simp [hdriver]
    · refine Option.some.inj h ▸ .move (hquiet hpc ?_)
      cases stopping <;> constructor <;> simp [hdriver]
  case inDriver timed =>
    split_ifs at h
    · exact Option.some.inj h ▸ .leaveDriver (hquiet hpc (.plain rfl)) (by rw [hpc]; rfl)
        ⟨rfl, rfl⟩

attribute [local simp] CallPc.notifying CallPc.delivers CallPc.owesToken CallPc.owesWake
  CallPc.carries CallPc.links CallPc.sawStopping Reason.counts pokeAll

omit [DecidableEq κ] [DecidableEq τ] in
theorem carries_pokeAll (workers : List (Fin n)) (reason : Reason) (task : τ) :
    ¬ (pokeAll workers reason : CallPc n τ).carries task := by
  cases workers <;> simp

omit [DecidableEq κ] [DecidableEq τ] in
theorem links_pokeAll (workers : List (Fin n)) (reason : Reason) (w : Fin n) (previous : Node τ)
    (task : τ) : ¬ (pokeAll workers reason : CallPc n τ).links w previous task := by
  cases workers <;> simp

omit [DecidableEq κ] [DecidableEq τ] in
theorem sawStopping_pokeAll (workers : List (Fin n)) (reason : Reason) :
    (pokeAll workers reason : CallPc n τ).sawStopping = false := by
  cases workers <;> rfl

/-- The beginning of a call has one of the listed effects. -/
theorem step_of_begin {call : Call n τ} (hidle : s.call a = .idle)
    (h : s.begin a call = some t) : Step c s (.call a call) t := by
  cases call <;> simp only [State.begin] at h
  case inject tasks =>
    split_ifs at h with hguard
    exact Option.some.inj h ▸ .beginInject hidle hguard.2.1 hguard.2.2
  case pin target task =>
    split_ifs at h with hguard
    exact Option.some.inj h ▸ .beginPin hidle hguard
  all_goals exact Option.some.inj h ▸ .beginCall hidle (by simp) (by simp) (by simp)

/-- `notifyIdleWorker` after a look at the idle mask. -/
theorem step_of_maskRead (hpc : (s.call a).notifying = true) :
    Step c s (.act a flag) (s.maskRead a) := by
  unfold State.maskRead
  split_ifs with hmask
  · exact .nobodyIdle hpc hmask
  · exact .notifyNext hpc (by simp) (by simp)

theorem step_of_pokeStep {stage : Stage} {target : Fin n} {rest : List (Fin n)} {reason : Reason}
    (hpc : s.call a = .poke stage target rest reason) :
    Step c s (.act a flag) (s.pokeStep c a target rest reason stage) := by
  cases stage with
  | load =>
    simp only [State.pokeStep]
    split_ifs with hkeeper
    · exact .pokeKeeper hpc hkeeper.1 hkeeper.2
    · exact .pokeOther hpc hkeeper
  | wake => exact .pokeWake hpc
  | unpark => exact .pokeUnpark hpc

theorem Step.setCall {pc' : CallPc n τ} (hpc : Plain (s.call a))
    (hcarries : ∀ task, ¬ pc'.carries task)
    (hlinks : ∀ w previous task, ¬ pc'.links w previous task)
    (hsaw : pc'.sawStopping = true → s.stopping = true) :
    Step c s (.act a flag) (s.setCall a pc') :=
  @Step.counted n κ τ _ _ c s a flag pc' s.liveTasks hpc hcarries hlinks hsaw

/-- A step of a call has one of the listed effects. -/
theorem step_of_act (h : s.act c a flag = some t) : Step c s (.act a flag) t := by
  have hplain : ∀ {pc : CallPc n τ}, s.call a = pc → Plain pc → Plain (s.call a) :=
    fun hpc hp ↦ hpc ▸ hp
  cases hpc : s.call a <;> simp only [State.act, hpc] at h
  case idle => cases h
  case injecting tasks =>
    cases tasks with
    | nil =>
      exact Option.some.inj h ▸ .notifyNext (by rw [hpc]; rfl) rfl (by simp)
    | cons task rest => exact Option.some.inj h ▸ .inject hpc
  case notifySearching =>
    split_ifs at h with hsearching
    · exact Option.some.inj h ▸ .searcherSeen hpc hsearching
    · exact Option.some.inj h ▸ .notifyNext (by rw [hpc]; rfl) rfl (by simp)
  case notifyMask => exact Option.some.inj h ▸ step_of_maskRead (by rw [hpc]; rfl)
  case notifyKeeper mask =>
    split_ifs at h with hcandidates
    exact Option.some.inj h ▸ .notifyNext (by rw [hpc]; rfl) rfl (by simp)
  case notifySwap mask index =>
    split_ifs at h with hswap
    · exact Option.some.inj h ▸ .claimIdle (.inl (by rw [hpc]; rfl))
    · exact Option.some.inj h ▸ step_of_maskRead (by rw [hpc]; rfl)
  case pushing target task push =>
    cases push with
    | reset => exact Option.some.inj h ▸ .pushReset hpc
    | swap => exact Option.some.inj h ▸ .pushSwap hpc
    | link previous => exact Option.some.inj h ▸ .pushLink hpc
  case notifyWorker target =>
    obtain rfl := Option.some.inj h
    unfold State.notifyWorker
    split_ifs with hmask
    · exact .claimIdle (.inr hpc)
    · exact .notIdle hpc hmask
  case poke stage target rest reason => exact Option.some.inj h ▸ step_of_pokeStep hpc
  case stopSet =>
    split_ifs at h with hstop
    · exact Option.some.inj h ▸ .setCall (hplain hpc (by constructor <;> simp)) (by simp)
        (by simp) (by simp)
    · exact Option.some.inj h ▸ .stopFirst hpc (Bool.not_eq_true _ ▸ hstop)
  case stopWake => exact Option.some.inj h ▸ .stopWake hpc
  case stopWoken => exact Option.some.inj h ▸ .stopWoken hpc
  case create =>
    exact Option.some.inj h ▸ .counted (hplain hpc (by constructor <;> simp)) (by simp)
      (by simp) (by simp)
  case releaseCount =>
    split_ifs at h
    exact Option.some.inj h ▸ .counted (hplain hpc (by constructor <;> simp)) (by simp)
      (by simp) (by simp)
  case releaseLoad =>
    split_ifs at h with hstop
    · exact Option.some.inj h ▸ .setCall (hplain hpc (by constructor <;> simp)) (by simp)
        (by simp) (fun _ ↦ hstop)
    · exact Option.some.inj h ▸ .setCall (hplain hpc (by constructor <;> simp)) (by simp)
        (by simp) (by simp)
  case releaseSwap => exact Option.some.inj h ▸ .releaseSwap hpc
  case releaseLive =>
    split_ifs at h
    · exact Option.some.inj h ▸ .setCall (hplain hpc (by constructor <;> simp))
        (carries_pokeAll _ _) (links_pokeAll _ _)
        (fun hsaw ↦ by rw [sawStopping_pokeAll] at hsaw; cases hsaw)
    · exact Option.some.inj h ▸ .setCall (hplain hpc (by constructor <;> simp)) (by simp)
        (by simp) (by simp)

/-- Every step has one of the listed effects. -/
theorem step_of_eq {action : Action n κ τ} (h : s.step c action = some t) :
    Step c s action t := by
  cases action with
  | work w flag =>
    simp only [State.step] at h
    split_ifs at h
    exact step_of_work h
  | call a call =>
    simp only [State.step] at h
    split_ifs at h with hfree
    refine step_of_begin ?_ h
    unfold State.isFree at hfree
    cases hpc : s.call a <;> simp_all [CallPc.isIdle]
  | act a flag => exact step_of_act h

end Complete

end Stackfull.Sched.Idle
