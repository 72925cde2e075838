import Mathlib.Data.List.Nodup
import Stackfull.Lib.History
import Stackfull.Sched.MpscQueue

/-!
# The intrusive queue as its users see it

Any number of threads call `push` and one calls `pop` and `isEmpty`; every atomic access is one
step. A task may be pushed as long as its user has it (`free`): from the start, and again as soon as
a pop has returned it.

`calls`, `swapped`, `popped` and `pops` are history: the calls of `push` for each task, the tasks in
the order of the exchanges of `head`, what the pops returned, and how many pops have begun. `Sound`
is the invariant. A pop looks at `head` after it found no link; `Looked` says that a push that has
closed the gap in between was in its middle during that pop.
-/

set_option autoImplicit false
set_option relaxedAutoImplicit false
set_option linter.dupNamespace false

namespace Stackfull.Sched.MpscQueue

open Stackfull.Lib

universe u v

variable {ι : Type u} {τ : Type v}

/-- The queue, the pushes in progress and the consumer's pop. -/
structure State (ι : Type u) (τ : Type v) where
  queue : MpscQueue τ
  push : ι → Option (τ × PushPc τ)
  pop : Option (PopPc τ)
  answer : Option (Option (Node τ))
  free : τ → Bool
  calls : τ → ℕ
  swapped : List τ
  popped : List (Node τ)
  pops : ℕ

/-- A call or the next access of one. -/
inductive Action (ι : Type u) (τ : Type v)
  | push (thread : ι) (task : τ)
  | act (thread : ι)
  | pop
  | popAct

/-- `isEmpty`. -/
def isEmpty [DecidableEq τ] (q : MpscQueue τ) : Bool :=
  q.tail = .stub && (q.next .stub).isNone

/-- The nodes of the queue, from `tail` to `head`. -/
def nodes (q : MpscQueue τ) : List (Node τ) :=
  (List.range' q.first (q.last + 1 - q.first)).map q.order

/-- The task of a node. -/
def taskOf : Node τ → Option τ
  | .stub => none
  | .task task => some task

/-- The node whose link the next access of a pop reads or writes. -/
def popTouches (q : MpscQueue τ) : PopPc τ → Option (Node τ)
  | .start => some q.tail
  | .second front => some front
  | .checkHead _ => none
  | .stubReset _ => some .stub
  | .stubSwap _ => none
  | .stubLink _ previous => some previous
  | .recheck front => some front

/-- The node whose link the next access of a push writes. -/
def pushTouches (task : τ) : PushPc τ → Option (Node τ)
  | .reset => some (.task task)
  | .swap => none
  | .link previous => some previous

/-- The tasks in the queue, in the order in which they will leave it. -/
def tasks (q : MpscQueue τ) : List τ :=
  q.nodes.filterMap taskOf

/-- A queue and its users at the start. -/
def initial : State ι τ where
  queue := empty
  push := fun _ ↦ none
  pop := none
  answer := none
  free := fun _ ↦ true
  calls := fun _ ↦ 0
  swapped := []
  popped := []
  pops := 0

namespace State

variable [DecidableEq ι] [DecidableEq τ]

/-- The next access of a push. -/
def act (s : State ι τ) (i : ι) : Option (State ι τ) :=
  match s.push i with
  | none => none
  | some (task, .reset) =>
    some { s with
      queue := s.queue.reset (.task task)
      push := Function.update s.push i (some (task, .swap)) }
  | some (task, .swap) =>
    some { s with
      queue := s.queue.swap (.task task)
      push := Function.update s.push i (some (task, .link s.queue.head))
      swapped := s.swapped ++ [task] }
  | some (task, .link previous) =>
    some { s with
      queue := s.queue.link previous (.task task)
      push := Function.update s.push i none }

omit [DecidableEq ι] in
/-- A pop returns, and who has called it has the node. -/
def returned (s : State ι τ) (q : MpscQueue τ) (result : Option (Node τ)) : State ι τ :=
  { s with
    queue := q
    pop := none
    answer := some result
    popped := s.popped ++ result.toList
    free :=
      match result with
      | some (.task task) => Function.update s.free task true
      | _ => s.free }

omit [DecidableEq ι] in
/-- The next access of the pop. -/
def popAct (s : State ι τ) : Option (State ι τ) :=
  match s.pop with
  | none => none
  | some pc =>
    match s.queue.popStep pc with
    | (q, .inl next) => some { s with queue := q, pop := some next }
    | (q, .inr result) => some (s.returned q result)

/-- One step. A task is pushed by one thread, and only while it is free. -/
def step (s : State ι τ) : Action ι τ → Option (State ι τ)
  | .push i task =>
    if s.push i = none ∧ s.free task = true then
      some { s with
        push := Function.update s.push i (some (task, .reset))
        free := Function.update s.free task false
        calls := Function.update s.calls task (s.calls task + 1) }
    else none
  | .act i => s.act i
  | .pop =>
    if s.pop.isNone then some { s with pop := some .start, pops := s.pops + 1, answer := none }
    else none
  | .popAct => s.popAct

omit [DecidableEq ι] [DecidableEq τ] in
/-- A push is between its exchange and its link store, behind the node `x` with the node `y`. -/
def Middle (s : State ι τ) (x y : Node τ) : Prop :=
  ∃ i task, s.push i = some (task, .link x) ∧ y = .task task

omit [DecidableEq ι] [DecidableEq τ] in
/-- No push has exchanged `head` for this task, and one is about to. -/
def Preparing (s : State ι τ) (task : τ) : Prop :=
  ∃ i, s.push i = some (task, .reset) ∨ s.push i = some (task, .swap)

omit [DecidableEq ι] [DecidableEq τ] in
/-- The node that a step reads or writes. -/
def touches (s : State ι τ) : Action ι τ → Option (Node τ)
  | .push _ _ => none
  | .act i => (s.push i).bind fun push ↦ pushTouches push.1 push.2
  | .pop => none
  | .popAct => s.pop.bind s.queue.popTouches

omit [DecidableEq ι] [DecidableEq τ] in
/-- The queue holds no task, or a push is between its exchange and its link store. -/
def EmptyOrMiddle (s : State ι τ) : Prop :=
  s.queue.tasks = [] ∨ ∃ x y, s.Middle x y

end State

/-- The queue and its users as a step system. -/
def system (ι : Type u) (τ : Type v) [DecidableEq ι] [DecidableEq τ] :
    System (State ι τ) (Action ι τ) where
  init := (· = initial)
  step := State.step

/-! ### The nodes in their order -/

section Nodes

variable {q : MpscQueue τ} {mid : Node τ → Node τ → Prop} {node : Node τ}

theorem mem_nodes : node ∈ q.nodes ↔ q.Contains node := by
  simp only [nodes, Contains, List.mem_map, List.mem_range'_1]
  constructor
  · rintro ⟨i, ⟨hfirst, hlast⟩, rfl⟩
    exact ⟨i, hfirst, by omega, rfl⟩
  · rintro ⟨i, hfirst, hlast, rfl⟩
    exact ⟨i, ⟨hfirst, by omega⟩, rfl⟩

/-- Every node is in the chain once. -/
theorem Chained.nodup_nodes (hq : q.Chained mid) : q.nodes.Nodup := by
  refine List.Nodup.map_on (fun i hi j hj hij ↦ ?_) List.nodup_range'
  rw [List.mem_range'_1] at hi hj
  exact hq.injective i j hi.1 (by omega) hj.1 (by omega) hij

/-- The exchange puts a node last. -/
theorem Chained.nodes_swap (hq : q.Chained mid) : (q.swap node).nodes = q.nodes ++ [node] := by
  have hle := hq.first_le
  have hlength : q.last + 1 + 1 - q.first = (q.last + 1 - q.first) + 1 := by omega
  simp only [nodes, swap_first, swap_last, hlength, List.range'_concat, List.map_append]
  congr 1
  · refine List.map_congr_left fun i hi ↦ ?_
    rw [List.mem_range'_1] at hi
    exact Function.update_of_ne (by omega) ..
  · have hindex : q.first + 1 * (q.last + 1 - q.first) = q.last + 1 := by omega
    rw [List.map_singleton, hindex, swap_order, Function.update_self]

/-- `tail` moves over the first node. -/
theorem Chained.nodes_advance (hq : q.Chained mid) (next : Node τ) :
    q.nodes = q.tail :: (q.advance next).nodes := by
  have hle := hq.first_le
  have hlength : q.last + 1 - q.first = (q.last + 1 - (q.first + 1)) + 1 := by omega
  simp only [nodes, advance_first, advance_last, hlength, List.range'_succ, List.map_cons,
    hq.tail_eq]
  rfl

theorem mem_tasks {task : τ} : task ∈ q.tasks ↔ q.Contains (.task task) := by
  rw [← mem_nodes, tasks, List.mem_filterMap]
  constructor
  · rintro ⟨node, hnode, htask⟩
    cases node with
    | stub => nomatch htask
    | task other =>
      obtain rfl := Option.some.inj htask
      exact hnode
  · exact fun hnode ↦ ⟨_, hnode, rfl⟩

/-- A task's exchange puts it behind the others. -/
theorem Chained.tasks_swap (hq : q.Chained mid) (task : τ) :
    (q.swap (.task task)).tasks = q.tasks ++ [task] := by
  rw [tasks, hq.nodes_swap, List.filterMap_append]
  rfl

/-- The stub's exchange does not move tasks. -/
theorem Chained.tasks_swap_stub (hq : q.Chained mid) : (q.swap .stub).tasks = q.tasks := by
  rw [tasks, hq.nodes_swap, List.filterMap_append]
  exact List.append_nil _

/-- The pop of a task takes the first. -/
theorem Chained.tasks_advance (hq : q.Chained mid) (next : Node τ) :
    q.tasks = (taskOf q.tail).toList ++ (q.advance next).tasks := by
  rw [tasks, hq.nodes_advance next, List.filterMap_cons]
  cases q.tail <;> rfl

variable [DecidableEq τ] {pushes : Node τ → Node τ → Prop} {pop : PopPc τ} {q' : MpscQueue τ}

/-- A pop that goes on leaves the tasks in their order. -/
theorem Consistent.tasks_popStep_next (hq : q.Consistent pushes pop) {next : PopPc τ}
    (h : q.popStep pop = (q', .inl next)) : q'.tasks = q.tasks := by
  cases pop with
  | start =>
    simp only [popStep] at h
    split at h
    case h_2 node htail hnext =>
      obtain ⟨rfl, -⟩ : q.advance node = q' ∧ .second node = next := by simpa using h
      rw [hq.chained.tasks_advance node, htail]
      rfl
    case h_4 => simp_all
    all_goals cases h
  | second front =>
    simp only [popStep] at h
    split at h <;> simp_all
  | checkHead front =>
    simp only [popStep] at h
    split_ifs at h
    · cases h
    · obtain ⟨rfl, -⟩ : q = q' ∧ .stubReset front = next := by simpa using h
      rfl
  | stubReset front =>
    obtain ⟨rfl, -⟩ : q.reset .stub = q' ∧ .stubSwap front = next := by simpa [popStep] using h
    rfl
  | stubSwap front =>
    obtain ⟨rfl, -⟩ : q.swap .stub = q' ∧ .stubLink front q.head = next := by
      simpa [popStep] using h
    exact hq.chained.tasks_swap_stub
  | stubLink front previous =>
    obtain ⟨rfl, -⟩ : q.link previous .stub = q' ∧ .recheck front = next := by
      simpa [popStep] using h
    rfl
  | recheck front =>
    simp only [popStep] at h
    split at h <;> cases h

/-- A pop that returns a node returns the first task. -/
theorem Consistent.tasks_popStep_some (hq : q.Consistent pushes pop) {node : Node τ}
    (h : q.popStep pop = (q', .inr (some node))) :
    ∃ task, node = .task task ∧ q.tasks = task :: q'.tasks := by
  have htake {next : Node τ} (hne : q.tail ≠ .stub) :
      ∃ task, q.tail = .task task ∧ q.tasks = task :: (q.advance next).tasks := by
    rw [hq.chained.tasks_advance next]
    cases htail : q.tail with
    | stub => exact absurd htail hne
    | task task => exact ⟨task, rfl, rfl⟩
  have htail := (hq.popStep_some h).2.1
  have hfits := hq.fits
  rw [htail]
  cases pop with
  | start =>
    simp only [popStep] at h
    split at h
    case h_3 front next hfront hnext =>
      obtain ⟨rfl, -⟩ : q.advance next = q' ∧ .task front = node := by simpa using h
      exact htake (by simp [hfront])
    all_goals simp at h
  | second front =>
    simp only [popStep] at h
    split at h
    case h_1 next hnext =>
      obtain ⟨rfl, -⟩ : q.advance next = q' ∧ front = node := by simpa using h
      exact htake (hfits.1 ▸ hfits.2)
    case h_2 => simp at h
  | recheck front =>
    simp only [popStep] at h
    split at h
    case h_1 next hnext =>
      obtain ⟨rfl, -⟩ : q.advance next = q' ∧ front = node := by simpa using h
      exact htake (hfits.1 ▸ hfits.2.1)
    case h_2 => simp at h
  | checkHead front =>
    simp only [popStep] at h
    split_ifs at h <;> simp at h
  | stubReset front => simp [popStep] at h
  | stubSwap front => simp [popStep] at h
  | stubLink front previous => simp [popStep] at h

end Nodes

/-! ### The invariant -/

section Sound

variable [DecidableEq τ] {s t : State ι τ}

/-- The queue is consistent with the pushes and the pop in progress. A task is free, on its way to
the queue or in it, and what has left the queue left it in the order of the exchanges. -/
structure Sound (s : State ι τ) : Prop where
  consistent : s.queue.Consistent s.Middle (s.pop.getD .start)
  owner : ∀ i task pc, s.push i = some (task, pc) → s.free task = false
  single : ∀ i j task pc pc',
    s.push i = some (task, pc) → s.push j = some (task, pc') → i = j
  outside : ∀ task, s.Preparing task → ¬ s.queue.Contains (.task task)
  prepared : ∀ i task, s.push i = some (task, .swap) → s.queue.next (.task task) = none
  inside : ∀ task, s.queue.Contains (.task task) → s.free task = false
  held : ∀ task, s.free task = false → s.queue.Contains (.task task) ∨ s.Preparing task
  fifo : s.swapped.map Node.task = s.popped ++ s.queue.tasks.map Node.task
  once : ∀ task, s.calls task = s.popped.count (.task task) + if s.free task then 0 else 1

theorem sound_initial : Sound (initial : State ι τ) where
  consistent := consistent_empty fun x y ⟨_, _, h, _⟩ ↦ nomatch h
  owner _ _ _ h := nomatch h
  single _ _ _ _ _ h := nomatch h
  outside _ h := by
    obtain ⟨i, h | h⟩ := h <;> nomatch h
  prepared _ _ h := nomatch h
  inside _ h := by
    obtain ⟨i, -, -, hi⟩ := h
    nomatch hi
  held _ h := nomatch h
  fifo := rfl
  once _ := rfl

/-- A node in the queue whose push has exchanged `head` is not about to be exchanged again. -/
theorem Sound.not_preparing (h : Sound s) {i : ι} {task : τ} {previous : Node τ}
    (hpush : s.push i = some (task, .link previous)) : ¬ s.Preparing task := by
  rintro ⟨j, hj | hj⟩ <;>
  · obtain rfl := h.single _ _ _ _ _ hpush hj
    rw [hpush] at hj
    nomatch hj

variable [DecidableEq ι]

/-- A thread calls `push` with a task that it has. -/
theorem Sound.push (h : Sound s) {i : ι} {task : τ} (hidle : s.push i = none)
    (hfree : s.free task = true) :
    Sound { s with
      push := Function.update s.push i (some (task, .reset))
      free := Function.update s.free task false
      calls := Function.update s.calls task (s.calls task + 1) } := by
  have hold : ∀ j other pc, s.push j = some (other, pc) → other ≠ task ∧ j ≠ i := by
    intro j other pc hj
    refine ⟨?_, ?_⟩
    · rintro rfl
      rw [h.owner j other pc hj] at hfree
      nomatch hfree
    · rintro rfl
      rw [hidle] at hj
      nomatch hj
  have hout : ¬ s.queue.Contains (.task task) := fun hin ↦ by
    rw [h.inside task hin] at hfree
    nomatch hfree
  refine ⟨?_, ?_, ?_, ?_, ?_, ?_, ?_, h.fifo, ?_⟩
  · refine h.consistent.congr fun x y ↦ ?_
    constructor
    · rintro ⟨j, other, hj, rfl⟩
      exact ⟨j, other, by grind, rfl⟩
    · rintro ⟨j, other, hj, rfl⟩
      exact ⟨j, other, by grind, rfl⟩
  · grind [h.owner]
  · intro j k other pc pc' hj hk
    have hsingle := h.single j k other pc pc'
    have hj' := hold j other pc
    have hk' := hold k other pc'
    grind
  · rintro other ⟨j, hj⟩
    have houtside := h.outside other
    unfold State.Preparing at houtside
    grind
  · intro j other hj
    have hprepared := h.prepared j other
    grind
  · intro other hin
    have hinside := h.inside other hin
    grind
  · intro other hnot
    by_cases hother : other = task
    · subst hother
      exact Or.inr ⟨i, Or.inl (Function.update_self ..)⟩
    · have hkept : s.free other = false := by grind
      refine (h.held other hkept).imp id ?_
      rintro ⟨j, hj⟩
      have hne : j ≠ i := by
        rintro rfl
        rw [hidle] at hj
        exact hj.elim nofun nofun
      refine ⟨j, ?_⟩
      simpa [Function.update_of_ne hne] using hj
  · intro other
    have honce := h.once other
    have honce' := h.once task
    grind

/-- A push prepares its task. -/
theorem Sound.reset (h : Sound s) {i : ι} {task : τ} (hpush : s.push i = some (task, .reset)) :
    Sound { s with
      queue := s.queue.reset (.task task)
      push := Function.update s.push i (some (task, .swap)) } := by
  have hout := h.outside task ⟨i, Or.inl hpush⟩
  have hpreparing (other : τ) :
      State.Preparing { s with
        queue := s.queue.reset (.task task)
        push := Function.update s.push i (some (task, .swap)) } other ↔ s.Preparing other := by
    unfold State.Preparing
    constructor
    · rintro ⟨j, hj⟩
      exact ⟨j, by grind⟩
    · rintro ⟨j, hj⟩
      exact ⟨j, by grind⟩
  refine ⟨?_, ?_, ?_, ?_, ?_, h.inside, ?_, h.fifo, h.once⟩
  · refine (h.consistent.reset hout).congr fun x y ↦ ?_
    constructor
    · rintro ⟨j, other, hj, rfl⟩
      exact ⟨j, other, by grind, rfl⟩
    · rintro ⟨j, other, hj, rfl⟩
      exact ⟨j, other, by grind, rfl⟩
  · intro j other pc hj
    have howner := h.owner j other
    have howner' := h.owner i task
    grind
  · intro j k other pc pc' hj hk
    have hsingle := h.single j k other
    have hsingle' := h.single i k other
    have hsingle'' := h.single j i other
    grind
  · intro other hother
    exact h.outside other ((hpreparing other).mp hother)
  · intro j other hj
    have hprepared := h.prepared j other
    grind
  · intro other hnot
    rw [hpreparing]
    exact h.held other hnot

/-- A push exchanges `head`. -/
theorem Sound.swap (h : Sound s) {i : ι} {task : τ} (hpush : s.push i = some (task, .swap)) :
    Sound { s with
      queue := s.queue.swap (.task task)
      push := Function.update s.push i (some (task, .link s.queue.head))
      swapped := s.swapped ++ [task] } := by
  have hout := h.outside task ⟨i, Or.inr hpush⟩
  have hcontains {other : τ} : (s.queue.swap (.task task)).Contains (.task other) ↔
      s.queue.Contains (.task other) ∨ other = task := by
    rw [contains_swap h.consistent.chained.first_le, Node.task.injEq]
  have hpreparing {other : τ} (hother : other ≠ task) :
      State.Preparing { s with
        queue := s.queue.swap (.task task)
        push := Function.update s.push i (some (task, .link s.queue.head))
        swapped := s.swapped ++ [task] } other ↔ s.Preparing other := by
    unfold State.Preparing
    constructor
    · rintro ⟨j, hj⟩
      exact ⟨j, by grind⟩
    · rintro ⟨j, hj⟩
      exact ⟨j, by grind⟩
  refine ⟨?_, ?_, ?_, ?_, ?_, ?_, ?_, ?_, h.once⟩
  · refine (h.consistent.swap hout (h.prepared i task hpush)).congr fun x y ↦ ?_
    constructor
    · rintro (⟨j, other, hj, rfl⟩ | ⟨rfl, rfl⟩)
      · exact ⟨j, other, by grind, rfl⟩
      · exact ⟨i, task, Function.update_self .., rfl⟩
    · rintro ⟨j, other, hj, rfl⟩
      by_cases hji : j = i
      · right
        grind
      · exact Or.inl ⟨j, other, by grind, rfl⟩
  · intro j other pc hj
    have howner := h.owner j other
    have howner' := h.owner i task
    grind
  · intro j k other pc pc' hj hk
    have hsingle := h.single j k other
    have hsingle' := h.single i k other
    have hsingle'' := h.single j i other
    grind
  · intro other hother hin
    by_cases heq : other = task
    · subst heq
      obtain ⟨j, hj⟩ := hother
      have hsingle := h.single j i other
      grind
    · exact h.outside other ((hpreparing heq).mp hother) ((hcontains.mp hin).resolve_right heq)
  · intro j other hj
    have hprepared := h.prepared j other
    grind
  · intro other hin
    rcases hcontains.mp hin with hold | rfl
    · exact h.inside other hold
    · exact h.owner i other _ hpush
  · intro other hnot
    by_cases heq : other = task
    · exact Or.inl (hcontains.mpr (Or.inr heq))
    · rw [hpreparing heq]
      exact (h.held other hnot).imp (fun hin ↦ hcontains.mpr (Or.inl hin)) id
  · show (s.swapped ++ [task]).map Node.task = _
    rw [h.consistent.chained.tasks_swap, List.map_append, List.map_append, h.fifo,
      List.append_assoc]

/-- A push links its task. -/
theorem Sound.link (h : Sound s) {i : ι} {task : τ} {previous : Node τ}
    (hpush : s.push i = some (task, .link previous)) :
    Sound { s with
      queue := s.queue.link previous (.task task)
      push := Function.update s.push i none } := by
  have hmid : s.Middle previous (.task task) := ⟨i, task, hpush, rfl⟩
  refine ⟨?_, ?_, ?_, ?_, ?_, h.inside, ?_, h.fifo, h.once⟩
  · refine (h.consistent.link hmid).congr fun x y ↦ ?_
    constructor
    · rintro ⟨⟨j, other, hj, rfl⟩, hx⟩
      exact ⟨j, other, by grind, rfl⟩
    · rintro ⟨j, other, hj, rfl⟩
      have hne : j ≠ i := by grind
      have hj' : s.push j = some (other, .link x) := by grind
      refine ⟨⟨j, other, hj', rfl⟩, ?_⟩
      rintro rfl
      have hsame := h.consistent.chained.mid_unique (Or.inl hmid) (Or.inl ⟨j, other, hj', rfl⟩)
      obtain rfl : task = other := by simpa using hsame
      exact hne (h.single _ _ _ _ _ hj' hpush)
  · intro j other pc hj
    have howner := h.owner j other
    grind
  · intro j k other pc pc' hj hk
    have hsingle := h.single j k other
    grind
  · rintro other ⟨j, hj⟩
    exact h.outside other ⟨j, by grind⟩
  · intro j other hj
    have hj' : s.push j = some (other, .swap) := by grind
    have hprevious := (h.consistent.chained.contains_of_mid (Or.inl hmid)).1
    have hne : (.task other : Node τ) ≠ previous := by
      rintro rfl
      exact h.outside other ⟨j, Or.inr hj'⟩ hprevious
    rw [link_next, Function.update_of_ne hne]
    exact h.prepared j other hj'
  · intro other hnot
    refine (h.held other hnot).imp id ?_
    rintro ⟨j, hj⟩
    exact ⟨j, by grind⟩

omit [DecidableEq ι] in
/-- The pop makes its next access. -/
theorem Sound.popAct (h : Sound s) (hstep : s.popAct = some t) : Sound t := by
  unfold State.popAct at hstep
  split at hstep
  · nomatch hstep
  next pc hpop =>
  have hconsistent : s.queue.Consistent s.Middle pc := by
    have hkept := h.consistent
    rwa [hpop] at hkept
  split at hstep
  next q next hnext =>
    obtain rfl := Option.some.inj hstep
    obtain ⟨hq, hcontains⟩ := hconsistent.popStep_next hnext
    refine ⟨hq, h.owner, h.single, ?_, ?_, ?_, ?_, ?_, h.once⟩
    · intro task htask hin
      exact h.outside task htask ((hcontains task).mp hin)
    · intro i task hi
      have hkept := hconsistent.next_popStep (h.outside task ⟨i, Or.inr hi⟩)
      rw [hnext, h.prepared i task hi] at hkept
      exact hkept
    · exact fun task hin ↦ h.inside task ((hcontains task).mp hin)
    · intro task hnot
      exact (h.held task hnot).imp (hcontains task).mpr id
    · show _ = _ ++ q.tasks.map Node.task
      rw [hconsistent.tasks_popStep_next hnext]
      exact h.fifo
  next q result hresult =>
    obtain rfl := Option.some.inj hstep
    cases result with
    | none =>
      obtain ⟨rfl, hq, -, -⟩ := hconsistent.popStep_none hresult
      refine ⟨hq, h.owner, h.single, h.outside, h.prepared, h.inside, h.held, ?_, ?_⟩
      · simpa [State.returned] using h.fifo
      · simpa [State.returned] using h.once
    | some node =>
      obtain ⟨hq, htail, hcontains⟩ := hconsistent.popStep_some hresult
      obtain ⟨task, rfl, htasks⟩ := hconsistent.tasks_popStep_some hresult
      have hin : s.queue.Contains (.task task) := htail ▸ hconsistent.chained.contains_tail
      have hidle : ∀ i pc, s.push i ≠ some (task, pc) := by
        intro i pc hi
        cases pc with
        | reset => exact h.outside task ⟨i, Or.inl hi⟩ hin
        | swap => exact h.outside task ⟨i, Or.inr hi⟩ hin
        | link previous =>
          exact hconsistent.chained.ne_tail_of_mid (Or.inl ⟨i, task, hi, rfl⟩) htail
      refine ⟨hq, ?_, h.single, ?_, ?_, ?_, ?_, ?_, ?_⟩
      · intro i other pc hi
        have hne : other ≠ task := by
          rintro rfl
          exact hidle i pc hi
        exact (Function.update_of_ne hne ..).trans (h.owner i other pc hi)
      · exact fun other hother hcontained ↦ h.outside other hother ((hcontains _).mp hcontained).1
      · intro i other hi
        have hkept := hconsistent.next_popStep (h.outside other ⟨i, Or.inr hi⟩)
        rw [hresult, h.prepared i other hi] at hkept
        exact hkept
      · intro other hcontained
        obtain ⟨hold, hne⟩ := (hcontains _).mp hcontained
        have hne' : other ≠ task := fun heq ↦ hne (heq ▸ rfl)
        exact (Function.update_of_ne hne' ..).trans (h.inside other hold)
      · intro other hnot
        have hne : other ≠ task := by
          rintro rfl
          simp [State.returned] at hnot
        have hold : s.free other = false := by simpa [State.returned, hne] using hnot
        exact (h.held other hold).imp (fun hcontained ↦ (hcontains _).mpr ⟨hcontained, by simpa⟩) id
      · have hfifo := h.fifo
        rw [htasks] at hfifo
        simpa [State.returned] using hfifo
      · intro other
        have honce := h.once other
        by_cases hne : other = task
        · subst hne
          rw [h.inside other hin] at honce
          simpa [State.returned] using honce
        · have hne' : task ≠ other := Ne.symm hne
          simpa [State.returned, hne, hne'] using honce

/-- Every step keeps the invariant. -/
theorem Sound.step (h : Sound s) {a : Action ι τ} (hstep : s.step a = some t) : Sound t := by
  cases a with
  | push i task =>
    obtain ⟨⟨hidle, hfree⟩, heq⟩ := Option.ite_none_right_eq_some.mp hstep
    obtain rfl := Option.some.inj heq
    exact h.push hidle hfree
  | act i =>
    simp only [State.step, State.act] at hstep
    split at hstep
    · nomatch hstep
    next task hpush =>
      obtain rfl := Option.some.inj hstep
      exact h.reset hpush
    next task hpush =>
      obtain rfl := Option.some.inj hstep
      exact h.swap hpush
    next task previous hpush =>
      obtain rfl := Option.some.inj hstep
      exact h.link hpush
  | pop =>
    obtain ⟨hidle, heq⟩ := Option.ite_none_right_eq_some.mp hstep
    obtain rfl := Option.some.inj heq
    rw [Option.isNone_iff_eq_none] at hidle
    have hconsistent := h.consistent
    rw [hidle] at hconsistent
    exact ⟨hconsistent, h.owner, h.single, h.outside, h.prepared, h.inside, h.held, h.fifo, h.once⟩
  | popAct => exact h.popAct hstep

/-! ### What a null answer and an empty queue mean -/

/-- A pop in progress, in its last state or an earlier one. -/
def During (s u : State ι τ) : Prop :=
  u.pops = s.pops ∧ u.pop ≠ none

/-- A pop that is about to look at `head` found no link and there is none, or a push that has closed
the gap since then was in its middle. A pop that has returned nothing had a reason. -/
structure Looked (past : List (State ι τ)) (s : State ι τ) : Prop where
  sound : Sound s
  checkHead : ∀ front, s.pop = some (.checkHead front) → s.queue.next front = none ∨
    ∃ u ∈ past, During s u ∧ ∃ x y, u.Middle x y
  null : s.answer = some none → ∃ u ∈ past, During s u ∧ u.EmptyOrMiddle

omit [DecidableEq ι] [DecidableEq τ] in
/-- Where no link follows the first node there are no tasks or a push is in its middle. -/
theorem emptyOrMiddle_of (h : (∀ task, ¬ s.queue.Contains (.task task)) ∨
    ∃ y, s.Middle s.queue.tail y) : s.EmptyOrMiddle := by
  rcases h with hempty | ⟨y, hy⟩
  · exact Or.inl (List.eq_nil_iff_forall_not_mem.mpr fun task htask ↦
      hempty task (mem_tasks.mp htask))
  · exact Or.inr ⟨_, y, hy⟩

/-- The next access of a push: one that closes the gap is in its middle. -/
theorem Looked.act {past : List (State ι τ)} (h : Looked past s) {i : ι} (hsound : Sound t)
    (hstep : s.act i = some t) (hkept : ∀ u : State ι τ, u.pops = s.pops →
      ∀ {P : State ι τ → Prop}, (∃ v ∈ past, During s v ∧ P v) →
        ∃ v ∈ s :: past, During u v ∧ P v) : Looked (s :: past) t := by
  unfold State.act at hstep
  split at hstep
  · nomatch hstep
  next task hpush =>
    obtain rfl := Option.some.inj hstep
    refine ⟨hsound, fun front hfront ↦ ?_, fun hnull ↦ hkept _ rfl (h.null hnull)⟩
    refine (h.checkHead front hfront).imp (fun hnone ↦ ?_) (hkept _ rfl)
    show Function.update s.queue.next _ none front = none
    rw [Function.update_apply]
    split_ifs
    · rfl
    · exact hnone
  next task hpush =>
    obtain rfl := Option.some.inj hstep
    exact ⟨hsound, fun front hfront ↦ (h.checkHead front hfront).imp id (hkept _ rfl),
      fun hnull ↦ hkept _ rfl (h.null hnull)⟩
  next task previous hpush =>
    obtain rfl := Option.some.inj hstep
    refine ⟨hsound, fun front hfront ↦ ?_, fun hnull ↦ hkept _ rfl (h.null hnull)⟩
    by_cases hgap : front = previous
    · refine Or.inr ⟨s, List.mem_cons_self, ⟨rfl, fun hnone ↦ ?_⟩, _, _, i, task, hpush, rfl⟩
      exact nomatch hnone.symm.trans hfront
    · refine (h.checkHead front hfront).imp (fun hnone ↦ ?_) (hkept _ rfl)
      exact (Function.update_of_ne hgap ..).trans hnone

omit [DecidableEq ι] in
/-- The next access of the pop: it finds no link in the state that it leaves, or looks at `head`. -/
theorem Looked.popAct {past : List (State ι τ)} (h : Looked past s) (hsound : Sound t)
    (hstep : s.popAct = some t) (hkept : ∀ u : State ι τ, u.pops = s.pops →
      ∀ {P : State ι τ → Prop}, (∃ v ∈ past, During s v ∧ P v) →
        ∃ v ∈ s :: past, During u v ∧ P v) : Looked (s :: past) t := by
  unfold State.popAct at hstep
  split at hstep
  · nomatch hstep
  next pc hpop =>
  have hconsistent : s.queue.Consistent s.Middle pc := by
    have hold := h.sound.consistent
    rwa [hpop] at hold
  split at hstep
  next q next hnext =>
    obtain rfl := Option.some.inj hstep
    refine ⟨hsound, fun front hfront ↦ Or.inl ?_, fun hnull ↦ hkept _ rfl (h.null hnull)⟩
    obtain rfl := Option.some.inj hfront
    exact next_of_checkHead hnext
  next q result hresult =>
    obtain rfl := Option.some.inj hstep
    refine ⟨hsound, fun front hfront ↦ (nomatch hfront), fun hnull ↦ ?_⟩
    obtain rfl := Option.some.inj hnull
    obtain ⟨-, -, hwhen, hwhy⟩ := hconsistent.popStep_none hresult
    by_cases hnone : s.queue.next s.queue.tail = none
    · refine ⟨s, List.mem_cons_self, ⟨rfl, fun hidle ↦ ?_⟩, emptyOrMiddle_of (hwhy hnone)⟩
      exact nomatch hidle.symm.trans hpop
    · obtain ⟨front, rfl⟩ := hwhen.resolve_left hnone
      have hfront := hconsistent.fits.1
      rw [hfront] at hnone
      obtain ⟨u, hu, hduring, hmiddle⟩ := (h.checkHead front hpop).resolve_left hnone
      exact ⟨u, List.mem_cons_of_mem _ hu, hduring, Or.inr hmiddle⟩

/-- Every step of a run keeps what the pop has looked at. -/
theorem Looked.step {past : List (State ι τ)} (h : Looked past s) {a : Action ι τ}
    (hstep : s.step a = some t) : Looked (s :: past) t := by
  have hkept (u : State ι τ) (hpops : u.pops = s.pops) {P : State ι τ → Prop}
      (hin : ∃ v ∈ past, During s v ∧ P v) : ∃ v ∈ s :: past, During u v ∧ P v := by
    obtain ⟨v, hv, hduring, hP⟩ := hin
    exact ⟨v, List.mem_cons_of_mem _ hv, ⟨hduring.1.trans hpops.symm, hduring.2⟩, hP⟩
  have hsound := h.sound.step hstep
  cases a with
  | push i task =>
    obtain ⟨-, heq⟩ := Option.ite_none_right_eq_some.mp hstep
    obtain rfl := Option.some.inj heq
    exact ⟨hsound, fun front hfront ↦ (h.checkHead front hfront).imp id (hkept _ rfl),
      fun hnull ↦ hkept _ rfl (h.null hnull)⟩
  | pop =>
    obtain ⟨-, heq⟩ := Option.ite_none_right_eq_some.mp hstep
    obtain rfl := Option.some.inj heq
    exact ⟨hsound, fun _ hfront ↦ (nomatch hfront), fun hnull ↦ (nomatch hnull)⟩
  | act i => exact h.act hsound hstep hkept
  | popAct => exact h.popAct hsound hstep hkept

/-- In every state of a run the pop has looked properly. -/
theorem looked_of_history {past : List (State ι τ)} {good : State ι τ → Action ι τ → Prop}
    (hs : (system ι τ).HistoryUnder good past s) : Looked past s := by
  refine hs.invariant ?_ fun _ _ _ _ h _ hstep ↦ h.step hstep
  rintro s rfl
  exact ⟨sound_initial, fun _ hfront ↦ (nomatch hfront), fun hnull ↦ (nomatch hnull)⟩

/-! ### The contract -/

/-- What the queue promises in any state of a run, whose earlier states are `past`. -/
structure Contract (past : List (State ι τ)) (s : State ι τ) : Prop where
  fifo : s.swapped.map Node.task = s.popped ++ s.queue.tasks.map Node.task
  once : ∀ task, s.calls task = s.popped.count (.task task) + if s.free task then 0 else 1
  held : ∀ task, s.free task = false → task ∈ s.queue.tasks ∨ s.Preparing task
  chain : s.queue.nodes.Nodup
  stub : .stub ∉ s.popped
  null : s.answer = some none → ∃ u ∈ past, During s u ∧ u.EmptyOrMiddle
  isEmpty : s.pop = none → s.queue.isEmpty = true → s.EmptyOrMiddle
  untouched : ∀ task, s.free task = true → ∀ a, s.touches a ≠ some (.task task)
  writes : ∀ a t, s.step a = some t →
    ∀ node, s.touches a ≠ some node → t.queue.next node = s.queue.next node

omit [DecidableEq ι] in
/-- No step reads or writes a task that its user has. -/
theorem Sound.untouched (h : Sound s) {task : τ} (hfree : s.free task = true) (a : Action ι τ) :
    s.touches a ≠ some (.task task) := by
  intro htouch
  have hout : ¬ s.queue.Contains (.task task) := fun hin ↦ by
    rw [h.inside task hin] at hfree
    nomatch hfree
  cases a with
  | push i other => nomatch htouch
  | pop => nomatch htouch
  | act i =>
    obtain ⟨⟨other, pc⟩, hpush, htouch⟩ := Option.bind_eq_some_iff.mp htouch
    cases pc with
    | reset =>
      obtain rfl : other = task := by simpa [pushTouches] using htouch
      rw [h.owner i other _ hpush] at hfree
      nomatch hfree
    | swap => nomatch htouch
    | link previous =>
      obtain rfl : previous = .task task := by simpa [pushTouches] using htouch
      exact hout (h.consistent.chained.contains_of_mid (Or.inl ⟨i, other, hpush, rfl⟩)).1
  | popAct =>
    obtain ⟨pc, hpop, htouch⟩ := Option.bind_eq_some_iff.mp htouch
    have hconsistent := h.consistent
    rw [hpop] at hconsistent
    have htail := hconsistent.chained.contains_tail
    have hfits := hconsistent.fits
    cases pc with
    | start => exact hout (Option.some.inj htouch ▸ htail)
    | second front =>
      obtain rfl := Option.some.inj htouch
      exact hout (hfits.1 ▸ htail)
    | checkHead front => nomatch htouch
    | stubReset front => nomatch htouch
    | stubSwap front => nomatch htouch
    | stubLink front previous =>
      obtain rfl := Option.some.inj htouch
      exact hout (hconsistent.chained.contains_of_mid (Or.inr ⟨rfl, rfl⟩)).1
    | recheck front =>
      obtain rfl := Option.some.inj htouch
      exact hout (hfits.1 ▸ htail)

/-- A step writes no other link than the one it touches. -/
theorem State.next_of_step {a : Action ι τ} (hstep : s.step a = some t) {node : Node τ}
    (hother : s.touches a ≠ some node) : t.queue.next node = s.queue.next node := by
  cases a with
  | push i task =>
    obtain ⟨-, heq⟩ := Option.ite_none_right_eq_some.mp hstep
    obtain rfl := Option.some.inj heq
    rfl
  | pop =>
    obtain ⟨-, heq⟩ := Option.ite_none_right_eq_some.mp hstep
    obtain rfl := Option.some.inj heq
    rfl
  | act i =>
    simp only [State.step, State.act] at hstep
    simp only [State.touches] at hother
    split at hstep
    · nomatch hstep
    next task hpush =>
      obtain rfl := Option.some.inj hstep
      have hne : node ≠ .task task := by
        rintro rfl
        simp [hpush, pushTouches] at hother
      exact Function.update_of_ne hne ..
    next task hpush =>
      obtain rfl := Option.some.inj hstep
      rfl
    next task previous hpush =>
      obtain rfl := Option.some.inj hstep
      have hne : node ≠ previous := by
        rintro rfl
        simp [hpush, pushTouches] at hother
      exact Function.update_of_ne hne ..
  | popAct =>
    simp only [State.step, State.popAct] at hstep
    simp only [State.touches] at hother
    split at hstep
    · nomatch hstep
    next pc hpop =>
    have hqueue : t.queue = (s.queue.popStep pc).1 := by
      split at hstep
      next hresult =>
        obtain rfl := Option.some.inj hstep
        rw [hresult]
      next hresult =>
        obtain rfl := Option.some.inj hstep
        rw [hresult]
        rfl
    rw [hpop, Option.bind_some] at hother
    rw [hqueue]
    cases pc with
    | start =>
      simp only [popStep]
      split <;> rfl
    | second front =>
      simp only [popStep]
      split <;> rfl
    | checkHead front =>
      simp only [popStep]
      split_ifs <;> rfl
    | stubReset front =>
      have hne : node ≠ .stub := fun heq ↦ hother (congrArg some heq.symm)
      exact Function.update_of_ne hne ..
    | stubSwap front => rfl
    | stubLink front previous =>
      have hne : node ≠ previous := fun heq ↦ hother (congrArg some heq.symm)
      exact Function.update_of_ne hne ..
    | recheck front =>
      simp only [popStep]
      split <;> rfl

omit [DecidableEq ι] in
/-- Between pops, an empty queue holds nothing or a push is in its middle behind the stub. -/
theorem Sound.isEmpty (h : Sound s) (hpop : s.pop = none) (hempty : s.queue.isEmpty = true) :
    s.EmptyOrMiddle := by
  have hconsistent := h.consistent
  rw [hpop] at hconsistent
  simp only [MpscQueue.isEmpty, Bool.and_eq_true, decide_eq_true_eq, Option.isNone_iff_eq_none]
    at hempty
  obtain ⟨htail, hnone⟩ := hempty
  have hstart : s.queue.popStep .start = (s.queue, .inr none) := by
    simp only [popStep, htail, hnone]
  obtain ⟨-, -, -, hwhy⟩ := hconsistent.popStep_none hstart
  exact emptyOrMiddle_of (hwhy (htail ▸ hnone))

/-- For every interleaving of pushes by any number of threads with the pops of one consumer, the
queue is first in, first out, every push is matched by one pop, a null answer has a reason, and no
step touches a task that its user has. -/
theorem fifo_once {past : List (State ι τ)}
    (hs : (system ι τ).HistoryUnder (fun _ _ ↦ True) past s) : Contract past s := by
  have hlooked := looked_of_history hs
  have h := hlooked.sound
  refine ⟨h.fifo, h.once, ?_, h.consistent.chained.nodup_nodes, ?_, hlooked.null, h.isEmpty,
    fun task hfree ↦ h.untouched hfree, fun a t hstep node ↦ State.next_of_step hstep⟩
  · exact fun task hnot ↦ (h.held task hnot).imp mem_tasks.mpr id
  · intro hin
    have hmem : Node.stub ∈ s.swapped.map Node.task := by
      rw [h.fifo]
      exact List.mem_append_left _ hin
    obtain ⟨task, -, htask⟩ := List.mem_map.mp hmem
    nomatch htask

end Sound

/-- Two threads push; the first task is popped and pushed again at once, behind the back of a pop
that has found no link, so that the pop returns nothing although both tasks are linked by then. -/
def pushedBehind : List (Action Bool ℕ) :=
  [.push false 0, .act false, .act false, .act false, .push true 1, .act true, .act true, .pop,
    .popAct, .popAct, .popAct, .act true, .pop, .popAct, .pop, .popAct, .push false 0, .act false,
    .act false, .act false, .popAct]

theorem fifo_once_pushedBehind :
    ∃ past s, (system Bool ℕ).HistoryUnder (fun _ _ ↦ True) past s ∧ s.answer = some none ∧
      s.queue.tasks = [1, 0] ∧ s.popped = [.task 0] ∧ Contract past s := by
  let record := ((system Bool ℕ).recordUnder (fun _ _ ↦ true) [] initial pushedBehind).get
    (by decide +kernel)
  have hs : (system Bool ℕ).HistoryUnder (fun _ _ ↦ True) record.1 record.2 :=
    (System.historyUnder_of_record rfl (Option.some_get _).symm).mono fun _ _ _ ↦ trivial
  exact ⟨record.1, record.2, hs, by decide +kernel, by decide +kernel, by decide +kernel,
    fifo_once hs⟩

end Stackfull.Sched.MpscQueue
