import Stackfull.Lib.Located
import Stackfull.Sched.CallbackTimers

/-!
# Every timer entry has one end

An entry that was submitted is in one place, once: a call is about to add it, it is in a queue, or a
call has taken it out and is about to call it back; or it has had its one end. Every step moves at
most one entry (`Sound.step`), so no entry is called twice, or called after a cancel of it returned
true (`callback_timers_end_once`). A queue that is closed refuses callback entries, so none is there
once `fireCallbacksAndClose` has found none.
-/

set_option autoImplicit false
set_option relaxedAutoImplicit false
set_option linter.dupNamespace false

namespace Stackfull.Sched.CallbackTimers

open Stackfull.Lib
open Stackfull.Sched.Timekeeper (Config)

universe u v w

variable {n : ℕ} {α : Type u} {ε : Type v} {T : Type w}

/-! ### Places -/

/-- Where an entry can be. -/
inductive Place (n : ℕ) (α : Type u)
  | adding (thread : α)
  | queued (queue : Fin n)
  | firing (thread : α)
  deriving DecidableEq

/-- The entries in a place. -/
def State.contents (s : State n α ε T) : Place n α → List ε
  | .adding a => (s.stack a).filterMap Frame.adds
  | .queued q => (s.heap q).elements
  | .firing a => (s.stack a).filterMap Frame.fires

/-- What a call does under the lock. -/
def Frame.work : Frame n ε T → Work ε T
  | .lock _ work | .locked _ work | .unlock _ work _ | .call _ work _ | .callback _ work => work

/-- The entry that a call's work adds. -/
def Work.adds : Work ε T → Option ε
  | .add e | .addUnlessCancelled e => some e
  | _ => none

/-- The call has an entry to fire, or has fired one and will look at the queue again. -/
def Frame.loops : Frame n ε T → Bool
  | .unlock _ _ (some _) | .call _ _ _ | .callback _ _ => true
  | _ => false

/-- Only tasks' entries are added without a look at `closed`, and only calls that add nothing fire
entries. -/
structure Frame.Fits (c : Config ε T) (f : Frame n ε T) : Prop where
  tasks : ∀ e, f.work = .add e → c.callback e = false
  loops : f.loops = true → f.work.adds = none

/-- The queue is closed and has no callback entry. -/
def State.Clean (c : Config ε T) (s : State n α ε T) (q : Fin n) : Prop :=
  s.closed q = true ∧ ∀ e, c.callback e = true → e ∉ (s.heap q).elements

variable [DecidableEq α] [DecidableEq ε] [LinearOrder T]

/-- Every entry is in one place or has had its end, the heaps are in order, the calls fit, and
queues that were closed are clean. -/
structure Sound (c : Config ε T) (s : State n α ε T) (place : ε → Option (Place n α)) : Prop where
  located : Located s.contents place
  heaps : ∀ q, (s.heap q).Valid c.deadline
  tally : ∀ e, s.called e + s.cancels e + s.refused e + (place e).isSome.toNat =
    (s.submitted e).toNat
  calls : ∀ a, ∀ f ∈ s.stack a, f.Fits c
  closes : ∀ q, s.closes q = true → s.Clean c q
  closing : ∀ a q, .unlock q .fireCallbacksAndClose none ∈ s.stack a → s.Clean c q

variable {c : Config ε T} {s t : State n α ε T} {place : ε → Option (Place n α)} {a : α} {q : Fin n}
  {e : ε}

omit [DecidableEq ε] [LinearOrder T] in
/-- The entries in the places that a step of a thread at a queue does not concern. -/
theorem contents_frame {stack : List (Frame n ε T)} {r : Place n α}
    (hstack : t.stack = Function.update s.stack a stack)
    (hheap : ∀ p, r = .queued p → t.heap p = s.heap p)
    (hadding : r = .adding a → stack.filterMap Frame.adds = (s.stack a).filterMap Frame.adds)
    (hfiring : r = .firing a → stack.filterMap Frame.fires = (s.stack a).filterMap Frame.fires) :
    t.contents r = s.contents r := by
  cases r with
  | adding b =>
    simp only [State.contents, hstack]
    rcases eq_or_ne b a with rfl | hne
    · rw [Function.update_self, hadding rfl]
    · rw [Function.update_of_ne hne]
  | queued p => rw [State.contents, State.contents, hheap p rfl]
  | firing b =>
    simp only [State.contents, hstack]
    rcases eq_or_ne b a with rfl | hne
    · rw [Function.update_self, hfiring rfl]
    · rw [Function.update_of_ne hne]

omit [DecidableEq ε] [LinearOrder T] in
/-- The calls of all threads, after one thread has gone on. -/
theorem forall_frame {stack : List (Frame n ε T)} {P : α → Frame n ε T → Prop}
    (hstack : t.stack = Function.update s.stack a stack) (h : ∀ b, ∀ f ∈ s.stack b, P b f)
    (hnew : ∀ f ∈ stack, P a f) (b : α) (f : Frame n ε T) (hf : f ∈ t.stack b) : P b f := by
  rw [hstack] at hf
  rcases eq_or_ne b a with rfl | hne
  · rw [Function.update_self] at hf
    exact hnew f hf
  · rw [Function.update_of_ne hne] at hf
    exact h b f hf

/-- A step of a thread, by what becomes of its calls. -/
theorem Sound.next (h : Sound c s place) {place' : ε → Option (Place n α)}
    {stack : List (Frame n ε T)} (hstack : t.stack = Function.update s.stack a stack)
    (hlocated : Located t.contents place') (hheaps : ∀ q, (t.heap q).Valid c.deadline)
    (htally : ∀ e, t.called e + t.cancels e + t.refused e + (place' e).isSome.toNat =
      (t.submitted e).toNat)
    (hcalls : ∀ f ∈ stack, f.Fits c)
    (hclean : ∀ q, s.Clean c q → t.Clean c q)
    (hcloses : ∀ q, t.closes q = true → s.closes q = true ∨ t.Clean c q)
    (hclosing : ∀ q, .unlock q .fireCallbacksAndClose none ∈ stack →
      .unlock q .fireCallbacksAndClose none ∈ s.stack a ∨ t.Clean c q) : Sound c t place' where
  located := hlocated
  heaps := hheaps
  tally := htally
  calls := forall_frame hstack h.calls hcalls
  closes q hq := (hcloses q hq).elim (fun hold ↦ hclean q (h.closes q hold)) id
  closing := by
    intro b q hf
    refine forall_frame (P := fun _ f ↦ f = .unlock q .fireCallbacksAndClose none → t.Clean c q)
      hstack ?_ ?_ b _ hf rfl
    · rintro b f hf rfl
      exact hclean q (h.closing b q hf)
    · rintro f hf rfl
      exact (hclosing q hf).elim (fun hold ↦ hclean q (h.closing a q hold)) id

/-- A step that moves no entry. -/
theorem Sound.quiet (h : Sound c s place) {stack : List (Frame n ε T)}
    (hstack : t.stack = Function.update s.stack a stack) (hheap : t.heap = s.heap)
    (hadds : stack.filterMap Frame.adds = (s.stack a).filterMap Frame.adds)
    (hfires : stack.filterMap Frame.fires = (s.stack a).filterMap Frame.fires)
    (hcalled : t.called = s.called) (hcancels : t.cancels = s.cancels)
    (hrefused : t.refused = s.refused) (hsubmitted : t.submitted = s.submitted)
    (hcalls : ∀ f ∈ stack, f.Fits c)
    (hclosed : ∀ q, s.closed q = true → t.closed q = true)
    (hcloses : ∀ q, t.closes q = true → s.closes q = true ∨ t.Clean c q)
    (hclosing : ∀ q, .unlock q .fireCallbacksAndClose none ∈ stack →
      .unlock q .fireCallbacksAndClose none ∈ s.stack a ∨ t.Clean c q) : Sound c t place := by
  refine h.next hstack ?_ ?_ ?_ hcalls ?_ hcloses hclosing
  · have hcontents : t.contents = s.contents := by
      funext r
      exact contents_frame hstack (fun p _ ↦ by rw [hheap]) (fun _ ↦ hadds) fun _ ↦ hfires
    rw [hcontents]
    exact h.located
  · rw [hheap]
    exact h.heaps
  · rw [hcalled, hcancels, hrefused, hsubmitted]
    exact h.tally
  · rintro q ⟨hq, hnone⟩
    exact ⟨hclosed q hq, by rw [hheap]; exact hnone⟩

/-- The calls of a thread that goes on with the same work. -/
theorem Sound.works (h : Sound c s place) {f g : Frame n ε T} {rest : List (Frame n ε T)}
    (hold : s.stack a = f :: rest) (hwork : g.work = f.work)
    (hloops : g.loops = true → f.loops = true ∨ f.work.adds = none) : ∀ k ∈ g :: rest, k.Fits c := by
  intro k hk
  rcases List.mem_cons.mp hk with rfl | hrest
  · have hf : f.Fits c := h.calls a f (by rw [hold]; exact List.mem_cons_self)
    refine ⟨fun e hadd ↦ hf.tasks e (hwork ▸ hadd), fun hk ↦ ?_⟩
    rw [hwork]
    exact (hloops hk).elim hf.loops id
  · exact h.calls a k (by rw [hold]; exact List.mem_cons_of_mem _ hrest)

/-- The calls of a thread that begins one. -/
theorem Sound.calls_lock (h : Sound c s place) {work : Work ε T}
    (htask : ∀ e, work = .add e → c.callback e = false) :
    ∀ f ∈ .lock q work :: s.stack a, f.Fits c := by
  intro f hf
  rcases List.mem_cons.mp hf with rfl | hold
  · exact ⟨htask, fun hloops ↦ nomatch hloops⟩
  · exact h.calls a f hold

/-- An entry that a call is about to add is in no queue. -/
theorem Sound.place_adds (h : Sound c s place) {f : Frame n ε T} {rest : List (Frame n ε T)}
    (hstack : s.stack a = f :: rest) (hadds : f.adds = some e) : place e = some (.adding a) := by
  refine h.located.mem_iff.mp ?_
  rw [State.contents, hstack]
  exact List.mem_filterMap.mpr ⟨f, List.mem_cons_self, hadds⟩

/-- An entry that a call is about to call back is in no queue. -/
theorem Sound.place_fires (h : Sound c s place) {f : Frame n ε T} {rest : List (Frame n ε T)}
    (hstack : s.stack a = f :: rest) (hfires : f.fires = some e) : place e = some (.firing a) := by
  refine h.located.mem_iff.mp ?_
  rw [State.contents, hstack]
  exact List.mem_filterMap.mpr ⟨f, List.mem_cons_self, hfires⟩

/-- An entry of a queue is there. -/
theorem Sound.place_slot (h : Sound c s place) {i : ℕ} (hi : i < (s.heap q).size) :
    place ((s.heap q).slot i) = some (.queued q) := by
  refine h.located.mem_iff.mp ?_
  rw [State.contents, (h.heaps q).indexed.mem_elements]
  exact ⟨i, (h.heaps q).indexed.located i hi⟩

omit [DecidableEq α] [LinearOrder T] in
/-- The count of an entry that goes from one place to another. -/
theorem isSome_transfer {p r : Place n α} (hplace : place e = some p) (f : ε) :
    (Function.update place e (some r) f).isSome = (place f).isSome := by
  rcases eq_or_ne f e with rfl | hne
  · simp [hplace]
  · rw [Function.update_of_ne hne]

/-- The count of an entry that has its end. -/
theorem Sound.tally_end (h : Sound c s place) {p : Place n α} (hplace : place e = some p)
    {count : ε → ℕ} (hself : count e = s.called e + s.cancels e + s.refused e + 1)
    (hother : ∀ f, f ≠ e → count f = s.called f + s.cancels f + s.refused f) (f : ε) :
    count f + (Function.update place e none f).isSome.toNat = (s.submitted f).toNat := by
  have htally := h.tally f
  rcases eq_or_ne f e with rfl | hne
  · simp only [hplace, Option.isSome_some, Bool.toNat_true] at htally
    rw [hself, Function.update_self]
    simpa using htally
  · rw [hother f hne, Function.update_of_ne hne]
    exact htally

/-- Heaps after one of them has changed. -/
theorem Sound.heaps_update (h : Sound c s place) {heap : IntrusiveHeap ε}
    (hheap : heap.Valid c.deadline) (p : Fin n) :
    (Function.update s.heap q heap p).Valid c.deadline := by
  rcases eq_or_ne p q with rfl | hne
  · rwa [Function.update_self]
  · rw [Function.update_of_ne hne]
    exact h.heaps p

/-! ### Calls -/

omit [DecidableEq α] [DecidableEq ε] [LinearOrder T] in
/-- What a call under the lock is about to add. -/
theorem adds_locked (work : Work ε T) : Frame.adds (.locked q work : Frame n ε T) = work.adds := by
  cases work <;> rfl

omit [DecidableEq α] [DecidableEq ε] [LinearOrder T] in
/-- What a call before the lock is about to add. -/
theorem adds_lock (work : Work ε T) : Frame.adds (.lock q work : Frame n ε T) = work.adds := by
  cases work <;> rfl

/-- A thread begins a call that adds nothing. -/
theorem Sound.enter (h : Sound c s place) {work : Work ε T}
    (hadds : Frame.adds (.lock q work : Frame n ε T) = none)
    (hstep : s.enter a q work = some t) : Sound c t place := by
  obtain ⟨-, rfl⟩ := Option.ite_none_right_eq_some.mp hstep |>.imp_right Option.some.inj
  refine h.quiet rfl rfl ?_ ?_ rfl rfl rfl rfl ?_
    (fun _ hq ↦ hq) (fun _ hq ↦ .inl hq) ?_
  · rw [List.filterMap_cons, hadds]
  · rfl
  · refine h.calls_lock ?_
    rintro e rfl
    nomatch hadds
  · intro p hp
    rcases List.mem_cons.mp hp with heq | hold
    · nomatch heq
    · exact .inl hold

/-- A thread begins to add an entry. -/
theorem Sound.submit (h : Sound c s place) (hnew : s.submitted e = false) {work : Work ε T}
    (hadds : Frame.adds (.lock q work : Frame n ε T) = some e)
    (htask : ∀ f, work = .add f → c.callback f = false)
    (hstep : State.enter { s with submitted := Function.update s.submitted e true } a q work =
      some t) : ∃ place', Sound c t place' := by
  obtain ⟨-, rfl⟩ := Option.ite_none_right_eq_some.mp hstep |>.imp_right Option.some.inj
  have hnone : place e = none := by
    have htally := h.tally e
    rw [hnew] at htally
    cases hplace : place e with
    | none => rfl
    | some p => simp [hplace] at htally
  refine ⟨Function.update place e (some (.adding a)), ?_⟩
  refine h.next rfl ?_ h.heaps ?_ ?_ (fun _ hq ↦ hq)
    (fun _ hq ↦ .inl hq) ?_
  · refine h.located.enter hnone ?_ fun r hr ↦ ?_
    · simp only [State.contents, State.goto, Function.update_self, List.filterMap_cons, hadds]
      exact List.Perm.refl _
    · exact contents_frame rfl (fun _ _ ↦ rfl)
        (fun hra ↦ absurd hra hr) fun _ ↦ rfl
  · intro f
    have htally := h.tally f
    rcases eq_or_ne f e with rfl | hne
    · rw [hnone, hnew] at htally
      simp only [State.goto, Function.update_self, Option.isSome_some, Bool.toNat_true]
      simp only [Option.isSome_none, Bool.toNat_false] at htally
      omega
    · simp only [State.goto, Function.update_of_ne hne]
      exact htally
  · exact h.calls_lock htask
  · intro p hp
    rcases List.mem_cons.mp hp with heq | hold
    · nomatch heq
    · exact .inl hold

/-- A queue that was closed is clean after an entry was taken out. -/
theorem Sound.clean_removeAt (h : Sound c s place) {i : ℕ} (hi : i < (s.heap q).size)
    (hheap : t.heap = Function.update s.heap q ((s.heap q).removeAt c.deadline i))
    (hclosed : ∀ p, s.closed p = true → t.closed p = true) {p : Fin n} (hclean : s.Clean c p) :
    t.Clean c p := by
  refine ⟨hclosed p hclean.1, fun e he hin ↦ hclean.2 e he ?_⟩
  rw [hheap] at hin
  rcases eq_or_ne p q with rfl | hne
  · rw [Function.update_self] at hin
    exact ((h.heaps p).elements_removeAt hi).mem_iff.mpr (List.mem_cons_of_mem _ hin)
  · rwa [Function.update_of_ne hne] at hin

/-- A call adds its entry to the queue. -/
theorem Sound.push (h : Sound c s place) {f : Frame n ε T} {rest : List (Frame n ε T)}
    {work : Work ε T} (hold : s.stack a = f :: rest) (hwork : f.work = work)
    (hadds : f.adds = some e) (hfires : f.fires = none)
    (hcallback : s.closed q = true → c.callback e = false) (hwork' : work ≠ .fireCallbacksAndClose)
    (hstack : t.stack = Function.update s.stack a (.unlock q work none :: rest))
    (hheap : t.heap = Function.update s.heap q ((s.heap q).push c.deadline e))
    (hcalled : t.called = s.called) (hcancels : t.cancels = s.cancels)
    (hrefused : t.refused = s.refused) (hsubmitted : t.submitted = s.submitted)
    (hclosed : t.closed = s.closed) (hcloses : t.closes = s.closes) :
    ∃ place', Sound c t place' := by
  have hplace := h.place_adds hold hadds
  have hout : ¬ (s.heap q).Mem e := by
    rw [← (h.heaps q).indexed.mem_elements]
    intro hin
    have hqueued : place e = some (.queued q) := h.located.mem_iff.mp hin
    rw [hplace] at hqueued
    nomatch hqueued
  have hperm := (h.heaps q).elements_push hout
  refine ⟨Function.update place e (some (.queued q)), h.next hstack ?_ ?_ ?_ ?_ ?_ ?_ ?_⟩
  · refine h.located.transfer hplace (fun heq ↦ nomatch heq) ?_ ?_ fun r hadding hqueued ↦ ?_
    · simp only [State.contents, hstack, hold, Function.update_self, List.filterMap_cons, hadds]
      exact List.Perm.refl _
    · simp only [State.contents, hheap, Function.update_self]
      exact hperm
    · refine contents_frame hstack (fun p hp ↦ ?_) (fun hr ↦ absurd hr hadding) fun _ ↦ ?_
      · rw [hheap, Function.update_of_ne]
        rintro rfl
        exact hqueued hp
      · rw [hold, List.filterMap_cons, List.filterMap_cons, hfires]
        rfl
  · rw [hheap]
    exact h.heaps_update ((h.heaps q).push hout).1
  · intro f
    rw [hcalled, hcancels, hrefused, hsubmitted, isSome_transfer hplace]
    exact h.tally f
  · exact h.works hold hwork.symm fun hloops ↦ nomatch hloops
  · rintro p ⟨hp, hnone⟩
    refine ⟨by rw [hclosed]; exact hp, fun g hg hin ↦ hnone g hg ?_⟩
    rw [hheap] at hin
    rcases eq_or_ne p q with rfl | hne
    · rw [Function.update_self] at hin
      rcases List.mem_cons.mp (hperm.mem_iff.mp hin) with rfl | hin'
      · rw [hcallback hp] at hg
        nomatch hg
      · exact hin'
    · rwa [Function.update_of_ne hne] at hin
  · intro p hp
    rw [hcloses] at hp
    exact .inl hp
  · intro p hp
    rcases List.mem_cons.mp hp with heq | hin
    · injection heq with _ hw
      exact absurd hw.symm hwork'
    · exact .inl (by rw [hold]; exact List.mem_cons_of_mem _ hin)

/-- An add is refused. -/
theorem Sound.refuse (h : Sound c s place) {rest : List (Frame n ε T)}
    (hold : s.stack a = .locked q (.addUnlessCancelled e) :: rest) :
    ∃ place', Sound c ({ s with refused := Function.update s.refused e (s.refused e + 1) }.goto a
      (.unlock q (.addUnlessCancelled e) none :: rest)) place' := by
  have hplace := h.place_adds hold rfl
  refine ⟨Function.update place e none, h.next rfl ?_ h.heaps ?_ ?_ (fun _ hp ↦ hp)
    (fun _ hp ↦ .inl hp) ?_⟩
  · refine h.located.leave hplace ?_ fun r hr ↦ ?_
    · simp only [State.contents, State.goto, hold, Function.update_self, List.filterMap_cons]
      exact List.Perm.refl _
    · refine contents_frame rfl (fun _ _ ↦ rfl) (fun hra ↦ absurd hra hr) fun _ ↦ ?_
      rw [hold]
      rfl
  · refine h.tally_end hplace ?_ fun f hf ↦ ?_
    · simp only [State.goto, Function.update_self]
      omega
    · simp only [State.goto, Function.update_of_ne hf]
  · exact h.works hold rfl fun hloops ↦ nomatch hloops
  · intro p hp
    rcases List.mem_cons.mp hp with heq | hin
    · nomatch heq
    · exact .inl (by rw [hold]; exact List.mem_cons_of_mem _ hin)

/-- A cancel takes its entry out. -/
theorem Sound.cancel (h : Sound c s place) {rest : List (Frame n ε T)} {i : ℕ}
    (hold : s.stack a = .locked q (.cancel e) :: rest) (hindex : (s.heap q).index e = some i) :
    ∃ place', Sound c ({ s.setHeap q ((s.heap q).removeAt c.deadline i) with
      cancels := Function.update s.cancels e (s.cancels e + 1) }.goto a
      (.unlock q (.cancel e) none :: rest)) place' := by
  obtain ⟨hi, rfl⟩ := (h.heaps q).indexed.placed e i hindex
  have hplace := h.place_slot hi
  refine ⟨Function.update place ((s.heap q).slot i) none, h.next rfl ?_ ?_ ?_ ?_ ?_
    (fun _ hp ↦ .inl hp) ?_⟩
  · refine h.located.leave hplace ?_ fun r hr ↦ ?_
    · simp only [State.contents, State.goto, State.setHeap, Function.update_self]
      exact (h.heaps q).elements_removeAt hi
    · refine contents_frame rfl (fun p hp ↦ ?_) (fun _ ↦ ?_) fun _ ↦ ?_
      · refine Function.update_of_ne ?_ _ _
        rintro rfl
        exact hr hp
      · rw [hold]
        rfl
      · rw [hold]
        rfl
  · exact h.heaps_update ((h.heaps q).removeAt hi).1
  · refine h.tally_end hplace ?_ fun f hf ↦ ?_
    · simp only [State.goto, State.setHeap, Function.update_self]
      omega
    · simp only [State.goto, State.setHeap, Function.update_of_ne hf]
  · exact h.works hold rfl fun hloops ↦ nomatch hloops
  · intro p hp
    refine h.clean_removeAt hi ?_ ?_ hp
    · rfl
    · exact fun _ hq ↦ hq
  · intro p hp
    rcases List.mem_cons.mp hp with heq | hin
    · nomatch heq
    · exact .inl (by rw [hold]; exact List.mem_cons_of_mem _ hin)

/-- A call takes an entry out to fire it. -/
theorem Sound.fire (h : Sound c s place) {rest : List (Frame n ε T)} {work : Work ε T} {i : ℕ}
    (hold : s.stack a = .locked q work :: rest)
    (hadds : work.adds = none) (hi : i < (s.heap q).size)
    (hstack : t.stack =
      Function.update s.stack a (.unlock q work (some ((s.heap q).slot i)) :: rest))
    (hheap : t.heap = Function.update s.heap q ((s.heap q).removeAt c.deadline i))
    (hcalled : t.called = s.called) (hcancels : t.cancels = s.cancels)
    (hrefused : t.refused = s.refused) (hsubmitted : t.submitted = s.submitted)
    (hclosed : ∀ p, s.closed p = true → t.closed p = true) (hcloses : t.closes = s.closes) :
    ∃ place', Sound c t place' := by
  have hplace := h.place_slot hi
  refine ⟨Function.update place ((s.heap q).slot i) (some (.firing a)),
    h.next hstack ?_ ?_ ?_ ?_ ?_ ?_ ?_⟩
  · refine h.located.transfer hplace (fun heq ↦ nomatch heq) ?_ ?_ fun r hqueued hfiring ↦ ?_
    · simp only [State.contents, hheap, Function.update_self]
      exact (h.heaps q).elements_removeAt hi
    · simp only [State.contents, hstack, hold, Function.update_self, List.filterMap_cons,
        Frame.fires]
      exact List.Perm.refl _
    · refine contents_frame hstack (fun p hp ↦ ?_) (fun _ ↦ ?_) fun hr ↦ absurd hr hfiring
      · rw [hheap, Function.update_of_ne]
        rintro rfl
        exact hqueued hp
      · rw [hold, List.filterMap_cons, List.filterMap_cons, adds_locked, hadds]
        rfl
  · rw [hheap]
    exact h.heaps_update ((h.heaps q).removeAt hi).1
  · intro f
    rw [hcalled, hcancels, hrefused, hsubmitted, isSome_transfer hplace]
    exact h.tally f
  · exact h.works hold rfl fun _ ↦ .inr hadds
  · exact fun p hp ↦ h.clean_removeAt hi hheap hclosed hp
  · intro p hp
    rw [hcloses] at hp
    exact .inl hp
  · intro p hp
    rcases List.mem_cons.mp hp with heq | hin
    · nomatch heq
    · exact .inl (by rw [hold]; exact List.mem_cons_of_mem _ hin)

/-- A call calls its entry back. -/
theorem Sound.call (h : Sound c s place) {rest : List (Frame n ε T)} {work : Work ε T}
    {f : Frame n ε T} (hold : s.stack a = .call q work e :: rest) (hwork : f.work = work)
    (hadds : f.adds = none) (hfires : f.fires = none)
    (hclosing : ∀ p, f ≠ .unlock p .fireCallbacksAndClose none) :
    ∃ place', Sound c ({ s with called := Function.update s.called e (s.called e + 1) }.goto a
      (f :: rest)) place' := by
  have hplace := h.place_fires hold rfl
  refine ⟨Function.update place e none, h.next rfl ?_ h.heaps ?_ ?_ (fun _ hp ↦ hp)
    (fun _ hp ↦ .inl hp) ?_⟩
  · refine h.located.leave hplace ?_ fun r hr ↦ ?_
    · simp only [State.contents, State.goto, hold, Function.update_self, List.filterMap_cons,
        hfires]
      exact List.Perm.refl _
    · refine contents_frame rfl (fun _ _ ↦ rfl) (fun _ ↦ ?_) fun hra ↦ absurd hra hr
      rw [hold, List.filterMap_cons, List.filterMap_cons, hadds]
      rfl
  · refine h.tally_end hplace ?_ fun g hg ↦ ?_
    · simp only [State.goto, Function.update_self]
      omega
    · simp only [State.goto, Function.update_of_ne hg]
  · exact h.works hold hwork fun _ ↦ .inl rfl
  · intro p hp
    rcases List.mem_cons.mp hp with heq | hin
    · exact absurd heq.symm (hclosing p)
    · exact .inl (by rw [hold]; exact List.mem_cons_of_mem _ hin)

/-- A step under the lock that leaves the heap and the entries as they are. -/
theorem Sound.pass (h : Sound c s place) {f g : Frame n ε T} {rest : List (Frame n ε T)}
    (hold : s.stack a = f :: rest) (hstack : t.stack = Function.update s.stack a (g :: rest))
    (hwork : g.work = f.work) (hadds : g.adds = f.adds) (hfires : g.fires = f.fires)
    (hloops : g.loops = true → f.loops = true) (hheap : t.heap = s.heap)
    (hcalled : t.called = s.called) (hcancels : t.cancels = s.cancels)
    (hrefused : t.refused = s.refused) (hsubmitted : t.submitted = s.submitted)
    (hclosed : ∀ p, s.closed p = true → t.closed p = true) (hcloses : t.closes = s.closes)
    (hclosing : ∀ p, g = .unlock p .fireCallbacksAndClose none → t.Clean c p) :
    Sound c t place := by
  refine h.quiet hstack hheap ?_ ?_ hcalled hcancels hrefused hsubmitted
    (h.works hold hwork fun hg ↦ .inl (hloops hg))
    hclosed ?_ ?_
  · rw [hold, List.filterMap_cons, List.filterMap_cons, hadds]
  · rw [hold, List.filterMap_cons, List.filterMap_cons, hfires]
  · intro p hp
    rw [hcloses] at hp
    exact .inl hp
  · intro p hp
    rcases List.mem_cons.mp hp with heq | hin
    · exact .inr (hclosing p heq.symm)
    · exact .inl (by rw [hold]; exact List.mem_cons_of_mem _ hin)

omit [DecidableEq ε] [LinearOrder T] in
/-- A heap in which no callback is found has no callback entry. -/
theorem callback_of_firstCallback {heap : IntrusiveHeap ε}
    (hnone : Timekeeper.State.firstCallback c heap = none) (he : c.callback e = true) :
    e ∉ heap.elements := by
  intro hin
  obtain ⟨i, hi, rfl⟩ := List.mem_map.mp hin
  exact absurd he (List.find?_eq_none.mp hnone i hi)

/-- What a thread does under the lock. -/
theorem Sound.underLock (h : Sound c s place) {rest : List (Frame n ε T)} {work : Work ε T}
    (hold : s.stack a = .locked q work :: rest) :
    ∃ place', Sound c (s.underLock c a q work rest) place' := by
  cases work with
  | add e =>
    have htask : c.callback e = false :=
      (h.calls a _ (by rw [hold]; exact List.mem_cons_self)).tasks e rfl
    exact h.push hold rfl rfl rfl (fun _ ↦ htask) (fun heq ↦ nomatch heq) rfl rfl rfl rfl rfl rfl
      rfl rfl
  | addUnlessCancelled e =>
    simp only [State.underLock]
    split_ifs with hrefuse
    · exact h.refuse hold
    · have hopen : s.closed q ≠ true := fun hq ↦ hrefuse (by rw [hq, Bool.or_true])
      exact h.push hold rfl rfl rfl (fun hq ↦ absurd hq hopen) (fun heq ↦ nomatch heq) rfl rfl rfl
        rfl rfl rfl rfl rfl
  | cancel e =>
    simp only [State.underLock]
    split
    · exact ⟨place, h.pass hold rfl rfl rfl rfl (fun hg ↦ nomatch hg) rfl rfl rfl rfl rfl
        (fun _ hq ↦ hq) rfl
        fun p hp ↦ nomatch hp⟩
    · rename_i i hindex
      exact h.cancel hold hindex
  | fireExpired now =>
    simp only [State.underLock]
    split_ifs with hwait
    · exact ⟨place, h.pass hold rfl rfl rfl rfl (fun hg ↦ nomatch hg) rfl rfl rfl rfl rfl
        (fun _ hq ↦ hq) rfl
        fun p hp ↦ nomatch hp⟩
    · have hi : 0 < (s.heap q).size := Nat.pos_of_ne_zero fun hzero ↦ hwait (.inl hzero)
      exact h.fire hold rfl hi rfl rfl rfl rfl rfl rfl (fun _ hq ↦ hq) rfl
  | fireCallbacksAndClose =>
    have hclosed (p : Fin n) (hp : s.closed p = true) :
        Function.update s.closed q true p = true := by
      rcases eq_or_ne p q with rfl | hne
      · exact Function.update_self _ _ _
      · rwa [Function.update_of_ne hne]
    simp only [State.underLock]
    split
    · rename_i hnone
      refine ⟨place, h.pass hold rfl rfl rfl rfl (fun hg ↦ nomatch hg) rfl rfl rfl rfl rfl
        hclosed rfl fun p hp ↦ ?_⟩
      injection hp with hq
      subst hq
      exact ⟨Function.update_self _ _ _, fun e he ↦ callback_of_firstCallback hnone he⟩
    · rename_i i hfirst
      exact h.fire hold rfl (List.mem_range.mp (List.mem_of_find?_eq_some hfirst)) rfl rfl rfl rfl
        rfl rfl hclosed rfl

/-- A call returns. -/
theorem Sound.unlock (h : Sound c s place) {rest : List (Frame n ε T)} {work : Work ε T}
    (hold : s.stack a = .unlock q work none :: rest)
    (hstack : t.stack = Function.update s.stack a rest) (hheap : t.heap = s.heap)
    (hcalled : t.called = s.called) (hcancels : t.cancels = s.cancels)
    (hrefused : t.refused = s.refused) (hsubmitted : t.submitted = s.submitted)
    (hclosed : t.closed = s.closed)
    (hcloses : t.closes = s.closes ∨
      work = .fireCallbacksAndClose ∧ t.closes = Function.update s.closes q true) :
    Sound c t place := by
  have hclean (p : Fin n) (hp : s.Clean c p) : t.Clean c p := by
    refine ⟨by rw [hclosed]; exact hp.1, fun e he hin ↦ hp.2 e he ?_⟩
    rwa [hheap] at hin
  refine h.quiet hstack hheap ?_ ?_ hcalled hcancels hrefused hsubmitted ?_ ?_ ?_ ?_
  · rw [hold]
    rfl
  · rw [hold]
    rfl
  · intro f hf
    exact h.calls a f (by rw [hold]; exact List.mem_cons_of_mem _ hf)
  · intro p hp
    rwa [hclosed]
  · intro p hp
    rcases hcloses with heq | ⟨rfl, heq⟩
    · exact .inl (heq ▸ hp)
    · rw [heq] at hp
      rcases eq_or_ne p q with rfl | hne
      · exact .inr (hclean p (h.closing a p (by rw [hold]; exact List.mem_cons_self)))
      · rw [Function.update_of_ne hne] at hp
        exact .inl hp
  · intro p hp
    exact .inl (by rw [hold]; exact List.mem_cons_of_mem _ hp)

/-- A step of a thread's innermost call. -/
theorem Sound.act (h : Sound c s place) (hstep : s.act c a = some t) :
    ∃ place', Sound c t place' := by
  unfold State.act at hstep
  split at hstep
  · nomatch hstep
  · rename_i q work rest hold
    obtain ⟨-, rfl⟩ := Option.ite_none_left_eq_some.mp hstep |>.imp_right Option.some.inj
    refine ⟨place, h.pass hold rfl rfl ?_ rfl (fun hg ↦ nomatch hg) rfl rfl rfl rfl rfl
      (fun _ hq ↦ hq) rfl fun p hp ↦ nomatch hp⟩
    rw [adds_locked, adds_lock]
  · rename_i q work rest hold
    obtain rfl := Option.some.inj hstep
    exact h.underLock hold
  · rename_i q work e rest hold
    obtain rfl := Option.some.inj hstep
    exact ⟨place, h.pass hold rfl rfl rfl rfl (fun _ ↦ rfl) rfl rfl rfl rfl rfl
        (fun _ hq ↦ hq) rfl
      fun p hp ↦ nomatch hp⟩
  · rename_i q work rest hold
    obtain rfl := Option.some.inj hstep
    refine ⟨place, h.unlock hold rfl rfl rfl rfl rfl rfl rfl ?_⟩
    cases work with
    | fireCallbacksAndClose => exact .inr ⟨rfl, rfl⟩
    | add _ | addUnlessCancelled _ | cancel _ | fireExpired _ => exact .inl rfl
  · rename_i q work e rest hold
    obtain rfl := Option.some.inj hstep
    split_ifs
    · exact h.call hold rfl rfl rfl fun p hp ↦ nomatch hp
    · refine h.call hold rfl ?_ rfl fun p hp ↦ nomatch hp
      rw [adds_lock]
      exact (h.calls a _ (by rw [hold]; exact List.mem_cons_self)).loops rfl
  · rename_i q work rest hold
    obtain rfl := Option.some.inj hstep
    refine ⟨place, h.pass hold rfl rfl ?_ rfl (fun hg ↦ nomatch hg) rfl rfl rfl rfl rfl
      (fun _ hq ↦ hq) rfl fun p hp ↦ nomatch hp⟩
    rw [adds_lock]
    exact (h.calls a _ (by rw [hold]; exact List.mem_cons_self)).loops rfl

/-! ### Runs -/

/-- Every step keeps every entry in one place. -/
theorem Sound.step (h : Sound c s place) {action : Action n α ε T}
    (hstep : CallbackTimers.step c s action = some t) : ∃ place', Sound c t place' := by
  cases action with
  | construct e q =>
    obtain ⟨-, rfl⟩ := Option.ite_none_right_eq_some.mp hstep |>.imp_right Option.some.inj
    exact ⟨place, h.located, h.heaps, h.tally, h.calls, h.closes, h.closing⟩
  | addTimer a e q =>
    obtain ⟨⟨hcallback, hnew⟩, henter⟩ := Option.ite_none_right_eq_some.mp hstep
    refine h.submit hnew rfl ?_ henter
    rintro f ⟨rfl⟩
    exact hcallback
  | addCallbackTimer a e =>
    obtain ⟨⟨-, hnew⟩, hbind⟩ := Option.ite_none_right_eq_some.mp hstep
    obtain ⟨q, -, henter⟩ := Option.bind_eq_some_iff.mp hbind
    refine h.submit hnew rfl ?_ henter
    exact fun f hf ↦ nomatch hf
  | cancelTimer a e =>
    obtain ⟨q, -, henter⟩ := Option.bind_eq_some_iff.mp hstep
    exact ⟨place, h.enter rfl henter⟩
  | fireExpired a q now => exact ⟨place, h.enter rfl hstep⟩
  | fireCallbacksAndClose a q => exact ⟨place, h.enter rfl hstep⟩
  | act a => exact h.act hstep

/-- At the start no entry is anywhere. -/
theorem sound_initial [Inhabited ε] : Sound c (initial : State n α ε T) fun _ ↦ none where
  located r e := by
    cases r <;> rfl
  heaps q := IntrusiveHeap.valid_empty
  tally e := rfl
  calls a f hf := nomatch hf
  closes q hq := absurd hq Bool.false_ne_true
  closing a q hf := nomatch hf

/-- In every reachable state every entry is in one place. -/
theorem sound_of_reachable [Inhabited ε] (hs : (system c).Reachable s) :
    ∃ place, Sound c s place := by
  refine System.Reachable.invariant (P := fun s ↦ ∃ place, Sound c s place) ?_ ?_ hs
  · rintro s rfl
    exact ⟨_, sound_initial⟩
  · rintro s action t ⟨place, h⟩ hstep
    exact h.step hstep

/-! ### The contract -/

/-- An entry without a place is in no queue, and no call is about to add it or to call it back. -/
theorem Sound.gone (h : Sound c s place) (hnone : place e = none) :
    (∀ q, ¬ (s.heap q).Mem e) ∧ ∀ a, ∀ f ∈ s.stack a, f.adds ≠ some e ∧ f.fires ≠ some e := by
  have hout (r : Place n α) : e ∉ s.contents r := by
    rw [h.located.mem_iff, hnone]
    exact fun heq ↦ nomatch heq
  refine ⟨fun q hmem ↦ ?_, fun a f hf ↦ ⟨fun hadds ↦ ?_, fun hfires ↦ ?_⟩⟩
  · exact hout (.queued q) ((h.heaps q).indexed.mem_elements.mpr hmem)
  · exact hout (.adding a) (List.mem_filterMap.mpr ⟨f, hf, hadds⟩)
  · exact hout (.firing a) (List.mem_filterMap.mpr ⟨f, hf, hfires⟩)

/-- An entry that is in no queue, and that no call is about to add or to call back, has no place. -/
theorem Sound.place_eq_none (h : Sound c s place) (hqueued : ∀ q, ¬ (s.heap q).Mem e)
    (hcalls : ∀ a, ∀ f ∈ s.stack a, f.adds ≠ some e ∧ f.fires ≠ some e) : place e = none := by
  cases hplace : place e with
  | none => rfl
  | some r =>
    have hin : e ∈ s.contents r := h.located.mem_iff.mpr hplace
    cases r with
    | adding a =>
      obtain ⟨f, hf, hadds⟩ := List.mem_filterMap.mp hin
      exact absurd hadds (hcalls a f hf).1
    | queued q => exact absurd ((h.heaps q).indexed.mem_elements.mp hin) (hqueued q)
    | firing a =>
      obtain ⟨f, hf, hfires⟩ := List.mem_filterMap.mp hin
      exact absurd hfires (hcalls a f hf).2

/-- An entry that has had its end has no place. -/
theorem Sound.place_of_end (h : Sound c s place)
    (hend : 0 < s.called e + s.cancels e + s.refused e) : place e = none := by
  have htally := h.tally e
  have hle := (s.submitted e).toNat_le
  cases hplace : place e with
  | none => rfl
  | some r =>
    simp only [hplace, Option.isSome_some, Bool.toNat_true] at htally
    omega

omit [DecidableEq α] [DecidableEq ε] [LinearOrder T] in
/-- A call that touches an entry that is not queued is about to add it or cancels it. -/
theorem Frame.touches_cases {f : Frame n ε T} (htouch : f.touches s e)
    (hout : ∀ q, ¬ (s.heap q).Mem e) : f.adds = some e ∨ ∃ q, f = .locked q (.cancel e) := by
  cases f with
  | locked q work =>
    cases work with
    | add g =>
      rcases htouch with rfl | hmem
      · exact .inl rfl
      · exact absurd hmem (hout q)
    | addUnlessCancelled g =>
      rcases htouch with rfl | hmem
      · exact .inl rfl
      · exact absurd hmem (hout q)
    | cancel g =>
      rcases htouch with rfl | hmem
      · exact .inr ⟨q, rfl⟩
      · exact absurd hmem (hout q)
    | fireExpired now => exact absurd htouch (hout q)
    | fireCallbacksAndClose => exact absurd htouch (hout q)
  | lock _ _ | unlock _ _ _ | call _ _ _ | callback _ _ => exact htouch.elim

/-- What is promised of the entries. -/
theorem Sound.contract (h : Sound c s place) : Contract c s where
  once e := by
    have htally := h.tally e
    have hle := (s.submitted e).toNat_le
    omega
  ends e hsubmitted hqueued hcalls := by
    have htally := h.tally e
    rw [h.place_eq_none hqueued hcalls, hsubmitted] at htally
    simpa using htally
  gone e hend := h.gone (h.place_of_end hend)
  untouched e hend a f hf htouch := by
    obtain ⟨hout, hcalls⟩ := h.gone (h.place_of_end (Nat.lt_add_right _ hend))
    rcases Frame.touches_cases htouch hout with hadds | hcancel
    · exact absurd hadds (hcalls a f hf).1
    · exact hcancel
  closed q hq := by
    obtain ⟨hclosed, hclean⟩ := h.closes q hq
    exact ⟨hclosed, fun e he hmem ↦ hclean e he ((h.heaps q).indexed.mem_elements.mpr hmem)⟩

/-- For every interleaving of adds, cancels, `fireExpired` and `fireCallbacksAndClose` on any
queues, every entry ends in at most one of three ways: its callback is called once, one cancel of it
returns true, or its add returns false. It has ended as soon as its add has returned, it is in no
queue and no call has taken it out to fire it; from then on it is in no queue and nothing but a
later cancel of it touches it. Once `fireCallbacksAndClose` has returned for a queue, no callback
entry is there. -/
theorem callback_timers_end_once [Inhabited ε] (c : Config ε T) (s : State n α ε T)
    (hs : (system c).Reachable s) : Contract c s := by
  obtain ⟨place, h⟩ := sound_of_reachable hs
  exact h.contract

/-- Two callback entries on one queue: the first is added, and one thread closes the queue and fires
it while another cancels it too late; the second is refused. -/
def closeAndCancel : List (Action 1 Bool Bool ℕ) :=
  [.construct true 0, .addCallbackTimer true true, .act true, .act true, .act true,
    .fireCallbacksAndClose false 0, .act false, .cancelTimer true true, .act false, .act false,
    .act true, .act false, .act true, .act true, .act false, .act false, .act false, .act false,
    .construct false 0, .addCallbackTimer true false, .act true, .act true, .act true]

theorem callback_timers_end_once_closeAndCancel :
    ∃ s, (system ⟨false, fun _ ↦ 0, fun _ ↦ true⟩).run initial closeAndCancel = some s ∧
      s.called true = 1 ∧ s.refused false = 1 ∧ s.closes 0 = true ∧
      Contract ⟨false, fun _ ↦ 0, fun _ ↦ true⟩ s :=
  ⟨((system ⟨false, fun _ ↦ 0, fun _ ↦ true⟩).run initial closeAndCancel).get (by decide +kernel),
    (Option.some_get _).symm, by decide +kernel, by decide +kernel, by decide +kernel,
    callback_timers_end_once _ _ (System.reachable_of_run rfl (Option.some_get _).symm)⟩

end Stackfull.Sched.CallbackTimers
