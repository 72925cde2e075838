import Stackfull.Sched.IdleInvariant

/-!
# The inboxes of the workers

`Inboxes` ties the history of the enqueues to the queues. A task is in one place: in the hands of
the call that schedules it, between the two accesses of its push, in an inbox, or in the injection
queue. So no task is pushed twice, every inbox is a chain of nodes broken only at the pushes in
progress, and what a worker's look into its inbox misses belongs to a call that has yet to look at
the worker's bit of the idle mask.
-/

set_option autoImplicit false
set_option relaxedAutoImplicit false
set_option linter.dupNamespace false

namespace Stackfull.Sched.Idle

open Stackfull.Lib

universe u v

variable {n : ℕ} {κ : Type u} {τ : Type v} [DecidableEq κ] [DecidableEq τ]
variable {c : Config} {s t : State n κ τ} {action : Action n κ τ} {w : Fin n}

/-- The pushes to the worker's inbox that are between their two accesses. -/
def State.pushes (s : State n κ τ) (w : Fin n) (x y : Node τ) : Prop :=
  ∃ a task, (s.call a).links w x task ∧ y = .task task

/-- Where the worker stands in a pop from its inbox. -/
def WorkerPc.pop (pc : WorkerPc τ) : PopPc τ :=
  pc.popping.getD .start

/-- The queues agree with the history of the enqueues. -/
structure Inboxes (s : State n κ τ) : Prop where
  carried : ∀ a task, (s.call a).carries task → s.place task = .carried a
  linking : ∀ a w previous task, (s.call a).links w previous task →
    s.place task = .linking a w
  resting : ∀ w task, (s.inbox w).Contains (.task task) →
    s.place task = .resting w ∨ ∃ a, s.place task = .linking a w
  injected : ∀ task, task ∈ s.injection → s.place task = .injected
  nodup : s.injection.Nodup
  batch : ∀ a tasks, s.call a = .injecting tasks → tasks.Nodup
  prepared : ∀ a w task, s.call a = .pushing w task .swap →
    (s.inbox w).next (.task task) = none
  consistent : ∀ w, (s.inbox w).Consistent (s.pushes w) (s.pc w).pop

omit [DecidableEq κ] [DecidableEq τ] in
theorem inboxes_initial : Inboxes (initial : State n κ τ) where
  carried := fun a task h ↦ by simp [initial, CallPc.carries] at h
  linking := fun a w previous task h ↦ by simp [initial, CallPc.links] at h
  resting := fun w task h ↦ by
    obtain ⟨i, -, -, hi⟩ := h
    simp [initial, MpscQueue.empty] at hi
  injected := fun task h ↦ by simp [initial] at h
  nodup := List.nodup_nil
  batch := fun a tasks h ↦ by simp [initial] at h
  prepared := fun a w task h ↦ by simp [initial] at h
  consistent := fun w ↦ MpscQueue.consistent_empty fun x y ⟨a, task, h, _⟩ ↦ by
    simp [initial, CallPc.links] at h

attribute [local grind] CallPc.carries CallPc.links

omit [DecidableEq τ] in
@[grind →]
theorem CallPc.notifying_of_links {pc : CallPc n τ} {previous : Node τ} {task : τ}
    (h : pc.links w previous task) : pc.notifying = false := by
  cases pc <;> simp_all [links, notifying]

omit [DecidableEq τ] in
theorem nodup_of_not_carries {pc : CallPc n τ} {tasks : List τ}
    (h : ∀ task, ¬ pc.carries task) (hpc : pc = .injecting tasks) : tasks.Nodup := by
  subst hpc
  rw [List.eq_nil_iff_forall_not_mem.mpr h]
  exact List.nodup_nil

omit [DecidableEq κ] [DecidableEq τ] in
/-- A task in the hands of a call is in no inbox. -/
theorem Inboxes.not_contains (hs : Inboxes s) {a : Agent n κ} {task : τ}
    (hplace : s.place task = .carried a) (w : Fin n) : ¬ (s.inbox w).Contains (.task task) := by
  intro hcontains
  have hrest := hs.resting w task hcontains
  grind -linarith

omit [DecidableEq κ] [DecidableEq τ] in
theorem Inboxes.at_pop (hs : Inboxes s) {site : Site} {pop : PopPc τ}
    (hpc : s.pc w = .popInbox site pop) : (s.inbox w).Consistent (s.pushes w) pop := by
  have hq := hs.consistent w
  rwa [hpc] at hq

omit [DecidableEq κ] [DecidableEq τ] in
theorem Inboxes.place_of_injecting (hs : Inboxes s) {a : Agent n κ} {task : τ} {rest : List τ}
    (hpc : s.call a = .injecting (task :: rest)) : s.place task = .carried a :=
  hs.carried a task (by simp [hpc, CallPc.carries])

omit [DecidableEq κ] [DecidableEq τ] in
theorem Inboxes.place_of_reset (hs : Inboxes s) {a : Agent n κ} {task : τ}
    (hpc : s.call a = .pushing w task .reset) : s.place task = .carried a :=
  hs.carried a task (by simp [hpc, CallPc.carries])

omit [DecidableEq κ] [DecidableEq τ] in
theorem Inboxes.place_of_swap (hs : Inboxes s) {a : Agent n κ} {task : τ}
    (hpc : s.call a = .pushing w task .swap) : s.place task = .carried a :=
  hs.carried a task (by simp [hpc, CallPc.carries])

omit [DecidableEq κ] [DecidableEq τ] in
theorem Inboxes.place_of_link (hs : Inboxes s) {a : Agent n κ} {task : τ} {previous : Node τ}
    (hpc : s.call a = .pushing w task (.link previous)) : s.place task = .linking a w :=
  hs.linking a w previous task (by simp [hpc, CallPc.links])

omit [DecidableEq κ] in
/-- A task that leaves an inbox was in it, and its push has ended. -/
theorem Inboxes.place_of_taken (hs : Inboxes s) {site : Site} {pop : PopPc τ} {q : MpscQueue τ}
    {task : τ} (hpc : s.pc w = .popInbox site pop)
    (hpop : (s.inbox w).popStep pop = (q, .inr (some (.task task)))) :
    (s.place task = .resting w ∨ ∃ a, s.place task = .linking a w) ∧
      ∀ a v previous, ¬ (s.call a).links v previous task := by
  have hq := hs.at_pop hpc
  have htail := (hq.popStep_some hpop).2.1
  have hplace := hs.resting w task (htail ▸ hq.chained.contains_tail)
  refine ⟨hplace, fun a v previous hlinks ↦ ?_⟩
  have hlinking := hs.linking a v previous task hlinks
  obtain rfl : v = w := by grind -linarith
  exact hq.chained.ne_tail_of_mid (.inl ⟨a, task, hlinks, rfl⟩) htail

theorem carried_step (hs : Inboxes s) (h : Step c s action t) :
    ∀ a task, (t.call a).carries task → t.place task = .carried a := by
  intro a task
  have ha := hs.carried a task
  cases h with
  | pop hinjection =>
    have hplace := hs.injected _ (hinjection ▸ List.mem_cons_self)
    grind -linarith
  | inboxTake hpc hpop => have hplace := (hs.place_of_taken hpc hpop).1; grind -linarith
  | inject hpc =>
    have hplace := hs.place_of_injecting hpc
    have hbatch := hs.batch _ _ hpc
    grind -linarith
  | pushReset hpc => have hplace := hs.place_of_reset hpc; grind -linarith
  | pushSwap hpc => have hplace := hs.place_of_swap hpc; grind -linarith
  | pushLink hpc => have hplace := hs.place_of_link hpc; grind -linarith
  | _ => grind -linarith [carries_pokeAll]

theorem linking_step (hs : Inboxes s) (h : Step c s action t) :
    ∀ a w previous task, (t.call a).links w previous task → t.place task = .linking a w := by
  intro a w previous task
  have ha := hs.linking a w previous task
  cases h with
  | pop hinjection =>
    have hplace := hs.injected _ (hinjection ▸ List.mem_cons_self)
    grind -linarith
  | inboxTake hpc hpop =>
    have hlinks := (hs.place_of_taken hpc hpop).2 a w previous
    grind -linarith
  | inject hpc => have hplace := hs.place_of_injecting hpc; grind -linarith
  | pushReset hpc => have hplace := hs.place_of_reset hpc; grind -linarith
  | pushSwap hpc => have hplace := hs.place_of_swap hpc; grind -linarith
  | pushLink hpc => have hplace := hs.place_of_link hpc; grind -linarith
  | _ => grind -linarith [links_pokeAll]

theorem injected_step (hs : Inboxes s) (h : Step c s action t) :
    ∀ task, task ∈ t.injection → t.place task = .injected := by
  intro task
  have htask := hs.injected task
  cases h with
  | pop hinjection => have hnodup := hs.nodup; grind -linarith
  | inboxTake hpc hpop => have hplace := (hs.place_of_taken hpc hpop).1; grind -linarith
  | pushReset hpc => have hplace := hs.place_of_reset hpc; grind -linarith
  | pushSwap hpc => have hplace := hs.place_of_swap hpc; grind -linarith
  | pushLink hpc => have hplace := hs.place_of_link hpc; grind -linarith
  | _ => grind -linarith

theorem nodup_step (hs : Inboxes s) (h : Step c s action t) : t.injection.Nodup := by
  have hnodup := hs.nodup
  cases h with
  | pop hinjection =>
    rw [hinjection] at hnodup
    exact hnodup.of_cons
  | inject hpc =>
    have hplace := hs.place_of_injecting hpc
    have hnot : _ ∉ s.injection := fun hin ↦ by
      rw [hs.injected _ hin] at hplace
      cases hplace
    exact hnodup.append (List.nodup_singleton _) (by simpa using hnot)
  | _ => exact hnodup

theorem batch_step (hs : Inboxes s) (h : Step c s action t) :
    ∀ a tasks, t.call a = .injecting tasks → tasks.Nodup := by
  intro a tasks
  have ha := hs.batch a tasks
  have hempty := @nodup_of_not_carries n τ (t.call a) tasks
  cases h with
  | inject hpc => have hbatch := hs.batch _ _ hpc; grind -linarith
  | pokeUnpark => grind -linarith [carries_pokeAll]
  | stopWoken => grind -linarith [carries_pokeAll]
  | _ => grind -linarith

theorem prepared_step (hs : Inboxes s) (h : Step c s action t) :
    ∀ a w task, t.call a = .pushing w task .swap → (t.inbox w).next (.task task) = none := by
  intro a w task
  have ha := hs.prepared a w task
  have hout : s.call a = .pushing w task .swap → ¬ (s.inbox w).Contains (.task task) :=
    fun hpc ↦ hs.not_contains (hs.place_of_swap hpc) w
  have hpop {v : Fin n} {site : Site} {pop : PopPc τ} (hpc : s.pc v = .popInbox site pop)
      (hcall : s.call a = .pushing v task .swap) :
      ((s.inbox v).popStep pop).1.next (.task task) = (s.inbox v).next (.task task) :=
    (hs.at_pop hpc).next_popStep (hs.not_contains (hs.place_of_swap hcall) v)
  have hheld : t.call a = .pushing w task .swap → (t.call a).carries task :=
    fun hpc ↦ by simp [hpc, CallPc.carries]
  cases h with
  | inboxNext hpc => have hnext := hpop hpc; grind -linarith
  | inboxNone hpc => have hnext := hpop hpc; grind -linarith
  | inboxTake hpc => have hnext := hpop hpc; grind -linarith
  | @pushLink b _ target held previous hpc =>
    have hpush : s.pushes target previous (.task held) := ⟨b, held, by simp [hpc, CallPc.links], rfl⟩
    have hcontains := ((hs.consistent target).chained.contains_of_mid (.inl hpush)).1
    grind -linarith
  | pokeUnpark => grind -linarith [carries_pokeAll]
  | stopWoken => grind -linarith [carries_pokeAll]
  | _ => grind -linarith

theorem resting_step (hs : Inboxes s) (h : Step c s action t) :
    ∀ w task, (t.inbox w).Contains (.task task) →
      t.place task = .resting w ∨ ∃ a, t.place task = .linking a w := by
  intro w task
  have hw := hs.resting w task
  cases h with
  | pop hinjection =>
    have hplace := hs.injected _ (hinjection ▸ List.mem_cons_self)
    grind -linarith
  | inboxNext hpc hpop =>
    have hcontains := ((hs.at_pop hpc).popStep_next hpop).2
    grind -linarith
  | inboxNone hpc hpop =>
    have hsame := ((hs.at_pop hpc).popStep_none hpop).1
    grind -linarith
  | inboxTake hpc hpop =>
    have hcontains := ((hs.at_pop hpc).popStep_some hpop).2.2
    have hplace := (hs.place_of_taken hpc hpop).1
    grind -linarith
  | inject hpc => have hplace := hs.place_of_injecting hpc; grind -linarith
  | pushReset hpc => have hplace := hs.place_of_reset hpc; grind -linarith
  | pushSwap hpc =>
    have hplace := hs.place_of_swap hpc
    have hle := (hs.consistent w).chained.first_le
    grind -linarith
  | pushLink hpc => have hplace := hs.place_of_link hpc; grind -linarith
  | _ => grind -linarith

/-! ### The chains -/

omit [DecidableEq τ] in
theorem Quiet.pop {pc pc' : WorkerPc τ} (h : Quiet c pc pc') : pc'.pop = pc.pop := by
  have hstart := h.to_pop
  unfold WorkerPc.pop
  rw [h.from_pop]
  cases hpop : pc'.popping with
  | none => rfl
  | some pop => exact hstart pop hpop

omit [DecidableEq τ] in
@[grind →]
theorem Awake.pop {pc : WorkerPc τ} (h : Awake pc) : pc.pop = .start := by
  unfold WorkerPc.pop
  rw [h.popping]
  rfl

attribute [grind →] Quiet.pop

omit [DecidableEq κ] [DecidableEq τ] in
theorem State.pushes_congr (hcall : ∀ a previous task, (t.call a).links w previous task ↔
    (s.call a).links w previous task) : t.pushes w = s.pushes w := by
  funext x y
  simp only [State.pushes, hcall]

omit [DecidableEq κ] [DecidableEq τ] in
/-- An inbox that nobody touches. -/
theorem Inboxes.consistent_of_same (hs : Inboxes s) (hinbox : t.inbox w = s.inbox w)
    (hcall : ∀ a previous task, (t.call a).links w previous task ↔
      (s.call a).links w previous task)
    (hpop : (t.pc w).pop = (s.pc w).pop) :
    (t.inbox w).Consistent (t.pushes w) (t.pc w).pop := by
  rw [hinbox, State.pushes_congr hcall, hpop]
  exact hs.consistent w

theorem consistent_pushSwap (hs : Inboxes s) {a : Agent n κ} {task : τ}
    (hpc : s.call a = .pushing w task .swap) :
    let t := s.setInboxBy a w ((s.inbox w).swap (.task task)) task (.linking a w)
      (.pushing w task (.link (s.inbox w).head))
    (t.inbox w).Consistent (t.pushes w) (t.pc w).pop := by
  intro t
  have hout := hs.not_contains (hs.place_of_swap hpc) w
  have hq := (hs.consistent w).swap hout (hs.prepared a w task hpc)
  have hinbox : t.inbox w = (s.inbox w).swap (.task task) := by simp [t]
  rw [hinbox]
  refine hq.congr fun x y ↦ ?_
  have hnot : ∀ task', ¬ (s.call a).links w x task' := by simp [hpc, CallPc.links]
  constructor
  · rintro (⟨b, task', hlinks, rfl⟩ | ⟨rfl, rfl⟩)
    · exact ⟨b, task', by grind -linarith, rfl⟩
    · exact ⟨a, task, by simp [t, CallPc.links], rfl⟩
  · rintro ⟨b, task', hlinks, rfl⟩
    by_cases hb : b = a
    · right
      subst hb
      simp only [t, State.setInboxBy_call, Function.update_self, CallPc.links] at hlinks
      exact ⟨hlinks.2.2.symm, by rw [hlinks.2.1]⟩
    · exact .inl ⟨b, task', by grind -linarith, rfl⟩

theorem consistent_pushLink (hs : Inboxes s) {a : Agent n κ} {task : τ} {previous : Node τ}
    (hpc : s.call a = .pushing w task (.link previous)) :
    let t := s.setInboxBy a w ((s.inbox w).link previous (.task task)) task (.resting w)
      (.notifyWorker w)
    (t.inbox w).Consistent (t.pushes w) (t.pc w).pop := by
  intro t
  have hlink : (s.call a).links w previous task := by simp [hpc, CallPc.links]
  have hpush : s.pushes w previous (.task task) := ⟨a, task, hlink, rfl⟩
  have hinbox : t.inbox w = (s.inbox w).link previous (.task task) := by simp [t]
  rw [hinbox]
  refine ((hs.consistent w).link hpush).congr fun x y ↦ ?_
  constructor
  · rintro ⟨⟨b, task', hlinks, rfl⟩, hne⟩
    have hb : b ≠ a := by
      rintro rfl
      grind -linarith
    exact ⟨b, task', by grind -linarith, rfl⟩
  · rintro ⟨b, task', hlinks, rfl⟩
    have hb : b ≠ a := by
      rintro rfl
      simp [t, CallPc.links] at hlinks
    have hlinks₀ : (s.call b).links w x task' := by grind -linarith
    refine ⟨⟨b, task', hlinks₀, rfl⟩, ?_⟩
    rintro rfl
    have htask := (hs.consistent w).chained.mid_unique (.inl hpush)
      (.inl ⟨b, task', hlinks₀, rfl⟩)
    have hplace := hs.linking b w x task' hlinks₀
    have hplace' := hs.linking a w x task hlink
    grind -linarith

omit [DecidableEq κ] [DecidableEq τ] in
/-- A worker moves on in its pop, or out of it. -/
theorem consistent_of_pop (v : Fin n) (q : MpscQueue τ) (pc' : WorkerPc τ) (hs : Inboxes s)
    (hcall : t.call = s.call) (hinbox : t.inbox = Function.update s.inbox v q)
    (hpc : t.pc = Function.update s.pc v pc') (hq : q.Consistent (s.pushes v) pc'.pop) (w : Fin n) :
    (t.inbox w).Consistent (t.pushes w) (t.pc w).pop := by
  by_cases hw : w = v
  · subst hw
    have hpushes : t.pushes w = s.pushes w := State.pushes_congr (by simp [hcall])
    simpa [hinbox, hpc, hpushes] using hq
  · exact hs.consistent_of_same (by simp [hinbox, hw]) (by simp [hcall]) (by simp [hpc, hw])

theorem consistent_step (hs : Inboxes s) (h : Step c s action t) :
    ∀ w, (t.inbox w).Consistent (t.pushes w) (t.pc w).pop := by
  intro w
  cases h with
  | quiet => exact hs.consistent_of_same (by grind -linarith) (by grind -linarith) (by grind -linarith)
  | @inboxNext v _ site pop next q hpc hpop =>
    exact consistent_of_pop (t := s.setInbox v q _) v q (.popInbox site next) hs rfl rfl rfl
      ((hs.at_pop hpc).popStep_next hpop).1 w
  | @inboxNone v _ site pop q hpc hpop =>
    obtain ⟨rfl, hq, -⟩ := (hs.at_pop hpc).popStep_none hpop
    have hstart : (site.missed : WorkerPc τ).pop = .start := by
      simp [WorkerPc.pop, Site.popping_missed]
    exact consistent_of_pop (t := s.setInbox v _ _) v _ site.missed hs rfl rfl rfl (hstart ▸ hq) w
  | @inboxTake v _ site pop q task hpc hpop =>
    have hq := ((hs.at_pop hpc).popStep_some hpop).1
    have hstart : (site.found : WorkerPc τ).pop = .start := by
      simp [WorkerPc.pop, Site.popping_found]
    exact consistent_of_pop (t := s.taken v task q _) v q site.found hs rfl rfl rfl (hstart ▸ hq) w
  | @pushReset a _ target task hpc =>
    by_cases hw : w = target
    · subst hw
      have hq := (hs.consistent w).reset (hs.not_contains (hs.place_of_reset hpc) w)
      rw [State.pushes_congr (by grind -linarith : ∀ b previous task', _ ↔ (s.call b).links w previous task')]
      simpa using hq
    · exact hs.consistent_of_same (by grind -linarith) (by grind -linarith) (by grind -linarith)
  | @pushSwap a _ target task hpc =>
    by_cases hw : w = target
    · subst hw
      exact consistent_pushSwap hs hpc
    · exact hs.consistent_of_same (by grind -linarith) (by grind -linarith) (by grind -linarith)
  | @pushLink a _ target task previous hpc =>
    by_cases hw : w = target
    · subst hw
      exact consistent_pushLink hs hpc
    · exact hs.consistent_of_same (by grind -linarith) (by grind -linarith) (by grind -linarith)
  | counted hpc =>
    have hnot := hpc.links
    exact hs.consistent_of_same (by grind -linarith) (by grind -linarith) (by grind -linarith)
  | _ =>
    exact hs.consistent_of_same (by grind -linarith) (by grind -linarith [links_pokeAll])
      (by grind -linarith [WorkerPc.pop, WorkerPc.popping])

theorem inboxes_step (hs : Inboxes s) (h : Step c s action t) : Inboxes t where
  carried := carried_step hs h
  linking := linking_step hs h
  resting := resting_step hs h
  injected := injected_step hs h
  nodup := nodup_step hs h
  batch := batch_step hs h
  prepared := prepared_step hs h
  consistent := consistent_step hs h

end Stackfull.Sched.Idle
