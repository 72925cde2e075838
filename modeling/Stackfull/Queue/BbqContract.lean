import Stackfull.Queue.BbqSafety

/-!
# Every run of the queue delivers each value once and in order

`Times` relates the tickets to when the calls began and returned, and `Deliveries` says who has
reserved what and that a returned reservation carries the value of the push with its number.

`Contract` is what callers may rely on: the reservation with number `k` returns the value of the
push that got slot number `k`, once, and only after that push has written it; a value that was
pushed and not reserved is still in its slot; and pushes that did not overlap got their slots in
order.
-/

set_option autoImplicit false
set_option relaxedAutoImplicit false
set_option linter.dupNamespace false

namespace Stackfull.Queue.Bbq

open Stackfull.Lib

universe u v

variable {ι : Type u} {α : Type v} [DecidableEq ι] {p : Params}
variable {s s' : State ι α} {t : ι} {k head : ℕ}

/-! ### What a step does to the log -/

/-- The thread looks for a slot to push to. -/
def Pc.seeks : Pc α → Bool
  | .loadHead (.push _) => true
  | .peek _ _ => true
  | .add _ _ => true
  | .checkConsumed _ _ => true
  | .raise (.push _) _ _ _ => true
  | _ => false

/-- The thread has reserved a slot. -/
def Pc.reads : Pc α → Bool
  | .read _ _ => true
  | .consume _ _ _ => true
  | _ => false

/-- The ways in which an access of a thread changes the log. -/
inductive Logs (s s' : State ι α) (t : ι) : Prop
  | quiet (hlog : s'.log = s.log) (hticket : s'.ticket = s.ticket)
      (hseeks : (s'.pc t).seeks = true → (s.pc t).seeks = true)
      (hreads : (s'.pc t).reads = (s.pc t).reads)
  | allocate (value : α) (hlog : s'.log = (s.allocate t value).log)
      (hticket : s'.ticket = (s.allocate t value).ticket) (hseeks : (s.pc t).seeks = true)
      (hseeks' : (s'.pc t).seeks = false) (hreads' : (s'.pc t).reads = false)
  | commit (value : α) (block slot : ℕ) (hpc : s.pc t = .commit value block slot)
      (hlog : s'.log = (s.returnOk t).log) (hticket : s'.ticket = s.ticket)
      (hseeks' : (s'.pc t).seeks = false) (hreads' : (s'.pc t).reads = false)
  | reserve (hlog : s'.log = (s.reserve t).log) (hticket : s'.ticket = (s.reserve t).ticket)
      (hreads : (s.pc t).reads = false) (hseeks' : (s'.pc t).seeks = false)
      (hreads' : (s'.pc t).reads = true)
  | deliver (block reserved : ℕ) (out : Option α) (hpc : s.pc t = .consume block reserved out)
      (hlog : s'.log = (s.deliver t out).log) (hticket : s'.ticket = s.ticket)
      (hseeks' : (s'.pc t).seeks = false) (hreads' : (s'.pc t).reads = false)

omit [DecidableEq ι] in
theorem Params.raised_log (p : Params) (width : Width) (call : Call α) (head : ℕ) (target : Target)
    (current : Option ℕ) (word : ℕ) :
    ((p.raised width call head target word).seeks = true →
      (Pc.raise call head target current).seeks = true) ∧
      (p.raised width call head target word).reads = false ∧
      ((target.next call head).seeks = true → (Pc.raise call head target current).seeks = true) ∧
      (target.next call head).reads = false := by
  unfold Params.raised
  cases call <;> cases target <;> split_ifs <;> simp [Target.next, Pc.seeks, Pc.reads]

omit [DecidableEq ι] in
theorem Params.reserving_log (p : Params) (α : Type v) (head reserved : ℕ) :
    (p.reserving head reserved : Pc α).seeks = false ∧
      (p.reserving head reserved : Pc α).reads = false := by
  unfold Params.reserving
  split_ifs <;> exact ⟨rfl, rfl⟩

theorem logs_advance {width : Width} {spurious : Bool}
    (h : s.advance p width t spurious = some s') :
    Logs s s' t ∧ s'.clock = s.clock ∧ s'.began = s.began ∧ (s.pc t).isReady = false ∧
      ∀ thread, thread ≠ t → s'.pc thread = s.pc thread := by
  have hquiet {pc : Pc α} (hseeks : pc.seeks = true → (s.pc t).seeks = true)
      (hreads : pc.reads = (s.pc t).reads) : Logs s (s.goto t pc) t := by
    refine .quiet rfl rfl ?_ ?_
    · simpa [State.goto] using hseeks
    · simpa [State.goto] using hreads
  have hleave {result : Result α} (hreads : (s.pc t).reads = false) :
      Logs s (s.leave t result) t := by
    refine .quiet rfl rfl ?_ ?_
    · simp [State.leave, Pc.seeks]
    · rw [hreads]
      simp [State.leave, Pc.reads]
  have hothers {pc : Pc α} : ∀ thread, thread ≠ t →
      Function.update s.pc t pc thread = s.pc thread := fun thread hne ↦
    Function.update_of_ne hne _ _
  cases hpc : s.pc t with
  | ready last => simp [State.advance, hpc] at h
  | loadHead call =>
    rw [hpc] at hquiet
    cases call with
    | push value =>
      simp only [State.advance, hpc, Option.some.injEq] at h
      subst h
      exact ⟨hquiet (fun _ ↦ rfl) rfl, rfl, rfl, rfl, hothers⟩
    | pop =>
      simp only [State.advance, hpc, Option.some.injEq] at h
      subst h
      exact ⟨hquiet (by simp [Pc.seeks]) rfl, rfl, rfl, rfl, hothers⟩
  | peek value head =>
    rw [hpc] at hquiet
    simp only [State.advance, hpc] at h
    split_ifs at h <;>
    · obtain rfl := Option.some.inj h
      exact ⟨hquiet (fun _ ↦ rfl) rfl, rfl, rfl, rfl, hothers⟩
  | add value head =>
    simp only [State.advance, hpc, Option.some.injEq] at h
    subst h
    unfold State.fetchAdd
    dsimp only
    split_ifs
    · refine ⟨.allocate value rfl rfl ?_ ?_ ?_, rfl, rfl, rfl, hothers⟩
      · rw [hpc]
        rfl
      · simp [State.goto, Pc.seeks]
      · simp [State.goto, Pc.reads]
    · refine ⟨.quiet rfl rfl ?_ ?_, rfl, rfl, rfl, hothers⟩
      · simp [hpc, Pc.seeks]
      · simp [State.goto, hpc, Pc.reads]
  | write value block slot =>
    simp only [State.advance, hpc, Option.some.injEq] at h
    subst h
    refine ⟨.quiet rfl rfl ?_ ?_, rfl, rfl, rfl, hothers⟩
    · simp [State.goto, Pc.seeks]
    · simp [State.goto, hpc, Pc.reads]
  | commit value block slot =>
    simp only [State.advance, hpc, Option.some.injEq] at h
    subst h
    refine ⟨.commit value block slot hpc rfl rfl ?_ ?_, rfl, rfl, rfl, hothers⟩
    · simp [State.leave, Pc.seeks]
    · simp [State.leave, Pc.reads]
  | checkConsumed value head =>
    rw [hpc] at hquiet
    simp only [State.advance, hpc, Option.some.injEq] at h
    subst h
    unfold State.checkConsumed
    dsimp only
    split_ifs
    · exact ⟨hquiet (fun _ ↦ rfl) rfl, rfl, rfl, rfl, hothers⟩
    · exact ⟨hquiet (fun _ ↦ rfl) rfl, rfl, rfl, rfl, hothers⟩
  | checkReserved next consumed =>
    rw [hpc] at hleave
    simp only [State.advance, hpc, Option.some.injEq] at h
    subst h
    exact ⟨hleave rfl, rfl, rfl, rfl, hothers⟩
  | raise call head target current =>
    rw [hpc] at hquiet
    have hreads : (Pc.raise call head target current).reads = false := rfl
    cases current with
    | none =>
      simp only [State.advance, hpc, Option.some.injEq] at h
      subst h
      obtain ⟨hseeks, hreads', -, -⟩ := p.raised_log width call head target none
        (s.queue.word p head target)
      exact ⟨hquiet hseeks (hreads'.trans hreads.symm), rfl, rfl, rfl, hothers⟩
    | some current =>
      simp only [State.advance, hpc, Option.some.injEq] at h
      subst h
      obtain ⟨hseeks, hreads', hnext, hnext'⟩ := p.raised_log width call head target (some current)
        (s.queue.word p head target)
      unfold State.raise
      split_ifs
      · refine ⟨.quiet rfl rfl ?_ ?_, rfl, rfl, rfl, hothers⟩
        · simpa [State.goto, hpc] using hnext
        · simp only [State.goto, Function.update_self, hpc]
          exact hnext'.trans hreads.symm
      · exact ⟨hquiet hseeks (hreads'.trans hreads.symm), rfl, rfl, rfl, hothers⟩
  | reserve head =>
    rw [hpc] at hquiet
    simp only [State.advance, hpc, Option.some.injEq] at h
    subst h
    obtain ⟨hseeks, hreads⟩ := p.reserving_log α head (s.queue.reserved (p.block head))
    exact ⟨hquiet (by simp [hseeks]) hreads, rfl, rfl, rfl, hothers⟩
  | checkCommitted head reserved =>
    rw [hpc] at hquiet hleave
    simp only [State.advance, hpc, Option.some.injEq] at h
    subst h
    unfold State.checkCommitted
    dsimp only
    split_ifs
    · exact ⟨hleave rfl, rfl, rfl, rfl, hothers⟩
    · exact ⟨hquiet (by simp [Pc.seeks]) rfl, rfl, rfl, rfl, hothers⟩
    · exact ⟨hquiet (by simp [Pc.seeks]) rfl, rfl, rfl, rfl, hothers⟩
  | checkAllocated head reserved committed =>
    rw [hpc] at hquiet hleave
    simp only [State.advance, hpc] at h
    split_ifs at h
    · obtain rfl := Option.some.inj h
      exact ⟨hleave rfl, rfl, rfl, rfl, hothers⟩
    · obtain rfl := Option.some.inj h
      exact ⟨hquiet (by simp [Pc.seeks]) rfl, rfl, rfl, rfl, hothers⟩
  | swap head reserved =>
    simp only [State.advance, hpc, Option.some.injEq] at h
    subst h
    unfold State.swap
    split_ifs
    · refine ⟨.reserve rfl rfl ?_ ?_ ?_, rfl, rfl, rfl, hothers⟩
      · rw [hpc]
        rfl
      · simp [State.goto, Pc.seeks]
      · simp [State.goto, Pc.reads]
    · rw [hpc] at hquiet
      obtain ⟨hseeks, hreads⟩ := p.reserving_log α head (s.queue.reserved (p.block head))
      exact ⟨hquiet (by simp [hseeks]) hreads, rfl, rfl, rfl, hothers⟩
  | read block reserved =>
    rw [hpc] at hquiet
    simp only [State.advance, hpc, Option.some.injEq] at h
    subst h
    exact ⟨hquiet (by simp [Pc.seeks]) rfl, rfl, rfl, rfl, hothers⟩
  | consume block reserved out =>
    simp only [State.advance, hpc, Option.some.injEq] at h
    subst h
    refine ⟨.deliver block reserved out hpc rfl rfl ?_ ?_, rfl, rfl, rfl, hothers⟩
    · simp [State.leave, Pc.seeks]
    · simp [State.leave, Pc.reads]
  | checkNext head =>
    rw [hpc] at hquiet hleave
    simp only [State.advance, hpc, Option.some.injEq] at h
    subst h
    unfold State.checkNext
    split_ifs
    · exact ⟨hleave rfl, rfl, rfl, rfl, hothers⟩
    · exact ⟨hquiet (by simp [Pc.seeks]) rfl, rfl, rfl, rfl, hothers⟩

/-! ### When calls began and returned -/

/-- Tickets follow the order of calls that did not overlap. -/
structure Times (s : State ι α) : Prop where
  began : ∀ t, (s.pc t).isReady = false → s.began t < s.clock
  pushes : ∀ (k : ℕ) (push : Push ι α), s.log.pushes[k]? = some push → push.began < s.clock
  returned : ∀ j time, (j, time) ∈ s.log.returned → j < s.log.pushes.length
  realTime : ∀ (j time k : ℕ) (push : Push ι α), (j, time) ∈ s.log.returned → s.log.pushes[k]? = some push →
    time ≤ push.began → j < k
  sameThread : ∀ (j k : ℕ) (push push' : Push ι α), j < k → s.log.pushes[j]? = some push →
    s.log.pushes[k]? = some push' → push.thread = push'.thread → push.began < push'.began
  seeking : ∀ t, (s.pc t).seeks = true → ∀ (k : ℕ) (push : Push ι α),
    s.log.pushes[k]? = some push → push.thread = t → push.began < s.began t

omit [DecidableEq ι] in
theorem times_initial : Times (initial p .unbounded : State ι α) := by
  constructor <;> simp [initial, Pc.isReady, Pc.seeks]

omit [DecidableEq ι] in
theorem Pc.isReady_of_seeks {pc : Pc α} (h : pc.seeks = true) : pc.isReady = false := by
  cases pc <;> first | rfl | cases h

omit [DecidableEq ι] in
theorem pushes_append {pushes : List (Push ι α)} {new push : Push ι α}
    (h : (pushes ++ [new])[k]? = some push) :
    pushes[k]? = some push ∨ k = pushes.length ∧ push = new := by
  rcases Nat.lt_or_ge k pushes.length with hlt | hge
  · rw [List.getElem?_append_left hlt] at h
    exact .inl h
  · rw [List.getElem?_append_right hge, List.getElem?_singleton] at h
    split_ifs at h with hzero
    exact .inr ⟨by omega, (Option.some.inj h).symm⟩

theorem times_advance (hs : Times s) (hticket : ∀ value block slot,
      s.pc t = .commit value block slot → s.ticket t < s.log.pushes.length)
    (hlogs : Logs s s' t) (hclock : s'.clock = s.clock) (hbegan : s'.began = s.began)
    (hready : (s.pc t).isReady = false)
    (hothers : ∀ thread, thread ≠ t → s'.pc thread = s.pc thread) : Times s'.tick := by
  have hstarted := hs.began t hready
  have hbeganTick : ∀ thread, (s'.tick.pc thread).isReady = false →
      s'.tick.began thread < s'.tick.clock := by
    intro thread hthread
    simp only [State.tick, hclock, hbegan] at hthread ⊢
    by_cases heq : thread = t
    · subst heq
      omega
    · rw [hothers thread heq] at hthread
      have h := hs.began thread hthread
      omega
  have hsame (hpushes : s'.log.pushes = s.log.pushes)
      (hseeks : (s'.pc t).seeks = true → (s.pc t).seeks = true)
      (hret : ∀ j time, (j, time) ∈ s'.log.returned → (j, time) ∈ s.log.returned ∨
        j < s.log.pushes.length ∧ time = s.clock) : Times s'.tick := by
    refine ⟨hbeganTick, ?_, ?_, ?_, ?_, ?_⟩ <;> simp only [State.tick, hclock, hbegan, hpushes]
    · intro k push hpush
      have h := hs.pushes k push hpush
      omega
    · intro j time hmem
      rcases hret j time hmem with hold | hnew
      · exact hs.returned j time hold
      · exact hnew.1
    · intro j time k push hmem hpush hle
      rcases hret j time hmem with hold | ⟨-, rfl⟩
      · exact hs.realTime j time k push hold hpush hle
      · have h := hs.pushes k push hpush
        omega
    · exact hs.sameThread
    · intro thread hthread
      by_cases heq : thread = t
      · subst heq
        exact hs.seeking thread (hseeks hthread)
      · rw [hothers thread heq] at hthread
        exact hs.seeking thread hthread
  cases hlogs with
  | quiet hlog _ hseeks _ =>
    refine hsame (by rw [hlog]) hseeks fun j time hmem ↦ .inl ?_
    rwa [hlog] at hmem
  | allocate value hlog _ hseeks hseeks' _ =>
    have hpushes : s'.log.pushes = s.log.pushes ++ [⟨t, value, s.began t⟩] := by rw [hlog]; rfl
    have hret : s'.log.returned = s.log.returned := by rw [hlog]; rfl
    refine ⟨hbeganTick, ?_, ?_, ?_, ?_, ?_⟩ <;>
      simp only [State.tick, hclock, hbegan, hpushes, hret]
    · intro k push hpush
      rcases pushes_append hpush with hold | ⟨-, rfl⟩
      · have h := hs.pushes k push hold
        omega
      · dsimp only
        omega
    · intro j time hmem
      have h := hs.returned j time hmem
      rw [List.length_append]
      exact Nat.lt_add_right _ h
    · intro j time k push hmem hpush hle
      rcases pushes_append hpush with hold | ⟨rfl, rfl⟩
      · exact hs.realTime j time k push hmem hold hle
      · exact hs.returned j time hmem
    · intro j k push push' hlt hpush hpush' hthread
      rcases pushes_append hpush' with hold' | ⟨rfl, rfl⟩
      · rcases pushes_append hpush with hold | ⟨rfl, rfl⟩
        · exact hs.sameThread j k push push' hlt hold hold' hthread
        · have h := (List.getElem?_eq_some_iff.mp hold').1
          omega
      · rcases pushes_append hpush with hold | ⟨rfl, rfl⟩
        · exact hs.seeking t hseeks j push hold hthread
        · omega
    · intro thread hthread k push hpush heq
      have hne : thread ≠ t := by
        rintro rfl
        rw [hseeks'] at hthread
        cases hthread
      rw [hothers thread hne] at hthread
      rcases pushes_append hpush with hold | ⟨-, rfl⟩
      · exact hs.seeking thread hthread k push hold heq
      · exact absurd heq.symm hne
  | commit value block slot hpc hlog _ hseeks' _ =>
    refine hsame (by rw [hlog]; rfl) (by simp [hseeks']) fun j time hmem ↦ ?_
    rw [hlog] at hmem
    simp only [State.returnOk, List.mem_append, List.mem_singleton, Prod.mk.injEq] at hmem
    rcases hmem with hold | ⟨rfl, rfl⟩
    · exact .inl hold
    · exact .inr ⟨hticket value block slot hpc, rfl⟩
  | reserve hlog _ _ hseeks' _ =>
    refine hsame (by rw [hlog]; rfl) (by simp [hseeks']) fun j time hmem ↦ .inl ?_
    rw [hlog] at hmem
    exact hmem
  | deliver _ _ out _ hlog _ hseeks' _ =>
    refine hsame (by rw [hlog]; rfl) (by simp [hseeks']) fun j time hmem ↦ .inl ?_
    rw [hlog] at hmem
    exact hmem

theorem times_call (hs : Times s) {call : Call α} (h : s.call t call = some s') :
    Times s'.tick := by
  unfold State.call at h
  split at h
  · obtain rfl := Option.some.inj h
    refine ⟨?_, ?_, ?_, hs.realTime, hs.sameThread, ?_⟩ <;> simp only [State.tick]
    · intro thread hthread
      by_cases heq : thread = t
      · subst heq
        rw [Function.update_self]
        omega
      · rw [Function.update_of_ne heq] at hthread ⊢
        have h := hs.began thread hthread
        omega
    · intro k push hpush
      have h := hs.pushes k push hpush
      omega
    · exact hs.returned
    · intro thread hthread k push hpush hpusher
      by_cases heq : thread = t
      · subst heq
        rw [Function.update_self]
        exact hs.pushes k push hpush
      · rw [Function.update_of_ne heq] at hthread ⊢
        exact hs.seeking thread hthread k push hpush hpusher
  · cases h

/-! ### What was delivered -/

/-- A returned reservation carries the value of the push with its number, and one that has not
returned is in the hands of the thread that made it. -/
structure Deliveries (s : State ι α) : Prop where
  values : ∀ k out, (k, out) ∈ s.log.popped →
    ∃ push, s.log.pushes[k]? = some push ∧ out = some push.value
  once : (s.log.popped.map Prod.fst).Nodup
  held : ∀ (k : ℕ) (t : ι), s.log.pops[k]? = some t → k ∉ s.log.popped.map Prod.fst →
    (s.pc t).reads = true ∧ s.ticket t = k

omit [DecidableEq ι] in
theorem deliveries_initial : Deliveries (initial p .unbounded : State ι α) := by
  constructor <;> simp [initial]

/-- The reservations that others hold stay with them. -/
theorem Deliveries.held_kept (hs : Deliveries s) (hpops : s'.log.pops = s.log.pops)
    (hpopped : s'.log.popped = s.log.popped)
    (hothers : ∀ thread, thread ≠ t → s'.pc thread = s.pc thread ∧
      s'.ticket thread = s.ticket thread)
    (hown : (s.pc t).reads = true → (s'.pc t).reads = true ∧ s'.ticket t = s.ticket t) :
    ∀ (k : ℕ) (thread : ι), s'.log.pops[k]? = some thread →
      k ∉ s'.log.popped.map Prod.fst → (s'.pc thread).reads = true ∧ s'.ticket thread = k := by
  intro k thread hpop hopen
  rw [hpops] at hpop
  rw [hpopped] at hopen
  obtain ⟨hreads, hticket⟩ := hs.held k thread hpop hopen
  by_cases heq : thread = t
  · subst heq
    obtain ⟨hreads', hticket'⟩ := hown hreads
    exact ⟨hreads', hticket'.trans hticket⟩
  · obtain ⟨hpc, hsame⟩ := hothers thread heq
    rw [hpc, hsame]
    exact ⟨hreads, hticket⟩

theorem deliveries_advance (hs : Deliveries s) (hsound : Sound p s) (hlogs : Logs s s' t)
    (hothers : ∀ thread, thread ≠ t → s'.pc thread = s.pc thread) : Deliveries s' := by
  obtain ⟨f, hring, hfits⟩ := hsound
  cases hlogs with
  | quiet hlog hticket _ hreads =>
    refine ⟨by rw [hlog]; exact hs.values, by rw [hlog]; exact hs.once,
      hs.held_kept (t := t) (by rw [hlog]) (by rw [hlog]) (fun thread hne ↦ ?_) fun h ↦ ?_⟩
    · exact ⟨hothers thread hne, by rw [hticket]⟩
    · exact ⟨hreads.trans h, by rw [hticket]⟩
  | allocate value hlog hticket hseeks _ _ =>
    have hpopped : s'.log.popped = s.log.popped := by rw [hlog]; rfl
    have hpushes : s'.log.pushes = s.log.pushes ++ [⟨t, value, s.began t⟩] := by rw [hlog]; rfl
    have hreads : (s.pc t).reads = false := by
      cases hpc : s.pc t <;> rw [hpc] at hseeks <;> first | rfl | cases hseeks
    refine ⟨?_, by rw [hpopped]; exact hs.once,
      hs.held_kept (t := t) (by rw [hlog]; rfl) hpopped (fun thread hne ↦ ?_) fun h ↦ ?_⟩
    · intro k out hmem
      rw [hpopped] at hmem
      obtain ⟨push, hpush, hout⟩ := hs.values k out hmem
      refine ⟨push, ?_, hout⟩
      rw [hpushes, List.getElem?_append_left (List.getElem?_eq_some_iff.mp hpush).1]
      exact hpush
    · refine ⟨hothers thread hne, ?_⟩
      rw [hticket]
      exact Function.update_of_ne hne _ _
    · rw [hreads] at h
      cases h
  | commit value block slot hpc hlog hticket _ _ =>
    refine ⟨by rw [hlog]; exact hs.values, by rw [hlog]; exact hs.once,
      hs.held_kept (t := t) (by rw [hlog]; rfl) (by rw [hlog]; rfl) (fun thread hne ↦ ?_) fun h ↦ ?_⟩
    · exact ⟨hothers thread hne, by rw [hticket]⟩
    · rw [hpc] at h
      cases h
  | reserve hlog hticket hreads _ hreads' =>
    have hpops : s'.log.pops = s.log.pops ++ [t] := by rw [hlog]; rfl
    have hpopped : s'.log.popped = s.log.popped := by rw [hlog]; rfl
    refine ⟨by rw [hlog]; exact hs.values, by rw [hlog]; exact hs.once, fun k thread hpop hopen ↦ ?_⟩
    rw [hpopped] at hopen
    rw [hpops] at hpop
    rcases Nat.lt_or_ge k s.log.pops.length with hlt | hge
    · rw [List.getElem?_append_left hlt] at hpop
      obtain ⟨hheld, hsame⟩ := hs.held k thread hpop hopen
      have hne : thread ≠ t := by
        rintro rfl
        rw [hreads] at hheld
        cases hheld
      rw [hothers thread hne, hticket]
      exact ⟨hheld, (Function.update_of_ne hne _ _).trans hsame⟩
    · rw [List.getElem?_append_right hge, List.getElem?_singleton] at hpop
      split_ifs at hpop with hzero
      obtain rfl := Option.some.inj hpop
      refine ⟨hreads', ?_⟩
      rw [hticket]
      simp only [State.reserve, Function.update_self]
      omega
  | deliver block reserved out hpc hlog hticket _ _ =>
    have hpopped : s'.log.popped = s.log.popped ++ [(s.ticket t, out)] := by rw [hlog]; rfl
    have hpushes : s'.log.pushes = s.log.pushes := by rw [hlog]; rfl
    have hpops : s'.log.pops = s.log.pops := by rw [hlog]; rfl
    have hknows := hfits t
    rw [hpc] at hknows
    obtain ⟨⟨hpop, hunread, -, -⟩, push, hpush, hout⟩ := hknows
    have hnew : s.ticket t ∉ s.log.popped.map Prod.fst := by
      intro hmem
      refine hunread (.inr ?_)
      rwa [Nat.add_sub_cancel_left]
    refine ⟨?_, ?_, fun k thread hpop' hopen ↦ ?_⟩
    · intro k out' hmem
      rw [hpopped, List.mem_append, List.mem_singleton, Prod.mk.injEq] at hmem
      rw [hpushes]
      rcases hmem with hold | ⟨rfl, rfl⟩
      · exact hs.values k out' hold
      · exact ⟨push, hpush, hout⟩
    · rw [hpopped, List.map_append, List.map_singleton]
      refine List.nodup_append.mpr ⟨hs.once, List.nodup_singleton _, fun a ha b hb heq ↦ ?_⟩
      subst heq
      rw [List.mem_singleton.mp hb] at ha
      exact hnew ha
    · rw [hpops] at hpop'
      rw [hpopped, List.map_append, List.mem_append, not_or] at hopen
      obtain ⟨hheld, hsame⟩ := hs.held k thread hpop' hopen.1
      have hne : thread ≠ t := by
        rintro rfl
        exact hopen.2 (by simp [hsame])
      rw [hothers thread hne, hticket]
      exact ⟨hheld, hsame⟩

theorem deliveries_call (hs : Deliveries s) {call : Call α} (h : s.call t call = some s') :
    Deliveries s' := by
  unfold State.call at h
  split at h
  case h_1 last hpc =>
    obtain rfl := Option.some.inj h
    refine ⟨hs.values, hs.once, hs.held_kept (t := t) rfl rfl (fun thread hne ↦ ?_) fun h ↦ ?_⟩
    · exact ⟨Function.update_of_ne hne _ _, rfl⟩
    · rw [hpc] at h
      cases h
  case h_2 => cases h

/-! ### The contract -/

/-- The thread is about to read the slot that it has reserved. -/
def State.Reading (s : State ι α) (t : ι) (block reserved : ℕ) : Prop :=
  s.pc t = .read block reserved

/-- The value is in the queue: it was pushed, nobody has reserved it, and its slot holds it. -/
def State.InQueue (p : Params) (s : State ι α) (k : ℕ) : Prop :=
  s.log.pops.length ≤ k ∧ ∃ push, s.log.pushes[k]? = some push ∧
    s.queue.entries (k / p.blockSize % p.numBlocks) (k % p.blockSize) = some push.value

/-- What callers may rely on. Pushes are numbered by the order in which they got their slots, and
pops by the order in which they reserved theirs. -/
structure Contract (p : Params) (s : State ι α) : Prop where
  inOrder : ∀ k out, (k, out) ∈ s.log.popped →
    k ∈ s.log.returned.map Prod.fst ∧ ∃ push, s.log.pushes[k]? = some push ∧ out = some push.value
  once : (s.log.popped.map Prod.fst).Nodup
  notLost : ∀ k, k ∈ s.log.returned.map Prod.fst → k ∈ s.log.popped.map Prod.fst ∨
    (∃ t, s.log.pops[k]? = some t ∧ (s.pc t).reads = true ∧ s.ticket t = k) ∨ s.InQueue p k
  realTime : ∀ (j time k : ℕ) (push : Push ι α), (j, time) ∈ s.log.returned →
    s.log.pushes[k]? = some push → time ≤ push.began → j < k
  sameThread : ∀ (j k : ℕ) (push push' : Push ι α), j < k → s.log.pushes[j]? = some push →
    s.log.pushes[k]? = some push' → push.thread = push'.thread → push.began < push'.began
  readsWritten : ∀ t block reserved, s.Reading t block reserved →
    s.ticket t ∈ s.log.returned.map Prod.fst ∧ ∃ push, s.log.pushes[s.ticket t]? = some push ∧
      s.queue.entries block (p.index reserved) = some push.value
  notOverwritten : ∀ t block reserved, s.Reading t block reserved →
    ∀ thread value block' slot, s.pc thread = .write value block' slot →
      ¬ (block' = block ∧ p.index slot = p.index reserved)
  noCarry : ∀ t value head, s.pc t = .add value head →
    p.version (s.queue.allocated (p.block head) + 1) =
      p.version (s.queue.allocated (p.block head))

omit [DecidableEq ι] in
theorem mem_returned_of_written {l : Log ι α} (h : l.Written p (p.base + k)) :
    k ∈ l.returned.map Prod.fst := by
  rcases h with h | h
  · omega
  · rwa [Nat.add_sub_cancel_left] at h

omit [DecidableEq ι] in
theorem mem_popped_of_read {l : Log ι α} (h : l.Read p (p.base + k)) :
    k ∈ l.popped.map Prod.fst := by
  rcases h with h | h
  · omega
  · rwa [Nat.add_sub_cancel_left] at h

omit [DecidableEq ι] in
theorem contract_of_sound (hsound : Sound p s) (hroom : Room p s) (htimes : Times s)
    (hdeliveries : Deliveries s) : Contract p s := by
  obtain ⟨f, hring, hfits⟩ := hsound
  have hwritten {k : ℕ} (hk : k < s.log.pops.length) : s.log.Written p (p.base + k) := by
    refine hring.written_of_taken _ ?_
    unfold Log.taken
    omega
  have hreading {t : ι} {block reserved : ℕ} (hpc : s.Reading t block reserved) :
      Popping p s.log t (s.ticket t) block (p.index reserved) := by
    have hknows := hfits t
    rwa [hpc] at hknows
  refine ⟨?_, hdeliveries.once, ?_, htimes.realTime, htimes.sameThread, ?_, ?_, ?_⟩
  · intro k out hmem
    have hread : s.log.Read p (p.base + k) := by
      refine .inr ?_
      rw [Nat.add_sub_cancel_left]
      exact List.mem_map_of_mem hmem
    have htaken := hring.read_lt _ hread
    exact ⟨mem_returned_of_written (hring.written_of_taken _ htaken),
      hdeliveries.values k out hmem⟩
  · intro k hk
    by_cases hpopped : k ∈ s.log.popped.map Prod.fst
    · exact .inl hpopped
    · refine .inr ?_
      rcases Nat.lt_or_ge k s.log.pops.length with hlt | hge
      · have hpop := List.getElem?_eq_getElem hlt
        exact .inl ⟨_, hpop, hdeliveries.held k _ hpop hpopped⟩
      · have hdone : s.log.Written p (p.base + k) := by
          refine .inr ?_
          rwa [Nat.add_sub_cancel_left]
        have hlt : k < s.log.pushes.length := by
          have h := hring.written_lt _ hdone
          unfold Log.given at h
          omega
        have hpush := List.getElem?_eq_getElem hlt
        exact .inr ⟨hge, _, hpush, hring.entries k _ hpush hdone fun hread ↦
          hpopped (mem_popped_of_read hread)⟩
  · intro t block reserved hpc
    obtain ⟨hpop, hunread, hblock, hslot⟩ := hreading hpc
    have hdone := hwritten (List.getElem?_eq_some_iff.mp hpop).1
    have hlt : s.ticket t < s.log.pushes.length := by
      have h := hring.written_lt _ hdone
      unfold Log.given at h
      omega
    have hpush := List.getElem?_eq_getElem hlt
    refine ⟨mem_returned_of_written hdone, _, hpush, ?_⟩
    rw [hblock, hslot]
    exact hring.entries _ _ hpush hdone hunread
  · rintro t block reserved hpc thread value block' slot hwriting ⟨hblock, hslot⟩
    obtain ⟨hpop, hunread, hplace, hindex⟩ := hreading hpc
    have hdone := hwritten (List.getElem?_eq_some_iff.mp hpop).1
    have hknows := hfits thread
    rw [hwriting] at hknows
    obtain ⟨⟨began, hpush⟩, hopen, hplace', hindex'⟩ := hknows
    have hsame := hring.slot_injective (Ring.base_add_lt_given hpush) (hring.written_lt _ hdone)
      (hring.not_read_of_not_written hopen) hunread
      (hplace'.symm.trans (hblock.trans hplace)) (hindex'.symm.trans (hslot.trans hindex))
    exact hopen (hsame ▸ hdone)
  · intro t value head hpc
    exact (PackedCursor.add_one_of_lt (hroom.room_of_add hpc)).2

/-- In every run with unbounded versions and fewer than `2 ^ 10` threads inside the queue at once,
each pushed value is delivered once and in order. -/
theorem bbq_delivers_once_in_order
    (hs : (system ι α p .unbounded).ReachableUnder (fun s a ↦ fewThreads s a = true) s) :
    Contract p s := by
  have hall : Sound p s ∧ Room p s ∧ Times s ∧ Deliveries s := by
    refine System.ReachableUnder.invariant
      (P := fun s ↦ Sound p s ∧ Room p s ∧ Times s ∧ Deliveries s) ?_ ?_ hs
    · rintro s rfl
      exact ⟨sound_initial, room_initial, times_initial, deliveries_initial⟩
    · rintro s action t ⟨hsound, hroom, htimes, hdeliveries⟩ hfew hstep
      cases action with
      | call thread call =>
        obtain ⟨mid, hmid, rfl⟩ := Option.map_eq_some_iff.mp hstep
        have hdelivered := deliveries_call hdeliveries hmid
        have hkept := room_call hroom hfew hmid
        have hsounded := sound_call hsound hmid
        exact ⟨hsounded, ⟨hkept.inside, hkept.few, hkept.room⟩,
          times_call htimes hmid,
          ⟨hdelivered.values, hdelivered.once, hdelivered.held⟩⟩
      | advance thread spurious =>
        obtain ⟨mid, hmid, rfl⟩ := Option.map_eq_some_iff.mp hstep
        obtain ⟨hlogs, hclock, hbegan, hready, hothers⟩ := logs_advance hmid
        have hdelivered := deliveries_advance hdeliveries hsound hlogs hothers
        have hkept := room_advance hroom hmid
        have hticket : ∀ value block slot, s.pc thread = .commit value block slot →
            s.ticket thread < s.log.pushes.length := by
          intro value block slot hpc
          obtain ⟨f, -, hfits⟩ := hsound
          have hknows := hfits thread
          rw [hpc] at hknows
          obtain ⟨⟨⟨began, hpush⟩, -⟩, -⟩ := hknows
          exact (List.getElem?_eq_some_iff.mp hpush).1
        have hsounded := sound_advance hsound (fun _ _ hpc ↦ hroom.room_of_add hpc) hmid
        exact ⟨hsounded, ⟨hkept.inside, hkept.few, hkept.room⟩,
          times_advance htimes hticket hlogs hclock hbegan hready hothers,
          ⟨hdelivered.values, hdelivered.once, hdelivered.held⟩⟩
  exact contract_of_sound hall.1 hall.2.1 hall.2.2.1 hall.2.2.2

/-- Two blocks with one entry each. -/
def twoBlocks : Params where
  numBlocks := 2
  blockSize := 1
  isPowerOfTwo := ⟨1, rfl⟩
  two_le_numBlocks := by decide
  blockSize_pos := by decide

/-- A thread pushes while another pops, and pushes again into the next block. -/
def pushPopPush : List (Action (Fin 2) ℕ) :=
  [.call 0 (.push 7), .advance 0 false, .advance 0 false, .advance 0 false, .advance 0 false,
    .call 1 .pop, .advance 1 false, .advance 1 false, .advance 0 false, .advance 1 false,
    .advance 1 true, .advance 1 false, .advance 1 false, .advance 1 false, .advance 1 false,
    .call 0 (.push 8), .advance 0 false, .advance 0 false, .advance 0 false, .advance 0 false,
    .advance 0 false, .advance 0 false, .advance 0 false, .advance 0 false, .advance 0 false,
    .advance 0 false, .advance 0 false, .advance 0 false, .advance 0 false, .advance 0 false]

theorem bbq_delivers_once_in_order_pushPopPush :
    ∃ s, (system (Fin 2) ℕ twoBlocks .unbounded).ReachableUnder
        (fun s a ↦ fewThreads s a = true) s ∧
      s.log.popped = [(0, some 7)] ∧ s.log.returned.map Prod.fst = [0, 1] ∧
      Contract twoBlocks s := by
  let s := ((system (Fin 2) ℕ twoBlocks .unbounded).runUnder fewThreads (initial twoBlocks .unbounded)
    pushPopPush).get (by decide +kernel)
  have hs : (system (Fin 2) ℕ twoBlocks .unbounded).ReachableUnder
      (fun s a ↦ fewThreads s a = true) s :=
    System.reachableUnder_of_run rfl (Option.some_get _).symm
  exact ⟨s, hs, by decide +kernel, by decide +kernel, bbq_delivers_once_in_order hs⟩

end Stackfull.Queue.Bbq
