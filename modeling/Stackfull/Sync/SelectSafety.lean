import Mathlib
import Stackfull.Sync.Select

/-!
# What `select` answers, and what it leaves behind

`Produced` says what the step of a producer can do to the sources. `Attached` says where the waiter may
be stored and why it does not sleep through a source that has become ready; `Scanned` says, of a run
with the states that it went through, what the array of a scan has to do with the sources.
-/

set_option autoImplicit false
set_option relaxedAutoImplicit false
set_option linter.dupNamespace false

namespace Stackfull.Sync.Select

open Stackfull.Lib

universe u v w

/-! ### Sources -/

namespace Source

/-- The waiter is attached, and has reason to wait. -/
def Armed (s : Source) : Prop := s.isReady = false ∧ s.consumer = true

@[simp]
theorem isReady_setConsumer (s : Source) (consumer : Bool) :
    (s.setConsumer consumer).isReady = s.isReady := by
  cases s <;> rfl

@[simp]
theorem consumer_setConsumer (s : Source) (consumer : Bool) :
    (s.setConsumer consumer).consumer = consumer := by
  cases s <;> rfl

/-- `attach` answers whether there is something to wait for, and then arms the source. -/
theorem attach_spec (s : Source) :
    s.isReady = true ∧ s.attach = (s, false) ∨ s.attach.1.Armed ∧ s.attach.2 = true := by
  unfold attach
  split_ifs with hready
  · exact Or.inl ⟨hready, rfl⟩
  · exact Or.inr ⟨⟨by simpa using hready, by simp⟩, rfl⟩

theorem consumer_detach (s : Source) : s.detach.consumer = false := by
  unfold detach
  split_ifs with h
  · simp
  · simpa using h

/-- What a producer does to a source: it attaches nobody, and what was armed stays so or the waiter is
to be woken. -/
structure Fires (s t : Source) (wakes : Bool) : Prop where
  consumer : t.consumer = true → s.consumer = true
  armed : s.Armed → t.Armed ∨ wakes = true

theorem fires_claim (c : CompletionSource) :
    Fires (.completion c) (.completion { c with claimed := true }) false :=
  ⟨id, Or.inl⟩

theorem fires_publish (c : CompletionSource) :
    Fires (.completion c) (.completion c.publish.1) c.publish.2 :=
  ⟨nofun, fun h ↦ Or.inr h.2⟩

theorem fires_push (c : StreamSource) : Fires (.stream c) (.stream c.push.1) c.push.2 := by
  unfold StreamSource.push
  split_ifs
  · exact ⟨id, Or.inl⟩
  · exact ⟨nofun, fun h ↦ Or.inr h.2⟩
  · exact ⟨nofun, fun h ↦ Or.inr h.2⟩

theorem fires_closeStream (c : StreamSource) : Fires (.stream c) (.stream c.close.1) c.close.2 :=
  ⟨nofun, fun h ↦ Or.inr h.2⟩

theorem fires_post (c : MailboxSource) : Fires (.mailbox c) (.mailbox c.post.1) c.post.2 := by
  unfold MailboxSource.post
  split_ifs
  · exact ⟨id, Or.inl⟩
  · exact ⟨id, fun h ↦ Or.inr h.2⟩

theorem fires_closeMailbox (c : MailboxSource) :
    Fires (.mailbox c) (.mailbox c.close.1) c.close.2 :=
  ⟨id, fun h ↦ Or.inr h.2⟩

/-- Taking an item leaves the attachment alone. -/
theorem consumer_take {s t : Source} (h : s.take = some t) : t.consumer = s.consumer := by
  cases s <;> simp only [take] at h
  · cases h
  · split_ifs at h
    cases h
    rfl
  · split_ifs at h
    cases h
    rfl

end Source

variable {σ : Type u} {π : Type v} {T : Type w}

/-- A wake is pending: the token is set, or a producer is about to set it. -/
def State.Pending (s : State σ π T) : Prop :=
  s.token = true ∨ ∃ p, s.producer p = .waking true

/-- A step of a producer, as the consumer and its attachments see it. -/
structure Produced (s t : State σ π T) : Prop where
  pc : t.pc = s.pc
  args : t.args = s.args
  deadline : t.deadline = s.deadline
  clock : t.clock = s.clock
  scans : t.scans = s.scans
  before : t.before = s.before
  consumer : ∀ x, (t.source x).consumer = true → (s.source x).consumer = true
  armed : ∀ x, (s.source x).Armed → (t.source x).Armed ∨ t.Pending
  pending : s.Pending → t.Pending

section Produce

variable [DecidableEq π] {s t : State σ π T}

/-- A producer that is not about to wake anybody moves on. -/
theorem State.pending_goto {p : π} {pc : ProducerPc σ} (hp : s.producer p ≠ .waking true)
    (h : s.Pending) : (s.goto p pc).Pending :=
  h.imp_right (exists_update (P := fun pc : ProducerPc σ ↦ pc = .waking true) fun h ↦ absurd h hp)

theorem produced_goto {p : π} {pc : ProducerPc σ} (hp : s.producer p ≠ .waking true) :
    Produced s (s.goto p pc) :=
  ⟨rfl, rfl, rfl, rfl, rfl, rfl, fun _ ↦ id, fun _ ↦ Or.inl, State.pending_goto hp⟩

omit [DecidableEq π] in
/-- A wake that was pending is, after another one. -/
theorem State.Pending.wake {wakes : Bool} (h : s.Pending) : (s.wake wakes).Pending :=
  h.imp_left fun h ↦ by simp [State.wake, h]

omit [DecidableEq π] in
/-- A producer changes a source; the wake it owes is pending afterwards. -/
theorem produced_fire [DecidableEq σ] {x : σ} {source : Source} {wakes : Bool}
    (hfires : (s.source x).Fires source wakes) (hpc : t.pc = s.pc) (hargs : t.args = s.args)
    (hdeadline : t.deadline = s.deadline) (hclock : t.clock = s.clock) (hscans : t.scans = s.scans)
    (hbefore : t.before = s.before) (hsource : t.source = Function.update s.source x source)
    (hpending : s.Pending → t.Pending) (hwakes : wakes = true → t.Pending) : Produced s t := by
  refine ⟨hpc, hargs, hdeadline, hclock, hscans, hbefore, fun y h ↦ ?_, fun y h ↦ ?_, hpending⟩
  · rw [hsource] at h
    rcases eq_or_ne y x with rfl | hne
    · exact hfires.consumer (by rwa [Function.update_self] at h)
    · rwa [Function.update_of_ne hne] at h
  · rw [hsource]
    rcases eq_or_ne y x with rfl | hne
    · rw [Function.update_self]
      exact (hfires.armed h).imp_right hwakes
    · rw [Function.update_of_ne hne]
      exact Or.inl h

/-- A producer that has changed a source under the lock wakes afterwards. -/
theorem produced_waking [DecidableEq σ] {p : π} {x : σ} {source : Source} {wakes : Bool}
    (hp : s.producer p ≠ .waking true) (hfires : (s.source x).Fires source wakes) :
    Produced s ((s.goto p (.waking wakes)).setSource x source) := by
  refine produced_fire hfires rfl rfl rfl rfl rfl rfl rfl (State.pending_goto hp) fun hwakes ↦ ?_
  exact Or.inr ⟨p, by simp [State.setSource, State.goto, hwakes]⟩

theorem produced_produce [DecidableEq σ] {p : π} (h : s.produce p = some t) : Produced s t := by
  unfold State.produce at h
  split at h
  case h_1 => cases h
  case h_2 call x hpc =>
    have hp : s.producer p ≠ .waking true := by rw [hpc]; nofun
    split at h
    case h_1 c hx =>
      split_ifs at h
      · exact Option.some.inj h ▸ produced_goto hp
      · cases h
        exact produced_fire (hx ▸ Source.fires_claim c) rfl rfl rfl rfl rfl rfl rfl
          (State.pending_goto hp) (by nofun)
    case h_2 c hx => exact Option.some.inj h ▸ produced_waking hp (hx ▸ Source.fires_push c)
    case h_3 c hx => exact Option.some.inj h ▸ produced_waking hp (hx ▸ Source.fires_closeStream c)
    case h_4 c hx =>
      cases h
      refine produced_fire (hx ▸ Source.fires_post c) rfl rfl rfl rfl rfl rfl rfl
        (fun h ↦ State.Pending.wake (State.pending_goto hp h)) fun hwakes ↦ Or.inl ?_
      simp [State.wake, hwakes]
    case h_5 c hx => exact Option.some.inj h ▸ produced_waking hp (hx ▸ Source.fires_closeMailbox c)
    case h_6 => cases h
  case h_3 x hpc =>
    have hp : s.producer p ≠ .waking true := by rw [hpc]; nofun
    split at h
    case h_1 c hx => exact Option.some.inj h ▸ produced_waking hp (hx ▸ Source.fires_publish c)
    case h_2 => cases h
  case h_4 wakes hpc =>
    cases h
    refine ⟨rfl, rfl, rfl, rfl, rfl, rfl, fun _ ↦ id, fun _ ↦ Or.inl, fun hpending ↦ ?_⟩
    cases wakes with
    | true => exact Or.inl (by simp [State.wake])
    | false => exact (State.pending_goto (by rw [hpc]; nofun) hpending).wake

end Produce

/-! ### Attachments -/

/-- A source in which the waiter may be stored. -/
def Pc.Holds (args : List σ) (x : σ) : Pc → Prop
  | .scanning _ true | .blocked => x ∈ args
  | .attaching attached => x ∈ args.take attached.length
  | .detaching next _ => x ∈ args.drop next
  | _ => False

/-- Where the waiter is stored, and why it is not overlooked there. -/
structure Attached (s : State σ π T) : Prop where
  stored : ∀ x, (s.source x).consumer = true → s.pc.Holds s.args x
  attaching : ∀ attached, s.pc = .attaching attached →
    false ∈ attached ∨ ∀ x ∈ s.args.take attached.length, (s.source x).Armed ∨ s.Pending
  blocked : s.pc = .blocked → ∀ x ∈ s.args, (s.source x).Armed ∨ s.Pending

section Attaching

variable {s t : State σ π T}

/-- A free consumer, and one that scans for the first time, is attached to nothing. -/
theorem Attached.free (hs : Attached s) (hfree : s.pc.isFree = true) (x : σ) :
    (s.source x).consumer = false := by
  cases hconsumer : (s.source x).consumer with
  | false => rfl
  | true =>
    have hholds := hs.stored x hconsumer
    revert hholds hfree
    cases s.pc <;> simp [Pc.isFree, Pc.Holds]

/-- The consumer does what attaches it to nothing. -/
theorem Attached.of_stored (hstored : ∀ x, (t.source x).consumer = true → t.pc.Holds t.args x)
    (hattaching : ∀ attached, t.pc ≠ .attaching attached) (hblocked : t.pc ≠ .blocked) :
    Attached t :=
  ⟨hstored, fun attached h ↦ absurd h (hattaching attached), fun h ↦ absurd h hblocked⟩

theorem Attached.produced (hs : Attached s) (h : Produced s t) : Attached t := by
  have hkept : ∀ x, (s.source x).Armed ∨ s.Pending → (t.source x).Armed ∨ t.Pending := fun x hx ↦
    hx.elim (h.armed x) fun hpending ↦ Or.inr (h.pending hpending)
  refine ⟨fun x hx ↦ ?_, fun attached hpc ↦ ?_, fun hpc x hx ↦ ?_⟩
  · rw [h.pc, h.args]
    exact hs.stored x (h.consumer x hx)
  · rw [h.pc] at hpc
    rw [h.args]
    exact (hs.attaching attached hpc).imp_right fun h x hx ↦ hkept x (h x hx)
  · rw [h.pc] at hpc
    rw [h.args] at hx
    exact hkept x (hs.blocked hpc x hx)

/-- The consumer is where it was, and no wake has gone. -/
theorem Attached.loose (hs : Attached s) (hsource : t.source = s.source) (hpc : t.pc = s.pc)
    (hargs : t.args = s.args) (hpending : s.Pending → t.Pending) : Attached t := by
  refine ⟨?_, ?_, ?_⟩ <;> rw [hsource, hpc, hargs]
  · exact hs.stored
  · exact fun attached h ↦
      (hs.attaching attached h).imp_right fun h x hx ↦ (h x hx).imp_right hpending
  · exact fun h x hx ↦ (hs.blocked h x hx).imp_right hpending

variable [DecidableEq σ]

/-- `attachAll` goes on to the next source. -/
theorem attached_attach (hs : Attached s) {attached : List Bool} (hpc : s.pc = .attaching attached)
    {x : σ} (hx : s.args[attached.length]? = some x) :
    Attached { s.setSource x (s.source x).attach.1 with
      pc := .attaching (attached ++ [(s.source x).attach.2]) } := by
  have htake : s.args.take (attached ++ [(s.source x).attach.2]).length =
      s.args.take attached.length ++ [x] := by
    rw [List.length_append, List.length_singleton, List.take_add_one, hx, Option.toList_some]
  refine ⟨fun y hy ↦ ?_, fun attached' h ↦ ?_, nofun⟩
  · show y ∈ s.args.take _
    rw [htake]
    rcases eq_or_ne y x with rfl | hne
    · simp
    · have hholds := hs.stored y (by simpa [State.setSource, hne] using hy)
      rw [hpc] at hholds
      exact List.mem_append_left _ hholds
  · cases h
    rcases (s.source x).attach_spec with ⟨-, hattach⟩ | ⟨harmed, -⟩
    · exact Or.inl (by simp [hattach])
    · refine (hs.attaching attached hpc).imp (List.mem_append_left _) fun h y hy ↦ ?_
      rcases eq_or_ne y x with rfl | hne
      · exact Or.inl (by simpa [State.setSource] using harmed)
      · have hmem : y ∈ s.args.take attached.length ++ [x] := htake ▸ hy
        have hold := h y (by simpa [hne] using hmem)
        simpa [State.setSource, hne, State.Pending] using hold

/-- `~DetachAllOnExit` goes on to the next source. -/
theorem attached_detach (hs : Attached s) {next : ℕ} {leave : Leave}
    (hpc : s.pc = .detaching next leave) {x : σ} (hx : s.args[next]? = some x) :
    Attached { s.setSource x (s.source x).detach with pc := .detaching (next + 1) leave } := by
  refine .of_stored (fun y hy ↦ ?_) nofun nofun
  rcases eq_or_ne y x with rfl | hne
  · simp [State.setSource, Source.consumer_detach] at hy
  · have hholds := hs.stored y (by simpa [State.setSource, hne] using hy)
    rw [hpc] at hholds
    obtain ⟨hnext, rfl⟩ := List.getElem?_eq_some_iff.mp hx
    have hmem : y ∈ s.args.drop next := hholds
    rw [List.drop_eq_getElem_cons hnext] at hmem
    exact (List.mem_cons.mp hmem).resolve_left hne

theorem attached_go (hs : Attached s) (h : s.go = some t) : Attached t := by
  unfold State.go at h
  split at h
  case h_1 ready final hpc =>
    have hstored := hs.stored
    rw [hpc] at hstored
    split at h
    case h_1 =>
      cases h
      refine .of_stored (fun x hx ↦ ?_)
        (fun _ h ↦ by cases h) (fun h ↦ by cases h)
      cases final <;> exact hstored x hx
    case h_2 =>
      split_ifs at h with hfinal
      · cases h
        subst hfinal
        exact .of_stored (fun x hx ↦ by simpa [Pc.Holds] using hstored x hx)
          (fun _ h ↦ by cases h) (fun h ↦ by cases h)
      · have hnone : ∀ x, (s.source x).consumer ≠ true := fun x hx ↦ by
          have hholds := hstored x hx
          cases final <;> simp [Pc.Holds] at hholds hfinal
        split at h
        · exact Option.some.inj h ▸ .of_stored (fun x hx ↦ absurd hx (hnone x))
            (fun _ h ↦ by cases h) (fun h ↦ by cases h)
        · cases h
          refine ⟨fun x hx ↦ absurd hx (hnone x), fun attached h ↦ Or.inr fun x hx ↦ ?_,
            fun h ↦ by cases h⟩
          cases h
          simp at hx
  case h_2 attached hpc =>
    split at h
    case h_1 x hx => exact Option.some.inj h ▸ attached_attach hs hpc hx
    case h_2 hx =>
      have hall : s.args.take attached.length = s.args :=
        List.take_of_length_le (List.getElem?_eq_none_iff.mp hx)
      have hstored := hs.stored
      rw [hpc] at hstored
      split_ifs at h with hattached
      · cases h
        refine ⟨fun x hx ↦ hall ▸ hstored x hx, (fun _ h ↦ by cases h), fun _ x hx ↦ ?_⟩
        refine ((hs.attaching attached hpc).resolve_left fun hfalse ↦ ?_) x (hall.symm ▸ hx)
        exact absurd (List.all_eq_true.mp hattached false hfalse) (by decide)
      · cases h
        exact .of_stored (fun x hx ↦ List.mem_of_mem_take (hstored x hx))
          (fun _ h ↦ by cases h) (fun h ↦ by cases h)
  case h_3 hpc =>
    split_ifs at h
    cases h
    have hstored := hs.stored
    rw [hpc] at hstored
    exact .of_stored hstored
      (fun _ h ↦ by cases h) (fun h ↦ by cases h)
  case h_4 next leave hpc =>
    split at h
    case h_1 x hx => exact Option.some.inj h ▸ attached_detach hs hpc hx
    case h_2 hx =>
      have hnone : ∀ x, (s.source x).consumer ≠ true := fun x hconsumer ↦ by
        have hholds := hs.stored x hconsumer
        rw [hpc] at hholds
        simp [Pc.Holds, List.drop_eq_nil_of_le (List.getElem?_eq_none_iff.mp hx)] at hholds
      cases h
      cases leave <;> exact .of_stored (fun x hx ↦ absurd hx (hnone x))
        (fun _ h ↦ by cases h) (fun h ↦ by cases h)
  case h_5 => cases h

omit [DecidableEq σ] in
theorem attached_selectImpl (hs : Attached s) {deadline : Option T} {args : List σ}
    (h : s.selectImpl deadline args = some t) : Attached t := by
  unfold State.selectImpl at h
  split_ifs at h with hfree
  cases h
  refine .of_stored (fun x hx ↦ ?_) nofun nofun
  exact absurd ((hs.free hfree.1 x).symm.trans hx) (by decide)

variable [DecidableEq π] [LinearOrder T] [Add T]

theorem attached_step {a : Action σ π T} (hs : Attached s) (h : step s a = some t) :
    Attached t := by
  cases a with
  | call p call x =>
    simp only [step.eq_def] at h
    split at h
    case h_1 hpc => exact Option.some.inj h ▸ hs.produced (produced_goto (by rw [hpc]; nofun))
    case h_2 => cases h
  | produce p => exact hs.produced (produced_produce h)
  | select args => exact attached_selectImpl hs h
  | selectUntil deadline args => exact attached_selectImpl hs h
  | selectFor timeout args => exact attached_selectImpl hs h
  | go => exact attached_go hs h
  | take x =>
    simp only [step.eq_def] at h
    split_ifs at h with hfree
    obtain ⟨source, hsource, rfl⟩ := Option.map_eq_some_iff.mp h
    have hnot : ∀ pc, pc.isFree = false → s.pc ≠ pc := fun pc hpc heq ↦ by
      rw [heq, hpc] at hfree
      cases hfree
    refine .of_stored (fun y hy ↦ ?_) (fun _ ↦ hnot _ rfl) (hnot _ rfl)
    have hconsumer : (s.source y).consumer = true := by
      rcases eq_or_ne y x with rfl | hne
      · rw [← Source.consumer_take hsource]
        simpa [State.setSource] using hy
      · simpa [State.setSource, hne] using hy
    exact absurd ((hs.free hfree y).symm.trans hconsumer) (by decide)
  | park =>
    simp only [step.eq_def] at h
    split_ifs at h with hfree
    cases h
    have hnot : ∀ pc, pc.isFree = false → s.pc ≠ pc := fun pc hpc heq ↦ by
      rw [heq, hpc] at hfree
      cases hfree
    exact .of_stored hs.stored (fun _ ↦ hnot _ rfl) (hnot _ rfl)
  | tick time =>
    simp only [step.eq_def] at h
    split_ifs at h
    exact Option.some.inj h ▸ hs.loose rfl rfl rfl id
  | timeout takesToken =>
    simp only [step.eq_def] at h
    split at h
    case h_1 hpc _ =>
      have hstored := hs.stored
      rw [hpc] at hstored
      split_ifs at h
      exact Option.some.inj h ▸ .of_stored hstored nofun nofun
    case h_2 => cases h
  | spurious =>
    simp only [step.eq_def] at h
    split at h
    case h_1 hpc =>
      have hstored := hs.stored
      rw [hpc] at hstored
      exact Option.some.inj h ▸ .of_stored hstored nofun nofun
    case h_2 => cases h
  | unwind =>
    simp only [step.eq_def] at h
    split at h
    case h_1 hpc =>
      have hstored := hs.stored
      rw [hpc] at hstored
      exact Option.some.inj h ▸ .of_stored hstored nofun nofun
    case h_2 => cases h
  | staleWake => exact Option.some.inj h ▸ hs.loose rfl rfl rfl fun _ ↦ Or.inl rfl

end Attaching

/-! ### Scans -/

/-- The current scan has found `ready` at an argument, at a moment when, if it is the scan after a
timeout, the deadline had passed. -/
def Saw [LinearOrder T] (past : List (State σ π T)) (s : State σ π T) (final : Bool) (j : ℕ)
    (ready : Bool) : Prop :=
  ∃ u ∈ past, u.scans = s.scans ∧ (∃ x, s.args[j]? = some x ∧ (u.source x).isReady = ready) ∧
    (final = true → ∃ d, s.deadline = some d ∧ d ≤ u.clock)

/-- The call has an answer, which it is about to return. -/
def Pc.Answers (result : Option ℕ) (pc : Pc) : Prop :=
  pc = .returned result ∨ ∃ next, pc = .detaching next (.result result)

/-- What the array of a scan says of the sources. -/
structure Scanned [LinearOrder T] (past : List (State σ π T)) (s : State σ π T) : Prop where
  calls : s.before ≤ s.scans
  scanning : ∀ ready final, s.pc = .scanning ready final →
    s.before < s.scans ∧ ready.length ≤ s.args.length ∧
      (final = true → ∃ d, s.deadline = some d ∧ d ≤ s.clock) ∧
      ∀ j b, ready[j]? = some b → Saw past s final j b
  answers : ∀ result, s.pc.Answers result →
    s.before < s.scans ∧ ∃ ready final, ready.length = s.args.length ∧
      firstReady ready = result ∧ (result = none → final = true) ∧
      ∀ j b, ready[j]? = some b → Saw past s final j b

section Scanning

variable [LinearOrder T] {past : List (State σ π T)} {s t u : State σ π T}

/-- What was seen has been seen. -/
theorem Saw.mono {final b : Bool} {j : ℕ} (h : Saw past s final j b) (hscans : t.scans = s.scans)
    (hargs : t.args = s.args) (hdeadline : t.deadline = s.deadline) :
    Saw (u :: past) t final j b := by
  obtain ⟨v, hv, hscan, hready, hfinal⟩ := h
  refine ⟨v, List.mem_cons_of_mem _ hv, hscan.trans hscans.symm, ?_, ?_⟩
  · rwa [hargs]
  · rwa [hdeadline]

/-- The consumer neither scans nor answers. -/
theorem Scanned.of_ne (hcalls : t.before ≤ t.scans)
    (hscanning : ∀ ready final, t.pc ≠ .scanning ready final)
    (hanswers : ∀ result, ¬t.pc.Answers result) : Scanned past t :=
  ⟨hcalls, fun ready final h ↦ absurd h (hscanning ready final), fun result h ↦ absurd h (hanswers result)⟩

/-- Somebody else takes a step, or time passes. -/
theorem Scanned.pass (hs : Scanned past s) (hpc : t.pc = s.pc) (hargs : t.args = s.args)
    (hdeadline : t.deadline = s.deadline) (hclock : s.clock ≤ t.clock)
    (hscans : t.scans = s.scans) (hbefore : t.before = s.before) : Scanned (s :: past) t := by
  refine ⟨by rw [hbefore, hscans]; exact hs.calls, fun ready final h ↦ ?_, fun result h ↦ ?_⟩
  · obtain ⟨hcall, hlength, hfinal, hsaw⟩ := hs.scanning ready final (hpc ▸ h)
    refine ⟨by rwa [hbefore, hscans], by rwa [hargs], fun h ↦ ?_,
      fun j b hj ↦ (hsaw j b hj).mono hscans hargs hdeadline⟩
    obtain ⟨d, hd, hle⟩ := hfinal h
    exact ⟨d, hdeadline.trans hd, hle.trans hclock⟩
  · obtain ⟨hcall, ready, final, hlength, hfirst, hnone, hsaw⟩ := hs.answers result (hpc ▸ h)
    exact ⟨by rwa [hbefore, hscans], ready, final, by rwa [hargs], hfirst, hnone,
      fun j b hj ↦ (hsaw j b hj).mono hscans hargs hdeadline⟩

/-- A scan begins. -/
theorem scanned_scan {final : Bool} (hcall : s.before ≤ s.scans)
    (hfinal : final = true → ∃ d, s.deadline = some d ∧ d ≤ s.clock) :
    Scanned past (s.scan final) := by
  refine ⟨hcall.trans (Nat.le_succ _), fun ready final' h ↦ ?_, fun result h ↦ ?_⟩
  · cases h
    exact ⟨Nat.lt_succ_of_le hcall, Nat.zero_le _, hfinal, nofun⟩
  · rcases h with h | ⟨next, h⟩ <;> cases h

/-- The scan reads the next source. -/
theorem scanned_read (hs : Scanned past s) {ready : List Bool} {final : Bool}
    (hpc : s.pc = .scanning ready final) {x : σ} (hx : s.args[ready.length]? = some x) :
    Scanned (s :: past) { s with pc := .scanning (ready ++ [(s.source x).isReady]) final } := by
  obtain ⟨hcall, -, hfinal, hsaw⟩ := hs.scanning ready final hpc
  refine ⟨hs.calls, fun ready' final' h ↦ ?_, fun result h ↦ ?_⟩
  · cases h
    refine ⟨hcall, ?_, hfinal, fun j b hj ↦ ?_⟩
    · obtain ⟨hlt, -⟩ := List.getElem?_eq_some_iff.mp hx
      simpa using Nat.succ_le_of_lt hlt
    · rw [List.getElem?_append] at hj
      split_ifs at hj with hlt
      · exact (hsaw j b hj).mono rfl rfl rfl
      · obtain ⟨hzero, hb⟩ := List.getElem?_eq_some_iff.mp hj
        rw [List.length_singleton] at hzero
        obtain rfl : j = ready.length := by omega
        exact ⟨s, List.mem_cons_self, rfl, ⟨x, hx, by simpa using hb⟩, hfinal⟩
  · rcases h with h | ⟨next, h⟩ <;> cases h

/-- The scan has read all sources, and the call has an answer. -/
theorem scanned_answer (hs : Scanned past s) {ready : List Bool} {final : Bool}
    (hpc : s.pc = .scanning ready final) (hx : s.args[ready.length]? = none) {pc : Pc}
    (hscanning : ∀ ready final, pc ≠ .scanning ready final)
    (hanswers : ∀ result, pc.Answers result → firstReady ready = result ∧ (result = none → final = true)) :
    Scanned (s :: past) { s with pc := pc } := by
  obtain ⟨hcall, hlength, -, hsaw⟩ := hs.scanning ready final hpc
  refine ⟨hs.calls, fun ready' final' h ↦ absurd h (hscanning ready' final'), fun result h ↦ ?_⟩
  obtain ⟨hresult, hfinal⟩ := hanswers result h
  exact ⟨hcall, ready, final, le_antisymm hlength (List.getElem?_eq_none_iff.mp hx), hresult, hfinal,
    fun j b hj ↦ (hsaw j b hj).mono rfl rfl rfl⟩

/-- The consumer has its answer already. -/
theorem Scanned.answered (hs : Scanned past s) (hargs : t.args = s.args)
    (hdeadline : t.deadline = s.deadline) (hscans : t.scans = s.scans)
    (hbefore : t.before = s.before) (hscanning : ∀ ready final, t.pc ≠ .scanning ready final)
    (hanswers : ∀ result, t.pc.Answers result → s.pc.Answers result) : Scanned (s :: past) t := by
  refine ⟨by rw [hbefore, hscans]; exact hs.calls, fun ready final h ↦ absurd h (hscanning ready final),
    fun result h ↦ ?_⟩
  obtain ⟨hcall, ready, final, hlength, hfirst, hnone, hsaw⟩ := hs.answers result (hanswers result h)
  exact ⟨by rwa [hbefore, hscans], ready, final, by rwa [hargs], hfirst, hnone,
    fun j b hj ↦ (hsaw j b hj).mono hscans hargs hdeadline⟩

theorem scanned_go [DecidableEq σ] (hs : Scanned past s) (h : s.go = some t) :
    Scanned (s :: past) t := by
  have hagain : ∀ {next result}, ¬(Pc.detaching next .again).Answers result := by
    rintro next result (h | ⟨n, h⟩) <;> cases h
  unfold State.go at h
  split at h
  case h_1 ready final hpc =>
    split at h
    case h_1 x hx => exact Option.some.inj h ▸ scanned_read hs hpc hx
    case h_2 hx =>
      split_ifs at h with hfinal
      · cases h
        refine scanned_answer hs hpc hx (fun _ _ h ↦ by cases h) ?_
        rintro result (h | ⟨next, h⟩) <;> cases h
        exact ⟨rfl, fun _ ↦ hfinal⟩
      · split at h
        case h_1 i hfirst =>
          cases h
          refine scanned_answer hs hpc hx (fun _ _ h ↦ by cases h) ?_
          rintro result (h | ⟨next, h⟩) <;> cases h
          exact ⟨hfirst, fun h ↦ by cases h⟩
        case h_2 =>
          cases h
          refine .of_ne hs.calls (fun _ _ h ↦ by cases h) ?_
          rintro result (h | ⟨next, h⟩) <;> cases h
  case h_2 attached hpc =>
    split at h
    case h_1 x hx =>
      cases h
      refine .of_ne hs.calls (fun _ _ h ↦ by cases h) ?_
      rintro result (h | ⟨next, h⟩) <;> cases h
    case h_2 hx =>
      split_ifs at h
      · cases h
        refine .of_ne hs.calls (fun _ _ h ↦ by cases h) ?_
        rintro result (h | ⟨next, h⟩) <;> cases h
      · exact Option.some.inj h ▸ .of_ne hs.calls (fun _ _ h ↦ by cases h) fun _ ↦ hagain
  case h_3 hpc =>
    split_ifs at h
    exact Option.some.inj h ▸ .of_ne hs.calls (fun _ _ h ↦ by cases h) fun _ ↦ hagain
  case h_4 next leave hpc =>
    split at h
    case h_1 x hx =>
      cases h
      refine hs.answered rfl rfl rfl rfl (fun _ _ h ↦ by cases h) ?_
      rintro result (h | ⟨next, h⟩) <;> cases h
      exact Or.inr ⟨_, hpc⟩
    case h_2 hx =>
      cases h
      cases leave with
      | again => exact scanned_scan hs.calls (fun h ↦ by cases h)
      | result result =>
        refine hs.answered rfl rfl rfl rfl (fun _ _ h ↦ by cases h) ?_
        rintro result' (h | ⟨next, h⟩) <;> cases h
        exact Or.inr ⟨_, hpc⟩
      | unwound =>
        refine .of_ne hs.calls (fun _ _ h ↦ by cases h) ?_
        rintro result (h | ⟨next, h⟩) <;> cases h
  case h_5 => cases h

theorem scanned_selectImpl {deadline : Option T} {args : List σ}
    (h : s.selectImpl deadline args = some t) : Scanned (s :: past) t := by
  unfold State.selectImpl at h
  split_ifs at h
  exact Option.some.inj h ▸ scanned_scan le_rfl nofun

theorem scanned_step [DecidableEq σ] [DecidableEq π] [Add T] {a : Action σ π T}
    (hs : Scanned past s) (h : step s a = some t) : Scanned (s :: past) t := by
  cases a with
  | call p call x =>
    simp only [step.eq_def] at h
    split at h <;> cases h
    exact hs.pass rfl rfl rfl le_rfl rfl rfl
  | produce p =>
    have hproduced := produced_produce h
    exact hs.pass hproduced.pc hproduced.args hproduced.deadline hproduced.clock.ge hproduced.scans
      hproduced.before
  | select args => exact scanned_selectImpl h
  | selectUntil deadline args => exact scanned_selectImpl h
  | selectFor timeout args => exact scanned_selectImpl h
  | go => exact scanned_go hs h
  | take x =>
    simp only [step.eq_def] at h
    split_ifs at h
    obtain ⟨source, -, rfl⟩ := Option.map_eq_some_iff.mp h
    exact hs.pass rfl rfl rfl le_rfl rfl rfl
  | park =>
    simp only [step.eq_def] at h
    split_ifs at h
    exact Option.some.inj h ▸ hs.pass rfl rfl rfl le_rfl rfl rfl
  | tick time =>
    simp only [step.eq_def] at h
    split_ifs at h with hle
    exact Option.some.inj h ▸ hs.pass rfl rfl rfl hle rfl rfl
  | timeout takesToken =>
    simp only [step.eq_def] at h
    split at h
    case h_1 deadline hpc hdeadline =>
      split_ifs at h with hle
      exact Option.some.inj h ▸ scanned_scan hs.calls fun _ ↦ ⟨deadline, hdeadline, hle⟩
    case h_2 => cases h
  | spurious =>
    simp only [step.eq_def] at h
    split at h <;> cases h
    refine .of_ne hs.calls nofun ?_
    rintro result (h | ⟨next, h⟩) <;> cases h
  | unwind =>
    simp only [step.eq_def] at h
    split at h <;> cases h
    refine .of_ne hs.calls nofun ?_
    rintro result (h | ⟨next, h⟩) <;> cases h
  | staleWake => exact Option.some.inj h ▸ hs.pass rfl rfl rfl le_rfl rfl rfl

end Scanning

/-! ### The result -/

/-- The first source found ready. -/
theorem firstReady_eq_some {ready : List Bool} {i : ℕ} (h : firstReady ready = some i) :
    ready[i]? = some true ∧ ∀ j < i, ready[j]? = some false := by
  obtain ⟨hi, htrue, hfalse⟩ := List.findIdx?_eq_some_iff_getElem.mp h
  refine ⟨List.getElem?_eq_some_iff.mpr ⟨hi, htrue⟩, fun j hj ↦ ?_⟩
  exact List.getElem?_eq_some_iff.mpr ⟨hj.trans hi, by simpa using hfalse j hj⟩

/-- No source found ready. -/
theorem firstReady_eq_none {ready : List Bool} (h : firstReady ready = none) {j : ℕ}
    (hj : j < ready.length) : ready[j]? = some false := by
  have hfalse := List.findIdx?_eq_none_iff.mp h ready[j] (List.getElem_mem hj)
  exact List.getElem?_eq_some_iff.mpr ⟨hj, by simpa using hfalse⟩

section Results

variable [DecidableEq σ] [DecidableEq π] [LinearOrder T] [Add T] {past : List (State σ π T)}
  {s : State σ π T}

/-- What is promised of a `select` that has come this far. -/
structure Contract (past : List (State σ π T)) (s : State σ π T) : Prop where
  returned : ∀ i, s.pc = .returned (some i) →
    s.before < s.scans ∧ i < s.args.length ∧ Saw past s false i true ∧
      (∀ j < i, Saw past s false j false) ∧ ∀ j < s.args.length, ∃ b, Saw past s false j b
  timedOut : s.pc = .returned none →
    s.before < s.scans ∧ ∀ j < s.args.length, Saw past s true j false
  awake : s.pc = .blocked → ∀ x ∈ s.args, (s.source x).isReady = true → s.Pending
  detached : s.pc.isFree = true ∨ (∃ ready, s.pc = .scanning ready false) →
    ∀ x, (s.source x).consumer = false

omit [DecidableEq σ] [DecidableEq π] [Add T] in
/-- What a scan saw, it saw. -/
theorem Saw.weaken {final b : Bool} {j : ℕ} (h : Saw past s final j b) : Saw past s false j b := by
  obtain ⟨u, hu, hscans, hready, -⟩ := h
  exact ⟨u, hu, hscans, hready, nofun⟩

/-- A completion, a stream and a mailbox, all of them empty. -/
def three : Fin 3 → Source
  | 0 => .completion ⟨false, false, false⟩
  | 1 => .stream ⟨.dropOldest, 2, 0, false, false⟩
  | 2 => .mailbox ⟨0, false, false⟩

/-- A push takes the consumer out of the stream before it is attached to the mailbox; the wake ends its
sleep, and it detaches itself and scans again. -/
def fires : List (Action (Fin 3) (Fin 1) ℕ) :=
  [.selectFor 5 [0, 1, 2], .go, .go, .go, .go, .call 0 .push 1, .go, .go, .produce 0, .go, .go,
    .produce 0, .go, .go, .go, .go, .go, .go, .go, .go, .go]

end Results

end Stackfull.Sync.Select
