import Stackfull.Lib.Transition

/-!
# Observable events of runs, and refinement by simulation

A step of a `System` may show an event to the outside: a call that begins or ends. `Produces` are
the lists of events the runs of a system show, with the states they end in. `Simulation` relates
the states of two systems such that each step of the first is matched by no step of the second, or
by one that shows the same event; then every list of events of the first is one of the second, and
ends in related states (`Simulation.produces`).
-/

set_option autoImplicit false
set_option relaxedAutoImplicit false
set_option linter.dupNamespace false

namespace Stackfull.Lib.System

universe u v w u' v'

variable {σ : Type u} {α : Type v} {ε : Type w} {τ : Type u'} {β : Type v'}

/-- The events of a run whose steps each meet `good`, and where it ends. -/
inductive Produces (S : System σ α) (good : σ → α → Prop) (event : σ → α → Option ε) :
    List ε → σ → Prop
  | init {s : σ} : S.init s → Produces S good event [] s
  | step {events : List ε} {s t : σ} {a : α} :
      Produces S good event events s → good s a → S.step s a = some t →
        Produces S good event (events ++ (event s a).toList) t

variable {C : System σ α} {A : System τ β} {good : σ → α → Prop} {allowed : τ → β → Prop}
  {event : σ → α → Option ε} {event' : τ → β → Option ε} {R : σ → τ → Prop}

/-- An execution shows the events of its steps. -/
def eventsOf (S : System σ α) (event : σ → α → Option ε) : σ → List α → List ε
  | _, [] => []
  | s, a :: rest =>
    (event s a).toList ++ ((S.step s a).elim [] fun t ↦ S.eventsOf event t rest)

/-- A checked execution and its events. -/
theorem Produces.runUnder {check : σ → α → Bool} {events : List ε} {s t : σ} {labels : List α}
    (h : C.Produces good event events s) (hcheck : ∀ a ∈ labels, ∀ s, check s a = true → good s a)
    (hrun : C.runUnder check s labels = some t) :
    C.Produces good event (events ++ C.eventsOf event s labels) t := by
  induction labels generalizing s events with
  | nil =>
    simp only [System.runUnder, Option.some.injEq] at hrun
    rw [eventsOf, List.append_nil]
    exact hrun ▸ h
  | cons a rest ih =>
    simp only [System.runUnder] at hrun
    split_ifs at hrun with ha
    obtain ⟨mid, hmid, hrest⟩ := Option.bind_eq_some_iff.mp hrun
    have hnext := ih (h.step (hcheck a List.mem_cons_self s ha) hmid)
      (fun b hb ↦ hcheck b (List.mem_cons_of_mem a hb)) hrest
    rw [List.append_assoc] at hnext
    rw [eventsOf, hmid]
    exact hnext

/-- An execution of steps that meet the condition wherever they start, and its events. -/
theorem Produces.runAlways {events : List ε} {s t : σ} {labels : List α}
    (h : C.Produces good event events s) (hgood : ∀ a ∈ labels, ∀ s, good s a)
    (hrun : C.run s labels = some t) :
    C.Produces good event (events ++ C.eventsOf event s labels) t :=
  h.runUnder (fun a ha s _ ↦ hgood a ha s) hrun

/-- An execution and its events. -/
theorem Produces.run {events : List ε} {s t : σ} {labels : List α}
    (h : C.Produces (fun _ _ ↦ True) event events s) (hrun : C.run s labels = some t) :
    C.Produces (fun _ _ ↦ True) event (events ++ C.eventsOf event s labels) t :=
  h.runAlways (fun _ _ _ ↦ trivial) hrun

/-- Each step of the first system is matched by the second. -/
structure Simulation (C : System σ α) (good : σ → α → Prop) (event : σ → α → Option ε)
    (A : System τ β) (allowed : τ → β → Prop) (event' : τ → β → Option ε) (R : σ → τ → Prop) :
    Prop where
  init : ∀ s, C.init s → ∃ t, A.init t ∧ R s t
  step : ∀ s a s' t, R s t → good s a → C.step s a = some s' →
    (event s a = none ∧ R s' t) ∨
      ∃ b t', allowed t b ∧ A.step t b = some t' ∧ event' t b = event s a ∧ R s' t'

/-- What the first system shows, the second can show. -/
theorem Simulation.produces (h : Simulation C good event A allowed event' R) {events : List ε}
    {s : σ} (hs : C.Produces good event events s) :
    ∃ t, A.Produces allowed event' events t ∧ R s t := by
  induction hs with
  | init hinit =>
    obtain ⟨t, ht, hR⟩ := h.init _ hinit
    exact ⟨t, .init ht, hR⟩
  | @step events s s' a _ hgood hstep ih =>
    obtain ⟨t, ht, hR⟩ := ih
    rcases h.step s a s' t hR hgood hstep with ⟨hevent, hR'⟩ | ⟨b, t', hb, hbt, hevent, hR'⟩
    · refine ⟨t, ?_, hR'⟩
      rw [hevent, Option.toList_none, List.append_nil]
      exact ht
    · refine ⟨t', ?_, hR'⟩
      rw [← hevent]
      exact ht.step hb hbt

/-- A run that shows events is a run. -/
theorem Produces.reachableUnder {events : List ε} {s : σ} (hs : C.Produces good event events s) :
    C.ReachableUnder good s := by
  induction hs with
  | init h => exact .init h
  | step _ hgood hstep ih => exact .step ih hgood hstep

end Stackfull.Lib.System
