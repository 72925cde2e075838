import Stackfull.Sched.Parker

/-!
# Parkers are one-token semaphores

`IsOneToken` says that what the users of a parker see is what the users of `Token` can see, with the
same token, and that a parker whose owner is blocked with no wake on its way has no token.
`CondvarParker` is one. `FutexParker` is one in every run in which no `unpark` stores its token
between the swap with which a `parkFor` gives up and its last store: that store clears the word
without looking, and the token with it (`token_discarded`).
-/

set_option autoImplicit false
set_option relaxedAutoImplicit false
set_option linter.dupNamespace false

namespace Stackfull.Sched.Parker

open Stackfull.Lib

universe u v

variable {κ : Type u} [DecidableEq κ]

/-- The owner waits and there is no token. -/
def Token.State.waits (t : Token.State κ) : Prop :=
  (∃ timed, t.owner = .waiting timed) ∧ t.token = false

/-- The runs that meet `good` show nothing that a one-token semaphore does not show, with the same
token at their end; and if the owner is blocked there, it waits for a token that is not there. -/
def IsOneToken {σ : Type v} (S : System σ (Action κ)) (good : σ → Action κ → Prop)
    (event : σ → Action κ → Option (Event κ)) (token : σ → Bool) (blocked : σ → Prop) : Prop :=
  ∀ events s, S.Produces good event events s →
    ∃ t, (Token.system κ).Produces (fun _ _ ↦ True) Token.event events t ∧
      t.token = token s ∧ (blocked s → t.waits)

/-! ### `FutexParker` -/

namespace Futex

/-- `unpark` has left its token in the word. -/
def State.hasToken (s : State κ) : Bool :=
  decide (s.word = .notified)

/-- The owner sleeps and nobody is about to wake it. -/
def State.blocked (s : State κ) : Prop :=
  (∃ deadline, s.owner = .asleep deadline) ∧ ∀ k, s.notifier k ≠ .wake

/-- No `unpark` stores its token between the swap with which a `parkFor` gives up and its last
store. -/
def keepsToken (s : State κ) : Action κ → Bool
  | .notifier k => !(decide (s.notifier k = .exchange) && decide (s.owner = .store true false))
  | _ => true

/-- What the owner is doing for the users. -/
def OwnerPc.seen : OwnerPc → Token.OwnerPc
  | .idle => .idle
  | .swap timeout => .waiting timeout.isSome
  | .clock _ | .check _ | .giveUp => .waiting true
  | .load deadline | .wait deadline | .asleep deadline => .waiting deadline.isSome
  | .store timed true => .waiting timed
  | .store timed false => .done timed false
  | .returning timed notified => .done timed notified

/-- What a notifier is doing for the users. -/
def NotifierPc.seen : NotifierPc → Token.NotifierPc
  | .idle => .idle
  | .exchange => .calling
  | .wake | .returning => .posted

/-- What the word can be. -/
def OwnerPc.allows : OwnerPc → Word → Prop
  | .idle, word | .swap _, word | .returning _ _, word => word ≠ .parked
  | .store _ true, word => word = .notified
  | .store timed false, word => timed = true ∧ word = .empty
  | _, word => word ≠ .empty

/-- The semaphore the parker implements. -/
structure Shows (s : State κ) (t : Token.State κ) : Prop where
  token : t.token = s.hasToken
  owner : t.owner = s.owner.seen
  notifier : t.notifier = fun k ↦ (s.notifier k).seen
  word : s.owner.allows s.word
  wake : ∀ deadline, s.owner = .asleep deadline → s.word = .notified → ∃ k, s.notifier k = .wake

attribute [local grind] OwnerPc.seen NotifierPc.seen OwnerPc.allows State.hasToken OwnerPc.woken

/-- The word has one of three values. -/
theorem Word.cases (word : Word) : word = .empty ∨ word = .notified ∨ word = .parked := by
  cases word <;> simp

omit [DecidableEq κ] in
/-- The owner moves, and the users see nothing of it. -/
theorem Shows.silent {s s' : State κ} {t : Token.State κ} (h : Shows s t)
    (hseen : s'.owner.seen = s.owner.seen) (htoken : s'.hasToken = s.hasToken)
    (hnotifier : s'.notifier = s.notifier) (hword : s'.owner.allows s'.word)
    (hwake : ∀ deadline, s'.owner = .asleep deadline → s'.word ≠ .notified) : Shows s' t := by
  refine ⟨?_, ?_, ?_, hword, fun d hd hn ↦ absurd hn (hwake d hd)⟩
  · rw [htoken]
    exact h.token
  · rw [hseen]
    exact h.owner
  · rw [hnotifier]
    exact h.notifier

/-- A step of the owner. -/
theorem Shows.ownerStep {s s' : State κ} {t : Token.State κ} (h : Shows s t)
    (hstep : ownerStep s = some s') :
    (event s .owner = none ∧ Shows s' t) ∨
      ∃ b t', Token.step t b = some t' ∧ Token.event t b = event s .owner ∧ Shows s' t' := by
  have hword := h.word
  have hcases := s.word.cases
  unfold Futex.ownerStep at hstep
  cases hpc : s.owner with
  | idle | asleep deadline => simp only [hpc, reduceCtorEq] at hstep
  | swap timeout =>
    refine Or.inl ⟨by simp only [event, hpc], ?_⟩
    cases timeout <;> simp only [hpc] at hstep <;> split_ifs at hstep <;>
      obtain rfl := Option.some.inj hstep <;> refine h.silent ?_ ?_ rfl ?_ ?_ <;> grind
  | clock timeout =>
    refine Or.inl ⟨by simp only [event, hpc], ?_⟩
    simp only [hpc] at hstep
    obtain rfl := Option.some.inj hstep
    refine h.silent ?_ rfl rfl ?_ ?_ <;> grind
  | load deadline =>
    refine Or.inl ⟨by simp only [event, hpc], ?_⟩
    cases deadline <;> simp only [hpc] at hstep <;> split_ifs at hstep <;>
      obtain rfl := Option.some.inj hstep <;> refine h.silent ?_ rfl rfl ?_ ?_ <;> grind
  | check deadline =>
    refine Or.inl ⟨by simp only [event, hpc], ?_⟩
    simp only [hpc] at hstep
    obtain rfl := Option.some.inj hstep
    refine h.silent ?_ rfl rfl ?_ ?_ <;> grind
  | wait deadline =>
    refine Or.inl ⟨by simp only [event, hpc], ?_⟩
    simp only [hpc] at hstep
    obtain rfl := Option.some.inj hstep
    refine h.silent ?_ rfl rfl ?_ ?_ <;> grind
  | giveUp =>
    simp only [hpc] at hstep
    split_ifs at hstep with hparked
    · obtain rfl := Option.some.inj hstep
      refine Or.inr ⟨.giveUp, { t with owner := .done true false }, ?_, ?_, ?_, rfl, ?_, ⟨rfl, rfl⟩,
        ?_⟩
      · rw [Token.step, h.owner, hpc]
        rfl
      · simp only [Token.event.eq_def, event, hpc]
      · rw [h.token, State.hasToken, hparked]
        rfl
      · exact h.notifier
      · exact fun d hd ↦ nomatch hd
    · obtain rfl := Option.some.inj hstep
      refine Or.inl ⟨by simp only [event, hpc], ?_⟩
      refine h.silent ?_ rfl rfl ?_ ?_ <;> grind
  | store timed notified =>
    simp only [hpc] at hstep
    obtain rfl := Option.some.inj hstep
    cases notified with
    | true =>
      rw [hpc] at hword
      refine Or.inr ⟨.take, { t with token := false, owner := .done timed true }, ?_, ?_, rfl, rfl,
        h.notifier, by simp [OwnerPc.allows], by simp⟩
      · have htoken : t.token = true := by
          rw [h.token, State.hasToken, show s.word = .notified from hword]
          rfl
        rw [Token.step, h.owner, hpc]
        simp only [OwnerPc.seen, htoken, if_true]
      · simp only [Token.event.eq_def, event, hpc]
    | false =>
      refine Or.inl ⟨by simp only [event, hpc], ?_⟩
      refine h.silent ?_ ?_ rfl ?_ ?_ <;> grind
  | returning timed notified =>
    simp only [hpc] at hstep
    obtain rfl := Option.some.inj hstep
    rw [hpc] at hword
    refine Or.inr ⟨.ownerReturn, { t with owner := .idle }, ?_, ?_, h.token, rfl, h.notifier, hword,
      by simp⟩
    · rw [Token.step, h.owner, hpc]
      rfl
    · simp only [Token.event.eq_def, event, hpc, h.owner, OwnerPc.seen]

/-- A step of a notifier. -/
theorem Shows.notifierStep {s s' : State κ} {t : Token.State κ} (h : Shows s t) {k : κ}
    (hkeeps : keepsToken s (.notifier k) = true) (hstep : notifierStep s k = some s') :
    (event s (.notifier k) = none ∧ Shows s' t) ∨
      ∃ b t', Token.step t b = some t' ∧ Token.event t b = event s (.notifier k) ∧
        Shows s' t' := by
  have hseen (pc : NotifierPc) :
      Function.update (fun j ↦ (s.notifier j).seen) k pc.seen =
        fun j ↦ (Function.update s.notifier k pc j).seen := by
    funext j
    grind
  unfold Futex.notifierStep at hstep
  cases hpc : s.notifier k with
  | idle => simp only [hpc, reduceCtorEq] at hstep
  | exchange =>
    simp only [hpc, Option.some.injEq] at hstep
    subst hstep
    refine Or.inr ⟨.post k,
      { t with token := true, notifier := Function.update t.notifier k .posted }, ?_, ?_, ?_⟩
    · simp only [Token.step.eq_def, h.notifier, hpc]
      rfl
    · simp [Token.event.eq_def, event, hpc]
    · have hgaveUp : s.owner ≠ .store true false := by
        simpa [keepsToken, hpc] using hkeeps
      have hword := h.word
      refine ⟨rfl, h.owner, ?_, ?_, ?_⟩
      · simp only [State.goto, h.notifier, ← hseen]
        split_ifs <;> rfl
      · simp only [State.goto]
        cases hcase : s.owner with
        | store timed notified =>
          rw [hcase] at hword hgaveUp
          cases notified with
          | true => rfl
          | false => exact absurd (by rw [hword.1]) hgaveUp
        | _ => exact fun h ↦ nomatch h
      · intro d hd _
        simp only [State.goto] at hd ⊢
        rw [hd] at hword
        rcases s.word.cases with hw | hw | hw
        · exact absurd hw hword
        · obtain ⟨j, hj⟩ := h.wake d hd hw
          refine ⟨j, ?_⟩
          rw [Function.update_of_ne (by rintro rfl; simp [hpc] at hj)]
          exact hj
        · exact ⟨k, by rw [Function.update_self, if_pos hw]⟩
  | wake =>
    simp only [hpc, Option.some.injEq] at hstep
    subst hstep
    refine Or.inl ⟨by simp [event, hpc], ?_⟩
    have hword := h.word
    refine ⟨h.token, ?_, ?_, ?_, ?_⟩
    · rw [h.owner]
      simp only [State.goto]
      cases s.owner <;> rfl
    · rw [h.notifier]
      funext j
      simp only [State.goto]
      grind
    · simp only [State.goto]
      cases hcase : s.owner <;> rw [hcase] at hword <;> exact hword
    · intro d hd
      simp only [State.goto] at hd
      cases hcase : s.owner <;> simp [hcase, OwnerPc.woken] at hd
  | returning =>
    simp only [hpc, Option.some.injEq] at hstep
    subst hstep
    refine Or.inr ⟨.notifierReturn k, { t with notifier := Function.update t.notifier k .idle },
      ?_, ?_, ?_⟩
    · simp only [Token.step.eq_def, h.notifier, hpc]
      rfl
    · simp [Token.event.eq_def, event, hpc]
    · refine ⟨h.token, h.owner, ?_, h.word, ?_⟩
      · rw [h.notifier]
        exact hseen .idle
      · intro d hd hn
        obtain ⟨j, hj⟩ := h.wake d hd hn
        refine ⟨j, ?_⟩
        simp only [State.goto]
        grind

/-- The parker shows what the semaphore can show. -/
theorem simulation :
    System.Simulation (system κ) (fun s a ↦ keepsToken s a = true) event (Token.system κ)
      (fun _ _ ↦ True) Token.event Shows where
  init s hs := by
    obtain rfl : s = initial := hs
    exact ⟨_, rfl, rfl, rfl, rfl, by simp [initial, OwnerPc.allows], by simp [initial]⟩
  step s a s' t h hgood hstep := by
    have hseen (k : κ) (pc : NotifierPc) :
        Function.update (fun j ↦ (s.notifier j).seen) k pc.seen =
          fun j ↦ (Function.update s.notifier k pc j).seen := by
      funext j
      grind
    cases a with
    | tick elapsed =>
      obtain rfl := Option.some.inj hstep
      exact Or.inl ⟨rfl, h.token, h.owner, h.notifier, h.word, h.wake⟩
    | park =>
      simp only [system, step.eq_def] at hstep
      split_ifs at hstep with hidle
      obtain rfl := Option.some.inj hstep
      have hword := h.word
      rw [hidle] at hword
      refine Or.inr ⟨.park, { t with owner := .waiting false }, trivial, ?_, rfl, h.token, rfl,
        h.notifier, hword, by simp⟩
      simp only [Token.system, Token.step.eq_def, h.owner, hidle]
      rfl
    | parkFor timeout =>
      simp only [system, step.eq_def] at hstep
      split_ifs at hstep with hidle
      obtain rfl := Option.some.inj hstep
      have hword := h.word
      rw [hidle] at hword
      refine Or.inr ⟨.parkFor timeout, { t with owner := .waiting true }, trivial, ?_, rfl, h.token, rfl,
        h.notifier, hword, by simp⟩
      simp only [Token.system, Token.step.eq_def, h.owner, hidle]
      rfl
    | owner =>
      rcases h.ownerStep hstep with hsilent | ⟨b, t', ht, hevent, hnext⟩
      · exact Or.inl hsilent
      · exact Or.inr ⟨b, t', trivial, ht, hevent, hnext⟩
    | interrupt timedOut =>
      simp only [system, step.eq_def] at hstep
      have hword := h.word
      split at hstep
      · rename_i deadline hpc
        obtain rfl := Option.some.inj hstep
        rw [hpc] at hword
        refine Or.inl ⟨rfl, h.silent ?_ rfl rfl hword (by simp)⟩
        rw [hpc]
        rfl
      · nomatch hstep
    | unpark k =>
      simp only [system, step.eq_def] at hstep
      split_ifs at hstep with hidle
      obtain rfl := Option.some.inj hstep
      refine Or.inr ⟨.unpark k, { t with notifier := Function.update t.notifier k .calling },
        trivial, ?_, rfl, h.token, h.owner, ?_, h.word, ?_⟩
      · simp only [Token.system, Token.step.eq_def, h.notifier, hidle]
        rfl
      · rw [h.notifier]
        exact hseen k .exchange
      · intro d hd hn
        obtain ⟨j, hj⟩ := h.wake d hd hn
        refine ⟨j, ?_⟩
        simp only [State.goto]
        rw [Function.update_of_ne (by rintro rfl; simp [hidle] at hj)]
        exact hj
    | notifier k =>
      rcases h.notifierStep hgood hstep with hsilent | ⟨b, t', ht, hevent, hnext⟩
      · exact Or.inl hsilent
      · exact Or.inr ⟨b, t', trivial, ht, hevent, hnext⟩

/-- Without such an `unpark`, a `FutexParker` is a one-token semaphore. -/
theorem isOneToken :
    IsOneToken (system κ) (fun s a ↦ keepsToken s a = true) event State.hasToken
      State.blocked := by
  intro events s hs
  obtain ⟨t, ht, hshows⟩ := simulation.produces hs
  refine ⟨t, ht, hshows.token, ?_⟩
  rintro ⟨⟨deadline, hasleep⟩, hnobody⟩
  refine ⟨⟨deadline.isSome, ?_⟩, ?_⟩
  · rw [hshows.owner, hasleep]
    rfl
  · rw [hshows.token, State.hasToken, decide_eq_false_iff_not]
    intro hn
    obtain ⟨k, hk⟩ := hshows.wake deadline hasleep hn
    exact hnobody k hk

end Futex

/-! ### `CondvarParker` -/

namespace Condvar

/-- The owner waits for the condition and nobody is about to notify it. -/
def State.blocked (s : State κ) : Prop :=
  (∃ deadline, s.owner = .waiting deadline) ∧
    ∀ k, s.notifier k ≠ .unlock ∧ s.notifier k ≠ .notify

/-- What the owner is doing for the users. -/
def OwnerPc.seen : OwnerPc → Token.OwnerPc
  | .idle => .idle
  | .lock timeout => .waiting timeout.isSome
  | .test deadline | .waiting deadline | .relock deadline _ | .retest deadline _ =>
    .waiting deadline.isSome
  | .clear timed => .waiting timed
  | .unlock timed notified | .returning timed notified => .done timed notified

/-- What a notifier is doing for the users. -/
def NotifierPc.seen : NotifierPc → Token.NotifierPc
  | .idle => .idle
  | .lock | .set => .calling
  | .unlock | .notify | .returning => .posted

/-- The notifier has set the flag and will notify. -/
def NotifierPc.brings : NotifierPc → Bool
  | .unlock | .notify => true
  | _ => false

/-- The semaphore the parker implements. -/
structure Shows (s : State κ) (t : Token.State κ) : Prop where
  token : t.token = s.notified
  owner : t.owner = s.owner.seen
  notifier : t.notifier = fun k ↦ (s.notifier k).seen
  clear : ∀ timed, s.owner = .clear timed → s.notified = true
  wake : ∀ deadline, s.owner = .waiting deadline → s.notified = true →
    ∃ k, (s.notifier k).brings = true

attribute [local grind] OwnerPc.seen NotifierPc.seen NotifierPc.brings OwnerPc.woken

omit [DecidableEq κ] in
/-- The owner moves, and the users see nothing of it. -/
theorem Shows.silent {s s' : State κ} {t : Token.State κ} (h : Shows s t)
    (hseen : s'.owner.seen = s.owner.seen) (htoken : s'.notified = s.notified)
    (hnotifier : s'.notifier = s.notifier)
    (hclear : ∀ timed, s'.owner = .clear timed → s.notified = true)
    (hwake : ∀ deadline, s'.owner = .waiting deadline → s.notified = false) : Shows s' t := by
  refine ⟨?_, ?_, ?_, ?_, ?_⟩
  · rw [htoken]
    exact h.token
  · rw [hseen]
    exact h.owner
  · rw [hnotifier]
    exact h.notifier
  · rw [htoken]
    exact hclear
  · intro d hd hn
    rw [htoken, hwake d hd] at hn
    nomatch hn

/-- A step of the owner. -/
theorem Shows.ownerStep {s s' : State κ} {t : Token.State κ} (h : Shows s t)
    (hstep : ownerStep s = some s') :
    (event s .owner = none ∧ Shows s' t) ∨
      ∃ b t', Token.step t b = some t' ∧ Token.event t b = event s .owner ∧ Shows s' t' := by
  unfold Condvar.ownerStep at hstep
  cases hpc : s.owner with
  | idle | waiting deadline => simp only [hpc, reduceCtorEq] at hstep
  | lock timeout =>
    refine Or.inl ⟨by simp only [event, hpc], ?_⟩
    simp only [hpc] at hstep
    split_ifs at hstep
    obtain rfl := Option.some.inj hstep
    refine h.silent ?_ rfl rfl (by simp) (by simp)
    rw [hpc]
    simp only [OwnerPc.seen, Option.isSome_map]
  | test deadline =>
    refine Or.inl ⟨by simp only [event, hpc], ?_⟩
    simp only [hpc] at hstep
    split_ifs at hstep <;> obtain rfl := Option.some.inj hstep <;>
      refine h.silent ?_ rfl rfl ?_ ?_ <;> grind
  | relock deadline timedOut =>
    refine Or.inl ⟨by simp only [event, hpc], ?_⟩
    simp only [hpc] at hstep
    split_ifs at hstep
    obtain rfl := Option.some.inj hstep
    refine h.silent ?_ rfl rfl (by simp) (by simp)
    rw [hpc]
    rfl
  | retest deadline timedOut =>
    simp only [hpc] at hstep
    split_ifs at hstep with hlate
    · obtain rfl := Option.some.inj hstep
      refine Or.inr ⟨.giveUp, { t with owner := .done true false }, ?_, ?_, h.token, rfl,
        h.notifier, by simp, by simp⟩
      · rw [Token.step, h.owner, hpc, OwnerPc.seen, hlate.1]
        rfl
      · simp only [Token.event.eq_def, event, hpc]
    · obtain rfl := Option.some.inj hstep
      refine Or.inl ⟨by simp only [event, hpc], h.silent ?_ rfl rfl (by simp) (by simp)⟩
      rw [hpc]
      rfl
  | clear timed =>
    simp only [hpc] at hstep
    obtain rfl := Option.some.inj hstep
    refine Or.inr ⟨.take, { t with token := false, owner := .done timed true }, ?_, ?_, rfl, rfl,
      h.notifier, by simp, by simp⟩
    · rw [Token.step, h.owner, hpc]
      simp only [OwnerPc.seen, h.token, h.clear timed hpc, if_true]
    · simp only [Token.event.eq_def, event, hpc]
  | unlock timed notified =>
    simp only [hpc] at hstep
    obtain rfl := Option.some.inj hstep
    refine Or.inl ⟨by simp only [event, hpc], h.silent ?_ rfl rfl (by simp) (by simp)⟩
    rw [hpc]
    rfl
  | returning timed notified =>
    simp only [hpc] at hstep
    obtain rfl := Option.some.inj hstep
    refine Or.inr ⟨.ownerReturn, { t with owner := .idle }, ?_, ?_, h.token, rfl, h.notifier,
      by simp, by simp⟩
    · rw [Token.step, h.owner, hpc]
      rfl
    · simp only [Token.event.eq_def, event, hpc, h.owner, OwnerPc.seen]

/-- A step of a notifier. -/
theorem Shows.notifierStep {s s' : State κ} {t : Token.State κ} (h : Shows s t) {k : κ}
    (hstep : notifierStep s k = some s') :
    (event s (.notifier k) = none ∧ Shows s' t) ∨
      ∃ b t', Token.step t b = some t' ∧ Token.event t b = event s (.notifier k) ∧
        Shows s' t' := by
  have hseen (pc : NotifierPc) :
      Function.update (fun j ↦ (s.notifier j).seen) k pc.seen =
        fun j ↦ (Function.update s.notifier k pc j).seen := by
    funext j
    grind
  have hsame {pc : NotifierPc} (hpc : pc.seen = (s.notifier k).seen) :
      t.notifier = fun j ↦ (Function.update s.notifier k pc j).seen := by
    rw [h.notifier, ← hseen, hpc, Function.update_eq_self]
  unfold Condvar.notifierStep at hstep
  cases hpc : s.notifier k with
  | idle => simp only [hpc, reduceCtorEq] at hstep
  | lock =>
    simp only [hpc] at hstep
    split_ifs at hstep
    obtain rfl := Option.some.inj hstep
    refine Or.inl ⟨by simp [event, hpc], h.token, h.owner, hsame (by rw [hpc]; rfl), h.clear, ?_⟩
    intro d hd hn
    exact exists_update (P := fun p ↦ NotifierPc.brings p = true) (by simp [hpc, NotifierPc.brings])
      (h.wake d hd hn)
  | set =>
    simp only [hpc, Option.some.injEq] at hstep
    subst hstep
    refine Or.inr ⟨.post k,
      { t with token := true, notifier := Function.update t.notifier k .posted }, ?_, ?_, rfl,
      h.owner, ?_, fun _ _ ↦ rfl, ?_⟩
    · simp only [Token.step.eq_def, h.notifier, hpc]
      rfl
    · simp [Token.event.eq_def, event, hpc]
    · rw [h.notifier]
      exact hseen .unlock
    · intro d _ _
      exact exists_update_self (P := fun p ↦ NotifierPc.brings p = true) rfl
  | unlock =>
    simp only [hpc, Option.some.injEq] at hstep
    subst hstep
    refine Or.inl ⟨by simp [event, hpc], h.token, h.owner, hsame (by rw [hpc]; rfl), h.clear, ?_⟩
    intro d _ _
    exact exists_update_self (P := fun p ↦ NotifierPc.brings p = true) rfl
  | notify =>
    simp only [hpc, Option.some.injEq] at hstep
    subst hstep
    refine Or.inl ⟨by simp [event, hpc], h.token, ?_, hsame (by rw [hpc]; rfl), ?_, ?_⟩
    · rw [h.owner]
      simp only [State.goto]
      cases s.owner <;> rfl
    · intro timed htimed
      refine h.clear timed ?_
      simp only [State.goto] at htimed
      cases hcase : s.owner <;> simp_all [OwnerPc.woken]
    · intro d hd
      simp only [State.goto] at hd
      cases hcase : s.owner <;> simp [hcase, OwnerPc.woken] at hd
  | returning =>
    simp only [hpc, Option.some.injEq] at hstep
    subst hstep
    refine Or.inr ⟨.notifierReturn k, { t with notifier := Function.update t.notifier k .idle },
      ?_, ?_, h.token, h.owner, ?_, h.clear, ?_⟩
    · simp only [Token.step.eq_def, h.notifier, hpc]
      rfl
    · simp [Token.event.eq_def, event, hpc]
    · rw [h.notifier]
      exact hseen .idle
    · intro d hd hn
      exact exists_update (P := fun p ↦ NotifierPc.brings p = true)
        (by simp [hpc, NotifierPc.brings]) (h.wake d hd hn)

/-- The parker shows what the semaphore can show. -/
theorem simulation :
    System.Simulation (system κ) (fun _ _ ↦ True) event (Token.system κ) (fun _ _ ↦ True)
      Token.event Shows where
  init s hs := by
    obtain rfl : s = initial := hs
    exact ⟨_, rfl, rfl, rfl, rfl, by simp [initial], by simp [initial]⟩
  step s a s' t h _ hstep := by
    have hseen (k : κ) (pc : NotifierPc) :
        Function.update (fun j ↦ (s.notifier j).seen) k pc.seen =
          fun j ↦ (Function.update s.notifier k pc j).seen := by
      funext j
      grind
    cases a with
    | tick elapsed =>
      obtain rfl := Option.some.inj hstep
      exact Or.inl ⟨rfl, h.token, h.owner, h.notifier, h.clear, h.wake⟩
    | park =>
      simp only [system, step.eq_def] at hstep
      split_ifs at hstep with hidle
      obtain rfl := Option.some.inj hstep
      refine Or.inr ⟨.park, { t with owner := .waiting false }, trivial, ?_, rfl, h.token, rfl,
        h.notifier, by simp, by simp⟩
      simp only [Token.system, Token.step.eq_def, h.owner, hidle]
      rfl
    | parkFor timeout =>
      simp only [system, step.eq_def] at hstep
      split_ifs at hstep with hidle
      obtain rfl := Option.some.inj hstep
      refine Or.inr ⟨.parkFor timeout, { t with owner := .waiting true }, trivial, ?_, rfl, h.token,
        rfl, h.notifier, by simp, by simp⟩
      simp only [Token.system, Token.step.eq_def, h.owner, hidle]
      rfl
    | owner =>
      rcases h.ownerStep hstep with hsilent | ⟨b, t', ht, hevent, hnext⟩
      · exact Or.inl hsilent
      · exact Or.inr ⟨b, t', trivial, ht, hevent, hnext⟩
    | interrupt timedOut =>
      simp only [system, step.eq_def, interrupt] at hstep
      split at hstep
      · rename_i deadline hpc
        split_ifs at hstep
        obtain rfl := Option.some.inj hstep
        refine Or.inl ⟨rfl, h.silent ?_ rfl rfl (by simp) (by simp)⟩
        rw [hpc]
        rfl
      · nomatch hstep
    | unpark k =>
      simp only [system, step.eq_def] at hstep
      split_ifs at hstep with hidle
      obtain rfl := Option.some.inj hstep
      refine Or.inr ⟨.unpark k, { t with notifier := Function.update t.notifier k .calling },
        trivial, ?_, rfl, h.token, h.owner, ?_, h.clear, ?_⟩
      · simp only [Token.system, Token.step.eq_def, h.notifier, hidle]
        rfl
      · rw [h.notifier]
        exact hseen k .lock
      · intro d hd hn
        exact exists_update (P := fun p ↦ NotifierPc.brings p = true)
          (by simp [hidle, NotifierPc.brings]) (h.wake d hd hn)
    | notifier k =>
      rcases h.notifierStep hstep with hsilent | ⟨b, t', ht, hevent, hnext⟩
      · exact Or.inl hsilent
      · exact Or.inr ⟨b, t', trivial, ht, hevent, hnext⟩

/-- A `CondvarParker` is a one-token semaphore. -/
theorem isOneToken :
    IsOneToken (system κ) (fun _ _ ↦ True) event State.notified State.blocked := by
  intro events s hs
  obtain ⟨t, ht, hshows⟩ := simulation.produces hs
  refine ⟨t, ht, hshows.token, ?_⟩
  rintro ⟨⟨deadline, hwaiting⟩, hnobody⟩
  refine ⟨⟨deadline.isSome, ?_⟩, ?_⟩
  · rw [hshows.owner, hwaiting]
    rfl
  · rw [hshows.token]
    by_contra hn
    rw [Bool.not_eq_false] at hn
    obtain ⟨k, hk⟩ := hshows.wake deadline hwaiting hn
    obtain ⟨hunlock, hnotify⟩ := hnobody k
    cases hpc : s.notifier k <;> simp_all [NotifierPc.brings]

end Condvar

/-! ### Every parker -/

/-- A `CondvarParker` is a one-token semaphore, and so is a `FutexParker` in every run in which no
`unpark` stores its token between the swap with which a `parkFor` gives up and its last store. -/
theorem parkers_are_one_token_semaphores (κ : Type u) [DecidableEq κ] :
    IsOneToken (Futex.system κ) (fun s a ↦ Futex.keepsToken s a = true) Futex.event
        Futex.State.hasToken Futex.State.blocked ∧
      IsOneToken (Condvar.system κ) (fun _ _ ↦ True) Condvar.event Condvar.State.notified
        Condvar.State.blocked :=
  ⟨Futex.isOneToken, Condvar.isOneToken⟩

/-- A posted token stays until a wait takes it. -/
theorem Token.posted_kept {events : List (Event κ)} {t : Token.State κ}
    (h : (Token.system κ).Produces (fun _ _ ↦ True) Token.event events t) :
    (∀ timed, .returned timed true ∉ events) → (∀ timed, t.owner ≠ .done timed true) →
      (∃ k, .unparkReturned k ∈ events ∨ t.notifier k = .posted) → t.token = true := by
  induction h with
  | init hinit =>
    rintro - - ⟨k, hk⟩
    obtain rfl := hinit
    simp at hk
  | @step events s t a _ _ hstep ih =>
    intro hreturned hdone hposted
    have hearlier (timed : Bool) : .returned timed true ∉ events :=
      fun hmem ↦ hreturned timed (List.mem_append_left _ hmem)
    cases a with
    | park | parkFor timeout =>
      simp only [Token.system, Token.step.eq_def] at hstep
      split_ifs at hstep with hidle
      obtain rfl := Option.some.inj hstep
      refine ih hearlier (by simp [hidle]) ?_
      simpa [Token.event.eq_def] using hposted
    | take =>
      simp only [Token.system, Token.step.eq_def] at hstep
      split at hstep
      · split_ifs at hstep
        obtain rfl := Option.some.inj hstep
        exact absurd rfl (hdone _)
      · nomatch hstep
    | giveUp =>
      simp only [Token.system, Token.step.eq_def] at hstep
      split_ifs at hstep with hwaiting
      obtain rfl := Option.some.inj hstep
      refine ih hearlier (by simp [hwaiting]) ?_
      simpa [Token.event.eq_def] using hposted
    | ownerReturn =>
      simp only [Token.system, Token.step.eq_def] at hstep
      split at hstep
      · rename_i timed notified howner
        obtain rfl := Option.some.inj hstep
        have hnot : timed = true ∧ notified = false := by
          have hlast := hreturned timed
          simp only [Token.event.eq_def, howner] at hlast
          cases timed <;> cases notified <;> simp [Event.returned] at hlast ⊢
        obtain ⟨rfl, rfl⟩ := hnot
        refine ih hearlier (by simp [howner]) ?_
        simpa [Token.event.eq_def, howner, Event.returned] using hposted
      · nomatch hstep
    | unpark k =>
      simp only [Token.system, Token.step.eq_def] at hstep
      split_ifs at hstep with hidle
      obtain rfl := Option.some.inj hstep
      refine ih hearlier hdone ?_
      obtain ⟨j, hj⟩ := hposted
      refine ⟨j, ?_⟩
      simp only [Token.event.eq_def] at hj
      grind
    | post k =>
      simp only [Token.system, Token.step.eq_def] at hstep
      split_ifs at hstep
      obtain rfl := Option.some.inj hstep
      rfl
    | notifierReturn k =>
      simp only [Token.system, Token.step.eq_def] at hstep
      split_ifs at hstep with hk
      obtain rfl := Option.some.inj hstep
      exact ih hearlier hdone ⟨k, Or.inr hk⟩

/-- A `parkFor` gives up; an `unpark` comes, begins and ends before the last store of the
`parkFor`; the owner then parks. -/
def Futex.unparkedTooLate : List (Action Unit) :=
  [.parkFor 0, .owner, .owner, .owner, .owner, .owner, .unpark (), .notifier (), .notifier (),
    .owner, .owner, .park, .owner, .owner, .owner]

/-- The token is gone: the owner is blocked, where a one-token semaphore has a token for it. -/
theorem token_discarded :
    ¬ IsOneToken (Futex.system Unit) (fun _ _ ↦ True) Futex.event Futex.State.hasToken
      Futex.State.blocked := by
  intro h
  have hrun : (Futex.system Unit).Produces (fun _ _ ↦ True) Futex.event
      ([] ++ (Futex.system Unit).eventsOf Futex.event Futex.initial Futex.unparkedTooLate)
      (((Futex.system Unit).run Futex.initial Futex.unparkedTooLate).get (by decide)) :=
    System.Produces.run (.init rfl) (Option.some_get _).symm
  have hevents : [] ++ (Futex.system Unit).eventsOf Futex.event Futex.initial
      Futex.unparkedTooLate =
        [.parkFor 0, .unpark (), .unparkReturned (), .parkForReturned false, .park] := rfl
  rw [hevents] at hrun
  obtain ⟨t, ht, -, hblocked⟩ := h _ _ hrun
  obtain ⟨⟨timed, howner⟩, htoken⟩ := hblocked ⟨⟨none, by decide⟩, fun () ↦ by decide⟩
  have hreturned (timed : Bool) : .returned timed true ∉
      [Event.parkFor 0, .unpark (), .unparkReturned (), .parkForReturned false, .park] := by
    cases timed <;> simp [Event.returned]
  have hkept := Token.posted_kept ht hreturned (by simp [howner]) ⟨(), Or.inl (by simp)⟩
  rw [htoken] at hkept
  nomatch hkept

end Stackfull.Sched.Parker
