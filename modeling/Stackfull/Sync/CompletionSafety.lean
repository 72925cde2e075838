import Stackfull.Sync.Completion
import Mathlib.Data.List.Nodup

/-!
# What a completion delivers

`Settled` says what the outcome is at each point of the call whose claim came first, `Completes`
that somebody makes a claimed completion ready unless a value has thrown, and `Woken` where the wake
of the consumer is. What the two sides may rely on is `Contract`. The claim is taken before the
value is made: a `set` whose value throws leaves the completion claimed for good
(`throwing_value_wedges`).
-/

set_option autoImplicit false
set_option relaxedAutoImplicit false
set_option linter.dupNamespace false

namespace Stackfull.Sync.Completion

open Stackfull.Lib

universe u v

variable {π : Type u} {α ε χ : Type v}

/-- The producer has the claim. -/
def ProducerPc.works : ProducerPc α ε χ → Bool
  | .storing _ | .publishing | .waking _ => true
  | _ => false

/-- The consumer has attached itself and sleeps, or is about to. -/
def ReaderPc.sleeps : ReaderPc → Bool
  | .blocked _ | .armed | .selectBlocked => true
  | _ => false

/-- The consumer may be attached as a task or a thread. -/
def ReaderPc.mayBeAttached : ReaderPc → Bool
  | .attaching _ | .blocked _ | .checking | .detaching _ | .armed | .selectBlocked
  | .selectDetaching => true
  | _ => false

/-- The callback waiter in use. -/
def ReaderPc.waiter : ReaderPc → Option ℕ
  | .preparing waiter | .enqueued waiter => some waiter
  | _ => none

/-- The consumer is about to move the outcome out. -/
def ReaderPc.delivers : ReaderPc → Bool
  | .moving | .detaching .deliver => true
  | _ => false

/-- The outcome belongs to the call whose claim came first. -/
structure Settled [Inhabited α] [Inhabited ε] (s : State π α ε χ) : Prop where
  works : ∀ p, (s.producer p).works = true → s.claimed = true
  alone : ∀ p q, (s.producer p).works = true → (s.producer q).works = true → p = q
  winner : s.claimed = s.winner.isSome
  storing : ∀ p call, s.producer p = .storing call →
    s.winner = some call ∧ s.ready = false ∧ s.outcome = some .empty
  publishing : ∀ p, s.producer p = .publishing →
    s.ready = false ∧ ∃ call, s.winner = some call ∧ s.outcome = some call.outcome
  waking : ∀ p waker, s.producer p = .waking waker → s.ready = true
  unclaimed : s.claimed = false → s.ready = false ∧ s.outcome = some .empty
  threw : s.threw = true → s.claimed = true ∧ s.ready = false ∧ ∀ p, (s.producer p).works = false
  published : s.ready = true → ∃ call, s.winner = some call ∧
    (s.delivered = [] ∧ s.outcome = some call.outcome ∨
      s.outcome = none ∧ ∃ n, s.delivered = some call.outcome :: List.replicate n none)
  unready : s.ready = false → s.delivered = [] ∧ s.reader.delivers = false
  checked : ∀ ready, s.reader = .detaching (.timedOut ready) → ready = false
  timeouts : ∀ ready ∈ s.timeouts, ready = false

/-- A completion that has been claimed is ready, unless somebody works on it or a value threw. -/
def Completes (s : State π α ε χ) : Prop :=
  s.claimed = true → s.ready = true ∨ s.threw = true ∨ ∃ p, (s.producer p).works = true

/-- Where the wake of the consumer is. -/
structure Woken (s : State π α ε χ) : Prop where
  asleep : s.reader.sleeps = true → s.token = true ∨ s.consumer = some .blocked ∨
    ∃ p, s.producer p = .waking (some .blocked)
  consumer : s.consumer ≠ none → s.ready = false
  attached : s.consumer = some .blocked → s.reader.mayBeAttached = true
  callback : ∀ k, s.consumer = some (.callback k) → s.reader = .enqueued k
  enqueued : ∀ k, s.reader = .enqueued k → s.consumer = some (.callback k) ∨
    ∃ p, s.producer p = .waking (some (.callback k))
  waking : ∀ p k, s.producer p = .waking (some (.callback k)) → s.reader = .enqueued k
  fresh : ∀ k, s.reader.waiter = some k → k < s.waiters ∧ k ∉ s.calls ∧ k ∉ s.withdrawn
  called : ∀ k ∈ s.calls, k < s.waiters
  cancelled : ∀ k ∈ s.withdrawn, k < s.waiters ∧ k ∉ s.calls
  once : s.calls.Nodup

variable [DecidableEq π] {s t : State π α ε χ}

section Settling

variable [Inhabited α] [Inhabited ε]

omit [DecidableEq π] in
theorem settled_initial : Settled (initial π α ε χ) := by
  constructor <;> simp [initial, State.winner, ProducerPc.works, ReaderPc.delivers]

attribute [local grind] ProducerPc.works ReaderPc.delivers State.goto State.claim State.wake

/-- A producer that works no more, or does not work yet, goes on. -/
theorem Settled.rests (hs : Settled s) {p : π} {pc : ProducerPc α ε χ}
    (hproducer : t.producer = Function.update s.producer p pc) (hpc : pc.works = false)
    (hclaimed : t.claimed = s.claimed) (hready : t.ready = s.ready)
    (houtcome : t.outcome = s.outcome) (hwinner : t.winner = s.winner) (hthrew : t.threw = s.threw)
    (hdelivered : t.delivered = s.delivered) (htimeouts : t.timeouts = s.timeouts)
    (hreader : t.reader = s.reader ∨ t.reader = .idle) : Settled t := by
  have hold : ∀ q, (t.producer q).works = true → t.producer q = s.producer q := by
    intro q hq
    rw [hproducer] at hq ⊢
    rcases eq_or_ne q p with rfl | hne
    · rw [Function.update_self, hpc] at hq
      cases hq
    · exact Function.update_of_ne hne ..
  constructor
  · intro q hq
    rw [hold q hq] at hq
    rw [hclaimed]
    exact hs.works q hq
  · intro q r hq hr
    rw [hold q hq] at hq
    rw [hold r hr] at hr
    exact hs.alone q r hq hr
  · rw [hclaimed, hwinner]
    exact hs.winner
  · intro q call hq
    rw [hold q (by rw [hq]; rfl)] at hq
    rw [hwinner, hready, houtcome]
    exact hs.storing q call hq
  · intro q hq
    rw [hold q (by rw [hq]; rfl)] at hq
    rw [hwinner, hready, houtcome]
    exact hs.publishing q hq
  · intro q waker hq
    rw [hold q (by rw [hq]; rfl)] at hq
    rw [hready]
    exact hs.waking q waker hq
  · rw [hclaimed, hready, houtcome]
    exact hs.unclaimed
  · rw [hthrew, hclaimed, hready]
    refine fun h ↦ (hs.threw h).imp_right fun ⟨hunready, hnobody⟩ ↦ ⟨hunready, fun q ↦ ?_⟩
    by_contra hworks
    have hq : (t.producer q).works = true := by simpa using hworks
    rw [hold q hq, hnobody q] at hq
    cases hq
  · rw [hready, hwinner, hdelivered, houtcome]
    exact hs.published
  · rw [hready, hdelivered]
    refine fun h ↦ (hs.unready h).imp_right fun hdelivers ↦ ?_
    rcases hreader with heq | heq
    · rw [heq, hdelivers]
    · rw [heq]
      rfl
  · rcases hreader with heq | heq
    · rw [heq]
      exact hs.checked
    · rw [heq]
      exact nofun
  · rw [htimeouts]
    exact hs.timeouts

theorem settled_produce (hs : Settled s) {p : π} (h : s.produce p = some t) : Settled t := by
  unfold State.produce at h
  cases hpc : s.producer p with
  | idle => simp [hpc] at h
  | claiming call =>
    simp only [hpc, Option.some.injEq] at h
    subst h
    unfold State.claim
    split_ifs with hclaimed
    · have hhead : (s.claims ++ [call]).head? = s.claims.head? :=
        List.head?_append_of_ne_nil _ fun hnil ↦ by
          simp [hs.winner, State.winner, hnil] at hclaimed
      exact hs.rests rfl rfl rfl rfl rfl hhead rfl rfl rfl (Or.inl rfl)
    · obtain ⟨h1, h2, h3, h4, h5, h6, h7, h8, h9, h10, h11, h12⟩ := hs
      have hhead : (s.claims ++ [call]).head? = some call := by
        have hnone : s.claims = [] := by simpa [h3, State.winner] using hclaimed
        rw [hnone]
        rfl
      constructor <;> dsimp only [State.goto, State.winner] at * <;>
        first | assumption | grind -linarith
  | storing call =>
    simp only [hpc, Option.some.injEq] at h
    subst h
    obtain ⟨h1, h2, h3, h4, h5, h6, h7, h8, h9, h10, h11, h12⟩ := hs
    constructor <;> dsimp only [State.goto, State.winner] at * <;>
      first | assumption | grind -linarith [Call.outcome]
  | publishing =>
    simp only [hpc, Option.some.injEq] at h
    subst h
    obtain ⟨h1, h2, h3, h4, h5, h6, h7, h8, h9, h10, h11, h12⟩ := hs
    constructor <;> dsimp only [State.goto, State.wake, State.winner] at * <;>
      first | assumption | grind -linarith
  | waking waker =>
    simp only [hpc, Option.some.injEq] at h
    subst h
    rcases waker with _ | _ | k
    · exact hs.rests rfl rfl rfl rfl rfl rfl rfl rfl rfl (Or.inl rfl)
    · exact hs.rests rfl rfl rfl rfl rfl rfl rfl rfl rfl (Or.inl rfl)
    · refine hs.rests rfl rfl rfl rfl rfl rfl rfl rfl rfl ?_
      by_cases hk : s.reader = .enqueued k
      · exact Or.inr (if_pos hk)
      · exact Or.inl (if_neg hk)
  | returned => simp [hpc] at h
  | threw => simp [hpc] at h

theorem settled_throws (hs : Settled s) {p : π} (h : s.throws p = some t) : Settled t := by
  unfold State.throws at h
  split at h
  · rename_i hpc
    cases h
    obtain ⟨h1, h2, h3, h4, h5, h6, h7, h8, h9, h10, h11, h12⟩ := hs
    constructor <;> dsimp only [State.goto, State.winner] at * <;>
      first | assumption | grind -linarith
  · cases h

omit [DecidableEq π] in
/-- A step of the consumer that moves nothing out and reports nothing. -/
theorem Settled.reads (hs : Settled s) (hclaimed : t.claimed = s.claimed)
    (hready : t.ready = s.ready)
    (houtcome : t.outcome = s.outcome) (hproducer : t.producer = s.producer)
    (hwinner : t.winner = s.winner) (hthrew : t.threw = s.threw)
    (hdelivered : t.delivered = s.delivered)
    (htimeouts : t.timeouts = s.timeouts)
    (hdelivers : t.reader.delivers = true → s.reader.delivers = true ∨ s.ready = true)
    (hchecked : ∀ ready, t.reader = .detaching (.timedOut ready) →
      s.reader = .detaching (.timedOut ready) ∨ ready = false) : Settled t := by
  obtain ⟨h1, h2, h3, h4, h5, h6, h7, h8, h9, h10, h11, h12⟩ := hs
  constructor
  case checked => exact fun ready hreader ↦ (hchecked ready hreader).elim (h11 ready) id
  case unready => grind -linarith
  all_goals
    simp only [hclaimed, hready, houtcome, hproducer, hwinner, hthrew, hdelivered, htimeouts]
    assumption

omit [DecidableEq π] in
/-- The outcome is moved out. -/
theorem settled_moving (hs : Settled s) (hreader : s.reader = .moving) :
    Settled { s with reader := .idle, delivered := s.delivered ++ [s.outcome], outcome := none } :=
      by
  have hready : s.ready = true := by
    by_contra hready
    have hdelivers := (hs.unready (by simpa using hready)).2
    rw [hreader] at hdelivers
    exact nomatch hdelivers
  obtain ⟨call, hwinner, hout⟩ := hs.published hready
  have hmoved : ∃ n, s.delivered ++ [s.outcome] = some call.outcome :: List.replicate n none := by
    rcases hout with ⟨hnil, hsome⟩ | ⟨hnone, n, hdelivered⟩
    · exact ⟨0, by rw [hnil, hsome]; rfl⟩
    · exact ⟨n + 1, by rw [hnone, hdelivered, List.replicate_succ', List.cons_append]⟩
  obtain ⟨h1, h2, h3, h4, h5, h6, h7, h8, h9, h10, h11, h12⟩ := hs
  refine ⟨h1, h2, h3, ?_, ?_, h6, ?_, h8, fun _ ↦ ⟨call, hwinner, Or.inr ⟨rfl, hmoved⟩⟩, ?_, nofun,
    h12⟩ <;> dsimp only <;> grind -linarith

omit [DecidableEq π] in
theorem settled_read (hs : Settled s) {again : Bool} (h : s.read again = some t) : Settled t := by
  unfold State.read at h
  split at h
  case h_1 => cases h
  case h_7 hreader => exact Option.some.inj h ▸ settled_moving hs hreader
  case h_13 => cases h
  case h_2 timed hreader =>
    cases h
    refine hs.reads rfl rfl rfl rfl rfl rfl rfl rfl ?_ ?_ <;> dsimp only <;> grind -linarith
  case h_3 timed hreader =>
    cases h
    unfold State.attach
    split_ifs
    · exact hs.reads rfl rfl rfl rfl rfl rfl rfl rfl nofun nofun
    · refine hs.reads rfl rfl rfl rfl rfl rfl rfl rfl ?_ ?_ <;> dsimp only <;> grind -linarith
    · exact hs.reads rfl rfl rfl rfl rfl rfl rfl rfl nofun nofun
  case h_4 timed hreader =>
    split_ifs at h
    cases h
    exact hs.reads rfl rfl rfl rfl rfl rfl rfl rfl nofun nofun
  case h_5 hreader =>
    cases h
    refine hs.reads rfl rfl rfl rfl rfl rfl rfl rfl ?_ ?_ <;> dsimp only <;> grind -linarith
  case h_6 leave hreader =>
    cases h
    cases leave with
    | deliver =>
      exact hs.reads rfl rfl rfl rfl rfl rfl rfl rfl (fun _ ↦ Or.inl (by rw [hreader]; rfl)) nofun
    | timedOut ready =>
      have hready := hs.checked ready hreader
      obtain ⟨h1, h2, h3, h4, h5, h6, h7, h8, h9, h10, h11, h12⟩ := hs
      refine ⟨h1, h2, h3, h4, h5, h6, h7, h8, h9, fun hunready ↦ ⟨(h10 hunready).1, rfl⟩, nofun,
        fun b hb ↦ ?_⟩
      rcases List.mem_append.mp hb with hb | hb
      · exact h12 b hb
      · exact (List.mem_singleton.mp hb).trans hready
    | unwound => exact hs.reads rfl rfl rfl rfl rfl rfl rfl rfl nofun nofun
  case h_8 hreader =>
    cases h
    unfold State.attach
    split_ifs
    · exact hs.reads rfl rfl rfl rfl rfl rfl rfl rfl nofun nofun
    · exact hs.reads rfl rfl rfl rfl rfl rfl rfl rfl nofun nofun
  case h_9 hreader =>
    cases h
    cases again <;> exact hs.reads rfl rfl rfl rfl rfl rfl rfl rfl nofun nofun
  case h_10 hreader =>
    split_ifs at h
    cases h
    exact hs.reads rfl rfl rfl rfl rfl rfl rfl rfl nofun nofun
  case h_11 hreader =>
    cases h
    cases again <;> exact hs.reads rfl rfl rfl rfl rfl rfl rfl rfl nofun nofun
  case h_12 waiter hreader =>
    cases h
    unfold State.attachOrReady
    split_ifs <;> exact hs.reads rfl rfl rfl rfl rfl rfl rfl rfl nofun nofun

/-- Every step keeps the outcome with its call. -/
theorem settled_step {a : Action π α ε χ} (hs : Settled s) (h : step s a = some t) : Settled t := by
  cases a with
  | call p call =>
    simp only [step.eq_def] at h
    split at h <;> cases h
    all_goals exact hs.rests rfl rfl rfl rfl rfl rfl rfl rfl rfl (Or.inl rfl)
  | produce p => exact settled_produce hs h
  | throws p => exact settled_throws hs h
  | read again => exact settled_read hs h
  | get timed =>
    simp only [step.eq_def] at h
    split_ifs at h
    cases h
    exact hs.reads rfl rfl rfl rfl rfl rfl rfl rfl nofun nofun
  | select =>
    simp only [step.eq_def] at h
    split_ifs at h
    cases h
    exact hs.reads rfl rfl rfl rfl rfl rfl rfl rfl nofun nofun
  | newWaiter =>
    simp only [step.eq_def] at h
    split_ifs at h
    cases h
    exact hs.reads rfl rfl rfl rfl rfl rfl rfl rfl nofun nofun
  | timeout takesToken =>
    simp only [step.eq_def] at h
    split at h <;> cases h <;> exact hs.reads rfl rfl rfl rfl rfl rfl rfl rfl nofun nofun
  | spurious =>
    simp only [step.eq_def] at h
    split at h <;> cases h <;> exact hs.reads rfl rfl rfl rfl rfl rfl rfl rfl nofun nofun
  | unwind =>
    simp only [step.eq_def] at h
    split at h <;> cases h <;> exact hs.reads rfl rfl rfl rfl rfl rfl rfl rfl nofun nofun
  | cancel waiter =>
    cases h
    unfold State.cancel
    split_ifs
    · exact hs.reads rfl rfl rfl rfl rfl rfl rfl rfl nofun nofun
    · exact hs.reads rfl rfl rfl rfl rfl rfl rfl rfl Or.inl fun _ ↦ Or.inl
    · exact hs.reads rfl rfl rfl rfl rfl rfl rfl rfl Or.inl fun _ ↦ Or.inl
  | staleWake =>
    cases h
    exact hs.reads rfl rfl rfl rfl rfl rfl rfl rfl Or.inl fun _ ↦ Or.inl

omit [Inhabited α] [Inhabited ε] in
/-- Somebody works on it still, if the one who moves does or did not. -/
theorem State.works_goto {p : π} {pc : ProducerPc α ε χ}
    (hkeeps : (s.producer p).works = true → pc.works = true)
    (h : ∃ q, (s.producer q).works = true) : ∃ q, ((s.goto p pc).producer q).works = true :=
  exists_update (P := fun pc : ProducerPc α ε χ ↦ pc.works = true) hkeeps h

theorem completes_produce (hs : Settled s) (hc : Completes s) {p : π}
    (h : s.produce p = some t) : Completes t := by
  unfold State.produce at h
  split at h
  case h_1 => cases h
  case h_2 call hpc =>
    cases h
    unfold State.claim
    split_ifs with hclaimed
    · exact fun _ ↦ (hc hclaimed).imp_right (Or.imp_right (State.works_goto (by rw [hpc]; nofun)))
    · exact fun _ ↦ Or.inr (Or.inr ⟨p, by simp [State.goto, ProducerPc.works]⟩)
  case h_3 call hpc =>
    cases h
    exact fun _ ↦ Or.inr (Or.inr ⟨p, by simp [State.goto, ProducerPc.works]⟩)
  case h_4 hpc =>
    cases h
    exact fun _ ↦ Or.inl rfl
  case h_5 waker hpc =>
    cases h
    have hready := hs.waking p waker hpc
    rcases waker with _ | _ | k <;> exact fun _ ↦ Or.inl hready
  case h_6 => cases h
  case h_7 => cases h

omit [DecidableEq π] [Inhabited α] [Inhabited ε] in
/-- The consumer does not touch what the producers share. -/
theorem read_frame {again : Bool} (h : s.read again = some t) :
    t.claimed = s.claimed ∧ t.ready = s.ready ∧ t.threw = s.threw ∧ t.producer = s.producer ∧
      t.claims = s.claims := by
  unfold State.read at h
  split at h
  case h_3 =>
    cases h
    unfold State.attach
    split_ifs <;> exact ⟨rfl, rfl, rfl, rfl, rfl⟩
  case h_6 leave _ =>
    cases h
    cases leave <;> exact ⟨rfl, rfl, rfl, rfl, rfl⟩
  case h_8 =>
    cases h
    unfold State.attach
    split_ifs <;> exact ⟨rfl, rfl, rfl, rfl, rfl⟩
  case h_12 =>
    cases h
    unfold State.attachOrReady
    split_ifs <;> exact ⟨rfl, rfl, rfl, rfl, rfl⟩
  case h_4 =>
    split_ifs at h
    exact Option.some.inj h ▸ ⟨rfl, rfl, rfl, rfl, rfl⟩
  case h_10 =>
    split_ifs at h
    exact Option.some.inj h ▸ ⟨rfl, rfl, rfl, rfl, rfl⟩
  case h_1 => cases h
  case h_13 => cases h
  all_goals exact Option.some.inj h ▸ ⟨rfl, rfl, rfl, rfl, rfl⟩

omit [Inhabited α] [Inhabited ε] in
/-- A producer leaves the other producers alone, and a consumer that has no callback waiter queued.
-/
theorem produce_frame {p : π} (h : s.produce p = some t) :
    (∀ q, q ≠ p → t.producer q = s.producer q) ∧ (s.claimed = true → t.claimed = true) ∧
      (s.ready = true → t.ready = true) ∧ t.delivered = s.delivered ∧
      (t.reader = s.reader ∨ ∃ k, s.reader = .enqueued k) := by
  have hother : ∀ {u : State π α ε χ} {pc : ProducerPc α ε χ},
      u.producer = Function.update s.producer p pc → ∀ q, q ≠ p → u.producer q = s.producer q :=
    fun hu q hq ↦ by rw [hu, Function.update_of_ne hq]
  unfold State.produce at h
  split at h
  case h_1 => cases h
  case h_2 call _ =>
    cases h
    unfold State.claim
    split_ifs
    · exact ⟨hother rfl, id, id, rfl, Or.inl rfl⟩
    · exact ⟨hother rfl, fun _ ↦ rfl, id, rfl, Or.inl rfl⟩
  case h_3 =>
    cases h
    exact ⟨hother rfl, id, id, rfl, Or.inl rfl⟩
  case h_4 =>
    cases h
    exact ⟨hother rfl, id, fun _ ↦ rfl, rfl, Or.inl rfl⟩
  case h_5 waker _ =>
    cases h
    match waker with
    | none => exact ⟨hother rfl, id, id, rfl, Or.inl rfl⟩
    | some .blocked => exact ⟨hother rfl, id, id, rfl, Or.inl rfl⟩
    | some (.callback k) =>
      refine ⟨hother rfl, id, id, rfl, ?_⟩
      by_cases hreader : s.reader = .enqueued k
      · exact Or.inr ⟨k, hreader⟩
      · exact Or.inl (if_neg hreader)
  case h_6 => cases h
  case h_7 => cases h

theorem completes_step {a : Action π α ε χ} (hs : Settled s) (hc : Completes s)
    (h : step s a = some t) : Completes t := by
  cases a with
  | call p call =>
    simp only [step.eq_def] at h
    split at h
    all_goals cases h
    all_goals
      rename_i hpc
      exact fun hclaimed ↦
        (hc hclaimed).imp_right (Or.imp_right (State.works_goto (by rw [hpc]; nofun)))
  | produce p => exact completes_produce hs hc h
  | throws p =>
    simp only [step.eq_def, State.throws.eq_def] at h
    split at h <;> cases h
    exact fun _ ↦ Or.inr (Or.inl rfl)
  | read again =>
    obtain ⟨hclaimed, hready, hthrew, hproducer, -⟩ := read_frame h
    unfold Completes
    rwa [hclaimed, hready, hthrew, hproducer]
  | cancel waiter =>
    cases h
    unfold State.cancel
    split_ifs <;> exact hc
  | staleWake => exact Option.some.inj h ▸ hc
  | _ =>
    simp only [step.eq_def] at h
    first
    | split_ifs at h
      cases h
      exact hc
    | split at h <;> cases h <;> exact hc

end Settling

/-- Only the beginning of a call brings a new one to its claim, and only those come to be claims. -/
theorem claims_step {a : Action π α ε χ} (h : step s a = some t) :
    (∀ p call, t.producer p = .claiming call → s.producer p = .claiming call ∨ a = .call p call) ∧
      ∀ call ∈ t.claims, call ∈ s.claims ∨ ∃ p, s.producer p = .claiming call := by
  have hgoto : ∀ {u : State π α ε χ} {q p : π} {pc : ProducerPc α ε χ} {call},
      u.producer = Function.update s.producer q pc → (∀ call, pc ≠ .claiming call) →
      u.producer p = .claiming call → s.producer p = .claiming call := by
    intro u q p pc call hu hpc hp
    rw [hu] at hp
    rcases eq_or_ne p q with rfl | hne
    · rw [Function.update_self] at hp
      exact absurd hp (hpc call)
    · rwa [Function.update_of_ne hne] at hp
  cases a with
  | call q call =>
    simp only [step.eq_def] at h
    split at h <;> cases h
    all_goals
      refine ⟨fun p call' hp ↦ ?_, fun _ ↦ Or.inl⟩
      rcases eq_or_ne p q with rfl | hne
      · simp only [State.goto, Function.update_self, ProducerPc.claiming.injEq] at hp
        exact Or.inr (hp ▸ rfl)
      · exact Or.inl (by simpa [State.goto, Function.update_of_ne hne] using hp)
  | produce q =>
    simp only [step.eq_def, State.produce] at h
    split at h
    case h_2 call hpc =>
      cases h
      unfold State.claim
      split_ifs
      all_goals
        refine ⟨fun p call' hp ↦ Or.inl (hgoto rfl (by nofun) hp), fun call' hcall ↦ ?_⟩
        rcases List.mem_append.mp hcall with hcall | hcall
        · exact Or.inl hcall
        · exact Or.inr ⟨q, List.mem_singleton.mp hcall ▸ hpc⟩
    case h_5 waker _ =>
      cases h
      rcases waker with _ | _ | k <;>
        exact ⟨fun p call hp ↦ Or.inl (hgoto rfl (by nofun) hp), fun _ ↦ Or.inl⟩
    all_goals cases h
    all_goals exact ⟨fun p call hp ↦ Or.inl (hgoto rfl (by nofun) hp), fun _ ↦ Or.inl⟩
  | throws q =>
    simp only [step.eq_def, State.throws.eq_def] at h
    split at h <;> cases h
    exact ⟨fun p call hp ↦ Or.inl (hgoto rfl (by nofun) hp), fun _ ↦ Or.inl⟩
  | read again =>
    obtain ⟨-, -, -, hproducer, hclaims⟩ := read_frame h
    exact ⟨fun p call hp ↦ Or.inl (hproducer ▸ hp), fun call hcall ↦ Or.inl (hclaims ▸ hcall)⟩
  | cancel waiter =>
    cases h
    unfold State.cancel
    split_ifs <;> exact ⟨fun _ _ ↦ Or.inl, fun _ ↦ Or.inl⟩
  | staleWake => exact Option.some.inj h ▸ ⟨fun _ _ ↦ Or.inl, fun _ ↦ Or.inl⟩
  | _ =>
    simp only [step.eq_def] at h
    first
    | split_ifs at h
      exact Option.some.inj h ▸ ⟨fun _ _ ↦ Or.inl, fun _ ↦ Or.inl⟩
    | split at h <;> cases h <;> exact ⟨fun _ _ ↦ Or.inl, fun _ ↦ Or.inl⟩

/-! ### Where the wake is -/

omit [DecidableEq π] in
theorem woken_initial [Inhabited α] [Inhabited ε] : Woken (initial π α ε χ) := by
  constructor <;> simp [initial, ReaderPc.sleeps, ReaderPc.waiter]

attribute [local grind] ReaderPc.sleeps ReaderPc.mayBeAttached ReaderPc.waiter State.goto

/-- The waker that a producer is going to wake. -/
def ProducerPc.waker : ProducerPc α ε χ → Option Waker
  | .waking waker => waker
  | _ => none

omit [DecidableEq π] in
/-- Whoever wakes a waker stands there. -/
theorem ProducerPc.waker_eq_some {pc : ProducerPc α ε χ} {waker : Waker} :
    pc.waker = some waker ↔ pc = .waking (some waker) := by
  cases pc <;> simp [ProducerPc.waker]

/-- A producer that wakes nobody moves on. -/
theorem Woken.pass (hw : Woken s) {p : π} {pc : ProducerPc α ε χ}
    (hproducer : t.producer = Function.update s.producer p pc) (hready : t.ready = s.ready)
    (hconsumer : t.consumer = s.consumer) (hreader : t.reader = s.reader)
    (htoken : t.token = s.token)
    (hwaiters : t.waiters = s.waiters) (hcalls : t.calls = s.calls)
    (hwithdrawn : t.withdrawn = s.withdrawn) (hbefore : (s.producer p).waker = none)
    (hafter : pc.waker = none) : Woken t := by
  have hsame : ∀ waker q, t.producer q = .waking (some waker) ↔
      s.producer q = .waking (some waker) := fun waker q ↦ by
    rw [← ProducerPc.waker_eq_some, ← ProducerPc.waker_eq_some, hproducer]
    rcases eq_or_ne q p with rfl | hne
    · rw [Function.update_self, hbefore, hafter]
    · rw [Function.update_of_ne hne]
  obtain ⟨h1, h2, h3, h4, h5, h6, h7, h8, h9, h10⟩ := hw
  constructor <;>
    simpa only [hsame, hready, hconsumer, hreader, htoken, hwaiters, hcalls, hwithdrawn]

theorem woken_produce [Inhabited α] [Inhabited ε] (hs : Settled s) (hw : Woken s) {p : π}
    (h : s.produce p = some t) : Woken t := by
  unfold State.produce at h
  split at h
  case h_1 => cases h
  case h_2 call hpc =>
    cases h
    unfold State.claim
    split_ifs with hclaimed
    · exact hw.pass rfl rfl rfl rfl rfl rfl rfl rfl (by rw [hpc]; rfl) rfl
    · exact hw.pass rfl rfl rfl rfl rfl rfl rfl rfl (by rw [hpc]; rfl) rfl
  case h_3 call hpc =>
    cases h
    exact hw.pass rfl rfl rfl rfl rfl rfl rfl rfl (by rw [hpc]; rfl) rfl
  case h_4 hpc =>
    cases h
    have hnone : ∀ q waker, s.producer q ≠ .waking waker := fun q waker hq ↦ by
      have hready := hs.waking q waker hq
      rw [(hs.publishing p hpc).1] at hready
      exact nomatch hready
    obtain ⟨h1, h2, h3, h4, h5, h6, h7, h8, h9, h10⟩ := hw
    constructor <;> dsimp only [State.goto]
    · intro hsleeps
      rcases h1 hsleeps with h | h | ⟨q, hq⟩
      · exact Or.inl h
      · exact Or.inr (Or.inr ⟨p, by rw [Function.update_self, h]⟩)
      · exact absurd hq (hnone q _)
    · simp
    · simp
    · simp
    · intro k hk
      rcases h5 k hk with h | ⟨q, hq⟩
      · exact Or.inr ⟨p, by rw [Function.update_self, h]⟩
      · exact absurd hq (hnone q _)
    · intro q k hq
      rcases eq_or_ne q p with rfl | hne
      · rw [Function.update_self, ProducerPc.waking.injEq] at hq
        exact h4 k hq
      · rw [Function.update_of_ne hne] at hq
        exact absurd hq (hnone q _)
    · exact h7
    · exact h8
    · exact h9
    · exact h10
  case h_5 waker hpc =>
    cases h
    have halone : ∀ q waker, s.producer q = .waking waker → q = p := fun q waker hq ↦
      hs.alone q p (by rw [hq]; rfl) (by rw [hpc]; rfl)
    have hready := hs.waking p waker hpc
    have hconsumer : s.consumer = none := by
      by_contra hne
      exact absurd ((hw.consumer hne).symm.trans hready) (by decide)
    have hgone : ∀ q waker, ((s.goto p .returned).producer q) ≠ .waking waker := fun q waker hq ↦ by
      rcases eq_or_ne q p with rfl | hne
      · simp [State.goto] at hq
      · exact hne (halone q waker (by simpa [State.goto, Function.update_of_ne hne] using hq))
    match waker with
    | none => exact hw.pass rfl rfl rfl rfl rfl rfl rfl rfl (by rw [hpc]; rfl) rfl
    | some .blocked =>
      obtain ⟨h1, h2, h3, h4, h5, h6, h7, h8, h9, h10⟩ := hw
      refine ⟨fun _ ↦ Or.inl rfl, h2, h3, h4, fun k hk ↦ ?_, fun q k hq ↦ absurd hq (hgone q _), h7,
        h8,
        h9, h10⟩
      rcases h5 k hk with h | ⟨q, hq⟩
      · exact Or.inl h
      · rw [halone q _ hq, hpc] at hq
        simp at hq
    | some (.callback k) =>
      have hreader : s.reader = .enqueued k := hw.waking p k hpc
      obtain ⟨hk, hcalls, hwithdrawn⟩ := hw.fresh k (by rw [hreader]; rfl)
      obtain ⟨h1, h2, h3, h4, h5, h6, h7, h8, h9, h10⟩ := hw
      constructor <;> simp only [State.goto, State.wake, hreader, if_true, hconsumer] at *
      case asleep => simp [ReaderPc.sleeps]
      case waking => exact fun q k hq ↦ absurd hq (hgone q _)
      case fresh => simp [ReaderPc.waiter]
      case called => grind -linarith
      case cancelled => grind -linarith
      case once => exact List.Nodup.append h10 (List.nodup_singleton k) (by simpa using hcalls)
      all_goals simp
  case h_6 => cases h
  case h_7 => cases h

section Turns

omit [DecidableEq π]

/-- The consumer moves on, and does not fall asleep. -/
theorem Woken.turn (hw : Woken s) (hproducer : t.producer = s.producer) (hready : t.ready = s.ready)
    (hconsumer : t.consumer = s.consumer) (hwaiters : t.waiters = s.waiters)
    (hcalls : t.calls = s.calls) (hwithdrawn : t.withdrawn = s.withdrawn)
    (hsleeps : t.reader.sleeps = true → s.reader.sleeps = true ∧ t.token = s.token)
    (hattached : s.reader.mayBeAttached = true → t.reader.mayBeAttached = true)
    (hbefore : ∀ k, s.reader ≠ .enqueued k) (hafter : t.reader.waiter = none) : Woken t := by
  constructor
  · intro h
    obtain ⟨hsleeping, htoken⟩ := hsleeps h
    rw [htoken, hconsumer, hproducer]
    exact hw.asleep hsleeping
  · rw [hconsumer, hready]
    exact hw.consumer
  · rw [hconsumer]
    exact fun h ↦ hattached (hw.attached h)
  · rw [hconsumer]
    exact fun k h ↦ absurd (hw.callback k h) (hbefore k)
  · intro k h
    rw [h] at hafter
    cases hafter
  · rw [hproducer]
    exact fun p k h ↦ absurd (hw.waking p k h) (hbefore k)
  · intro k h
    rw [hafter] at h
    cases h
  · rw [hcalls, hwaiters]
    exact hw.called
  · rw [hwithdrawn, hwaiters, hcalls]
    exact hw.cancelled
  · rw [hcalls]
    exact hw.once

/-- The consumer attaches itself, unless the outcome is ready. -/
theorem Woken.attach (hw : Woken s) {attached refused : ReaderPc}
    (hattached : attached.mayBeAttached = true) (hafter : attached.waiter = none)
    (hrefused : refused.sleeps = false) (hrefused' : refused.mayBeAttached = true)
    (hafter' : refused.waiter = none) (hbefore : ∀ k, s.reader ≠ .enqueued k) : Woken (s.attach attached refused) := by
  unfold State.attach
  split_ifs with hready
  · refine hw.turn rfl rfl rfl rfl rfl rfl (fun h ↦ ?_) (fun _ ↦ hrefused') hbefore hafter'
    rw [show refused.sleeps = true from h] at hrefused
    cases hrefused
  · refine ⟨fun _ ↦ Or.inr (Or.inl rfl), fun _ ↦ Bool.eq_false_iff.mpr hready, fun _ ↦ hattached,
      nofun, fun k h ↦ ?_, fun p k h ↦ absurd (hw.waking p k h) (hbefore k), fun k h ↦ ?_, hw.called,
      hw.cancelled, hw.once⟩
    · rw [show attached = .enqueued k from h] at hafter
      cases hafter
    · rw [show attached.waiter = some k from h] at hafter
      cases hafter

/-- The consumer detaches itself and moves on. -/
theorem Woken.detach (hw : Woken s) (hproducer : t.producer = s.producer)
    (hready : t.ready = s.ready) (hconsumer : t.consumer = s.detach.consumer)
    (hwaiters : t.waiters = s.waiters) (hcalls : t.calls = s.calls)
    (hwithdrawn : t.withdrawn = s.withdrawn) (hsleeps : t.reader.sleeps = false)
    (hbefore : ∀ k, s.reader ≠ .enqueued k) (hafter : t.reader.waiter = none) : Woken t := by
  have hdetached : ∀ waker, t.consumer = some waker → waker ≠ .blocked ∧ s.consumer = some waker := by
    intro waker h
    rw [hconsumer, State.detach] at h
    split_ifs at h with hblocked
    exact ⟨fun heq ↦ hblocked (heq ▸ h), h⟩
  constructor
  · intro h
    rw [hsleeps] at h
    cases h
  · intro h
    obtain ⟨waker, hwaker⟩ := Option.ne_none_iff_exists'.mp h
    rw [hready]
    refine hw.consumer fun hnone ↦ ?_
    rw [(hdetached waker hwaker).2] at hnone
    cases hnone
  · exact fun h ↦ absurd rfl (hdetached _ h).1
  · exact fun k h ↦ absurd (hw.callback k (hdetached _ h).2) (hbefore k)
  · intro k h
    rw [h] at hafter
    cases hafter
  · rw [hproducer]
    exact fun p k h ↦ absurd (hw.waking p k h) (hbefore k)
  · intro k h
    rw [hafter] at h
    cases h
  · rw [hcalls, hwaiters]
    exact hw.called
  · rw [hwithdrawn, hwaiters, hcalls]
    exact hw.cancelled
  · rw [hcalls]
    exact hw.once

end Turns

omit [DecidableEq π] in
theorem woken_read (hw : Woken s) {again : Bool} (h : s.read again = some t) : Woken t := by
  unfold State.read at h
  split at h
  case h_1 => cases h
  case h_3 timed hreader =>
    cases h
    refine hw.attach rfl rfl ?_ ?_ ?_ (by simp [hreader]) <;> cases timed <;> rfl
  case h_6 leave hreader =>
    cases h
    cases leave <;> exact hw.detach rfl rfl rfl rfl rfl rfl rfl (by simp [hreader]) rfl
  case h_7 hreader =>
    cases h
    exact hw.turn rfl rfl rfl rfl rfl rfl nofun (by simp [hreader, ReaderPc.mayBeAttached])
      (by simp [hreader]) rfl
  case h_8 hreader =>
    cases h
    exact hw.attach rfl rfl rfl rfl rfl (by simp [hreader])
  case h_9 hreader =>
    cases h
    refine hw.turn rfl rfl rfl rfl rfl rfl (fun _ ↦ ⟨by rw [hreader]; rfl, rfl⟩) (fun _ ↦ ?_)
      (by simp [hreader]) ?_
    · cases again <;> rfl
    · cases again <;> rfl
  case h_11 hreader =>
    cases h
    cases again <;> exact hw.detach rfl rfl rfl rfl rfl rfl rfl (by simp [hreader]) rfl
  case h_12 waiter hreader =>
    cases h
    unfold State.attachOrReady
    split_ifs with hready
    · exact hw.turn rfl rfl rfl rfl rfl rfl nofun (by simp [hreader, ReaderPc.mayBeAttached])
        (by simp [hreader]) rfl
    · exact hw.turn rfl rfl rfl rfl rfl rfl nofun (by simp [hreader, ReaderPc.mayBeAttached])
        (by simp [hreader]) rfl
    · refine ⟨nofun, fun _ ↦ Bool.eq_false_iff.mpr hready, nofun, fun k h ↦ ?_, fun k h ↦ ?_,
        fun p k h ↦ ?_, fun k h ↦ ?_, hw.called, hw.cancelled, hw.once⟩
      · cases h
        rfl
      · cases h
        exact Or.inl rfl
      · rw [hw.waking p k h] at hreader
        cases hreader
      · cases h
        exact hw.fresh waiter (by rw [hreader]; rfl)
  case h_13 => cases h
  case h_2 timed hreader =>
    cases h
    refine hw.turn rfl rfl rfl rfl rfl rfl (fun h ↦ ?_) (by simp [hreader, ReaderPc.mayBeAttached])
      (by simp [hreader]) ?_
    · revert h
      dsimp only
      split_ifs <;> exact nofun
    · dsimp only
      split_ifs <;> rfl
  case h_5 hreader =>
    cases h
    exact hw.turn rfl rfl rfl rfl rfl rfl nofun (fun _ ↦ rfl) (by simp [hreader]) rfl
  case h_4 timed hreader =>
    split_ifs at h
    cases h
    exact hw.turn rfl rfl rfl rfl rfl rfl nofun (fun _ ↦ rfl) (by simp [hreader]) rfl
  case h_10 hreader =>
    split_ifs at h
    cases h
    exact hw.turn rfl rfl rfl rfl rfl rfl nofun (fun _ ↦ rfl) (by simp [hreader]) rfl

/-- Every step keeps track of the wake. -/
theorem woken_step [Inhabited α] [Inhabited ε] {a : Action π α ε χ} (hs : Settled s) (hw : Woken s)
    (h : step s a = some t) : Woken t := by
  cases a with
  | call p call =>
    simp only [step.eq_def] at h
    split at h
    all_goals cases h
    all_goals
      rename_i hpc
      exact hw.pass rfl rfl rfl rfl rfl rfl rfl rfl (by rw [hpc]; rfl) rfl
  | produce p => exact woken_produce hs hw h
  | throws p =>
    simp only [step.eq_def, State.throws.eq_def] at h
    split at h <;> cases h
    rename_i hpc
    exact hw.pass rfl rfl rfl rfl rfl rfl rfl rfl (by rw [hpc]; rfl) rfl
  | read again => exact woken_read hw h
  | cancel waiter =>
    cases h
    have hwaking := hs.waking
    obtain ⟨h1, h2, h3, h4, h5, h6, h7, h8, h9, h10⟩ := hw
    unfold State.cancel
    split_ifs <;> constructor <;> dsimp only <;> first | assumption | grind -linarith
  | staleWake =>
    cases h
    obtain ⟨h1, h2, h3, h4, h5, h6, h7, h8, h9, h10⟩ := hw
    exact ⟨fun _ ↦ Or.inl rfl, h2, h3, h4, h5, h6, h7, h8, h9, h10⟩
  | newWaiter =>
    simp only [step.eq_def] at h
    split_ifs at h with hidle
    cases h
    obtain ⟨h1, h2, h3, h4, h5, h6, h7, h8, h9, h10⟩ := hw
    constructor <;> dsimp only <;> first | assumption | grind -linarith
  | get timed =>
    simp only [step.eq_def] at h
    split_ifs at h with hidle
    cases h
    exact hw.turn rfl rfl rfl rfl rfl rfl nofun (by simp [hidle, ReaderPc.mayBeAttached])
      (by simp [hidle]) rfl
  | select =>
    simp only [step.eq_def] at h
    split_ifs at h with hidle
    cases h
    exact hw.turn rfl rfl rfl rfl rfl rfl nofun (by simp [hidle, ReaderPc.mayBeAttached])
      (by simp [hidle]) rfl
  | _ =>
    simp only [step.eq_def] at h
    split at h
    all_goals cases h
    all_goals
      rename_i hreader
      exact hw.turn rfl rfl rfl rfl rfl rfl nofun (fun _ ↦ rfl) (by simp [hreader]) rfl

/-! ### The results -/

section Results

variable [Inhabited α] [Inhabited ε]

theorem invariant_of_reachable (hs : (system π α ε χ).Reachable s) :
    Settled s ∧ Completes s ∧ Woken s := by
  refine System.Reachable.invariant (P := fun s ↦ Settled s ∧ Completes s ∧ Woken s) ?_ ?_ hs
  · rintro _ rfl
    exact ⟨settled_initial, nofun, woken_initial⟩
  · rintro s a t ⟨hsettled, hcompletes, hwoken⟩ hnext
    exact ⟨settled_step hsettled hnext, completes_step hsettled hcompletes hnext,
      woken_step hsettled hwoken hnext⟩

/-- What the two sides of a completion may rely on. -/
structure Contract (s : State π α ε χ) : Prop where
  first : s.delivered = [] ∨ ∃ call n, s.winner = some call ∧
    s.delivered = some call.outcome :: List.replicate n none
  usable : s.ready = true → s.delivered = [] →
    ∃ call, s.winner = some call ∧ s.outcome = some call.outcome
  completed : s.claimed = true → (∀ p, (s.producer p).works = false) → s.ready = true
  awake : s.claimed = true → (∀ p, (s.producer p).works = false) →
    ((∃ timed, s.reader = .blocked timed) ∨ s.reader = .selectBlocked → s.token = true) ∧
      ∀ k, s.reader ≠ .enqueued k
  timeouts : ∀ ready ∈ s.timeouts, ready = false
  detached : s.reader = .idle → s.consumer = none
  once : s.calls.Nodup
  withdrawn : ∀ k ∈ s.withdrawn, k ∉ s.calls

/-- The condition on a step: the value of a `set` is made without an exception. -/
def Stores (_ : State π α ε χ) : Action π α ε χ → Bool
  | .throws _ => false
  | _ => true

omit [Inhabited α] [Inhabited ε] in
theorem threw_step {a : Action π α ε χ} (hstores : Stores s a = true) (h : step s a = some t) :
    t.threw = s.threw := by
  cases a with
  | throws p => cases hstores
  | produce p =>
    simp only [step.eq_def, State.produce] at h
    split at h
    case h_2 =>
      cases h
      unfold State.claim
      split_ifs <;> rfl
    case h_5 waker _ =>
      cases h
      rcases waker with _ | _ | k <;> rfl
    all_goals
      cases h
      try rfl
  | read again => exact (read_frame h).2.2.1
  | cancel waiter =>
    cases h
    unfold State.cancel
    split_ifs <;> rfl
  | staleWake => exact Option.some.inj h ▸ rfl
  | _ =>
    simp only [step.eq_def] at h
    first
    | split_ifs at h
      exact Option.some.inj h ▸ rfl
    | split at h <;> cases h <;> rfl

theorem not_threw_of_reachable
    (hs : (system π α ε χ).ReachableUnder (fun s a ↦ Stores s a = true) s) : s.threw = false := by
  refine System.ReachableUnder.invariant (P := fun s ↦ s.threw = false) ?_ ?_ hs
  · rintro _ rfl
    rfl
  · intro s a t hthrew hstores hnext
    exact (threw_step hstores hnext).trans hthrew

/-- In every run in which no value throws: the first outcome moved out is that of the call whose
claim came first, and what is moved out later is empty; once that call has returned, the consumer
does not sleep unless a wake is pending; a `timed_out` is reported only after a final check that
read false, and nothing of the consumer stays behind; a callback is called at most once and not
after `cancel` has returned true. -/
theorem delivers_first_outcome {s : State π α ε χ}
    (hs : (system π α ε χ).ReachableUnder (fun s a ↦ Stores s a = true) s) : Contract s := by
  obtain ⟨hsettled, hcompletes, hwoken⟩ := invariant_of_reachable hs.reachable
  have hthrew := not_threw_of_reachable hs
  have hcompleted : s.claimed = true → (∀ p, (s.producer p).works = false) → s.ready = true := by
    intro hclaimed hidle
    rcases hcompletes hclaimed with hready | hthrew' | ⟨p, hp⟩
    · exact hready
    · exact absurd (hthrew.symm.trans hthrew') (by decide)
    · exact absurd ((hidle p).symm.trans hp) (by decide)
  have hconsumer : s.ready = true → s.consumer = none := fun hready ↦ by
    by_contra hne
    exact absurd ((hwoken.consumer hne).symm.trans hready) (by decide)
  have hwaking : (∀ p, (s.producer p).works = false) → ∀ p waker, s.producer p ≠ .waking waker :=
    fun hidle p waker hp ↦ by
      have hworks := hidle p
      rw [hp] at hworks
      exact nomatch hworks
  refine ⟨?_, fun hready hnil ↦ ?_, hcompleted, fun hclaimed hidle ↦
    ⟨fun hsleeps ↦ ?_, fun k hk ↦ ?_⟩,
    hsettled.timeouts, fun hidle ↦ ?_, hwoken.once, fun k hk ↦ (hwoken.cancelled k hk).2⟩
  · cases hready : s.ready with
    | false => exact Or.inl (hsettled.unready hready).1
    | true =>
      obtain ⟨call, hwinner, ⟨hnil, -⟩ | ⟨-, n, hdelivered⟩⟩ := hsettled.published hready
      · exact Or.inl hnil
      · exact Or.inr ⟨call, n, hwinner, hdelivered⟩
  · obtain ⟨call, hwinner, ⟨-, hout⟩ | ⟨-, n, hdelivered⟩⟩ := hsettled.published hready
    · exact ⟨call, hwinner, hout⟩
    · exact absurd (hnil.symm.trans hdelivered) (List.cons_ne_nil _ _).symm
  · have hreader : s.reader.sleeps = true := by
      rcases hsleeps with ⟨timed, h⟩ | h <;> rw [h] <;> rfl
    rcases hwoken.asleep hreader with htoken | hblocked | ⟨p, hp⟩
    · exact htoken
    · exact absurd ((hconsumer (hcompleted hclaimed hidle)).symm.trans hblocked) (by simp)
    · exact absurd hp (hwaking hidle p _)
  · rcases hwoken.enqueued k hk with hcallback | ⟨p, hp⟩
    · exact absurd ((hconsumer (hcompleted hclaimed hidle)).symm.trans hcallback) (by simp)
    · exact hwaking hidle p _ hp
  · rcases hconsumer' : s.consumer with _ | _ | k
    · rfl
    · have hattached := hwoken.attached hconsumer'
      rw [hidle] at hattached
      exact nomatch hattached
    · exact absurd (hidle.symm.trans (hwoken.callback k hconsumer')) (by simp)

/-- The consumer times out once and then waits; a value comes and a failure after it. -/
def valueBeforeFailure : List (Action (Fin 2) ℕ ℕ Unit) :=
  [.get true, .read false, .read false, .timeout false, .read false, .read false, .get false,
    .read false, .read false, .call 0 (.set 7), .call 1 (.fail 3), .produce 0, .produce 1, .produce
      0,
    .produce 0, .produce 0, .read false, .read false, .read false, .read false]

theorem delivers_first_outcome_valueBeforeFailure :
    ∃ s, (system (Fin 2) ℕ ℕ Unit).ReachableUnder (fun s a ↦ Stores s a = true) s ∧ Contract s ∧
      s.timeouts = [false] ∧ s.delivered = [some ⟨7, 0, none⟩] := by
  let s := ((system (Fin 2) ℕ ℕ Unit).runUnder Stores (initial _ _ _ _) valueBeforeFailure).get
    (by decide +kernel)
  have hs : (system (Fin 2) ℕ ℕ Unit).ReachableUnder (fun s a ↦ Stores s a = true) s :=
    System.reachableUnder_of_run rfl (Option.some_get _).symm
  exact ⟨s, hs, delivers_first_outcome hs, by decide +kernel, by decide +kernel⟩

/-- No call of a producer is under way. -/
def Ended (s : State π α ε χ) : Prop :=
  ∀ p, s.producer p = .idle ∨ s.producer p = .returned ∨ s.producer p = .threw

/-- In every run in which no value throws, a completion that has been claimed is ready once the
calls of the producers have ended. In a run in which the value of a `set` with the claim has thrown,
it never is. -/
theorem ready_unless_threw (s : State π α ε χ) :
    ((system π α ε χ).ReachableUnder (fun s a ↦ Stores s a = true) s → Ended s →
      s.claimed = true → s.ready = true) ∧
    ((system π α ε χ).Reachable s → s.threw = true → s.claimed = true ∧ s.ready = false) := by
  refine ⟨fun hs hended hclaimed ↦ (delivers_first_outcome hs).completed hclaimed fun p ↦ ?_,
    fun hs hthrew ↦ ?_⟩
  · rcases hended p with h | h | h <;> rw [h] <;> rfl
  · obtain ⟨hclaimed, hready, -⟩ := (invariant_of_reachable hs).1.threw hthrew
    exact ⟨hclaimed, hready⟩

theorem ready_unless_threw_valueBeforeFailure :
    ∃ s, (system (Fin 2) ℕ ℕ Unit).ReachableUnder (fun s a ↦ Stores s a = true) s ∧
      s.claimed = true ∧ s.ready = true := by
  let s := ((system (Fin 2) ℕ ℕ Unit).runUnder Stores (initial _ _ _ _) valueBeforeFailure).get
    (by decide +kernel)
  have hs : (system (Fin 2) ℕ ℕ Unit).ReachableUnder (fun s a ↦ Stores s a = true) s :=
    System.reachableUnder_of_run rfl (Option.some_get _).symm
  have hended : Ended s := fun p ↦
    match p with
    | 0 => Or.inr (Or.inl rfl)
    | 1 => Or.inr (Or.inl rfl)
  exact ⟨s, hs, by decide +kernel, (ready_unless_threw s).1 hs hended (by decide +kernel)⟩

/-- `runGuarded` in the one task: the move of the result into the outcome throws, and the
`setException` of the handler finds the completion claimed. A `get` then sleeps. -/
def throwingMove : List (Action Unit Unit Unit Unit) :=
  [.call () (.set ()), .produce (), .throws (), .call () (.setException (some ())), .produce (),
    .get false, .read false, .read false]

theorem throwing_value_wedges :
    ¬∀ s, (system Unit Unit Unit Unit).Reachable s → Ended s → s.claimed = true → s.ready = true :=
      by
  intro h
  let s := ((system Unit Unit Unit Unit).run (initial _ _ _ _) throwingMove).get (by decide +kernel)
  have hs : (system Unit Unit Unit Unit).Reachable s :=
    System.reachable_of_run rfl (Option.some_get _).symm
  exact absurd (h s hs (fun _ ↦ Or.inr (Or.inl rfl)) rfl) (by decide +kernel)

end Results

end Stackfull.Sync.Completion
