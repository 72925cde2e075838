import Stackfull.Lib.History
import Stackfull.Queue.BbqContract

/-!
# When the queue says that it is full or empty

`Full` and `Empty` are answers about the whole queue, which a call gives after it has looked at a
few words one after the other. Such an answer is right if it was right at some instant during the
call. `Reasoned` is the induction for this: a thread that has come to an answer, or to a point that
is bound to give it, has a state of its call in which the answer was right.

`pop` compares the index of a `reserved` that it read before with that of `committed` now, without
their versions, and does not look at `allocated` before it says `Empty`. `push` compares the index
of a `consumed` that it read before with that of `reserved` now. The conditions `popSees` and
`pushSees` exclude what these comparisons miss, and the two runs at the end meet it.
-/

set_option autoImplicit false
set_option relaxedAutoImplicit false
set_option linter.dupNamespace false

namespace Stackfull.Queue.Bbq

open Stackfull.Lib

universe u v

variable {ι : Type u} {α : Type v} [DecidableEq ι] {p : Params}
variable {s s' : State ι α} {t : ι} {k head : ℕ}

/-! ### Instants of a call -/

/-- The state `u` is one of the call that the thread is in or has returned from last. -/
def During (s u : State ι α) (t : ι) : Prop :=
  s.began t < u.clock ∧ (u.pc t).isReady = false

instance (s u : State ι α) (t : ι) : Decidable (During s u t) :=
  inferInstanceAs (Decidable (_ ∧ _))

/-- What the thread's last call returned, unless it is in one. -/
def State.lastResult (s : State ι α) (t : ι) : Option (Result α) :=
  match s.pc t with
  | .ready last => last
  | _ => none

omit [DecidableEq ι] in
theorem State.pc_of_lastResult {result : Result α} (h : s.lastResult t = some result) :
    s.pc t = .ready (some result) := by
  unfold State.lastResult at h
  split at h
  case h_1 last hpc => rw [hpc, h]
  case h_2 => cases h

/-- Every value whose push has returned was reserved by a pop. -/
def State.AllReserved (s : State ι α) : Prop :=
  ∀ entry ∈ s.log.returned, entry.1 < s.log.pops.length

instance (s : State ι α) : Decidable s.AllReserved :=
  inferInstanceAs (Decidable (∀ entry ∈ _, _))

/-- A push has returned that got its slot after one whose slot is not written. -/
def State.Blocked (s : State ι α) : Prop :=
  ∃ j k, j < k ∧ j < s.log.pushes.length ∧ j ∉ s.log.returned.map Prod.fst ∧
    k ∈ s.log.returned.map Prod.fst

/-- How many slots were given out to pushes and not yet left by pops. -/
def State.outstanding (s : State ι α) : ℕ :=
  ((Finset.range s.log.pushes.length).filter fun k ↦ k ∉ s.log.popped.map Prod.fst).card

/-- Every thread at a point in `answers` has a state of its call with the property `reason`. The
clock is ahead of the calls in progress, and the words are as `inv` says. -/
structure Reasoned (inv : State ι α → Prop) (answers : Pc α → Prop) (reason : State ι α → Prop)
    (past : List (State ι α)) (s : State ι α) : Prop where
  inv : inv s
  began : ∀ t, (s.pc t).isReady = false → s.began t < s.clock
  reason : ∀ t, answers (s.pc t) → ∃ u ∈ past, During s u t ∧ reason u

/-- The induction over runs. A thread comes to an answer from a point that was bound to give it or
in a state with the property. -/
theorem reasoned_of_history (inv : State ι α → Prop) (answers : Pc α → Prop)
    (reason : State ι α → Prop) {good : State ι α → Action ι α → Prop}
    (hinit : inv (initial p .unbounded)) (hfresh : ¬ answers (.ready none))
    (hbegins : ∀ call, ¬ answers (.loadHead call))
    (hcall : ∀ (s : State ι α) (t : ι) (call : Call α) (s' : State ι α), inv s →
      s.call t call = some s' → inv s'.tick)
    (hadvance : ∀ (s : State ι α) (t : ι) (spurious : Bool) (s' : State ι α), inv s →
      good s (.advance t spurious) → s.advance p .unbounded t spurious = some s' →
        inv s'.tick ∧ (answers (s'.pc t) → answers (s.pc t) ∨ reason s))
    {past : List (State ι α)} (hs : (system ι α p .unbounded).HistoryUnder good past s) :
    Reasoned inv answers reason past s := by
  refine hs.invariant ?_ ?_
  · rintro s rfl
    exact ⟨hinit, fun t h ↦ (by cases h), fun t h ↦ absurd h hfresh⟩
  · rintro past s action s' ⟨hinv, hbegan, hreason⟩ hgood hstep
    have hkept (u : State ι α) (t : ι) (hsame : u.pc t = s.pc t) (hclock : u.began t = s.began t)
        (hanswers : answers (u.pc t)) : ∃ v ∈ s :: past, During u v t ∧ reason v := by
      rw [hsame] at hanswers
      obtain ⟨v, hv, hduring, hv'⟩ := hreason t hanswers
      refine ⟨v, List.mem_cons_of_mem _ hv, ⟨?_, hduring.2⟩, hv'⟩
      rw [hclock]
      exact hduring.1
    cases action with
    | call t call =>
      obtain ⟨mid, hmid, rfl⟩ := Option.map_eq_some_iff.mp hstep
      have hmid' := hcall s t call mid hinv hmid
      unfold State.call at hmid
      split at hmid
      case h_2 => cases hmid
      obtain rfl := Option.some.inj hmid
      refine ⟨hmid', fun thread hready ↦ ?_, fun thread hanswers ↦ ?_⟩
      · by_cases hthread : thread = t
        · subst hthread
          simp [State.tick]
        · simp only [State.tick, Function.update_of_ne hthread] at hready ⊢
          have hlt := hbegan thread hready
          omega
      · by_cases hthread : thread = t
        · subst hthread
          simp only [State.tick, Function.update_self] at hanswers
          exact absurd hanswers (hbegins call)
        · refine hkept _ thread ?_ ?_ hanswers
          · exact Function.update_of_ne hthread _ _
          · exact Function.update_of_ne hthread _ _
    | advance t spurious =>
      obtain ⟨mid, hmid, rfl⟩ := Option.map_eq_some_iff.mp hstep
      obtain ⟨hinv', hanswer⟩ := hadvance s t spurious mid hinv hgood hmid
      obtain ⟨-, hclock, hbegan', hready, hothers⟩ := logs_advance hmid
      refine ⟨hinv', fun thread hinside ↦ ?_, fun thread hanswers ↦ ?_⟩
      · simp only [State.tick, hclock, hbegan'] at hinside ⊢
        by_cases hthread : thread = t
        · have hlt := hbegan t hready
          subst hthread
          omega
        · rw [hothers thread hthread] at hinside
          have hlt := hbegan thread hinside
          omega
      · have hsame : mid.tick.began thread = s.began thread := congrFun hbegan' thread
        by_cases hthread : thread = t
        · subst hthread
          rcases hanswer hanswers with hold | hnow
          · obtain ⟨u, hu, hduring, hu'⟩ := hreason thread hold
            refine ⟨u, List.mem_cons_of_mem _ hu, ⟨?_, hduring.2⟩, hu'⟩
            rw [hsame]
            exact hduring.1
          · refine ⟨s, List.mem_cons_self, ⟨?_, hready⟩, hnow⟩
            rw [hsame]
            exact hbegan thread hready
        · exact hkept _ thread (hothers thread hthread) hsame hanswers

/-! ### What a pop sees when it says that the queue is empty -/

section Ring

variable {q : Queue α} {l : Log ι α} {f : Fronts} {reserved : ℕ}

omit [DecidableEq ι] in
/-- A value of `reserved` that agrees with `committed` in the version and in an index below the
block size is the present one. -/
theorem reserved_eq_of_committed (hs : Ring p q l f) (hsaw : Saw p q head reserved)
    (hversion : p.version reserved = p.version (q.committed (p.block head)))
    (hindex : p.index reserved = p.index (q.committed (p.block head))) :
    q.reserved (p.block head) = reserved := by
  obtain ⟨hhead, hleft, hle⟩ := hsaw
  have hfronts := hs.fronts
  have htaken := hs.taken
  obtain ⟨r, hr, hmod, hround, -⟩ := hs.exists_reserved hhead
  have hword : q.reserved (r % p.numBlocks) =
      p.cursorAt r (min p.blockSize (l.taken p - r * p.blockSize)) := hs.reserved r hr
  obtain ⟨rc, hrc, hround'⟩ := exists_round (Nat.mod_lt head p.numBlocks_pos) hfronts.2.1
  have hmodc : rc % p.numBlocks = p.block head := hround'.trans (p.block_eq head).symm
  have hwordc : q.committed (rc % p.numBlocks) =
      p.cursorAt rc (roundCount p.blockSize (l.Written p) rc) := hs.committed rc hrc
  rw [hmodc] at hwordc
  rw [hmod] at hword
  rw [hwordc, Params.version_cursorAt Ring.count_lt] at hversion
  rw [hwordc, Params.index_cursorAt Ring.count_lt] at hindex
  have hreserved := Params.eq_cursorAt hversion
  rw [hindex] at hreserved hleft
  have hr1 := Ring.one_le hfronts.2.2.1 hr
  have hrc1 := Ring.one_le hfronts.2.1 hrc
  have htop : r * p.blockSize ≤ f.reserved * p.blockSize := Nat.mul_le_mul_right _ hr.1
  rcases Nat.lt_trichotomy rc r with hlt | heq | hlt
  · have hfull : roundCount p.blockSize (l.Written p) rc = p.blockSize := by
      refine roundCount_eq_size_iff.mpr fun i hi ↦ hs.written_of_taken _ ?_
      have hless : rc * p.blockSize + p.blockSize ≤ r * p.blockSize := Ring.succ_mul_le hlt
      omega
    omega
  · subst heq
    have hcount : min p.blockSize (l.taken p - rc * p.blockSize) ≤
        roundCount p.blockSize (l.Written p) rc := by
      refine le_roundCount (Nat.min_le_left _ _) fun j hj ↦ hs.written_of_taken _ ?_
      omega
    rw [hword, hreserved] at hle
    rw [hword, hreserved]
    unfold Params.cursorAt at hle ⊢
    omega
  · have hgreater : q.reserved (p.block head) < reserved := by
      rw [hword, hreserved]
      exact Params.cursorAt_lt hr1 (hmod.trans hmodc.symm) hlt Ring.min_lt
    omega

omit [DecidableEq ι] in
/-- A pop that finds `committed` where `reserved` is, and no slot written in a block that the pops
have not entered, sees an empty queue. -/
theorem lt_taken_of_committed (hs : Ring p q l f) (hsaw : Saw p q head reserved)
    (hversion : p.version reserved = p.version (q.committed (p.block head)))
    (hindex : p.index reserved = p.index (q.committed (p.block head)))
    (hothers : ∀ b, b < p.numBlocks → b ≠ p.block head →
      p.index (q.committed b) = 0 ∨ p.version (q.committed b) ≤ p.version (q.reserved b))
    (hk : l.Written p k) : k < l.taken p := by
  by_contra hge
  have hn := p.numBlocks_pos
  have hsize := p.blockSize_pos
  have hsame := reserved_eq_of_committed hs hsaw hversion hindex
  obtain ⟨htaken, hblock, hwindow, hcommitted⟩ := round_of_saw hs hsaw hsame
  have hfront : f.reserved = l.taken p / p.blockSize := by
    have hnext := (hs.reserved_of_lt hsaw.1 (hsame.symm ▸ hsaw.2.1)).2
    rw [hsame] at hnext
    exact ((ticket_eq hsize hsaw.2.1).mp hnext.symm).1
  rw [hcommitted] at hindex
  have hslot := Nat.mod_lt k hsize
  have hticket := (ticket_eq hsize hslot).mpr ⟨rfl, rfl⟩
  rcases Nat.lt_or_ge (l.taken p / p.blockSize) (k / p.blockSize) with hlater | hsooner
  · have hread : ¬ l.Read p k := fun h ↦ hge (hs.read_lt k h)
    obtain ⟨hle, hlt⟩ := hs.inWindow (hs.written_lt k hk) hread
    have hproducer := hs.producer.2.1
    have hround : InWindow p.numBlocks f.committed (k / p.blockSize) := ⟨by omega, hlt⟩
    have hword : q.committed (k / p.blockSize % p.numBlocks) = p.cursorAt (k / p.blockSize)
        (roundCount p.blockSize (l.Written p) (k / p.blockSize)) := hs.committed _ hround
    have hother : k / p.blockSize % p.numBlocks ≠ p.block head := by
      intro heq
      have hcoincide := hround.eq_of_mod hwindow (heq.trans hblock.symm)
      omega
    obtain ⟨r, hr, hmod⟩ := exists_round (Nat.mod_lt (k / p.blockSize) hn) hs.fronts.2.2.1
    have hword' : q.reserved (r % p.numBlocks) =
        p.cursorAt r (min p.blockSize (l.taken p - r * p.blockSize)) := hs.reserved r hr
    rw [hmod] at hword'
    rcases hothers _ (Nat.mod_lt _ hn) hother with hzero | hentered
    · rw [hword, Params.index_cursorAt Ring.count_lt] at hzero
      have hsome : 0 + 1 ≤ roundCount p.blockSize (l.Written p) (k / p.blockSize) := by
        refine Finset.card_pos.mpr ⟨k % p.blockSize, ?_⟩
        refine Finset.mem_filter.mpr ⟨Finset.mem_range.mpr hslot, ?_⟩
        rwa [hticket]
      omega
    · rw [hword, hword', Params.version_cursorAt Ring.count_lt,
        Params.version_cursorAt Ring.min_lt] at hentered
      have hless := Params.version_lt_of_lt (Ring.one_le hs.fronts.2.2.1 hr) hmod
        (by have hle := hr.1; omega)
      omega
  · have hround : k / p.blockSize = l.taken p / p.blockSize :=
      Nat.le_antisymm hsooner (Nat.div_le_div_right (Nat.not_lt.mp hge))
    rw [hround] at hticket
    have hlt : k % p.blockSize < p.index reserved := by
      refine lt_of_roundCount_le (Nat.le_of_lt hsaw.2.1) (fun j hj ↦ ?_) (Nat.le_of_eq hindex.symm)
        hslot (by rwa [hticket])
      refine hs.written_of_taken _ ?_
      omega
    omega

omit [DecidableEq ι] in
/-- A pop that has used up the round of its head, with the producers not in the next one, sees an
empty queue. -/
theorem lt_taken_of_usedUp (hs : Ring p q l f) (hused : UsedUp p q l head)
    (hversion : p.version (q.committed (p.nextBlock head)) ≤ p.headVersion head)
    (hk : l.Written p k) : k < l.taken p := by
  have hn := p.numBlocks_pos
  have hfront : f.committed < head + 1 + p.numBlocks := by
    by_contra hle
    obtain ⟨r, hr, hmod, hround⟩ : ∃ r, InWindow p.numBlocks f.committed r ∧
        r % p.numBlocks = (head + 1 + p.numBlocks) % p.numBlocks ∧ head + 1 + p.numBlocks ≤ r :=
      exists_inWindow hn (by omega)
    rw [Nat.add_mod_right] at hmod
    have hword : q.committed (r % p.numBlocks) =
        p.cursorAt r (roundCount p.blockSize (l.Written p) r) := hs.committed r hr
    rw [hmod] at hword
    rw [Params.nextBlock_eq, Params.headVersion_eq, hword,
      Params.version_cursorAt Ring.count_lt] at hversion
    have hlater := (Params.version_eq_iff (by omega) hmod).2.mpr hround
    omega
  have hgiven := hs.given.2
  have hproducer := hs.producer
  have htop : f.allocated * p.blockSize ≤ (head + p.numBlocks) * p.blockSize :=
    Nat.mul_le_mul_right _ (by omega)
  have hlt := hs.written_lt k hk
  have htaken := hused.2
  omega

end Ring

/-! ### How a thread comes to an answer -/

/-- The thread has said `Full` or `Empty`, or is about to compare `reserved` with the `consumed`
that it has read. -/
def Pc.speaks : Pc α → Bool
  | .ready (some (.pushed .full)) => true
  | .ready (some (.popped .empty _)) => true
  | .checkReserved _ _ => true
  | _ => false

/-- The ways to such a point. -/
inductive Speaks (p : Params) (s s' : State ι α) (t : ι) : Prop
  | silent (h : (s'.pc t).speaks = false)
  | looks (value : α) (head : ℕ) (hpc : s.pc t = .checkConsumed value head)
      (hround : ¬ (p.version (s.queue.consumed (p.nextBlock head)) = p.headVersion head ∧
        p.index (s.queue.consumed (p.nextBlock head)) = p.blockSize))
      (hversion : p.version (s.queue.consumed (p.nextBlock head)) ≤ p.headVersion head)
      (hpc' : s'.pc t = .checkReserved (p.nextBlock head) (s.queue.consumed (p.nextBlock head)))
  | full (next consumed : ℕ) (hpc : s.pc t = .checkReserved next consumed)
      (hindex : p.index (s.queue.reserved next) = p.index consumed)
      (hpc' : s'.pc t = .ready (some (.pushed .full)))
  | empty (head reserved : ℕ) (hpc : s.pc t = .checkCommitted head reserved)
      (hindex : p.index reserved = p.index (s.queue.committed (p.block head)))
      (hpc' : s'.pc t = .ready (some (.popped .empty none)))
  | emptyNext (head : ℕ) (hpc : s.pc t = .checkNext head)
      (hversion : p.version (s.queue.committed (p.nextBlock head)) ≠ p.headVersion head + 1)
      (hpc' : s'.pc t = .ready (some (.popped .empty none)))

omit [DecidableEq ι] in
theorem Target.next_silent (call : Call α) (target : Target) :
    (target.next call head).speaks = false := by
  cases target <;> rfl

omit [DecidableEq ι] in
theorem Params.raised_silent (p : Params) (width : Width) (call : Call α) (head : ℕ)
    (target : Target) (word : ℕ) : (p.raised width call head target word).speaks = false := by
  unfold Params.raised
  split_ifs
  · rfl
  · exact target.next_silent call

omit [DecidableEq ι] in
theorem Params.reserving_silent (p : Params) (head reserved : ℕ) :
    (p.reserving head reserved : Pc α).speaks = false := by
  unfold Params.reserving
  split_ifs <;> rfl

theorem speaks_advance {spurious : Bool} (h : s.advance p .unbounded t spurious = some s') :
    Speaks p s s' t := by
  have hsilent {u : State ι α} {pc : Pc α} (hpc : pc.speaks = false) :
      Speaks p s (u.goto t pc) t :=
    .silent (by simpa [State.goto] using hpc)
  have hleave {u : State ι α} {result : Result α}
      (hresult : (Pc.ready (some result)).speaks = false) : Speaks p s (u.leave t result) t :=
    .silent (by simpa [State.leave] using hresult)
  cases hpc : s.pc t with
  | ready last => simp [State.advance, hpc] at h
  | loadHead call =>
    cases call <;>
    · simp only [State.advance, hpc, Option.some.injEq] at h
      exact h ▸ hsilent rfl
  | peek value head =>
    simp only [State.advance, hpc] at h
    split_ifs at h <;> exact Option.some.inj h ▸ hsilent rfl
  | add value head =>
    simp only [State.advance, hpc, Option.some.injEq, State.fetchAdd] at h
    subst h
    split_ifs <;> exact hsilent rfl
  | write value block slot =>
    simp only [State.advance, hpc, Option.some.injEq] at h
    exact h ▸ hsilent rfl
  | commit value block slot =>
    simp only [State.advance, hpc, Option.some.injEq] at h
    exact h ▸ hleave rfl
  | checkConsumed value head =>
    simp only [State.advance, hpc, Option.some.injEq, State.checkConsumed] at h
    subst h
    split_ifs with hfull
    · refine .looks value head hpc hfull.1 (Nat.not_lt.mp hfull.2) ?_
      simp [State.goto]
    · exact hsilent rfl
  | checkReserved next consumed =>
    simp only [State.advance, hpc, Option.some.injEq] at h
    subst h
    split_ifs with hindex
    · refine .full next consumed hpc hindex ?_
      simp [State.leave]
    · exact hleave rfl
  | raise call head target current =>
    cases current with
    | none =>
      simp only [State.advance, hpc, Option.some.injEq] at h
      exact h ▸ hsilent (p.raised_silent _ _ _ _ _)
    | some current =>
      simp only [State.advance, hpc, Option.some.injEq, State.raise] at h
      subst h
      split_ifs
      · exact hsilent (target.next_silent call)
      · exact hsilent (p.raised_silent _ _ _ _ _)
  | reserve head =>
    simp only [State.advance, hpc, Option.some.injEq] at h
    exact h ▸ hsilent (p.reserving_silent _ _)
  | checkCommitted head reserved =>
    simp only [State.advance, hpc, Option.some.injEq, State.checkCommitted] at h
    subst h
    split_ifs with hindex
    · refine .empty head reserved hpc hindex ?_
      simp [State.leave]
    · exact hsilent rfl
    · exact hsilent rfl
  | checkAllocated head reserved committed =>
    simp only [State.advance, hpc] at h
    split_ifs at h
    · exact Option.some.inj h ▸ hleave rfl
    · exact Option.some.inj h ▸ hsilent rfl
  | swap head reserved =>
    simp only [State.advance, hpc, Option.some.injEq, State.swap] at h
    subst h
    split_ifs
    · exact hsilent rfl
    · exact hsilent (p.reserving_silent _ _)
  | read block reserved =>
    simp only [State.advance, hpc, Option.some.injEq] at h
    exact h ▸ hsilent rfl
  | consume block reserved out =>
    simp only [State.advance, hpc, Option.some.injEq] at h
    exact h ▸ hleave rfl
  | checkNext head =>
    simp only [State.advance, hpc, Option.some.injEq, State.checkNext] at h
    subst h
    split_ifs with hversion
    · refine .emptyNext head hpc hversion ?_
      simp [State.leave]
    · exact hsilent rfl

/-! ### Empty -/

/-- `fetch_add` on `allocated` does not carry into the version. -/
def State.staysInField (p : Params) (s : State ι α) (t : ι) : Bool :=
  match s.pc t with
  | .add _ head => p.index (s.queue.allocated (p.block head)) + 1 < 2 ^ p.cursorBits
  | _ => true

/-- Where `pop` is about to say `Empty` for an index of `committed` that equals that of `reserved`,
the versions are equal too and no push has returned in a block that the pops have not entered; where
it looks at the next block, the producers are not a round ahead of it. -/
def State.popSees (p : Params) (s : State ι α) (t : ι) : Bool :=
  match s.pc t with
  | .checkCommitted head reserved =>
    p.index reserved = p.index (s.queue.committed (p.block head)) →
      p.version reserved = p.version (s.queue.committed (p.block head)) ∧
        ∀ b, b < p.numBlocks → b ≠ p.block head → p.index (s.queue.committed b) = 0 ∨
          p.version (s.queue.committed b) ≤ p.version (s.queue.reserved b)
  | .checkNext head =>
    p.version (s.queue.committed (p.nextBlock head)) ≤ p.headVersion head + 1
  | _ => true

/-- The condition on the steps of a run under which `Empty` can be relied on. -/
def popsSee (p : Params) (s : State ι α) : Action ι α → Bool
  | .call _ _ => true
  | .advance t _ => s.staysInField p t && s.popSees p t

omit [DecidableEq ι] in
theorem State.room_of_staysInField (h : s.staysInField p t = true) (value : α) (head : ℕ)
    (hpc : s.pc t = .add value head) :
    p.index (s.queue.allocated (p.block head)) + 1 < 2 ^ p.cursorBits := by
  simpa [State.staysInField, hpc] using h

omit [DecidableEq ι] in
theorem Sound.tick (hs : Sound p s) : Sound p s.tick :=
  hs

omit [DecidableEq ι] in
/-- A queue whose written tickets are all reserved has no value behind an unwritten slot. -/
theorem allReserved_of_lt {f : Fronts} (hs : Ring p s.queue s.log f)
    (h : ∀ k, s.log.Written p k → k < s.log.taken p) : s.AllReserved ∧ ¬ s.Blocked := by
  have hreserved : s.AllReserved := by
    intro entry hentry
    have hwritten : s.log.Written p (p.base + entry.1) := by
      refine .inr ?_
      rw [Nat.add_sub_cancel_left]
      exact List.mem_map_of_mem hentry
    have hlt := h _ hwritten
    unfold Log.taken at hlt
    omega
  refine ⟨hreserved, ?_⟩
  rintro ⟨j, k, hjk, -, hopen, hk⟩
  obtain ⟨entry, hentry, rfl⟩ := List.mem_map.mp hk
  have hlt := hreserved entry hentry
  refine hopen (mem_returned_of_written (p := p) (hs.written_of_taken _ ?_))
  unfold Log.taken
  omega

/-- The step with which a pop says `Empty` is taken in a state in which that is true. -/
theorem empty_advance (hs : Sound p s) (hsees : s.popSees p t = true) {spurious : Bool}
    (h : s.advance p .unbounded t spurious = some s') {out : Option α}
    (hpc' : s'.pc t = .ready (some (.popped .empty out))) : s.AllReserved ∧ ¬ s.Blocked := by
  obtain ⟨f, hring, hfits⟩ := hs
  have hknows := hfits t
  cases speaks_advance h with
  | silent hsilent =>
    rw [hpc'] at hsilent
    cases hsilent
  | looks value head hpc hround hversion hpc'' =>
    rw [hpc'] at hpc''
    cases hpc''
  | full next consumed hpc hindex hpc'' =>
    rw [hpc'] at hpc''
    cases hpc''
  | empty head reserved hpc hindex hpc'' =>
    rw [hpc] at hknows
    simp only [State.popSees, hpc, decide_eq_true_eq] at hsees
    obtain ⟨hversion, hothers⟩ := hsees hindex
    exact allReserved_of_lt hring fun k hk ↦
      lt_taken_of_committed hring hknows hversion hindex hothers hk
  | emptyNext head hpc hversion hpc'' =>
    rw [hpc] at hknows
    simp only [State.popSees, hpc, decide_eq_true_eq] at hsees
    exact allReserved_of_lt hring fun k hk ↦
      lt_taken_of_usedUp hring hknows (by omega) hk

/-- In every run whose steps meet the condition, a pop that returned `Empty` has an instant during
its call at which every value whose push had returned was reserved, and none sat behind a slot that
was given out and not written. -/
theorem empty_only_when_reserved {past : List (State ι α)}
    (hs : (system ι α p .unbounded).HistoryUnder (fun s a ↦ popsSee p s a = true) past s)
    {out : Option α} (hresult : s.lastResult t = some (.popped .empty out)) :
    ∃ u ∈ past, During s u t ∧ u.AllReserved ∧ ¬ u.Blocked := by
  refine (reasoned_of_history (Sound p) (fun pc ↦ ∃ out, pc = .ready (some (.popped .empty out)))
    (fun u ↦ u.AllReserved ∧ ¬ u.Blocked) sound_initial (by simp) (by simp) ?_ ?_ hs).reason t
      ⟨out, State.pc_of_lastResult hresult⟩
  · intro s t call s' hsound hcall
    exact (sound_call hsound hcall).tick
  · intro s t spurious s' hsound hgood hadvance
    simp only [popsSee, Bool.and_eq_true] at hgood
    refine ⟨(sound_advance hsound (State.room_of_staysInField hgood.1) hadvance).tick, ?_⟩
    rintro ⟨out, hpc'⟩
    exact .inr (empty_advance hsound hgood.2 hadvance hpc')

/-- A push stops before it writes its slot, another goes on to the next block and returns, and a pop
looks at the first block. -/
def popBehindUnwritten : List (Action (Fin 3) ℕ) :=
  [.call 0 (.push 7), .advance 0 false, .advance 0 false, .advance 0 false,
    .call 1 (.push 8), .advance 1 false, .advance 1 false, .advance 1 false, .advance 1 false,
    .advance 1 false, .advance 1 false, .advance 1 false, .advance 1 false, .advance 1 false,
    .advance 1 false, .advance 1 false, .advance 1 false, .advance 1 false, .advance 1 false,
    .call 2 .pop, .advance 2 false, .advance 2 false, .advance 2 false]

/-- A pop says `Empty` although a push has returned before it began and nobody reserves its value.
-/
theorem empty_behind_unwritten :
    ∃ past s, (system (Fin 3) ℕ twoBlocks .unbounded).HistoryUnder (fun _ _ ↦ True) past s ∧
      s.lastResult 2 = some (.popped .empty none) ∧
      ∀ u ∈ past, During s u 2 → ¬ u.AllReserved := by
  let record := ((system (Fin 3) ℕ twoBlocks .unbounded).recordUnder (fun _ _ ↦ true) []
    (initial twoBlocks .unbounded) popBehindUnwritten).get (by decide +kernel)
  have hrecord : (system (Fin 3) ℕ twoBlocks .unbounded).HistoryUnder (fun _ _ ↦ true = true)
      record.1 record.2 := System.historyUnder_of_record rfl (Option.some_get _).symm
  exact ⟨record.1, record.2, hrecord.mono fun _ _ _ ↦ trivial, by decide +kernel,
    by decide +kernel⟩

/-- A push and a pop, and a second pop that finds nothing. -/
def popAfterPop : List (Action (Fin 2) ℕ) :=
  [.call 0 (.push 7), .advance 0 false, .advance 0 false, .advance 0 false, .advance 0 false,
    .advance 0 false, .call 1 .pop, .advance 1 false, .advance 1 false, .advance 1 false,
    .advance 1 false, .advance 1 false, .advance 1 false,
    .call 1 .pop, .advance 1 false, .advance 1 false, .advance 1 false]

theorem empty_only_when_reserved_popAfterPop :
    ∃ past s, (system (Fin 2) ℕ twoBlocks .unbounded).HistoryUnder
        (fun s a ↦ popsSee twoBlocks s a = true) past s ∧
      s.log.returned.map Prod.fst = [0] ∧ s.lastResult 1 = some (.popped .empty none) ∧
      ∃ u ∈ past, During s u 1 ∧ u.AllReserved ∧ ¬ u.Blocked := by
  let record := ((system (Fin 2) ℕ twoBlocks .unbounded).recordUnder (popsSee twoBlocks) []
    (initial twoBlocks .unbounded) popAfterPop).get (by decide +kernel)
  have hrecord : (system (Fin 2) ℕ twoBlocks .unbounded).HistoryUnder
      (fun s a ↦ popsSee twoBlocks s a = true) record.1 record.2 :=
    System.historyUnder_of_record rfl (Option.some_get _).symm
  have hresult : record.2.lastResult 1 = some (.popped .empty none) := by decide +kernel
  exact ⟨record.1, record.2, hrecord, by decide +kernel, hresult,
    empty_only_when_reserved hrecord hresult⟩

/-! ### Full -/

omit [DecidableEq ι] in
/-- Slots that no pop has reserved were not left by one. -/
theorem le_outstanding {f : Fronts} (hs : Ring p s.queue s.log f) {c : ℕ}
    (hc : s.log.taken p + c ≤ s.log.given p) : c ≤ s.outstanding := by
  unfold Log.taken Log.given at hc
  have hsubset : (Finset.range s.log.pushes.length \ Finset.range s.log.pops.length) ⊆
      (Finset.range s.log.pushes.length).filter fun k ↦ k ∉ s.log.popped.map Prod.fst := by
    intro k hk
    obtain ⟨hgiven, hopen⟩ := Finset.mem_sdiff.mp hk
    refine Finset.mem_filter.mpr ⟨hgiven, fun hpopped ↦ hopen (Finset.mem_range.mpr ?_)⟩
    have hread : s.log.Read p (p.base + k) := by
      refine .inr ?_
      rwa [Nat.add_sub_cancel_left]
    have hlt := hs.read_lt _ hread
    unfold Log.taken at hlt
    omega
  have hcard := Finset.card_le_card hsubset
  have hsize := Finset.le_card_sdiff (Finset.range s.log.pops.length)
    (Finset.range s.log.pushes.length)
  rw [Finset.card_range, Finset.card_range] at hsize
  unfold State.outstanding
  omega

section Ring

variable {q : Queue α} {l : Log ι α} {f : Fronts}

theorem Params.rounds_eq (p : Params) (head : ℕ) : (head + p.numBlocks) * p.blockSize =
    head * p.blockSize + p.blockSize + p.capacity := by
  have hn := p.numBlocks_pos
  have hsplit : head + p.numBlocks = head + 1 + (p.numBlocks - 1) := by omega
  unfold Params.capacity
  rw [hsplit, Nat.add_mul, Nat.add_mul, Nat.one_mul]

omit [DecidableEq ι] in
/-- A push that finds `consumed` of the next block in an older round, with its own round given out,
sees a queue without a slot for it. -/
theorem taken_le_of_consumed (hs : Ring p q l f) (hgiven : GivenOut p q l head)
    (hversion : p.version (q.consumed (p.nextBlock head)) < p.headVersion head) :
    l.taken p + (p.capacity + 1) ≤ l.given p := by
  have hn := p.numBlocks_pos
  have hsize := p.blockSize_pos
  have hfront : f.consumed < head + 1 := by
    by_contra hle
    obtain ⟨r, hr, hmod, hround⟩ : ∃ r, InWindow p.numBlocks f.consumed r ∧
        r % p.numBlocks = (head + 1) % p.numBlocks ∧ head + 1 ≤ r :=
      exists_inWindow hn (by omega)
    have hword : q.consumed (r % p.numBlocks) =
        p.cursorAt r (roundCount p.blockSize (l.Read p) r) := hs.consumed r hr
    rw [hmod] at hword
    rw [Params.nextBlock_eq, Params.headVersion_eq, hword,
      Params.version_cursorAt Ring.count_lt] at hversion
    have hle : head / p.numBlocks ≤ (r - 1) / p.numBlocks := Nat.div_le_div_right (by omega)
    omega
  have htaken := hs.taken.2
  have hconsumer := hs.consumer
  have hbound : f.reserved * p.blockSize + p.blockSize ≤ (head + 1) * p.blockSize :=
    Ring.succ_mul_le (by omega)
  have hrounds := p.rounds_eq head
  rw [Nat.add_mul, Nat.one_mul] at hbound
  have hout := hgiven.2
  omega

omit [DecidableEq ι] in
/-- A push that finds slots left in `reserved` of the next block, in the round before that of its
head or an older one, sees a queue without a slot for it. -/
theorem taken_le_of_reserved (hs : Ring p q l f)
    (hgiven : (head + p.numBlocks) * p.blockSize + p.blockSize ≤ l.given p)
    (hversion : p.version (q.reserved (p.nextBlock head)) ≤ p.headVersion head)
    (hindex : p.index (q.reserved (p.nextBlock head)) < p.blockSize) :
    l.taken p + (p.capacity + 1) ≤ l.given p := by
  have hn := p.numBlocks_pos
  have hfronts := hs.fronts
  obtain ⟨r, hr, hmod⟩ := exists_round (Nat.mod_lt (head + 1) hn) hfronts.2.2.1
  have hword : q.reserved (r % p.numBlocks) =
      p.cursorAt r (min p.blockSize (l.taken p - r * p.blockSize)) := hs.reserved r hr
  rw [hmod] at hword
  rw [Params.nextBlock_eq, Params.headVersion_eq, hword,
    Params.version_cursorAt Ring.min_lt] at hversion
  rw [Params.nextBlock_eq, hword, Params.index_cursorAt Ring.min_lt] at hindex
  have hround : r ≤ head + 1 := by
    by_contra hgt
    have hstep := Params.version_lt_of_lt (r := head + 1) (by omega) hmod.symm (by omega)
    rw [Nat.add_sub_cancel] at hstep
    omega
  have hbound : r * p.blockSize ≤ (head + 1) * p.blockSize := Nat.mul_le_mul_right _ hround
  have hrounds := p.rounds_eq head
  rw [Nat.add_mul, Nat.one_mul] at hbound
  omega

end Ring

/-- Where `push` is about to say `Full` for an index of `reserved` that equals that of `consumed`,
the versions are equal too, unless `consumed` was used up in an older round. -/
def State.pushSees (p : Params) (s : State ι α) (t : ι) : Bool :=
  match s.pc t with
  | .checkReserved next consumed =>
    p.index (s.queue.reserved next) = p.index consumed →
      p.version (s.queue.reserved next) = p.version consumed ∨ p.index consumed = p.blockSize
  | _ => true

/-- The condition on the steps of a run under which `Full` can be relied on. -/
def pushesSee (p : Params) (s : State ι α) : Action ι α → Bool
  | .call _ _ => true
  | .advance t _ => s.staysInField p t && s.pushSees p t

/-- A push that is about to compare `reserved` with `consumed` has seen the round of its head given
out, and `consumed` no further than in the round before. -/
def Looked (p : Params) (s : State ι α) : Prop :=
  ∀ t next consumed, s.pc t = .checkReserved next consumed → ∃ head, next = p.nextBlock head ∧
    (head + p.numBlocks) * p.blockSize + p.blockSize ≤ s.log.given p ∧
    p.version consumed ≤ p.headVersion head ∧ p.index consumed ≤ p.blockSize

omit [DecidableEq ι] in
theorem Looked.tick (hs : Looked p s) : Looked p s.tick :=
  hs

omit [DecidableEq ι] in
theorem index_consumed_le {f : Fronts} (hs : Ring p s.queue s.log f) (head : ℕ) :
    p.index (s.queue.consumed (p.nextBlock head)) ≤ p.blockSize := by
  obtain ⟨r, hr, hmod⟩ := exists_round (Nat.mod_lt (head + 1) p.numBlocks_pos) hs.fronts.2.2.2
  have hword : s.queue.consumed (r % p.numBlocks) =
      p.cursorAt r (roundCount p.blockSize (s.log.Read p) r) := hs.consumed r hr
  rw [Params.nextBlock_eq, ← hmod, hword, Params.index_cursorAt Ring.count_lt]
  exact roundCount_le

theorem given_le_of_logs (h : Logs s s' t) : s.log.given p ≤ s'.log.given p := by
  cases h with
  | quiet hlog => rw [hlog]
  | allocate value hlog => rw [hlog]; simp [Log.given, State.allocate]
  | commit value block slot hpc hlog => rw [hlog]; simp [Log.given, State.returnOk]
  | reserve hlog => rw [hlog]; simp [Log.given, State.reserve]
  | deliver block reserved out hpc hlog => rw [hlog]; simp [Log.given, State.deliver]

theorem looked_advance (hs : Looked p s) (hsound : Sound p s) {spurious : Bool}
    (h : s.advance p .unbounded t spurious = some s') : Looked p s' := by
  obtain ⟨f, hring, hfits⟩ := hsound
  obtain ⟨hlogs, -, -, -, hothers⟩ := logs_advance h
  have hgiven : s.log.given p ≤ s'.log.given p := given_le_of_logs hlogs
  intro thread next consumed hpc'
  by_cases hthread : thread = t
  · subst hthread
    cases speaks_advance h with
    | silent hsilent =>
      rw [hpc'] at hsilent
      cases hsilent
    | looks value head hpc hround hversion hpc'' =>
      obtain ⟨rfl, rfl⟩ := Pc.checkReserved.inj (hpc'.symm.trans hpc'')
      have hknows := hfits thread
      rw [hpc] at hknows
      exact ⟨head, rfl, hknows.2.trans hgiven, hversion, index_consumed_le hring head⟩
    | full next consumed hpc hindex hpc'' =>
      rw [hpc'] at hpc''
      cases hpc''
    | empty head reserved hpc hindex hpc'' =>
      rw [hpc'] at hpc''
      cases hpc''
    | emptyNext head hpc hversion hpc'' =>
      rw [hpc'] at hpc''
      cases hpc''
  · rw [hothers thread hthread] at hpc'
    obtain ⟨head, hnext, hout, hold⟩ := hs thread next consumed hpc'
    exact ⟨head, hnext, hout.trans hgiven, hold⟩

theorem looked_call (hs : Looked p s) {call : Call α} (h : s.call t call = some s') :
    Looked p s' := by
  unfold State.call at h
  split at h
  case h_2 => cases h
  obtain rfl := Option.some.inj h
  intro thread next consumed hpc'
  by_cases hthread : thread = t
  · subst hthread
    simp at hpc'
  · simp only [Function.update_of_ne hthread] at hpc'
    exact hs thread next consumed hpc'

/-- A push that is bound to say `Full`. -/
def Pc.saysFull (p : Params) (pc : Pc α) : Prop :=
  pc = .ready (some (.pushed .full)) ∨
    ∃ next consumed, pc = .checkReserved next consumed ∧ p.index consumed = p.blockSize

/-- A push becomes bound to say `Full` in a state in which that is true. -/
theorem full_advance (hs : Sound p s) (hlooked : Looked p s) (hsees : s.pushSees p t = true)
    {spurious : Bool} (h : s.advance p .unbounded t spurious = some s')
    (hpc' : (s'.pc t).saysFull p) :
    (s.pc t).saysFull p ∨ p.capacity + 1 ≤ s.outstanding := by
  obtain ⟨f, hring, hfits⟩ := hs
  have hknows := hfits t
  cases speaks_advance h with
  | silent hsilent =>
    rcases hpc' with hpc' | ⟨next, consumed, hpc', -⟩ <;>
    · rw [hpc'] at hsilent
      cases hsilent
  | looks value head hpc hround hversion hpc'' =>
    rw [hpc''] at hpc'
    rcases hpc' with hpc' | ⟨next, consumed, hpc', hused⟩
    · cases hpc'
    · obtain ⟨-, rfl⟩ := Pc.checkReserved.inj hpc'
      rw [hpc] at hknows
      have hlt : p.version (s.queue.consumed (p.nextBlock head)) < p.headVersion head := by
        refine Nat.lt_of_le_of_ne hversion fun heq ↦ hround ⟨heq, hused⟩
      exact .inr (le_outstanding hring (taken_le_of_consumed hring hknows hlt))
  | full next consumed hpc hindex hpc'' =>
    by_cases hused : p.index consumed = p.blockSize
    · exact .inl (.inr ⟨next, consumed, hpc, hused⟩)
    · simp only [State.pushSees, hpc, decide_eq_true_eq] at hsees
      have hversion := (hsees hindex).resolve_right hused
      obtain ⟨head, rfl, hgiven, hround, hle⟩ := hlooked t next consumed hpc
      refine .inr (le_outstanding hring (taken_le_of_reserved hring hgiven ?_ ?_))
      · rwa [hversion]
      · omega
  | empty head reserved hpc hindex hpc'' =>
    rw [hpc''] at hpc'
    rcases hpc' with hpc' | ⟨next, consumed, hpc', -⟩ <;> cases hpc'
  | emptyNext head hpc hversion hpc'' =>
    rw [hpc''] at hpc'
    rcases hpc' with hpc' | ⟨next, consumed, hpc', -⟩ <;> cases hpc'

/-- In every run whose steps meet the condition, a push that returned `Full` has an instant during
its call at which more slots than the capacity were given out and not left. -/
theorem full_only_when_crowded {past : List (State ι α)}
    (hs : (system ι α p .unbounded).HistoryUnder (fun s a ↦ pushesSee p s a = true) past s)
    (hresult : s.lastResult t = some (.pushed .full)) :
    ∃ u ∈ past, During s u t ∧ p.capacity + 1 ≤ u.outstanding := by
  refine (reasoned_of_history (fun s ↦ Sound p s ∧ Looked p s) (fun pc ↦ pc.saysFull p)
    (fun u ↦ p.capacity + 1 ≤ u.outstanding) ⟨sound_initial, ?_⟩ ?_ ?_ ?_ ?_ hs).reason t
      (.inl (State.pc_of_lastResult hresult))
  · intro t next consumed hpc
    cases hpc
  · simp [Pc.saysFull]
  · simp [Pc.saysFull]
  · rintro s t call s' ⟨hsound, hlooked⟩ hcall
    exact ⟨(sound_call hsound hcall).tick, (looked_call hlooked hcall).tick⟩
  · rintro s t spurious s' ⟨hsound, hlooked⟩ hgood hadvance
    simp only [pushesSee, Bool.and_eq_true] at hgood
    refine ⟨⟨?_, (looked_advance hlooked hsound hadvance).tick⟩, ?_⟩
    · exact (sound_advance hsound (State.room_of_staysInField hgood.1) hadvance).tick
    · exact full_advance hsound hlooked hgood.2 hadvance

/-- Two blocks with two entries each. -/
def twoByTwo : Params where
  numBlocks := 2
  blockSize := 2
  isPowerOfTwo := twoBlocks.isPowerOfTwo
  two_le_numBlocks := twoBlocks.two_le_numBlocks
  blockSize_pos := Nat.two_pos

/-- A thread takes some steps. -/
def goesOn (t : ι) (steps : ℕ) : List (Action ι α) :=
  List.replicate steps (.advance t false)

/-- Two pops overtake one that has not left its slot, a push stops between its two looks, and before
its second one the queue is emptied, goes into its next round and is emptied again. -/
def pushOverRounds : List (Action (Fin 4) ℕ) :=
  .call 3 (.push 1) :: goesOn 3 5 ++ .call 3 (.push 2) :: goesOn 3 5 ++
    .call 1 .pop :: goesOn 1 6 ++ .call 2 .pop :: goesOn 2 5 ++
    .call 3 (.push 3) :: goesOn 3 14 ++ .call 3 (.push 4) :: goesOn 3 5 ++
    .call 1 .pop :: goesOn 1 15 ++ .call 0 (.push 9) :: goesOn 0 3 ++ goesOn 2 1 ++
    .call 1 .pop :: goesOn 1 6 ++ .call 3 (.push 5) :: goesOn 3 14 ++
    .call 1 .pop :: goesOn 1 16 ++ goesOn 0 1

/-- A push says `Full` of an empty queue, which had at most two entries during the call. -/
theorem full_over_rounds :
    ∃ past s, (system (Fin 4) ℕ twoByTwo .unbounded).HistoryUnder (fun _ _ ↦ True) past s ∧
      s.lastResult 0 = some (.pushed .full) ∧ s.outstanding = 0 ∧
      ∀ u ∈ past, During s u 0 → u.outstanding < (2 - 1) * 2 + 1 := by
  let record := ((system (Fin 4) ℕ twoByTwo .unbounded).recordUnder (fun _ _ ↦ true) []
    (initial twoByTwo .unbounded) pushOverRounds).get (by decide +kernel)
  have hrecord : (system (Fin 4) ℕ twoByTwo .unbounded).HistoryUnder (fun _ _ ↦ true = true)
      record.1 record.2 := System.historyUnder_of_record rfl (Option.some_get _).symm
  exact ⟨record.1, record.2, hrecord.mono fun _ _ _ ↦ trivial, by decide +kernel,
    by decide +kernel, by decide +kernel⟩

end Stackfull.Queue.Bbq
