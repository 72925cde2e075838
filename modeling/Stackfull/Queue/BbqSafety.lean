import Stackfull.Queue.BbqSteps

/-!
# The words of the queue in every run

`Sound` joins the ring with what the threads know. The number of threads that are about to add to
`allocated` of a block bounds how far its index can overshoot (`Room`), so with fewer than `2 ^ 10`
threads inside the queue the index never leaves its field. Both are kept by every step.
-/

set_option autoImplicit false
set_option relaxedAutoImplicit false
set_option linter.dupNamespace false

namespace Stackfull.Queue.Bbq

open Stackfull.Lib

universe u v

variable {ι : Type u} {α : Type v} [DecidableEq ι] {p : Params}
variable {s s' : State ι α} {t : ι} {k head : ℕ}

/-! ### The ring and the threads -/

/-- The words are as the log says, and every thread knows what it should. -/
def Sound (p : Params) (s : State ι α) : Prop :=
  ∃ f, Ring p s.queue s.log f ∧ ∀ t, Fits p s.queue s.log f t (s.ticket t) (s.pc t)

/-- One thread moves. -/
theorem Sound.of_grows (t : ι) {f f' : Fronts} (hring : Ring p s.queue s.log f)
    (hfits : ∀ t, Fits p s.queue s.log f t (s.ticket t) (s.pc t))
    (hring' : Ring p s'.queue s'.log f')
    (hgrows : Grows p t s.queue s'.queue s.log s'.log f f')
    (hothers : ∀ thread, thread ≠ t → s'.pc thread = s.pc thread ∧
      s'.ticket thread = s.ticket thread)
    (hfits' : Fits p s'.queue s'.log f' t (s'.ticket t) (s'.pc t)) : Sound p s' := by
  refine ⟨f', hring', fun thread ↦ ?_⟩
  by_cases hthread : thread = t
  · subst hthread
    exact hfits'
  · obtain ⟨hpc, hticket⟩ := hothers thread hthread
    rw [hpc, hticket]
    exact fits_of_grows hring hring' hgrows hthread (hfits thread)

/-- A thread goes on without a change of the queue. -/
theorem Sound.goto {f : Fronts} (hring : Ring p s.queue s.log f)
    (hfits : ∀ t, Fits p s.queue s.log f t (s.ticket t) (s.pc t)) {pc : Pc α}
    (hpc : Fits p s.queue s.log f t (s.ticket t) pc) : Sound p (s.goto t pc) := by
  refine Sound.of_grows t hring hfits hring (Grows.refl p t _ _ f) (fun thread hne ↦ ?_) ?_
  · exact ⟨Function.update_of_ne hne _ _, rfl⟩
  · simpa [State.goto] using hpc

theorem Sound.leave {f : Fronts} (hring : Ring p s.queue s.log f)
    (hfits : ∀ t, Fits p s.queue s.log f t (s.ticket t) (s.pc t)) (result : Result α) :
    Sound p (s.leave t result) := by
  refine Sound.of_grows t hring hfits hring (Grows.refl p t _ _ f) (fun thread hne ↦ ?_) ?_
  · exact ⟨Function.update_of_ne hne _ _, rfl⟩
  · simp [State.leave, Fits]

omit [DecidableEq ι] in
theorem sound_initial : Sound p (initial p .unbounded : State ι α) := by
  have hn := p.numBlocks_pos
  have htwo := p.two_le_numBlocks
  have hsize := p.blockSize_pos
  have hcursor (block : ℕ) : p.initialCursor .unbounded block =
      if block = 0 then 0 else p.blockSize := by
    unfold Params.initialCursor
    rw [PackedCursor.make_eq (by split_ifs <;> have h := p.blockSize_lt <;> omega)]
    simp
  have hround {r : ℕ} (hr : InWindow p.numBlocks p.numBlocks r) (value : ℕ)
      (hvalue : value = if r = p.numBlocks then 0 else p.blockSize) :
      p.initialCursor .unbounded (r % p.numBlocks) = p.cursorAt r value := by
    obtain ⟨hle, hlt⟩ := hr
    have hversion : (r - 1) / p.numBlocks = 0 := Nat.div_eq_of_lt (by omega)
    have hblock : r % p.numBlocks = 0 ↔ r = p.numBlocks := by
      constructor
      · intro hzero
        by_contra hne
        rw [Nat.mod_eq_of_lt (by omega)] at hzero
        omega
      · rintro rfl
        exact Nat.mod_self _
    rw [hcursor, hvalue]
    unfold Params.cursorAt
    simp [hversion, hblock]
  have hfull {r : ℕ} (hr : InWindow p.numBlocks p.numBlocks r) {done : ℕ → Prop}
      [DecidablePred done] (hdone : ∀ k, done k ↔ k < p.base) :
      roundCount p.blockSize done r = if r = p.numBlocks then 0 else p.blockSize := by
    split_ifs with heq
    · subst heq
      refine roundCount_eq_zero fun i hi h ↦ ?_
      have hlt := (hdone _).mp h
      unfold Params.base at hlt
      omega
    · refine roundCount_eq_size_iff.mpr fun i hi ↦ (hdone _).mpr ?_
      have hless : r * p.blockSize + p.blockSize ≤ p.numBlocks * p.blockSize :=
        Ring.succ_mul_le (by have h := hr.1; omega)
      unfold Params.base
      omega
  have hmin {r : ℕ} (hr : InWindow p.numBlocks p.numBlocks r) :
      min p.blockSize (p.base - r * p.blockSize) = if r = p.numBlocks then 0 else p.blockSize := by
    unfold Params.base
    split_ifs with heq
    · subst heq
      omega
    · have hless : r * p.blockSize + p.blockSize ≤ p.numBlocks * p.blockSize :=
        Ring.succ_mul_le (by have h := hr.1; omega)
      omega
  refine ⟨⟨p.numBlocks, p.numBlocks, p.numBlocks, p.numBlocks⟩, ?_, fun t ↦ trivial⟩
  constructor
  · exact ⟨by simp [initial, Queue.initial], Nat.le_refl _, by simp [initial, Queue.initial]⟩
  · exact ⟨by simp [initial, Queue.initial], Nat.le_refl _, by simp [initial, Queue.initial]⟩
  · exact Nat.le_refl _
  · intro k hk
    refine .inl (Nat.lt_of_lt_of_le hk (Nat.mul_le_mul_right _ ?_))
    dsimp only
    omega
  · simp [Log.given, Params.base, initial]
  · simp [Log.taken, Params.base, initial]
  · intro r hr
    have hword := hround hr _ rfl
    have hlt : (if r = p.numBlocks then 0 else p.blockSize) < 2 ^ p.cursorBits := by
      have h := p.blockSize_lt
      split_ifs <;> omega
    simp only [initial, Queue.initial, Log.given, List.length_nil, Nat.add_zero]
    rw [hword, Params.version_cursorAt hlt, Params.index_cursorAt hlt, hmin hr]
    refine ⟨rfl, ?_⟩
    split_ifs <;> omega
  · intro r hr
    exact hround hr _ (hfull hr fun k ↦ by simp [Log.Written, initial])
  · intro r hr
    refine hround hr _ ?_
    simp only [initial, Log.taken, List.length_nil, Nat.add_zero]
    exact hmin hr
  · intro r hr
    exact hround hr _ (hfull hr fun k ↦ by simp [Log.Read, initial])
  · intro k hk
    simpa [Log.Written, Log.given, initial] using hk
  · intro k hk
    simpa [Log.Written, Log.taken, initial] using hk
  · intro k hk
    simpa [Log.Read, Log.taken, initial] using hk
  · intro k push hpush
    simp [initial] at hpush

/-- Threads other than the one that moves stay where they are. -/
theorem sound_fetchAdd (hs : Sound p s) {value : α} (hpc : s.pc t = .add value head)
    (hroom : p.index (s.queue.allocated (p.block head)) + 1 < 2 ^ p.cursorBits) :
    Sound p (s.fetchAdd p .unbounded t value head) := by
  obtain ⟨f, hring, hfits⟩ := hs
  have hhead : head ≤ s.queue.producerHead := by
    have h := hfits t
    rwa [hpc] at h
  unfold State.fetchAdd
  dsimp only
  split_ifs with hindex
  · obtain ⟨hblock, hgiven⟩ := hring.allocated_of_lt hhead hindex
    obtain ⟨hslot, hmod⟩ := Ring.slot_of_round (n := s.log.pushes.length) hgiven hindex
    refine Sound.of_grows t hring hfits (hring.allocate hhead hindex ⟨t, value, s.began t⟩)
      (grows_allocate _) (fun thread hne ↦ ?_) ?_
    · exact ⟨Function.update_of_ne hne _ _, Function.update_of_ne hne _ _⟩
    · simp only [State.goto, State.allocate, Function.update_self, Fits]
      refine ⟨⟨s.began t, ?_⟩, fun hwritten ↦ ?_, (hslot.trans hblock).symm, hmod.symm⟩
      · rw [List.getElem?_append_right (Nat.le_refl _), Nat.sub_self]
        rfl
      · exact Nat.lt_irrefl _ (hring.written_lt _ hwritten)
  · refine Sound.of_grows t hring hfits (hring.overshoot (Nat.not_lt.mp hindex) hroom)
      grows_overshoot (fun thread hne ↦ ?_) ?_
    · exact ⟨Function.update_of_ne hne _ _, rfl⟩
    · simp only [State.goto, Function.update_self, Fits]
      exact ⟨hhead, hring.given_of_ge hhead (Nat.not_lt.mp hindex)⟩

theorem sound_swap (hs : Sound p s) {reserved : ℕ} (hpc : s.pc t = .swap head reserved)
    (spurious : Bool) : Sound p (s.swap p .unbounded t head reserved spurious) := by
  obtain ⟨f, hring, hfits⟩ := hs
  have hknows := hfits t
  rw [hpc] at hknows
  obtain ⟨⟨hhead, hindex, -⟩, hwritten⟩ := hknows
  unfold State.swap
  split_ifs with hswap
  · obtain ⟨rfl, -⟩ := hswap
    obtain ⟨hblock, htaken⟩ := hring.reserved_of_lt hhead hindex
    obtain ⟨hslot, hmod⟩ := Ring.slot_of_round (n := s.log.pops.length) htaken hindex
    refine Sound.of_grows t hring hfits (hring.reserve hhead hindex (hwritten rfl) t)
      grows_reserve (fun thread hne ↦ ?_) ?_
    · exact ⟨Function.update_of_ne hne _ _, Function.update_of_ne hne _ _⟩
    · simp only [State.goto, State.reserve, Function.update_self, Fits]
      refine ⟨?_, fun hread ↦ ?_, (hslot.trans hblock).symm, hmod.symm⟩
      · rw [List.getElem?_append_right (Nat.le_refl _), Nat.sub_self]
        rfl
      · exact Nat.lt_irrefl _ (hring.read_lt _ hread)
  · refine Sound.goto hring hfits ?_
    unfold Params.reserving
    split_ifs with hleft
    · exact ⟨hhead, hleft, Nat.le_refl _⟩
    · exact ⟨hhead, hring.taken_of_ge hhead (Nat.not_lt.mp hleft)⟩

theorem sound_advance (hs : Sound p s) {spurious : Bool}
    (hroom : ∀ value head, s.pc t = .add value head →
      p.index (s.queue.allocated (p.block head)) + 1 < 2 ^ p.cursorBits)
    (h : s.advance p .unbounded t spurious = some s') : Sound p s' := by
  obtain ⟨f, hring, hfits⟩ := id hs
  have hknows := hfits t
  cases hpc : s.pc t with
  | ready last => simp [State.advance, hpc] at h
  | loadHead call =>
    cases call with
    | push value =>
      simp only [State.advance, hpc, Option.some.injEq] at h
      exact h ▸ Sound.goto hring hfits (Nat.le_refl _)
    | pop =>
      simp only [State.advance, hpc, Option.some.injEq] at h
      exact h ▸ Sound.goto hring hfits (Nat.le_refl _)
  | peek value head =>
    simp only [State.advance, hpc] at h
    rw [hpc] at hknows
    split_ifs at h with hindex
    · exact Option.some.inj h ▸ Sound.goto hring hfits hknows
    · refine Option.some.inj h ▸ Sound.goto hring hfits ?_
      exact ⟨hknows, hring.given_of_ge hknows (Nat.not_lt.mp hindex)⟩
  | add value head =>
    simp only [State.advance, hpc, Option.some.injEq] at h
    exact h ▸ sound_fetchAdd hs hpc (hroom value head hpc)
  | write value block slot =>
    simp only [State.advance, hpc, Option.some.injEq] at h
    rw [hpc] at hknows
    obtain ⟨⟨began, hpush⟩, hopen, rfl, hslot⟩ := id hknows
    subst h
    rw [hslot]
    refine Sound.of_grows t hring hfits (hring.write hpush hopen value)
      (grows_write hring hpush rfl hopen value) (fun thread hne ↦ ?_) ?_
    · exact ⟨Function.update_of_ne hne _ _, rfl⟩
    · simp only [State.goto, Function.update_self, Fits]
      refine ⟨hknows, ?_⟩
      simp [Queue.write, hslot]
  | commit value block slot =>
    simp only [State.advance, hpc, Option.some.injEq] at h
    rw [hpc] at hknows
    obtain ⟨⟨⟨began, hpush⟩, hopen, rfl, hslot⟩, hentry⟩ := hknows
    rw [hslot] at hentry
    subst h
    refine Sound.of_grows t hring hfits (hring.commit hpush hopen hentry s.clock)
      (grows_commit hpush rfl s.clock) (fun thread hne ↦ ?_) ?_
    · exact ⟨Function.update_of_ne hne _ _, rfl⟩
    · simp [State.leave, Fits]
  | checkConsumed value head =>
    simp only [State.advance, hpc, Option.some.injEq] at h
    rw [hpc] at hknows
    subst h
    unfold State.checkConsumed
    dsimp only
    split_ifs with hfull
    · exact Sound.goto hring hfits trivial
    · refine Sound.goto hring hfits ⟨⟨hknows, ?_⟩, trivial, by simp⟩
      refine readUpTo_of_consumed hring hknows.1 ?_
      by_contra hneither
      exact hfull (not_or.mp hneither)
  | checkReserved next consumed =>
    simp only [State.advance, hpc, Option.some.injEq] at h
    exact h ▸ Sound.leave hring hfits _
  | raise call head target current =>
    rw [hpc] at hknows
    obtain ⟨hmay, hreached, hcurrent⟩ := hknows
    cases current with
    | none =>
      simp only [State.advance, hpc, Option.some.injEq] at h
      exact h ▸ Sound.goto hring hfits (fits_raised hring hmay hreached)
    | some current =>
      simp only [State.advance, hpc, Option.some.injEq] at h
      subst h
      unfold State.raise
      split_ifs with hswap
      · have hlt := hcurrent current rfl
        rw [← hswap.1] at hlt
        obtain ⟨f', hring', hgrows, hfits'⟩ := raise_ring (t := t) (k := s.ticket t) hring hmay
          hreached hlt
        refine Sound.of_grows t hring hfits hring' hgrows (fun thread hne ↦ ?_) ?_
        · exact ⟨Function.update_of_ne hne _ _, rfl⟩
        · simpa [State.goto] using hfits'
      · exact Sound.goto hring hfits (fits_raised hring hmay hreached)
  | reserve head =>
    simp only [State.advance, hpc, Option.some.injEq] at h
    rw [hpc] at hknows
    refine h ▸ Sound.goto hring hfits ?_
    unfold Params.reserving
    split_ifs with hleft
    · exact ⟨hknows, hleft, Nat.le_refl _⟩
    · exact ⟨hknows, hring.taken_of_ge hknows (Nat.not_lt.mp hleft)⟩
  | checkCommitted head reserved =>
    simp only [State.advance, hpc, Option.some.injEq] at h
    rw [hpc] at hknows
    subst h
    unfold State.checkCommitted
    dsimp only
    split_ifs with hempty hfull
    · exact Sound.leave hring hfits _
    · exact Sound.goto hring hfits ⟨hknows, hfull, fits_checkAllocated hring hknows hempty⟩
    · exact Sound.goto hring hfits ⟨hknows, written_of_full hring hknows (not_not.mp hfull)⟩
  | checkAllocated head reserved committed =>
    simp only [State.advance, hpc] at h
    rw [hpc] at hknows
    obtain ⟨hsaw, -, hcommitted⟩ := hknows
    split_ifs at h with hbusy
    · exact Option.some.inj h ▸ Sound.leave hring hfits _
    · refine Option.some.inj h ▸ Sound.goto hring hfits ⟨hsaw, fun hsame ↦ ?_⟩
      exact written_of_allocated hring hsaw (hcommitted hsame) (not_not.mp hbusy) hsame
  | swap head reserved =>
    simp only [State.advance, hpc, Option.some.injEq] at h
    exact h ▸ sound_swap hs hpc spurious
  | read block reserved =>
    simp only [State.advance, hpc, Option.some.injEq] at h
    rw [hpc] at hknows
    obtain ⟨hpop, hopen, hblock, hslot⟩ := id hknows
    have htaken : p.base + s.ticket t < s.log.taken p := by
      have hlt := (List.getElem?_eq_some_iff.mp hpop).1
      unfold Log.taken
      omega
    have hwritten := hring.written_of_taken _ htaken
    have hgiven := hring.written_lt _ hwritten
    have hlt : s.ticket t < s.log.pushes.length := by
      unfold Log.given at hgiven
      omega
    have hpush := List.getElem?_eq_getElem hlt
    refine h ▸ Sound.goto hring hfits ⟨hknows, _, hpush, ?_⟩
    rw [hblock, hslot]
    exact hring.entries _ _ hpush hwritten hopen
  | consume block reserved out =>
    simp only [State.advance, hpc, Option.some.injEq] at h
    rw [hpc] at hknows
    obtain ⟨⟨hpop, hopen, rfl, -⟩, -⟩ := hknows
    subst h
    refine Sound.of_grows t hring hfits (hring.consume (List.getElem?_eq_some_iff.mp hpop).1 hopen out)
      (grows_consume hpop out) (fun thread hne ↦ ?_) ?_
    · exact ⟨Function.update_of_ne hne _ _, rfl⟩
    · simp [State.leave, Fits]
  | checkNext head =>
    simp only [State.advance, hpc, Option.some.injEq] at h
    rw [hpc] at hknows
    subst h
    unfold State.checkNext
    split_ifs with hversion
    · exact Sound.leave hring hfits _
    · refine Sound.goto hring hfits ⟨⟨hknows, ?_⟩, trivial, by simp⟩
      exact committed_of_version hring (not_not.mp hversion)

theorem sound_call (hs : Sound p s) {call : Call α} (h : s.call t call = some s') : Sound p s' := by
  obtain ⟨f, hring, hfits⟩ := hs
  unfold State.call at h
  split at h
  · obtain rfl := Option.some.inj h
    refine Sound.of_grows t hring hfits hring (Grows.refl p t _ _ f)
      (fun thread hne ↦ ?_) ?_
    · exact ⟨Function.update_of_ne hne _ _, rfl⟩
    · simp [Fits]
  · cases h

/-! ### Room in the index field -/

/-- The thread is in no call. -/
def Pc.isReady : Pc α → Bool
  | .ready _ => true
  | _ => false

/-- The thread is about to add to `allocated` of the block. -/
def Pc.adds (p : Params) (block : ℕ) : Pc α → Bool
  | .add _ head => p.block head == block
  | _ => false

/-- How many threads are about to add to `allocated` of the block. -/
def State.pending (p : Params) (s : State ι α) (block : ℕ) : ℕ :=
  (s.inside.filter fun t ↦ (s.pc t).adds p block = true).card

/-- Few threads are inside, and the index of `allocated` has room for all that will add to it. -/
structure Room (p : Params) (s : State ι α) : Prop where
  inside : ∀ t, t ∈ s.inside ↔ (s.pc t).isReady = false
  few : s.inside.card < 2 ^ overflowBits
  room : ∀ b, p.index (s.queue.allocated b) + s.pending p b ≤ p.blockSize + 2 ^ overflowBits - 2

omit [DecidableEq ι] in
theorem room_initial : Room p (initial p .unbounded : State ι α) := by
  refine ⟨fun t ↦ by simp [initial, Pc.isReady], by simp [initial, overflowBits], fun b ↦ ?_⟩
  have hindex : p.index (p.initialCursor .unbounded b) ≤ p.blockSize := by
    have hlt := p.blockSize_lt
    unfold Params.initialCursor
    rw [PackedCursor.make_eq (by split_ifs <;> omega)]
    rw [Params.index, PackedCursor.index_pack (by split_ifs <;> omega)]
    split_ifs <;> omega
  have hnone : (initial p .unbounded : State ι α).pending p b = 0 := rfl
  rw [hnone]
  simp only [initial, Queue.initial, overflowBits]
  omega

omit [DecidableEq ι] in
theorem Room.room_of_add (hs : Room p s) {value : α} (hpc : s.pc t = .add value head) :
    p.index (s.queue.allocated (p.block head)) + 1 < 2 ^ p.cursorBits := by
  have hmem : t ∈ s.inside.filter fun t ↦ (s.pc t).adds p (p.block head) = true := by
    refine Finset.mem_filter.mpr ⟨(hs.inside t).mpr ?_, ?_⟩
    · rw [hpc]
      rfl
    · simp [hpc, Pc.adds]
  have hpos : 0 < s.pending p (p.block head) := Finset.card_pos.mpr ⟨t, hmem⟩
  have hroom := hs.room (p.block head)
  have hfield := p.blockSize_add_lt
  simp only [overflowBits] at hroom hfield
  omega

omit [DecidableEq ι] in
/-- A thread that is not about to add to a block leaves at most the others. -/
theorem pending_le (hothers : ∀ thread, thread ≠ t → s'.pc thread = s.pc thread)
    (hinside : ∀ thread, thread ≠ t → thread ∈ s'.inside → thread ∈ s.inside) {b : ℕ}
    (hadds : (s'.pc t).adds p b = false) : s'.pending p b ≤ s.pending p b := by
  refine Finset.card_le_card fun thread hmem ↦ ?_
  obtain ⟨hin, hadd⟩ := Finset.mem_filter.mp hmem
  have hne : thread ≠ t := by
    rintro rfl
    rw [hadds] at hadd
    cases hadd
  rw [hothers thread hne] at hadd
  exact Finset.mem_filter.mpr ⟨hinside thread hne hin, hadd⟩

/-- A thread goes on, and no index of `allocated` grows. -/
theorem Room.going (hs : Room p s) (hin : (s.pc t).isReady = false) {pc : Pc α}
    (hpc : s'.pc = Function.update s.pc t pc) (hinside : s'.inside = s.inside)
    (hready : pc.isReady = false) (hadds : ∀ b, pc.adds p b = false)
    (hindex : ∀ b, p.index (s'.queue.allocated b) ≤ p.index (s.queue.allocated b)) :
    Room p s' := by
  refine ⟨fun thread ↦ ?_, by rw [hinside]; exact hs.few, fun b ↦ ?_⟩
  · rw [hinside, hs.inside thread, hpc]
    by_cases hthread : thread = t
    · subst hthread
      rw [Function.update_self, hin, hready]
    · rw [Function.update_of_ne hthread]
  · have hle : s'.pending p b ≤ s.pending p b := by
      refine pending_le (t := t) (fun thread hne ↦ ?_) (fun thread _ hmem ↦ ?_) ?_
      · rw [hpc, Function.update_of_ne hne]
      · rwa [hinside] at hmem
      · rw [hpc, Function.update_self]
        exact hadds b
    have hroom := hs.room b
    have hless := hindex b
    omega

/-- A thread leaves. -/
theorem Room.leaving (hs : Room p s) {result : Option (Result α)}
    (hpc : s'.pc = Function.update s.pc t (.ready result)) (hinside : s'.inside = s.inside.erase t)
    (hindex : s'.queue.allocated = s.queue.allocated) : Room p s' := by
  refine ⟨fun thread ↦ ?_, ?_, fun b ↦ ?_⟩
  · rw [hinside, hpc, Finset.mem_erase, hs.inside thread]
    by_cases hthread : thread = t
    · subst hthread
      simp [Pc.isReady]
    · simp [hthread]
  · have hcard : (s.inside.erase t).card ≤ s.inside.card := Finset.card_erase_le
    rw [hinside]
    exact Nat.lt_of_le_of_lt hcard hs.few
  · have hle : s'.pending p b ≤ s.pending p b := by
      refine pending_le (t := t) (fun thread hne ↦ ?_) (fun thread _ hmem ↦ ?_) ?_
      · rw [hpc, Function.update_of_ne hne]
      · rw [hinside] at hmem
        exact Finset.mem_of_mem_erase hmem
      · rw [hpc, Function.update_self]
        rfl
    have hroom := hs.room b
    rw [hindex]
    omega

/-- A thread that has seen a slot left is about to add. -/
theorem room_peek (hs : Room p s) {value : α} (hin : (s.pc t).isReady = false)
    (hindex : p.index (s.queue.allocated (p.block head)) < p.blockSize) :
    Room p (s.goto t (.add value head)) := by
  refine ⟨fun thread ↦ ?_, hs.few, fun b ↦ ?_⟩
  · simp only [State.goto]
    rw [hs.inside thread]
    by_cases hthread : thread = t
    · subst hthread
      rw [Function.update_self, hin]
      rfl
    · rw [Function.update_of_ne hthread]
  · by_cases hb : p.block head = b
    · subst hb
      have hle : (s.goto t (.add value head)).pending p (p.block head) ≤ s.inside.card :=
        Finset.card_filter_le _ _
      have hfew := hs.few
      have hsize := p.blockSize_pos
      simp only [State.goto, overflowBits] at hfew hle ⊢
      omega
    · have hle : (s.goto t (.add value head)).pending p b ≤ s.pending p b := by
        refine pending_le (t := t) (fun thread hne ↦ ?_) (fun thread _ hmem ↦ ?_) ?_
        · exact Function.update_of_ne hne _ _
        · exact hmem
        · simp [State.goto, Pc.adds, hb]
      have hroom := hs.room b
      simp only [State.goto] at hle ⊢
      omega

/-- `fetch_add` uses the room of the thread that executes it. -/
theorem room_fetchAdd (hs : Room p s) {value : α} (hpc : s.pc t = .add value head) :
    Room p (s.fetchAdd p .unbounded t value head) := by
  have hroom := hs.room_of_add hpc
  obtain ⟨hindex, -⟩ := PackedCursor.add_one_of_lt hroom
  have hshape : ∃ pc : Pc α, (s.fetchAdd p .unbounded t value head).pc =
      Function.update s.pc t pc ∧ pc.isReady = false ∧ ∀ b, pc.adds p b = false := by
    unfold State.fetchAdd
    dsimp only
    split_ifs
    · exact ⟨_, rfl, rfl, fun _ ↦ rfl⟩
    · exact ⟨_, rfl, rfl, fun _ ↦ rfl⟩
  have hinside : (s.fetchAdd p .unbounded t value head).inside = s.inside := by
    unfold State.fetchAdd
    dsimp only
    split_ifs <;> rfl
  have hqueue : (s.fetchAdd p .unbounded t value head).queue =
      s.queue.addAllocated .unbounded (p.block head) := by
    unfold State.fetchAdd
    dsimp only
    split_ifs <;> rfl
  obtain ⟨pc, hpc', hready, hadds⟩ := hshape
  refine ⟨fun thread ↦ ?_, by rw [hinside]; exact hs.few, fun b ↦ ?_⟩
  · rw [hinside, hs.inside thread, hpc']
    by_cases hthread : thread = t
    · subst hthread
      rw [Function.update_self, hready, hpc]
      rfl
    · rw [Function.update_of_ne hthread]
  · have hsubset : ∀ thread, thread ∈ (s.fetchAdd p .unbounded t value head).inside.filter
        (fun thread ↦ ((s.fetchAdd p .unbounded t value head).pc thread).adds p b = true) →
          thread ≠ t ∧ thread ∈ s.inside.filter fun thread ↦ (s.pc thread).adds p b = true := by
      intro thread hmem
      rw [hinside, hpc'] at hmem
      obtain ⟨hin, hadd⟩ := Finset.mem_filter.mp hmem
      have hne : thread ≠ t := by
        rintro rfl
        rw [Function.update_self, hadds] at hadd
        cases hadd
      rw [Function.update_of_ne hne] at hadd
      exact ⟨hne, Finset.mem_filter.mpr ⟨hin, hadd⟩⟩
    have hold := hs.room b
    rw [hqueue]
    simp only [Queue.addAllocated, Width.wrap_unbounded]
    by_cases hb : b = p.block head
    · subst hb
      have hmem : t ∈ s.inside.filter fun thread ↦
          (s.pc thread).adds p (p.block head) = true := by
        refine Finset.mem_filter.mpr ⟨(hs.inside t).mpr ?_, ?_⟩
        · rw [hpc]
          rfl
        · simp [hpc, Pc.adds]
      have hless : (s.fetchAdd p .unbounded t value head).pending p (p.block head) <
          s.pending p (p.block head) := by
        refine Finset.card_lt_card (Finset.ssubset_iff_subset_ne.mpr ⟨?_, fun heq ↦ ?_⟩)
        · exact fun thread h ↦ (hsubset thread h).2
        · exact (hsubset t (heq ▸ hmem)).1 rfl
      rw [Function.update_self]
      simp only [Params.index] at hold hindex ⊢
      rw [hindex]
      omega
    · have hle : (s.fetchAdd p .unbounded t value head).pending p b ≤ s.pending p b :=
        Finset.card_le_card fun thread h ↦ (hsubset thread h).2
      rw [Function.update_of_ne hb]
      omega

omit [DecidableEq ι] in
theorem Params.raised_shape (p : Params) (width : Width) (call : Call α) (head : ℕ)
    (target : Target) (current : ℕ) :
    (p.raised width call head target current).isReady = false ∧
      ∀ b, (p.raised width call head target current).adds p b = false := by
  unfold Params.raised
  split_ifs
  · exact ⟨rfl, fun _ ↦ rfl⟩
  · cases target <;> exact ⟨rfl, fun _ ↦ rfl⟩

omit [DecidableEq ι] in
theorem Params.reserving_shape (p : Params) (α : Type v) (head reserved : ℕ) :
    (p.reserving head reserved : Pc α).isReady = false ∧
      ∀ b, (p.reserving head reserved : Pc α).adds p b = false := by
  unfold Params.reserving
  split_ifs <;> exact ⟨rfl, fun _ ↦ rfl⟩

theorem room_raise (hs : Room p s) (hin : (s.pc t).isReady = false) (call : Call α)
    (target : Target) (current : ℕ) (spurious : Bool) :
    Room p (s.raise p .unbounded t call head target current spurious) := by
  unfold State.raise
  split_ifs
  · have hnext : (target.next call head).isReady = false ∧
        ∀ b, (target.next call head).adds p b = false := by
      cases target <;> exact ⟨rfl, fun _ ↦ rfl⟩
    refine hs.going hin rfl rfl hnext.1 hnext.2 fun b ↦ ?_
    cases target with
    | allocated =>
      simp only [State.goto, Queue.setWord, Params.goal, Params.goal_cursor]
      by_cases hb : b = p.nextBlock head
      · subst hb
        rw [Function.update_self, Params.index_cursorAt (Nat.two_pow_pos _)]
        exact Nat.zero_le _
      · rw [Function.update_of_ne hb]
    | _ => exact Nat.le_refl _
  · obtain ⟨hready, hadds⟩ := p.raised_shape .unbounded call head target
      (s.queue.word p head target)
    exact hs.going hin rfl rfl hready hadds fun _ ↦ Nat.le_refl _

theorem room_advance (hs : Room p s) {spurious : Bool}
    (h : s.advance p .unbounded t spurious = some s') : Room p s' := by
  cases hpc : s.pc t with
  | ready last => simp [State.advance, hpc] at h
  | loadHead call =>
    have hin : (s.pc t).isReady = false := by rw [hpc]; rfl
    cases call <;>
    · simp only [State.advance, hpc, Option.some.injEq] at h
      subst h
      exact hs.going hin rfl rfl rfl (fun _ ↦ rfl) fun _ ↦ Nat.le_refl _
  | peek value head =>
    have hin : (s.pc t).isReady = false := by rw [hpc]; rfl
    simp only [State.advance, hpc] at h
    split_ifs at h with hindex
    · exact Option.some.inj h ▸ room_peek hs hin hindex
    · obtain rfl := Option.some.inj h
      exact hs.going hin rfl rfl rfl (fun _ ↦ rfl) fun _ ↦ Nat.le_refl _
  | add value head =>
    simp only [State.advance, hpc, Option.some.injEq] at h
    exact h ▸ room_fetchAdd hs hpc
  | write value block slot =>
    have hin : (s.pc t).isReady = false := by rw [hpc]; rfl
    simp only [State.advance, hpc, Option.some.injEq] at h
    subst h
    exact hs.going hin rfl rfl rfl (fun _ ↦ rfl) fun _ ↦ Nat.le_refl _
  | commit value block slot =>
    simp only [State.advance, hpc, Option.some.injEq] at h
    subst h
    exact hs.leaving rfl rfl rfl
  | checkConsumed value head =>
    have hin : (s.pc t).isReady = false := by rw [hpc]; rfl
    simp only [State.advance, hpc, Option.some.injEq] at h
    subst h
    unfold State.checkConsumed
    dsimp only
    split_ifs
    · exact hs.going hin rfl rfl rfl (fun _ ↦ rfl) fun _ ↦ Nat.le_refl _
    · exact hs.going hin rfl rfl rfl (fun _ ↦ rfl) fun _ ↦ Nat.le_refl _
  | checkReserved next consumed =>
    simp only [State.advance, hpc, Option.some.injEq] at h
    subst h
    exact hs.leaving rfl rfl rfl
  | raise call head target current =>
    have hin : (s.pc t).isReady = false := by rw [hpc]; rfl
    cases current with
    | none =>
      simp only [State.advance, hpc, Option.some.injEq] at h
      subst h
      obtain ⟨hready, hadds⟩ := p.raised_shape .unbounded call head target
        (s.queue.word p head target)
      exact hs.going hin rfl rfl hready hadds fun _ ↦ Nat.le_refl _
    | some current =>
      simp only [State.advance, hpc, Option.some.injEq] at h
      exact h ▸ room_raise hs hin call target current spurious
  | reserve head =>
    have hin : (s.pc t).isReady = false := by rw [hpc]; rfl
    simp only [State.advance, hpc, Option.some.injEq] at h
    subst h
    obtain ⟨hready, hadds⟩ := p.reserving_shape α head
      (s.queue.reserved (p.block head))
    exact hs.going hin rfl rfl hready hadds fun _ ↦ Nat.le_refl _
  | checkCommitted head reserved =>
    have hin : (s.pc t).isReady = false := by rw [hpc]; rfl
    simp only [State.advance, hpc, Option.some.injEq] at h
    subst h
    unfold State.checkCommitted
    dsimp only
    split_ifs
    · exact hs.leaving rfl rfl rfl
    · exact hs.going hin rfl rfl rfl (fun _ ↦ rfl) fun _ ↦ Nat.le_refl _
    · exact hs.going hin rfl rfl rfl (fun _ ↦ rfl) fun _ ↦ Nat.le_refl _
  | checkAllocated head reserved committed =>
    have hin : (s.pc t).isReady = false := by rw [hpc]; rfl
    simp only [State.advance, hpc] at h
    split_ifs at h
    · obtain rfl := Option.some.inj h
      exact hs.leaving rfl rfl rfl
    · obtain rfl := Option.some.inj h
      exact hs.going hin rfl rfl rfl (fun _ ↦ rfl) fun _ ↦ Nat.le_refl _
  | swap head reserved =>
    have hin : (s.pc t).isReady = false := by rw [hpc]; rfl
    simp only [State.advance, hpc, Option.some.injEq] at h
    subst h
    unfold State.swap
    split_ifs
    · exact hs.going hin rfl rfl rfl (fun _ ↦ rfl) fun _ ↦ Nat.le_refl _
    · obtain ⟨hready, hadds⟩ := p.reserving_shape α head
        (s.queue.reserved (p.block head))
      exact hs.going hin rfl rfl hready hadds fun _ ↦ Nat.le_refl _
  | read block reserved =>
    have hin : (s.pc t).isReady = false := by rw [hpc]; rfl
    simp only [State.advance, hpc, Option.some.injEq] at h
    subst h
    exact hs.going hin rfl rfl rfl (fun _ ↦ rfl) fun _ ↦ Nat.le_refl _
  | consume block reserved out =>
    simp only [State.advance, hpc, Option.some.injEq] at h
    subst h
    exact hs.leaving rfl rfl rfl
  | checkNext head =>
    have hin : (s.pc t).isReady = false := by rw [hpc]; rfl
    simp only [State.advance, hpc, Option.some.injEq] at h
    subst h
    unfold State.checkNext
    split_ifs
    · exact hs.leaving rfl rfl rfl
    · exact hs.going hin rfl rfl rfl (fun _ ↦ rfl) fun _ ↦ Nat.le_refl _

/-- Fewer than `2 ^ 10` threads are inside a call after the step. -/
def fewThreads (s : State ι α) : Action ι α → Bool
  | .call t _ => (insert t s.inside).card < 2 ^ overflowBits
  | .advance _ _ => true

theorem room_call (hs : Room p s) {call : Call α} (hfew : fewThreads s (.call t call) = true)
    (h : s.call t call = some s') : Room p s' := by
  unfold State.call at h
  split at h
  · obtain rfl := Option.some.inj h
    refine ⟨fun thread ↦ ?_, by simpa [fewThreads] using hfew, fun b ↦ ?_⟩
    · rw [Finset.mem_insert, hs.inside thread]
      by_cases hthread : thread = t
      · subst hthread
        simp [Pc.isReady]
      · simp [hthread]
    · have hle : State.pending p { s with
          pc := Function.update s.pc t (.loadHead call)
          inside := insert t s.inside
          began := Function.update s.began t s.clock } b ≤ s.pending p b := by
        refine pending_le (t := t) (fun thread hne ↦ ?_) (fun thread hne hmem ↦ ?_) ?_
        · exact Function.update_of_ne hne _ _
        · exact (Finset.mem_insert.mp hmem).resolve_left hne
        · simp [Pc.adds]
      have hroom := hs.room b
      dsimp only at hle ⊢
      omega
  · cases h

end Stackfull.Queue.Bbq
