import Stackfull.Queue.BbqThreads

/-!
# The steps of the queue keep what the threads know

Each access either tells a thread something new about the queue, or changes the queue in one of the
ways of `BbqOperations`, which takes nothing from the other threads.
-/

set_option autoImplicit false
set_option relaxedAutoImplicit false
set_option linter.dupNamespace false

namespace Stackfull.Queue.Bbq

open Stackfull.Lib

universe u v

variable {ι : Type u} {α : Type v} {p : Params}
variable {q q' : Queue α} {l l' : Log ι α} {f f' : Fronts} {t thread : ι} {k head : ℕ}

/-! ### What a look at the queue tells -/

/-- A push sees that the next block was left by the pops of its last round. -/
theorem readUpTo_of_consumed (hs : Ring p q l f) (hhead : head ≤ q.producerHead)
    (h : p.version (q.consumed (p.nextBlock head)) = p.headVersion head ∧
        p.index (q.consumed (p.nextBlock head)) = p.blockSize ∨
      p.headVersion head < p.version (q.consumed (p.nextBlock head))) :
    Ring.ReadUpTo p l head := by
  have hn := p.numBlocks_pos
  have hfronts := hs.fronts
  have hproducer := hs.producer
  obtain ⟨r, hr, hmod⟩ := exists_round (Nat.mod_lt (head + 1) hn) hfronts.2.2.2
  have hword : q.consumed (r % p.numBlocks) =
      p.cursorAt r (roundCount p.blockSize (l.Read p) r) := hs.consumed r hr
  obtain ⟨hsame, hlater⟩ := Params.version_eq_iff (Ring.one_le hfronts.2.2.2 hr) hmod
  rw [hmod] at hword
  rw [Params.nextBlock_eq, Params.headVersion_eq, hword, Params.version_cursorAt Ring.count_lt,
    Params.index_cursorAt Ring.count_lt] at h
  intro k hk
  rcases h with ⟨hversion, hfull⟩ | hversion
  · obtain rfl := hsame.mp hversion
    rcases Nat.lt_or_ge k ((head + 1) * p.blockSize) with hlt | hge
    · refine hs.recycled k (Nat.lt_of_lt_of_le hlt (Nat.mul_le_mul_right _ ?_))
      omega
    · have hslot : (head + 1) * p.blockSize + (k - (head + 1) * p.blockSize) = k := by omega
      rw [← hslot]
      refine roundCount_eq_size_iff.mp hfull _ ?_
      have hnext : (head + 2) * p.blockSize = (head + 1) * p.blockSize + p.blockSize := by
        rw [Nat.add_mul (head + 1) 1, Nat.one_mul]
      omega
  · have hround := hlater.mp hversion
    refine hs.recycled k (Nat.lt_of_lt_of_le hk (Nat.mul_le_mul_right _ ?_))
    have hentered := hs.entered
    have hle := hr.1
    omega

/-- A pop sees that the producers have entered the next block. -/
theorem committed_of_version (hs : Ring p q l f)
    (h : p.version (q.committed (p.nextBlock head)) = p.headVersion head + 1) :
    head + 1 + p.numBlocks ≤ f.committed := by
  have hn := p.numBlocks_pos
  have hfronts := hs.fronts
  obtain ⟨r, hr, hmod⟩ := exists_round (Nat.mod_lt (head + 1) hn) hfronts.2.1
  have hword : q.committed (r % p.numBlocks) =
      p.cursorAt r (roundCount p.blockSize (l.Written p) r) := hs.committed r hr
  have hnext : r % p.numBlocks = (head + p.numBlocks + 1) % p.numBlocks := by
    rw [hmod, Nat.add_right_comm, Nat.add_mod_right]
  rw [hmod] at hword
  rw [Params.nextBlock_eq, Params.headVersion_eq, hword, Params.version_cursorAt Ring.count_lt,
    ← Nat.add_div_right _ hn] at h
  have hround := (Params.version_eq_iff (Ring.one_le hfronts.2.1 hr) hnext).1.mp h
  have hle := hr.1
  omega

/-- While `reserved` stays as it was read, its block is in the round of the next ticket for all
cursors, and the index of `committed` counts the slots written in that round. -/
theorem round_of_saw (hs : Ring p q l f) {reserved : ℕ} (hsaw : Saw p q head reserved)
    (hsame : q.reserved (p.block head) = reserved) :
    l.taken p = l.taken p / p.blockSize * p.blockSize + p.index reserved ∧
      l.taken p / p.blockSize % p.numBlocks = p.block head ∧
      InWindow p.numBlocks f.committed (l.taken p / p.blockSize) ∧
      p.index (q.committed (p.block head)) =
        roundCount p.blockSize (l.Written p) (l.taken p / p.blockSize) := by
  have hindex : p.index (q.reserved (p.block head)) < p.blockSize := hsame.symm ▸ hsaw.2.1
  obtain ⟨hblock, htaken⟩ := hs.reserved_of_lt hsaw.1 hindex
  rw [hsame] at htaken
  obtain ⟨hround, -⟩ := (ticket_eq p.blockSize_pos hsaw.2.1).mp htaken.symm
  have hconsumer := hs.consumer
  have hentered := hs.entered
  have hunread : ¬ l.Read p (l.taken p) := fun h ↦ Nat.lt_irrefl _ (hs.read_lt _ h)
  have hwindow : InWindow p.numBlocks f.committed f.reserved := by
    refine ⟨by omega, ?_⟩
    by_contra hle
    refine hunread (hs.recycled _ ?_)
    have hless : f.reserved * p.blockSize + p.blockSize ≤
        (f.committed + 1 - p.numBlocks) * p.blockSize := Ring.succ_mul_le (by omega)
    have hslot := hsaw.2.1
    omega
  have hword : q.committed (f.reserved % p.numBlocks) =
      p.cursorAt f.reserved (roundCount p.blockSize (l.Written p) f.reserved) :=
    hs.committed _ hwindow
  rw [← hround]
  refine ⟨htaken, hblock, hwindow, ?_⟩
  rw [← hblock, hword, Params.index_cursorAt Ring.count_lt]

/-- A pop that finds a slot written beyond those reserved knows that many were written. -/
theorem fits_checkAllocated (hs : Ring p q l f) {reserved : ℕ} (hsaw : Saw p q head reserved)
    (hindex : p.index reserved ≠ p.index (q.committed (p.block head)))
    (hsame : q.reserved (p.block head) = reserved) :
    p.index reserved < p.index (q.committed (p.block head)) ∧
      p.index (q.committed (p.block head)) ≤
        roundCount p.blockSize (l.Written p) (l.taken p / p.blockSize) := by
  obtain ⟨htaken, -, -, hcommitted⟩ := round_of_saw hs hsaw hsame
  have hle : p.index reserved ≤ roundCount p.blockSize (l.Written p) (l.taken p / p.blockSize) := by
    refine le_roundCount (Nat.le_of_lt hsaw.2.1) fun j hj ↦ hs.written_of_taken _ ?_
    omega
  exact ⟨by omega, by omega⟩

/-- A pop that finds the whole block written knows that its slot was. -/
theorem written_of_full (hs : Ring p q l f) {reserved : ℕ} (hsaw : Saw p q head reserved)
    (hfull : p.index (q.committed (p.block head)) = p.blockSize)
    (hsame : q.reserved (p.block head) = reserved) : l.Written p (l.taken p) := by
  obtain ⟨htaken, -, -, hcommitted⟩ := round_of_saw hs hsaw hsame
  rw [hcommitted] at hfull
  rw [htaken]
  exact roundCount_eq_size_iff.mp hfull _ hsaw.2.1

/-- A pop that finds no more slots given out than it saw written knows that its slot was. -/
theorem written_of_allocated (hs : Ring p q l f) {reserved committed : ℕ}
    (hsaw : Saw p q head reserved)
    (hknows : p.index reserved < p.index committed ∧ p.index committed ≤
      roundCount p.blockSize (l.Written p) (l.taken p / p.blockSize))
    (hindex : p.index (q.allocated (p.block head)) = p.index committed)
    (hsame : q.reserved (p.block head) = reserved) : l.Written p (l.taken p) := by
  obtain ⟨htaken, hblock, hwindow, -⟩ := round_of_saw hs hsaw hsame
  obtain ⟨hlt, hle⟩ := hknows
  have hsize : roundCount p.blockSize (l.Written p) (l.taken p / p.blockSize) ≤ p.blockSize :=
    roundCount_le
  have hsome : ∃ j, j < p.blockSize ∧ l.Written p (l.taken p / p.blockSize * p.blockSize + j) := by
    by_contra hnone
    have hzero : roundCount p.blockSize (l.Written p) (l.taken p / p.blockSize) = 0 :=
      roundCount_eq_zero fun j hj hwritten ↦ hnone ⟨j, hj, hwritten⟩
    omega
  obtain ⟨j, hj, hwritten⟩ := hsome
  have hgiven := hs.written_lt _ hwritten
  have hbound := hs.given
  have hproducer := hs.producer
  have hfront : l.taken p / p.blockSize ≤ f.allocated := by
    by_contra hgt
    have hless : f.allocated * p.blockSize + p.blockSize ≤
        l.taken p / p.blockSize * p.blockSize := Ring.succ_mul_le (by omega)
    omega
  have hinWindow : InWindow p.numBlocks f.allocated (l.taken p / p.blockSize) :=
    ⟨hfront, by have h := hwindow.2; omega⟩
  obtain ⟨-, hmin⟩ := hs.allocated _ hinWindow
  rw [hblock, hindex] at hmin
  rw [htaken]
  refine done_of_le_roundCount (fun i hi hwritten' ↦ ?_) hle hlt
  have hgiven' := hs.written_lt _ hwritten'
  omega

/-! ### What changes of the queue mean to the other threads -/

/-- A word that no fact about the others mentions changes. -/
theorem grows_of_same (hp : q.producerHead ≤ q'.producerHead)
    (hc : q.consumerHead ≤ q'.consumerHead) (hreserved : ∀ b, q.reserved b ≤ q'.reserved b)
    (hentries : q'.entries = q.entries) (hallocated : f.allocated ≤ f'.allocated)
    (hcommitted : f.committed ≤ f'.committed) (hreservedFront : f.reserved ≤ f'.reserved)
    (hconsumed : f.consumed ≤ f'.consumed) : Grows p t q q' l l f f' :=
  { Grows.refl p t q l f with
    producerHead := hp
    consumerHead := hc
    reserved := hreserved
    allocatedFront := hallocated
    committedFront := hcommitted
    reservedFront := hreservedFront
    consumedFront := hconsumed
    entries := fun _ _ _ _ _ ↦ by rw [hentries] }

theorem grows_overshoot {b : ℕ} : Grows p t q (q.addAllocated .unbounded b) l l f f :=
  grows_of_same (Nat.le_refl _) (Nat.le_refl _) (fun _ ↦ Nat.le_refl _) rfl (Nat.le_refl _)
    (Nat.le_refl _) (Nat.le_refl _) (Nat.le_refl _)

theorem grows_allocate {b : ℕ} (push : Push ι α) :
    Grows p t q (q.addAllocated .unbounded b) l { l with pushes := l.pushes ++ [push] } f f :=
  { Grows.refl p t q l f with pushes := List.prefix_append _ _ }

theorem grows_write (hs : Ring p q l f) {push : Push ι α} (hpush : l.pushes[k]? = some push)
    (hthread : push.thread = t) (hopen : ¬ l.Written p (p.base + k)) (value : α) :
    Grows p t q (q.write (k / p.blockSize % p.numBlocks) (k % p.blockSize) value) l l f f := by
  refine { Grows.refl p t q l f with entries := fun k' push' hpush' hne hopen' ↦ ?_ }
  have hslots : ¬ (k' / p.blockSize % p.numBlocks = k / p.blockSize % p.numBlocks ∧
      k' % p.blockSize = k % p.blockSize) := by
    rintro ⟨hblock, hslot⟩
    obtain rfl := hs.slot_injective (Ring.base_add_lt_given hpush')
      (Ring.base_add_lt_given hpush) (hs.not_read_of_not_written hopen')
      (hs.not_read_of_not_written hopen) hblock hslot
    obtain rfl := Option.some.inj (hpush'.symm.trans hpush)
    exact hne hthread
  simp only [Queue.write]
  by_cases hblock : k' / p.blockSize % p.numBlocks = k / p.blockSize % p.numBlocks
  · rw [hblock, Function.update_self, Function.update_of_ne fun hslot ↦ hslots ⟨hblock, hslot⟩]
  · rw [Function.update_of_ne hblock]

theorem grows_commit {b : ℕ} {push : Push ι α} (hpush : l.pushes[k]? = some push)
    (hthread : push.thread = t) (time : ℕ) :
    Grows p t q (q.addCommitted .unbounded b) l
      { l with returned := l.returned ++ [(k, time)] } f f := by
  refine { Grows.refl p t q l f with
    written := fun j hj ↦ (Ring.written_append l k time j).mpr (.inl hj)
    unwritten := fun j push' hpush' hne hopen hwritten ↦ ?_ }
  rcases (Ring.written_append l k time _).mp hwritten with hj | heq
  · exact hopen hj
  · obtain rfl : j = k := by omega
    obtain rfl := Option.some.inj (hpush'.symm.trans hpush)
    exact hne hthread

theorem grows_consume {b : ℕ} (hpop : l.pops[k]? = some t) (out : Option α) :
    Grows p t q (q.addConsumed .unbounded b) l
      { l with popped := l.popped ++ [(k, out)] } f f := by
  refine { Grows.refl p t q l f with
    read := fun j hj ↦ (Ring.read_append l k j out).mpr (.inl hj)
    unread := fun j thread hpop' hne hopen hread ↦ ?_ }
  rcases (Ring.read_append l k _ out).mp hread with hj | heq
  · exact hopen hj
  · obtain rfl : j = k := by omega
    exact hne (Option.some.inj (hpop'.symm.trans hpop))

theorem grows_reserve {b : ℕ} :
    Grows p t q (q.addReserved .unbounded b (q.reserved b)) l { l with pops := l.pops ++ [t] }
      f f := by
  refine { Grows.refl p t q l f with
    pops := List.prefix_append _ _
    reserved := fun b' ↦ ?_ }
  simp only [Queue.addReserved, PackedCursor.addIndex, Width.wrap_unbounded]
  by_cases hb : b' = b
  · subst hb
    rw [Function.update_self]
    omega
  · rw [Function.update_of_ne hb]

/-- A successful `atomicMax` only moves words up. -/
theorem grows_raise {target : Target} {value : ℕ} (hlt : q.word p head target < value)
    (hallocated : f.allocated ≤ f'.allocated) (hcommitted : f.committed ≤ f'.committed)
    (hreserved : f.reserved ≤ f'.reserved) (hconsumed : f.consumed ≤ f'.consumed) :
    Grows p t q (q.setWord p head target value) l l f f' := by
  cases target with
  | committed | allocated | consumed =>
    exact grows_of_same (Nat.le_refl _) (Nat.le_refl _) (fun _ ↦ Nat.le_refl _) rfl hallocated
      hcommitted hreserved hconsumed
  | producerHead =>
    exact grows_of_same (Nat.le_of_lt hlt) (Nat.le_refl _) (fun _ ↦ Nat.le_refl _) rfl hallocated
      hcommitted hreserved hconsumed
  | consumerHead =>
    exact grows_of_same (Nat.le_refl _) (Nat.le_of_lt hlt) (fun _ ↦ Nat.le_refl _) rfl hallocated
      hcommitted hreserved hconsumed
  | reserved =>
    refine grows_of_same (Nat.le_refl _) (Nat.le_refl _) (fun b ↦ ?_) rfl hallocated hcommitted
      hreserved hconsumed
    simp only [Queue.setWord]
    by_cases hb : b = p.nextBlock head
    · subst hb
      rw [Function.update_self]
      exact Nat.le_of_lt hlt
    · rw [Function.update_of_ne hb]

/-! ### `atomicMax` -/

/-- A word lies behind what `atomicMax` raises it to exactly if its round has not been reached. -/
theorem word_lt_goal_iff (hs : Ring p q l f) {call : Call α} {target : Target}
    (hmay : MayMove p q l f head call) (hreached : target.Reached p f head call) :
    q.word p head target < p.goal .unbounded head target ↔
      match target with
      | .committed => f.committed = head + p.numBlocks
      | .allocated => f.allocated = head + p.numBlocks
      | .producerHead => q.producerHead = head
      | .consumed => f.consumed = head + p.numBlocks
      | .reserved => f.reserved = head + p.numBlocks
      | .consumerHead => q.consumerHead = head := by
  have hproducer := hs.producer
  have hconsumer := hs.consumer
  cases call with
  | push value =>
    have hhead := hmay.1.1
    cases target with
    | committed =>
      simp only [Queue.word, Params.goal, Params.goal_cursor, Params.nextBlock_eq]
      exact Ring.lt_goal_iff (fun _ ↦ Ring.count_lt) hs.committed (by omega)
    | allocated =>
      simp only [Queue.word, Params.goal, Params.goal_cursor, Params.nextBlock_eq]
      exact Ring.lt_goal_iff (fun _ ↦ PackedCursor.index_lt _ _) hs.tracks_allocated (by omega)
    | producerHead =>
      simp only [Queue.word, Params.goal, Width.wrap_unbounded]
      omega
    | consumed | reserved | consumerHead => exact hreached.elim
  | pop =>
    have hhead := hmay.1.1
    cases target with
    | committed | allocated | producerHead => exact hreached.elim
    | consumed =>
      simp only [Queue.word, Params.goal, Params.goal_cursor, Params.nextBlock_eq]
      exact Ring.lt_goal_iff (fun _ ↦ Ring.count_lt) hs.consumed (by omega)
    | reserved =>
      simp only [Queue.word, Params.goal, Params.goal_cursor, Params.nextBlock_eq]
      exact Ring.lt_goal_iff (fun _ ↦ Ring.min_lt) hs.reserved (by omega)
    | consumerHead =>
      simp only [Queue.word, Params.goal, Width.wrap_unbounded]
      omega

/-- An `atomicMax` that has nothing to do finds its round reached. -/
theorem fits_next (hs : Ring p q l f) {call : Call α} {target : Target}
    (hmay : MayMove p q l f head call) (hreached : target.Reached p f head call)
    (hdone : ¬ q.word p head target < p.goal .unbounded head target) :
    Fits p q l f t k (target.next call head) := by
  rw [word_lt_goal_iff hs hmay hreached] at hdone
  have hproducer := hs.producer
  have hconsumer := hs.consumer
  cases call with
  | push value =>
    have hhead := hmay.1.1
    cases target with
    | committed => exact ⟨hmay, by simp only [Target.Reached]; omega, by simp⟩
    | allocated => exact ⟨hmay, by simp only [Target.Reached]; omega, by simp⟩
    | producerHead => trivial
    | consumed | reserved | consumerHead => exact hreached.elim
  | pop =>
    have hhead := hmay.1.1
    cases target with
    | committed | allocated | producerHead => exact hreached.elim
    | consumed => exact ⟨hmay, by simp only [Target.Reached]; omega, by simp⟩
    | reserved => exact ⟨hmay, by simp only [Target.Reached]; omega, by simp⟩
    | consumerHead => trivial

/-- The loop of `atomicMax` goes on or ends. -/
theorem fits_raised (hs : Ring p q l f) {call : Call α} {target : Target}
    (hmay : MayMove p q l f head call) (hreached : target.Reached p f head call) :
    Fits p q l f t k (p.raised .unbounded call head target (q.word p head target)) := by
  unfold Params.raised
  split_ifs with hlt
  · refine ⟨hmay, hreached, fun word hword ↦ ?_⟩
    obtain rfl := Option.some.inj hword
    exact hlt
  · exact fits_next hs hmay hreached hlt

/-- A successful exchange of `atomicMax` sets its round up. -/
theorem raise_ring (hs : Ring p q l f) {call : Call α} {target : Target}
    (hmay : MayMove p q l f head call) (hreached : target.Reached p f head call)
    (hlt : q.word p head target < p.goal .unbounded head target) :
    ∃ f', Ring p (q.setWord p head target (p.goal .unbounded head target)) l f' ∧
      Grows p t q (q.setWord p head target (p.goal .unbounded head target)) l l f f' ∧
      Fits p (q.setWord p head target (p.goal .unbounded head target)) l f' t k
        (target.next call head) := by
  have hfront := (word_lt_goal_iff hs hmay hreached).mp hlt
  cases call with
  | push value =>
    obtain ⟨⟨hhead, hgiven⟩, hread⟩ := id hmay
    cases target with
    | committed =>
      simp only [Params.goal, Params.goal_cursor] at hlt ⊢
      exact ⟨_, hs.openCommitted hhead hfront hread,
        grows_raise hlt (Nat.le_refl _) (by dsimp only; omega) (Nat.le_refl _) (Nat.le_refl _),
        ⟨hmay, Nat.le_refl _, by simp⟩⟩
    | allocated =>
      simp only [Params.goal, Params.goal_cursor] at hlt ⊢
      exact ⟨_, hs.openAllocated hfront hgiven hreached,
        grows_raise hlt (by dsimp only; omega) (Nat.le_refl _) (Nat.le_refl _) (Nat.le_refl _),
        ⟨hmay, Nat.le_refl _, by simp⟩⟩
    | producerHead =>
      exact ⟨f, hs.raiseProducerHead hfront hreached,
        grows_raise hlt (Nat.le_refl _) (Nat.le_refl _) (Nat.le_refl _) (Nat.le_refl _), trivial⟩
    | consumed | reserved | consumerHead => exact hreached.elim
  | pop =>
    obtain ⟨⟨hhead, htaken⟩, hcommitted⟩ := id hmay
    cases target with
    | committed | allocated | producerHead => exact hreached.elim
    | consumed =>
      simp only [Params.goal, Params.goal_cursor] at hlt ⊢
      exact ⟨_, hs.openConsumed hhead hfront hcommitted,
        grows_raise hlt (Nat.le_refl _) (Nat.le_refl _) (Nat.le_refl _) (by dsimp only; omega),
        ⟨hmay, Nat.le_refl _, by simp⟩⟩
    | reserved =>
      simp only [Params.goal, Params.goal_cursor] at hlt ⊢
      exact ⟨_, hs.openReserved hfront htaken hreached,
        grows_raise hlt (Nat.le_refl _) (Nat.le_refl _) (by dsimp only; omega) (Nat.le_refl _),
        ⟨hmay, Nat.le_refl _, by simp⟩⟩
    | consumerHead =>
      exact ⟨f, hs.raiseConsumerHead hfront hreached,
        grows_raise hlt (Nat.le_refl _) (Nat.le_refl _) (Nat.le_refl _) (Nat.le_refl _), trivial⟩

end Stackfull.Queue.Bbq
