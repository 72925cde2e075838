import Stackfull.Queue.BbqRing

/-!
# The operations of the queue on its words

What each operation does to `Ring`, under the condition that the calls establish before they come to
it: the write and the read of a slot, the four ways to count a slot, and the six uses of
`atomicMax`. The last come with the fact that they are made only from the round before.
-/

set_option autoImplicit false
set_option relaxedAutoImplicit false
set_option linter.dupNamespace false

namespace Stackfull.Queue.Bbq.Ring

open Stackfull.Lib

universe u v

variable {ι : Type u} {α : Type v} {p : Params}
variable {q : Queue α} {l : Log ι α} {f : Fronts} {r i k b head : ℕ}

theorem base_add_lt_given {push : Push ι α} (hpush : l.pushes[k]? = some push) :
    p.base + k < l.given p := by
  have hk := (List.getElem?_eq_some_iff.mp hpush).1
  unfold Log.given
  omega

theorem not_read_of_not_written (hs : Ring p q l f) (h : ¬ l.Written p k) : ¬ l.Read p k :=
  fun hread ↦ h (hs.written_of_taken k (hs.read_lt k hread))

/-! ### A slot is written -/

theorem write (hs : Ring p q l f) {push : Push ι α} (hpush : l.pushes[k]? = some push)
    (hopen : ¬ l.Written p (p.base + k)) (value : α) :
    Ring p (q.write (k / p.blockSize % p.numBlocks) (k % p.blockSize) value) l f := by
  refine { hs with entries := fun k' push' hpush' hwritten hread ↦ ?_ }
  have hentry := hs.entries k' push' hpush' hwritten hread
  have hne : ¬ (k' / p.blockSize % p.numBlocks = k / p.blockSize % p.numBlocks ∧
      k' % p.blockSize = k % p.blockSize) := by
    rintro ⟨hblock, hslot⟩
    have hsame := hs.slot_injective (base_add_lt_given hpush') (base_add_lt_given hpush) hread
      (hs.not_read_of_not_written hopen) hblock hslot
    exact hopen (hsame ▸ hwritten)
  simp only [Queue.write]
  by_cases hblock : k' / p.blockSize % p.numBlocks = k / p.blockSize % p.numBlocks
  · rw [hblock] at hentry ⊢
    rw [Function.update_self, Function.update_of_ne fun hslot ↦ hne ⟨hblock, hslot⟩]
    exact hentry
  · rw [Function.update_of_ne hblock]
    exact hentry

theorem written_append (l : Log ι α) (k time j : ℕ) :
    Log.Written p { l with returned := l.returned ++ [(k, time)] } j ↔
      l.Written p j ∨ j = p.base + k := by
  have hticket : j = p.base + k ↔ p.base ≤ j ∧ j - p.base = k := by omega
  simp only [Log.Written, List.map_append, List.map_cons, List.map_nil, List.mem_append,
    List.mem_singleton, hticket]
  rcases Nat.lt_or_ge j p.base with hj | hj
  · simp [hj]
  · simp [hj, Nat.not_lt.mpr hj]

theorem read_append (l : Log ι α) (k j : ℕ) (out : Option α) :
    Log.Read p { l with popped := l.popped ++ [(k, out)] } j ↔ l.Read p j ∨ j = p.base + k := by
  have hticket : j = p.base + k ↔ p.base ≤ j ∧ j - p.base = k := by omega
  simp only [Log.Read, List.map_append, List.map_cons, List.map_nil, List.mem_append,
    List.mem_singleton, hticket]
  rcases Nat.lt_or_ge j p.base with hj | hj
  · simp [hj]
  · simp [hj, Nat.not_lt.mpr hj]

/-- A cursor that counts the tickets of a round counts one more. -/
theorem count_one_more {cell : ℕ → ℕ} {done done' : ℕ → Prop} [DecidablePred done]
    [DecidablePred done'] {front : ℕ}
    (h : Tracks p.numBlocks cell (fun r ↦ p.cursorAt r (roundCount p.blockSize done r)) front)
    (hr : InWindow p.numBlocks front (k / p.blockSize)) (hk : ¬ done k)
    (hdone : ∀ j, done' j ↔ done j ∨ j = k) :
    Tracks p.numBlocks (Function.update cell (k / p.blockSize % p.numBlocks)
      (cell (k / p.blockSize % p.numBlocks) + 1))
        (fun r ↦ p.cursorAt r (roundCount p.blockSize done' r)) front := by
  have hword : cell (k / p.blockSize % p.numBlocks) =
      p.cursorAt (k / p.blockSize) (roundCount p.blockSize done (k / p.blockSize)) := h _ hr
  refine (h.set hr (cell (k / p.blockSize % p.numBlocks) + 1)).congr fun r _ ↦ ?_
  rw [roundCount_insert p.blockSize_pos hk hdone]
  by_cases heq : r = k / p.blockSize
  · subst heq
    rw [Function.update_self, Function.update_self, hword]
    exact (Nat.add_assoc _ _ _).symm
  · rw [Function.update_of_ne heq, Function.update_of_ne heq]

theorem commit (hs : Ring p q l f) {push : Push ι α} (hpush : l.pushes[k]? = some push)
    (hopen : ¬ l.Written p (p.base + k))
    (hentry : q.entries (k / p.blockSize % p.numBlocks) (k % p.blockSize) = some push.value)
    (time : ℕ) :
    Ring p (q.addCommitted .unbounded (k / p.blockSize % p.numBlocks))
      { l with returned := l.returned ++ [(k, time)] } f := by
  have hgiven : p.base + k < l.given p := base_add_lt_given hpush
  have hround := hs.inWindow hgiven (hs.not_read_of_not_written hopen)
  have hfront := hs.producer.2.1
  refine { hs with committed := ?_, written_lt := ?_, written_of_taken := ?_, entries := ?_ }
  · have htracks := count_one_more hs.committed ⟨by omega, hround.2⟩ hopen
      fun j ↦ written_append l k time j
    rwa [block_of_ticket] at htracks
  · intro j hj
    rcases (written_append l k time j).mp hj with hj | rfl
    · exact hs.written_lt j hj
    · exact hgiven
  · intro j hj
    exact (written_append l k time j).mpr (.inl (hs.written_of_taken j hj))
  · intro j push' hpush' hwritten hread
    rcases (written_append l k time _).mp hwritten with hj | heq
    · exact hs.entries j push' hpush' hj hread
    · obtain rfl : j = k := by omega
      obtain rfl : push' = push := Option.some.inj (hpush'.symm.trans hpush)
      exact hentry

/-! ### A slot is read -/

theorem consume (hs : Ring p q l f) (hk : k < l.pops.length) (hopen : ¬ l.Read p (p.base + k))
    (out : Option α) :
    Ring p (q.addConsumed .unbounded (k / p.blockSize % p.numBlocks))
      { l with popped := l.popped ++ [(k, out)] } f := by
  have htaken : p.base + k < l.taken p := by
    unfold Log.taken
    omega
  have hgiven := hs.written_lt _ (hs.written_of_taken _ htaken)
  have hround := hs.inWindow hgiven hopen
  have hentered := hs.entered
  have hle : (p.base + k) / p.blockSize ≤ f.reserved := by
    have hlt : p.base + k < (f.reserved + 1) * p.blockSize := by
      have hbound := hs.taken.2
      rw [Nat.add_mul, Nat.one_mul]
      omega
    have hdiv := (Nat.div_lt_iff_lt_mul p.blockSize_pos).mpr hlt
    omega
  have hfront := hs.consumer.2.1
  refine { hs with recycled := ?_, consumed := ?_, read_lt := ?_, entries := ?_ }
  · intro j hj
    exact (read_append l k j out).mpr (.inl (hs.recycled j hj))
  · have htracks := count_one_more hs.consumed ⟨by omega, by omega⟩ hopen
      fun j ↦ read_append l k j out
    rwa [block_of_ticket] at htracks
  · intro j hj
    rcases (read_append l k j out).mp hj with hj | rfl
    · exact hs.read_lt j hj
    · exact htaken
  · intro j push hpush hwritten hread
    exact hs.entries j push hpush hwritten fun h ↦ hread ((read_append l k _ out).mpr (.inl h))

/-! ### A slot is given out -/

/-- The block of a head at which a push looks has the newest round of `allocated`, unless all slots
of that head's round were given out. -/
theorem exists_allocated (hs : Ring p q l f) (hhead : head ≤ q.producerHead) :
    ∃ r, InWindow p.numBlocks f.allocated r ∧ r % p.numBlocks = p.block head ∧
      head + p.numBlocks ≤ r := by
  have hfront := hs.producer.1
  obtain ⟨r, hr, hmod, hle⟩ : ∃ r, InWindow p.numBlocks f.allocated r ∧
      r % p.numBlocks = (head + p.numBlocks) % p.numBlocks ∧ head + p.numBlocks ≤ r :=
    exists_inWindow p.numBlocks_pos (by omega)
  refine ⟨r, hr, ?_, hle⟩
  rw [hmod, Nat.add_mod_right, Params.block_eq]

/-- A block with slots left is the newest one, and the next ticket is its next slot. -/
theorem allocated_of_lt (hs : Ring p q l f) (hhead : head ≤ q.producerHead)
    (hindex : p.index (q.allocated (p.block head)) < p.blockSize) :
    f.allocated % p.numBlocks = p.block head ∧
      l.given p = f.allocated * p.blockSize + p.index (q.allocated (p.block head)) := by
  obtain ⟨r, hr, hmod, -⟩ := hs.exists_allocated hhead
  obtain ⟨-, hmin⟩ := hs.allocated r hr
  have hgiven := hs.given
  rw [hmod] at hmin
  have hlast : r = f.allocated := by
    by_contra hne
    have hless : r * p.blockSize + p.blockSize ≤ f.allocated * p.blockSize :=
      succ_mul_le (by have hle := hr.1; omega)
    omega
  subst hlast
  exact ⟨hmod, by omega⟩

/-- The slot of a ticket in the newest round. -/
theorem slot_of_round {n index front : ℕ} (hn : p.base + n = front * p.blockSize + index)
    (hindex : index < p.blockSize) :
    n / p.blockSize % p.numBlocks = front % p.numBlocks ∧ n % p.blockSize = index := by
  obtain ⟨hdiv, hmod⟩ := (ticket_eq p.blockSize_pos hindex).mp hn.symm
  constructor
  · rw [← block_of_ticket, ← hdiv]
  · rw [← base_add_mod, ← hmod]

/-- A head whose block has no slots left stands at a round that was given out. -/
theorem given_of_ge (hs : Ring p q l f) (hhead : head ≤ q.producerHead)
    (hindex : p.blockSize ≤ p.index (q.allocated (p.block head))) :
    (head + p.numBlocks) * p.blockSize + p.blockSize ≤ l.given p := by
  obtain ⟨r, hr, hmod, hle⟩ := hs.exists_allocated hhead
  obtain ⟨-, hmin⟩ := hs.allocated r hr
  have hgiven := hs.given
  rw [hmod] at hmin
  have hround : (head + p.numBlocks) * p.blockSize ≤ r * p.blockSize := Nat.mul_le_mul_right _ hle
  have hsize := p.blockSize_pos
  omega

/-- `fetch_add` on `allocated` keeps the version of the cursor if the index stays in its field. -/
theorem allocated_add (hs : Ring p q l f)
    (hroom : p.index (q.allocated (p.block head)) + 1 < 2 ^ p.cursorBits) {n : ℕ}
    (hn : ∀ r, InWindow p.numBlocks f.allocated r →
      min p.blockSize (p.index (q.allocated (r % p.numBlocks)) +
        if r % p.numBlocks = p.block head then 1 else 0) = min p.blockSize (n - r * p.blockSize)) :
    ∀ r, InWindow p.numBlocks f.allocated r →
      p.version ((q.addAllocated .unbounded (p.block head)).allocated (r % p.numBlocks)) =
        (r - 1) / p.numBlocks ∧
      min p.blockSize (p.index ((q.addAllocated .unbounded (p.block head)).allocated
        (r % p.numBlocks))) = min p.blockSize (n - r * p.blockSize) := by
  intro r hr
  obtain ⟨hversion, -⟩ := hs.allocated r hr
  have hmin := hn r hr
  obtain ⟨hindex', hversion'⟩ := PackedCursor.add_one_of_lt hroom
  simp only [Queue.addAllocated, Width.wrap_unbounded]
  by_cases hblock : r % p.numBlocks = p.block head
  · rw [hblock] at hversion hmin ⊢
    rw [Function.update_self]
    refine ⟨hversion'.trans hversion, ?_⟩
    rw [if_pos rfl] at hmin
    rw [← hmin]
    exact congrArg _ hindex'
  · rw [Function.update_of_ne hblock]
    rw [if_neg hblock, Nat.add_zero] at hmin
    exact ⟨hversion, hmin⟩

/-- A push comes too late and overshoots. -/
theorem overshoot (hs : Ring p q l f)
    (hindex : p.blockSize ≤ p.index (q.allocated (p.block head)))
    (hroom : p.index (q.allocated (p.block head)) + 1 < 2 ^ p.cursorBits) :
    Ring p (q.addAllocated .unbounded (p.block head)) l f := by
  refine { hs with allocated := hs.allocated_add hroom fun r hr ↦ ?_ }
  obtain ⟨-, hmin⟩ := hs.allocated r hr
  split_ifs with hblock
  · rw [hblock] at hmin ⊢
    omega
  · exact hmin

/-- A push gets a slot. -/
theorem allocate (hs : Ring p q l f) (hhead : head ≤ q.producerHead)
    (hindex : p.index (q.allocated (p.block head)) < p.blockSize) (push : Push ι α) :
    Ring p (q.addAllocated .unbounded (p.block head))
      { l with pushes := l.pushes ++ [push] } f := by
  obtain ⟨hblock, hlast⟩ := hs.allocated_of_lt hhead hindex
  have hgiven : Log.given p { l with pushes := l.pushes ++ [push] } = l.given p + 1 := by
    simp [Log.given, Nat.add_assoc]
  have hroom := p.blockSize_lt
  have hbound := hs.given
  refine { hs with given := ?_, allocated := ?_, written_lt := ?_, entries := ?_ }
  · rw [hgiven]
    omega
  · refine hs.allocated_add (by omega) fun r hr ↦ ?_
    obtain ⟨-, hmin⟩ := hs.allocated r hr
    rw [hgiven]
    by_cases hr' : r = f.allocated
    · subst hr'
      rw [hblock] at hmin ⊢
      rw [if_pos rfl]
      omega
    · have hne : r % p.numBlocks ≠ p.block head := fun hmod ↦
        hr' (hr.eq_of_mod (inWindow_front p.numBlocks_pos) (hmod.trans hblock.symm))
      have hless : r * p.blockSize + p.blockSize ≤ f.allocated * p.blockSize :=
        succ_mul_le (by have hle := hr.1; omega)
      rw [if_neg hne]
      omega
  · intro j hj
    rw [hgiven]
    exact Nat.lt_succ_of_lt (hs.written_lt j hj)
  · intro j push' hpush hwritten hread
    have hj : p.base + j < p.base + l.pushes.length := hs.written_lt _ hwritten
    rw [List.getElem?_append_left (by omega)] at hpush
    exact hs.entries j push' hpush hwritten hread

/-! ### A slot is reserved -/

/-- The round of the block of a head at which a pop looks. -/
theorem exists_reserved (hs : Ring p q l f) (hhead : head ≤ q.consumerHead) :
    ∃ r, InWindow p.numBlocks f.reserved r ∧ r % p.numBlocks = p.block head ∧
      head + p.numBlocks ≤ r ∧
      p.index (q.reserved (p.block head)) = min p.blockSize (l.taken p - r * p.blockSize) := by
  have hfront := hs.consumer.1
  obtain ⟨r, hr, hmod, hle⟩ : ∃ r, InWindow p.numBlocks f.reserved r ∧
      r % p.numBlocks = (head + p.numBlocks) % p.numBlocks ∧ head + p.numBlocks ≤ r :=
    exists_inWindow p.numBlocks_pos (by omega)
  have hblock : r % p.numBlocks = p.block head := by
    rw [hmod, Nat.add_mod_right, Params.block_eq]
  have hword : q.reserved (r % p.numBlocks) =
      p.cursorAt r (min p.blockSize (l.taken p - r * p.blockSize)) := hs.reserved r hr
  refine ⟨r, hr, hblock, hle, ?_⟩
  rw [← hblock, hword, Params.index_cursorAt min_lt]

/-- A block with slots left for pops is the newest one of `reserved`, and the next ticket is its
next slot. -/
theorem reserved_of_lt (hs : Ring p q l f) (hhead : head ≤ q.consumerHead)
    (hindex : p.index (q.reserved (p.block head)) < p.blockSize) :
    f.reserved % p.numBlocks = p.block head ∧
      l.taken p = f.reserved * p.blockSize + p.index (q.reserved (p.block head)) := by
  obtain ⟨r, hr, hmod, -, hmin⟩ := hs.exists_reserved hhead
  have htaken := hs.taken
  have hlast : r = f.reserved := by
    by_contra hne
    have hless : r * p.blockSize + p.blockSize ≤ f.reserved * p.blockSize :=
      succ_mul_le (by have hle := hr.1; omega)
    omega
  subst hlast
  exact ⟨hmod, by omega⟩

/-- A head whose block has no slots left for pops stands at a round that was reserved. -/
theorem taken_of_ge (hs : Ring p q l f) (hhead : head ≤ q.consumerHead)
    (hindex : p.blockSize ≤ p.index (q.reserved (p.block head))) :
    (head + p.numBlocks) * p.blockSize + p.blockSize ≤ l.taken p := by
  obtain ⟨r, -, -, hle, hmin⟩ := hs.exists_reserved hhead
  have hround : (head + p.numBlocks) * p.blockSize ≤ r * p.blockSize := Nat.mul_le_mul_right _ hle
  have hsize := p.blockSize_pos
  omega

/-- A pop reserves the next slot. -/
theorem reserve (hs : Ring p q l f) (hhead : head ≤ q.consumerHead)
    (hindex : p.index (q.reserved (p.block head)) < p.blockSize)
    (hwritten : l.Written p (l.taken p)) (thread : ι) :
    Ring p (q.addReserved .unbounded (p.block head) (q.reserved (p.block head)))
      { l with pops := l.pops ++ [thread] } f := by
  obtain ⟨hblock, hlast⟩ := hs.reserved_of_lt hhead hindex
  have htaken : Log.taken p { l with pops := l.pops ++ [thread] } = l.taken p + 1 := by
    simp [Log.taken, Nat.add_assoc]
  have hbound := hs.taken
  refine { hs with taken := ?_, reserved := ?_, written_of_taken := ?_, read_lt := ?_ }
  · rw [htaken]
    omega
  · have hset := hs.reserved.set (inWindow_front p.numBlocks_pos) (q.reserved (p.block head) + 1)
    rw [hblock] at hset
    refine hset.congr fun r hr ↦ ?_
    rw [htaken]
    have hword : q.reserved (f.reserved % p.numBlocks) = p.cursorAt f.reserved
        (min p.blockSize (l.taken p - f.reserved * p.blockSize)) :=
      hs.reserved _ (inWindow_front p.numBlocks_pos)
    rw [hblock] at hword
    by_cases hr' : r = f.reserved
    · subst hr'
      rw [Function.update_self, hword]
      unfold Params.cursorAt
      omega
    · have hless : r * p.blockSize + p.blockSize ≤ f.reserved * p.blockSize :=
        succ_mul_le (by have hle := hr.1; omega)
      rw [Function.update_of_ne hr']
      refine congrArg (p.cursorAt r) ?_
      omega
  · intro j hj
    rw [htaken] at hj
    rcases Nat.lt_succ_iff_lt_or_eq.mp hj with hj | rfl
    · exact hs.written_of_taken j hj
    · exact hwritten
  · intro j hj
    rw [htaken]
    exact Nat.lt_succ_of_lt (hs.read_lt j hj)

/-! ### A head moves to the next block -/

/-- `allocated` tracks the rounds, like the other cursors. -/
theorem tracks_allocated (hs : Ring p q l f) : Tracks p.numBlocks q.allocated
    (fun r ↦ p.cursorAt r (p.index (q.allocated (r % p.numBlocks)))) f.allocated :=
  fun r hr ↦ Params.eq_cursorAt (hs.allocated r hr).1

/-- The rounds up to that of a head's next block were read one lap ago. -/
def ReadUpTo (p : Params) (l : Log ι α) (head : ℕ) : Prop :=
  ∀ k, k < (head + 2) * p.blockSize → l.Read p k

/-- `push` sets `committed` of the next block up for its next round. -/
theorem openCommitted (hs : Ring p q l f) (hhead : head ≤ q.producerHead)
    (hfront : f.committed = head + p.numBlocks) (hread : ReadUpTo p l head) :
    Ring p (q.setWord p head .committed (p.cursorAt (head + 1 + p.numBlocks) 0)) l
      { f with committed := head + 1 + p.numBlocks } := by
  have hproducer := hs.producer
  have hn := p.numBlocks_pos
  have hround : f.committed + 1 = head + 1 + p.numBlocks := by omega
  have hempty : roundCount p.blockSize (l.Written p) (head + 1 + p.numBlocks) = 0 := by
    refine roundCount_eq_zero fun i _ hwritten ↦ ?_
    have hlt := hs.written_lt _ hwritten
    have hle := hs.given.2
    have hless : f.allocated * p.blockSize + p.blockSize ≤
        (head + 1 + p.numBlocks) * p.blockSize := succ_mul_le (by omega)
    omega
  refine { hs with producer := ?_, entered := ?_, recycled := ?_, committed := ?_ }
  · exact ⟨hproducer.1, by dsimp only; omega, by dsimp only [Queue.setWord]; omega⟩
  · have hentered := hs.entered
    dsimp only
    omega
  · intro k hk
    refine hread k (Nat.lt_of_lt_of_le hk (Nat.mul_le_mul_right _ ?_))
    dsimp only
    omega
  · have hadvance := hs.committed.advance hn
    rw [hround, hempty] at hadvance
    simp only [Queue.setWord, Params.nextBlock_eq]
    rwa [Nat.add_mod_right] at hadvance

/-- `push` sets `allocated` of the next block up for its next round. -/
theorem openAllocated (hs : Ring p q l f) (hfront : f.allocated = head + p.numBlocks)
    (hgiven : (head + p.numBlocks) * p.blockSize + p.blockSize ≤ l.given p)
    (hcommitted : head + 1 + p.numBlocks ≤ f.committed) :
    Ring p (q.setWord p head .allocated (p.cursorAt (head + 1 + p.numBlocks) 0)) l
      { f with allocated := head + 1 + p.numBlocks } := by
  have hproducer := hs.producer
  have hn := p.numBlocks_pos
  have hbound := hs.given
  have hnext : (head + 1 + p.numBlocks) * p.blockSize =
      (head + p.numBlocks) * p.blockSize + p.blockSize := by
    rw [Nat.add_right_comm, Nat.add_mul _ 1, Nat.one_mul]
  rw [hfront] at hbound
  refine { hs with producer := ?_, given := ?_, allocated := ?_ }
  · exact ⟨by dsimp only [Queue.setWord]; omega, hcommitted, hproducer.2.2⟩
  · dsimp only
    omega
  · intro r hr
    have hround : head + 1 + p.numBlocks = f.allocated + 1 := by omega
    simp only [Queue.setWord, Params.nextBlock_eq]
    by_cases heq : r = head + 1 + p.numBlocks
    · subst heq
      rw [Nat.add_mod_right, Function.update_self]
      refine ⟨Params.version_cursorAt (Nat.two_pow_pos _), ?_⟩
      rw [Params.index_cursorAt (Nat.two_pow_pos _)]
      omega
    · dsimp only at hr
      rw [hround] at hr heq
      obtain ⟨hold, hcell⟩ := hr.of_succ hn heq
      rw [← hround, Nat.add_mod_right] at hcell
      rw [Function.update_of_ne hcell]
      exact hs.allocated r hold

/-- `push` moves the head of the producers. -/
theorem raiseProducerHead (hs : Ring p q l f) (hhead : q.producerHead = head)
    (hallocated : head + 1 + p.numBlocks ≤ f.allocated) :
    Ring p (q.setWord p head .producerHead (head + 1)) l f := by
  have hproducer := hs.producer
  refine { hs with producer := ?_ }
  dsimp only [Queue.setWord]
  omega

/-- `pop` sets `consumed` of the next block up for its next round. -/
theorem openConsumed (hs : Ring p q l f) (hhead : head ≤ q.consumerHead)
    (hfront : f.consumed = head + p.numBlocks)
    (hcommitted : head + 1 + p.numBlocks ≤ f.committed) :
    Ring p (q.setWord p head .consumed (p.cursorAt (head + 1 + p.numBlocks) 0)) l
      { f with consumed := head + 1 + p.numBlocks } := by
  have hconsumer := hs.consumer
  have hn := p.numBlocks_pos
  have hround : f.consumed + 1 = head + 1 + p.numBlocks := by omega
  have hempty : roundCount p.blockSize (l.Read p) (head + 1 + p.numBlocks) = 0 := by
    refine roundCount_eq_zero fun i _ hread ↦ ?_
    have hlt := hs.read_lt _ hread
    have hle := hs.taken.2
    have hless : f.reserved * p.blockSize + p.blockSize ≤
        (head + 1 + p.numBlocks) * p.blockSize := succ_mul_le (by omega)
    omega
  refine { hs with consumer := ?_, entered := hcommitted, consumed := ?_ }
  · exact ⟨hconsumer.1, by dsimp only; omega, by dsimp only [Queue.setWord]; omega⟩
  · have hadvance := hs.consumed.advance hn
    rw [hround, hempty] at hadvance
    simp only [Queue.setWord, Params.nextBlock_eq]
    rwa [Nat.add_mod_right] at hadvance

/-- `pop` sets `reserved` of the next block up for its next round. -/
theorem openReserved (hs : Ring p q l f) (hfront : f.reserved = head + p.numBlocks)
    (htaken : (head + p.numBlocks) * p.blockSize + p.blockSize ≤ l.taken p)
    (hconsumed : head + 1 + p.numBlocks ≤ f.consumed) :
    Ring p (q.setWord p head .reserved (p.cursorAt (head + 1 + p.numBlocks) 0)) l
      { f with reserved := head + 1 + p.numBlocks } := by
  have hconsumer := hs.consumer
  have hn := p.numBlocks_pos
  have hbound := hs.taken
  have hround : f.reserved + 1 = head + 1 + p.numBlocks := by omega
  have hnext : (head + 1 + p.numBlocks) * p.blockSize =
      (head + p.numBlocks) * p.blockSize + p.blockSize := by
    rw [Nat.add_right_comm, Nat.add_mul _ 1, Nat.one_mul]
  rw [hfront] at hbound
  have hempty : min p.blockSize (l.taken p - (head + 1 + p.numBlocks) * p.blockSize) = 0 := by omega
  refine { hs with consumer := ?_, taken := ?_, reserved := ?_ }
  · exact ⟨by dsimp only [Queue.setWord]; omega, hconsumed, hconsumer.2.2⟩
  · dsimp only
    omega
  · have hadvance := hs.reserved.advance hn
    rw [hround, hempty] at hadvance
    simp only [Queue.setWord, Params.nextBlock_eq]
    rwa [Nat.add_mod_right] at hadvance

/-- `pop` moves the head of the consumers. -/
theorem raiseConsumerHead (hs : Ring p q l f) (hhead : q.consumerHead = head)
    (hreserved : head + 1 + p.numBlocks ≤ f.reserved) :
    Ring p (q.setWord p head .consumerHead (head + 1)) l f := by
  have hconsumer := hs.consumer
  refine { hs with consumer := ?_ }
  dsimp only [Queue.setWord]
  omega

end Stackfull.Queue.Bbq.Ring
