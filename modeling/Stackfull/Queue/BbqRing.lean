import Stackfull.Lib.Rounds
import Stackfull.Queue.Bbq
import Mathlib.Data.Nat.ModEq

/-!
# The cursors of the queue, round by round

The blocks are used in rounds, and a round's slots are numbered through the rounds: these are the
tickets. Rounds are counted from `numBlocks` on, with the first round of every block used up, so
that the rounds before the first push can be treated like all others. A head that holds `h` stands
at round `h + numBlocks`.

`Ring` ties the words of the queue to the log. Each kind of cursor has a front, the newest round
that it has been set up for; all of the last `numBlocks` rounds up to that front have their cursor,
and it holds the number of their tickets that were given out, written, reserved or read. The
operations of the code keep it under conditions that the calls establish: there is one lemma for
each.
-/

set_option autoImplicit false
set_option relaxedAutoImplicit false
set_option linter.dupNamespace false

namespace Stackfull.Queue.Bbq

open Stackfull.Lib

universe u v

variable {ι : Type u} {α : Type v} {p : Params}

/-! ### Words and rounds -/

namespace Params

theorem numBlocks_pos (p : Params) : 0 < p.numBlocks := by
  have htwo := p.two_le_numBlocks
  omega

theorem two_pow_headBits (p : Params) : 2 ^ p.headBits = p.numBlocks := by
  obtain ⟨k, hk⟩ := p.isPowerOfTwo
  unfold headBits
  rw [hk, bitsToHold_two_pow_sub_one]

theorem block_eq (p : Params) (head : ℕ) : p.block head = head % p.numBlocks := by
  unfold block
  rw [PackedCursor.index_eq_mod, two_pow_headBits]

theorem headVersion_eq (p : Params) (head : ℕ) : p.headVersion head = head / p.numBlocks := by
  unfold headVersion
  rw [PackedCursor.version_eq_div, two_pow_headBits]

theorem nextBlock_eq (p : Params) (head : ℕ) : p.nextBlock head = (head + 1) % p.numBlocks := by
  have hmod := Nat.and_two_pow_sub_one_eq_mod (p.block head + 1) p.headBits
  rw [two_pow_headBits] at hmod
  unfold nextBlock
  rw [hmod, block_eq, Nat.mod_add_mod]

/-- The index field has room for a whole block and for all threads that may overshoot it. -/
theorem blockSize_add_lt (p : Params) : p.blockSize + 2 ^ overflowBits ≤ 2 ^ p.cursorBits := by
  have hbits := lt_two_pow_bitsToHold p.blockSize
  have hsize := p.blockSize_pos
  unfold cursorBits overflowBits
  rw [Nat.pow_add]
  omega

theorem blockSize_lt (p : Params) : p.blockSize < 2 ^ p.cursorBits := by
  have hroom := p.blockSize_add_lt
  have hpos := Nat.two_pow_pos overflowBits
  omega

/-- The cursor of round `r` at an index. -/
def cursorAt (p : Params) (r i : ℕ) : ℕ :=
  (r - 1) / p.numBlocks * 2 ^ p.cursorBits + i

variable {r r' i i' head : ℕ}

theorem index_cursorAt (hi : i < 2 ^ p.cursorBits) : p.index (p.cursorAt r i) = i :=
  PackedCursor.index_pack hi

theorem version_cursorAt (hi : i < 2 ^ p.cursorBits) :
    p.version (p.cursorAt r i) = (r - 1) / p.numBlocks :=
  PackedCursor.version_pack hi

theorem eq_cursorAt {cursor : ℕ} (hversion : p.version cursor = (r - 1) / p.numBlocks) :
    cursor = p.cursorAt r (p.index cursor) := by
  have hword := PackedCursor.version_mul_add_index p.cursorBits cursor
  unfold cursorAt
  rw [← hversion]
  exact hword.symm

/-- The version of a round, compared with that of the head before it. -/
theorem version_eq_iff (hr : 1 ≤ r) (hmod : r % p.numBlocks = (head + 1) % p.numBlocks) :
    ((r - 1) / p.numBlocks = head / p.numBlocks ↔ r = head + 1) ∧
      (head / p.numBlocks < (r - 1) / p.numBlocks ↔ head + 1 + p.numBlocks ≤ r) := by
  have hrest : (r - 1) % p.numBlocks = head % p.numBlocks := by
    refine Nat.ModEq.add_right_cancel' 1 ?_
    rw [Nat.ModEq, Nat.sub_add_cancel hr]
    exact hmod
  have hround := Nat.div_add_mod (r - 1) p.numBlocks
  have hhead := Nat.div_add_mod head p.numBlocks
  have hpos := p.numBlocks_pos
  generalize (r - 1) / p.numBlocks = a at hround ⊢
  generalize head / p.numBlocks = b at hhead ⊢
  rw [hrest] at hround
  constructor
  · constructor
    · rintro rfl
      omega
    · rintro rfl
      have hsame : p.numBlocks * a = p.numBlocks * b := by omega
      exact Nat.eq_of_mul_eq_mul_left hpos hsame
  · constructor
    · intro hlt
      have hstep : p.numBlocks * (b + 1) ≤ p.numBlocks * a := Nat.mul_le_mul_left _ hlt
      rw [Nat.mul_add, Nat.mul_one] at hstep
      omega
    · intro hle
      have hstep : p.numBlocks * b < p.numBlocks * a := by omega
      exact Nat.lt_of_mul_lt_mul_left hstep

theorem version_lt_of_lt (hr : 1 ≤ r) (hmod : r % p.numBlocks = r' % p.numBlocks) (hlt : r < r') :
    (r - 1) / p.numBlocks < (r' - 1) / p.numBlocks := by
  have hback : (r - 1 + 1) % p.numBlocks = r' % p.numBlocks := by rwa [Nat.sub_add_cancel hr]
  have hdvd := Nat.dvd_of_mod_eq_zero (Nat.sub_mod_eq_zero_of_mod_eq hmod.symm)
  have hle := Nat.le_of_dvd (by omega) hdvd
  exact (version_eq_iff (by omega) hback.symm).2.mpr (by omega)

/-- Among the cursors of one block, those of later rounds are greater. -/
theorem cursorAt_lt (hr : 1 ≤ r) (hmod : r % p.numBlocks = r' % p.numBlocks) (hlt : r < r')
    (hi : i < 2 ^ p.cursorBits) : p.cursorAt r i < p.cursorAt r' i' :=
  PackedCursor.pack_lt_of_version_lt hi (version_lt_of_lt hr hmod hlt)

theorem cursorAt_inj (hr : 1 ≤ r) (hr' : 1 ≤ r') (hmod : r % p.numBlocks = r' % p.numBlocks)
    (hi : i < 2 ^ p.cursorBits) (hi' : i' < 2 ^ p.cursorBits)
    (h : p.cursorAt r i = p.cursorAt r' i') : r = r' ∧ i = i' := by
  have hround : r = r' := by
    rcases Nat.lt_trichotomy r r' with hlt | heq | hlt
    · have hcursor : p.cursorAt r i < p.cursorAt r' i' := cursorAt_lt hr hmod hlt hi
      omega
    · exact heq
    · have hcursor : p.cursorAt r' i' < p.cursorAt r i := cursorAt_lt hr' hmod.symm hlt hi'
      omega
  subst hround
  exact ⟨rfl, Nat.add_left_cancel h⟩

/-- `atomicMax` on a cursor is called with the start of the next round. -/
theorem goal_cursor (p : Params) (head : ℕ) :
    PackedCursor.make .unbounded p.cursorBits (Width.unbounded.wrap (p.headVersion head + 1)) 0 =
      p.cursorAt (head + 1 + p.numBlocks) 0 := by
  have hround : (head + 1 + p.numBlocks - 1) / p.numBlocks = head / p.numBlocks + 1 := by
    have hsub : head + 1 + p.numBlocks - 1 = head + p.numBlocks := by omega
    rw [hsub, Nat.add_div_right _ p.numBlocks_pos]
  unfold cursorAt
  rw [PackedCursor.make_eq (Nat.two_pow_pos _), Width.wrap_unbounded, headVersion_eq, hround]

end Params

/-! ### Tickets -/

/-- The number of the first ticket, after those of the rounds that the blocks begin with. -/
def Params.base (p : Params) : ℕ :=
  p.numBlocks * p.blockSize

namespace Log

variable (p : Params) (l : Log ι α)

/-- How many tickets were given out to pushes. -/
def given : ℕ :=
  p.base + l.pushes.length

/-- How many tickets were reserved by pops. -/
def taken : ℕ :=
  p.base + l.pops.length

/-- The ticket's slot was written. -/
def Written (k : ℕ) : Prop :=
  k < p.base ∨ k - p.base ∈ l.returned.map Prod.fst

/-- The ticket's slot was read. -/
def Read (k : ℕ) : Prop :=
  k < p.base ∨ k - p.base ∈ l.popped.map Prod.fst

instance : DecidablePred (l.Written p) :=
  fun k ↦ inferInstanceAs (Decidable (k < p.base ∨ _))

instance : DecidablePred (l.Read p) :=
  fun k ↦ inferInstanceAs (Decidable (k < p.base ∨ _))

end Log

/-- The newest rounds that the four kinds of cursors have been set up for. -/
structure Fronts where
  allocated : ℕ
  committed : ℕ
  reserved : ℕ
  consumed : ℕ

/-- The words of the queue are as the log says. -/
structure Ring (p : Params) (q : Queue α) (l : Log ι α) (f : Fronts) : Prop where
  producer : q.producerHead + p.numBlocks ≤ f.allocated ∧ f.allocated ≤ f.committed ∧
    f.committed ≤ q.producerHead + p.numBlocks + 1
  consumer : q.consumerHead + p.numBlocks ≤ f.reserved ∧ f.reserved ≤ f.consumed ∧
    f.consumed ≤ q.consumerHead + p.numBlocks + 1
  entered : f.consumed ≤ f.committed
  recycled : ∀ k, k < (f.committed + 1 - p.numBlocks) * p.blockSize → l.Read p k
  given : f.allocated * p.blockSize ≤ l.given p ∧
    l.given p ≤ f.allocated * p.blockSize + p.blockSize
  taken : f.reserved * p.blockSize ≤ l.taken p ∧
    l.taken p ≤ f.reserved * p.blockSize + p.blockSize
  allocated : ∀ r, InWindow p.numBlocks f.allocated r →
    p.version (q.allocated (r % p.numBlocks)) = (r - 1) / p.numBlocks ∧
      min p.blockSize (p.index (q.allocated (r % p.numBlocks))) =
        min p.blockSize (l.given p - r * p.blockSize)
  committed : Tracks p.numBlocks q.committed
    (fun r ↦ p.cursorAt r (roundCount p.blockSize (l.Written p) r)) f.committed
  reserved : Tracks p.numBlocks q.reserved
    (fun r ↦ p.cursorAt r (min p.blockSize (l.taken p - r * p.blockSize))) f.reserved
  consumed : Tracks p.numBlocks q.consumed
    (fun r ↦ p.cursorAt r (roundCount p.blockSize (l.Read p) r)) f.consumed
  written_lt : ∀ k, l.Written p k → k < l.given p
  written_of_taken : ∀ k, k < l.taken p → l.Written p k
  read_lt : ∀ k, l.Read p k → k < l.taken p
  entries : ∀ k push, l.pushes[k]? = some push → l.Written p (p.base + k) →
    ¬ l.Read p (p.base + k) →
      q.entries (k / p.blockSize % p.numBlocks) (k % p.blockSize) = some push.value

namespace Ring

variable {q : Queue α} {l : Log ι α} {f : Fronts} {r i k b head : ℕ}

theorem succ_mul_le {a r' : ℕ} (h : r' < a) : r' * p.blockSize + p.blockSize ≤ a * p.blockSize := by
  have hstep : (r' + 1) * p.blockSize ≤ a * p.blockSize := Nat.mul_le_mul_right _ h
  rwa [Nat.add_mul, Nat.one_mul] at hstep

theorem count_lt {done : ℕ → Prop} [DecidablePred done] :
    roundCount p.blockSize done r < 2 ^ p.cursorBits :=
  Nat.lt_of_le_of_lt roundCount_le p.blockSize_lt

theorem min_lt {m : ℕ} : min p.blockSize m < 2 ^ p.cursorBits :=
  Nat.lt_of_le_of_lt (Nat.min_le_left _ _) p.blockSize_lt

/-- Rounds in a window are numbered from one. -/
theorem one_le {front : ℕ} (hfront : p.numBlocks ≤ front) (hr : InWindow p.numBlocks front r) :
    1 ≤ r := by
  have hlt := hr.2
  omega

/-- A cursor lies behind the start of the next round until its front gets there. -/
theorem lt_goal_iff {cell value : ℕ → ℕ} {front : ℕ} (hvalue : ∀ r, value r < 2 ^ p.cursorBits)
    (h : Tracks p.numBlocks cell (fun r ↦ p.cursorAt r (value r)) front)
    (hhead : head + p.numBlocks ≤ front) :
    cell ((head + 1) % p.numBlocks) < p.cursorAt (head + 1 + p.numBlocks) 0 ↔
      front = head + p.numBlocks := by
  have hn := p.numBlocks_pos
  have hcell : (head + 1 + p.numBlocks) % p.numBlocks = (head + 1) % p.numBlocks :=
    Nat.add_mod_right _ _
  constructor
  · intro hlt
    by_contra hne
    obtain ⟨r, hr, hmod, hle⟩ : ∃ r, InWindow p.numBlocks front r ∧
        r % p.numBlocks = (head + 1 + p.numBlocks) % p.numBlocks ∧
        head + 1 + p.numBlocks ≤ r := exists_inWindow hn (by omega)
    have hword : cell (r % p.numBlocks) = p.cursorAt r (value r) := h r hr
    rw [hmod, hcell] at hword
    rw [hword] at hlt
    rcases Nat.eq_or_lt_of_le hle with heq | hlt'
    · rw [heq] at hlt
      unfold Params.cursorAt at hlt
      omega
    · have hgreater : p.cursorAt (head + 1 + p.numBlocks) 0 < p.cursorAt r (value r) :=
        Params.cursorAt_lt (by omega) hmod.symm hlt' (Nat.two_pow_pos _)
      omega
  · rintro rfl
    have hword : cell ((head + 1) % p.numBlocks) = p.cursorAt (head + 1) (value (head + 1)) :=
      h (head + 1) ⟨by omega, by omega⟩
    rw [hword]
    exact Params.cursorAt_lt (by omega) hcell.symm (by omega) (hvalue _)

theorem fronts (hs : Ring p q l f) : p.numBlocks ≤ f.allocated ∧ p.numBlocks ≤ f.committed ∧
    p.numBlocks ≤ f.reserved ∧ p.numBlocks ≤ f.consumed := by
  obtain ⟨hp, hp', -⟩ := hs.producer
  obtain ⟨hc, hc', -⟩ := hs.consumer
  omega

/-- The round of a ticket that was given out and has not been read. -/
theorem inWindow (hs : Ring p q l f) (hgiven : k < l.given p) (hread : ¬ l.Read p k) :
    k / p.blockSize ≤ f.allocated ∧ f.committed < k / p.blockSize + p.numBlocks := by
  have hsize := p.blockSize_pos
  constructor
  · have hlt : k < (f.allocated + 1) * p.blockSize := by
      have hle := hs.given.2
      rw [Nat.add_mul, Nat.one_mul]
      omega
    have hdiv := (Nat.div_lt_iff_lt_mul hsize).mpr hlt
    omega
  · by_contra hle
    refine hread (hs.recycled k ?_)
    have hlt := Nat.lt_mul_div_succ k hsize
    have hmul : p.blockSize * (k / p.blockSize + 1) ≤
        p.blockSize * (f.committed + 1 - p.numBlocks) := Nat.mul_le_mul_left _ (by omega)
    rw [Nat.mul_comm _ p.blockSize]
    omega

theorem base_add_div (k : ℕ) : (p.base + k) / p.blockSize = p.numBlocks + k / p.blockSize := by
  have hsize := p.blockSize_pos
  unfold Params.base
  rw [Nat.add_comm, Nat.add_mul_div_right _ _ hsize, Nat.add_comm]

theorem base_add_mod (k : ℕ) : (p.base + k) % p.blockSize = k % p.blockSize := by
  unfold Params.base
  rw [Nat.add_comm, Nat.add_mul_mod_self_right]

theorem block_of_ticket (k : ℕ) :
    (p.base + k) / p.blockSize % p.numBlocks = k / p.blockSize % p.numBlocks := by
  rw [base_add_div, Nat.add_mod_left]

/-- No two tickets that were given out and not read share a slot. -/
theorem slot_injective (hs : Ring p q l f) {k' : ℕ} (hgiven : p.base + k < l.given p)
    (hgiven' : p.base + k' < l.given p) (hread : ¬ l.Read p (p.base + k))
    (hread' : ¬ l.Read p (p.base + k'))
    (hblock : k / p.blockSize % p.numBlocks = k' / p.blockSize % p.numBlocks)
    (hslot : k % p.blockSize = k' % p.blockSize) : k = k' := by
  have hround := hs.inWindow hgiven hread
  have hround' := hs.inWindow hgiven' hread'
  have hfront := hs.producer.2.1
  have hwindow : InWindow p.numBlocks f.committed ((p.base + k) / p.blockSize) :=
    ⟨by omega, hround.2⟩
  have hsame : (p.base + k) / p.blockSize = (p.base + k') / p.blockSize := by
    refine hwindow.eq_of_mod ⟨by omega, hround'.2⟩ ?_
    rw [block_of_ticket, block_of_ticket, hblock]
  rw [base_add_div, base_add_div] at hsame
  have hdiv := Nat.div_add_mod k p.blockSize
  have hdiv' := Nat.div_add_mod k' p.blockSize
  have hquotient : k / p.blockSize = k' / p.blockSize := by omega
  rw [hquotient, hslot] at hdiv
  omega

end Ring

end Stackfull.Queue.Bbq
