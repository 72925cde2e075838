import Stackfull.Lib.Rounds
import Stackfull.Queue.Bwos
import Stackfull.Queue.BwosRounds

/-!
# The words of the work-stealing queue

`Shows` relates the cursors of the queue to the rounds. A block is used in rounds and a round has
its cursors in block `r % NumBlocks` under version `r / NumBlocks`, counting from `NumBlocks`, the
head block's first. Each kind of cursor has its own front: `committed` and `stolen` are of the
newest round from when the producer resets them, `reserved` from when it enters the block, and
`consumed` from when the consumer does. So `consumed` of a block ahead of the consumer is a lap
behind.

Comparing versions of neighbouring blocks is therefore comparing rounds: the block after that of
round `r` has the next version if and only if it has been entered in round `r + 1`.
-/

set_option autoImplicit false
set_option relaxedAutoImplicit false
set_option linter.dupNamespace false

namespace Stackfull.Queue.Bwos

open Stackfull.Lib

universe u

variable {p : Params} {r r' i : ℕ}

/-! ### Words and rounds -/

namespace Params

theorem numBlocks_pos (p : Params) : 0 < p.numBlocks :=
  Nat.lt_of_lt_of_le Nat.two_pos p.two_le_numBlocks

theorem block_eq (p : Params) (position : ℕ) : p.block position = position % p.numBlocks := by
  obtain ⟨k, hk⟩ := p.isPowerOfTwo
  rw [block, hk, Nat.and_two_pow_sub_one_eq_mod]

theorem next_mod (p : Params) (r : ℕ) : p.next (r % p.numBlocks) = (r + 1) % p.numBlocks := by
  rw [next, Nat.mod_add_mod]

/-- The index field has room for a whole block. -/
theorem index_lt (p : Params) (hi : i ≤ p.entriesPerBlock) : i < 2 ^ p.indexBits :=
  Nat.lt_of_le_of_lt hi (lt_two_pow_bitsToHold _)

/-- A cursor of a round. -/
def cursorAt (p : Params) (r i : ℕ) : ℕ := r / p.numBlocks * 2 ^ p.indexBits + i

theorem index_cursorAt (hi : i ≤ p.entriesPerBlock) : p.index (p.cursorAt r i) = i :=
  PackedCursor.index_pack (p.index_lt hi)

theorem version_cursorAt (hi : i ≤ p.entriesPerBlock) :
    p.version (p.cursorAt r i) = r / p.numBlocks :=
  PackedCursor.version_pack (p.index_lt hi)

theorem make_cursorAt (hi : i ≤ p.entriesPerBlock) :
    p.make .unbounded (r / p.numBlocks) i = p.cursorAt r i :=
  PackedCursor.make_eq (p.index_lt hi)

theorem cursorAt_add (r i j : ℕ) : p.cursorAt r i + j = p.cursorAt r (i + j) :=
  Nat.add_assoc _ _ _

/-- Among the rounds of a block the version tells them apart. -/
theorem version_eq_iff (hmod : r % p.numBlocks = r' % p.numBlocks) :
    r / p.numBlocks = r' / p.numBlocks ↔ r = r' := by
  refine ⟨fun hdiv ↦ ?_, congrArg (· / p.numBlocks)⟩
  rw [← Nat.div_add_mod r p.numBlocks, ← Nat.div_add_mod r' p.numBlocks, hdiv, hmod]

theorem cursorAt_eq_iff {j : ℕ} (hmod : r % p.numBlocks = r' % p.numBlocks)
    (hi : i ≤ p.entriesPerBlock) (hj : j ≤ p.entriesPerBlock) :
    p.cursorAt r i = p.cursorAt r' j ↔ r = r' ∧ i = j := by
  constructor
  · intro heq
    have hversion := congrArg p.version heq
    have hindex := congrArg p.index heq
    rw [version_cursorAt hi, version_cursorAt hj] at hversion
    rw [index_cursorAt hi, index_cursorAt hj] at hindex
    exact ⟨(version_eq_iff hmod).mp hversion, hindex⟩
  · rintro ⟨rfl, rfl⟩
    rfl

theorem div_succ (p : Params) (r : ℕ) :
    (r + 1) / p.numBlocks = r / p.numBlocks + if isHead ((r + 1) % p.numBlocks) then 1 else 0 := by
  simp only [Nat.succ_div, isHead, decide_eq_true_eq, Nat.dvd_iff_mod_eq_zero]

theorem nextVersion_cursorAt (hi : i ≤ p.entriesPerBlock) :
    p.nextVersion ((r + 1) % p.numBlocks) (p.cursorAt r i) = (r + 1) / p.numBlocks := by
  rw [nextVersion, version_cursorAt hi, div_succ]

theorem nextRound_cursorAt (hi : i ≤ p.entriesPerBlock) :
    p.nextRound .unbounded (p.cursorAt r i) (isHead ((r + 1) % p.numBlocks)) =
      p.cursorAt (r + 1) 0 := by
  rw [nextRound, Width.wrap_unbounded, cursorAt, PackedCursor.nextRound_pack (p.index_lt hi)]
  exact congrArg (· * 2 ^ p.indexBits) (div_succ p r).symm

/-- The version before that of a round is that of the block's round before. -/
theorem pred_div (hr : p.numBlocks ≤ r) :
    Width.unbounded.pred (r / p.numBlocks) = some ((r - p.numBlocks) / p.numBlocks) := by
  have hdiv : r / p.numBlocks = (r - p.numBlocks) / p.numBlocks + 1 :=
    Nat.div_eq_sub_div p.numBlocks_pos hr
  rw [hdiv, Width.pred, if_neg (Nat.succ_ne_zero _), Nat.add_sub_cancel]

end Params

/-! ### The cursors of the rounds -/

variable {α : Type u} {q : BwosQueue α} {v : View}

/-- The cursors are those of the rounds. -/
structure Shows (p : Params) (q : BwosQueue α) (v : View) : Prop where
  committed : Tracks p.numBlocks q.committed
    (fun r ↦ p.cursorAt r (v.committed p.entriesPerBlock r)) v.opened
  consumed : Tracks p.numBlocks q.consumed
    (fun r ↦ p.cursorAt r (if r = v.consumer then v.popped else p.entriesPerBlock)) v.consumer
  reserved : Tracks p.numBlocks q.reserved
    (fun r ↦ p.cursorAt r (if r ≤ v.taken then p.entriesPerBlock else v.claimed r)) v.entered
  stolen : Tracks p.numBlocks q.stolen (fun r ↦ p.cursorAt r (v.left r)) v.reset
  producer : q.producerBlock = v.entered % p.numBlocks
  consumer : q.consumerBlock = v.consumer % p.numBlocks
  valid : v.Valid p.numBlocks p.entriesPerBlock

namespace Shows

/-! ### What the cursors say -/

theorem popped_le (h : Shows p q v) : v.popped ≤ p.entriesPerBlock :=
  Nat.le_trans h.valid.popped_le (View.committed_le _ _ _)

theorem claimed_le (h : Shows p q v) (r : ℕ) : v.claimed r ≤ p.entriesPerBlock :=
  Nat.le_trans (h.valid.claimed_le r) (View.committed_le _ _ _)

/-- The index of `reserved` in a round. -/
theorem reservedIndex_le (h : Shows p q v) (r : ℕ) :
    (if r ≤ v.taken then p.entriesPerBlock else v.claimed r) ≤ p.entriesPerBlock := by
  split_ifs
  · exact Nat.le_refl _
  · exact h.claimed_le r

theorem consumed_consumer (h : Shows p q v) :
    q.consumed (v.consumer % p.numBlocks) = p.cursorAt v.consumer v.popped :=
  (h.consumed _ (inWindow_front p.numBlocks_pos)).trans (congrArg _ (if_pos rfl))

theorem committed_at (h : Shows p q v) (hr : InWindow p.numBlocks v.opened r) :
    q.committed (r % p.numBlocks) = p.cursorAt r (v.committed p.entriesPerBlock r) :=
  h.committed r hr

theorem reserved_at (h : Shows p q v) (hr : InWindow p.numBlocks v.entered r)
    (htaken : v.taken < r) : q.reserved (r % p.numBlocks) = p.cursorAt r (v.claimed r) :=
  (h.reserved r hr).trans (congrArg _ (if_neg (Nat.not_le_of_lt htaken)))

/-- The block after that of a round has the next version if it has been entered in the next
round. -/
theorem version_reserved_next (h : Shows p q v) (hle : r ≤ v.entered)
    (hlt : v.entered ≤ r + p.numBlocks) :
    p.version (q.reserved ((r + 1) % p.numBlocks)) = (r + 1) / p.numBlocks ↔ r < v.entered := by
  have htwo := p.two_le_numBlocks
  have hfirst := h.valid.first
  have hconsumer := h.valid.consumer_le
  have htaken := h.valid.taken_le_entered
  rcases Nat.lt_or_eq_of_le hle with hbehind | rfl
  · rw [h.reserved (r + 1) ⟨hbehind, by omega⟩, Params.version_cursorAt (h.reservedIndex_le _)]
    exact iff_of_true rfl hbehind
  · -- the block is still in the round before
    obtain ⟨old, hold⟩ : ∃ old, v.entered + 1 = old + p.numBlocks :=
      ⟨v.entered + 1 - p.numBlocks, by omega⟩
    have hmod : (v.entered + 1) % p.numBlocks = old % p.numBlocks := by
      rw [hold, Nat.add_mod_right]
    rw [hmod, h.reserved old ⟨by omega, by omega⟩, Params.version_cursorAt (h.reservedIndex_le _),
      Params.version_eq_iff hmod.symm]
    exact iff_of_false (by omega) (Nat.lt_irrefl _)

theorem consumerMayAdvance_iff (h : Shows p q v) {consumed : ℕ}
    (hconsumed : consumed = p.cursorAt r p.entriesPerBlock) (hle : r ≤ v.entered)
    (hlt : v.entered ≤ r + p.numBlocks) :
    q.consumerMayAdvance p ((r + 1) % p.numBlocks) consumed = true ↔ r < v.entered := by
  rw [BwosQueue.consumerMayAdvance, decide_eq_true_iff, hconsumed,
    Params.nextVersion_cursorAt (Nat.le_refl _)]
  exact h.version_reserved_next hle hlt

theorem thiefMayAdvance_iff (h : Shows p q v) (hle : r ≤ v.entered)
    (hlt : v.entered ≤ r + p.numBlocks) :
    q.thiefMayAdvance p (r % p.numBlocks) (p.cursorAt r p.entriesPerBlock) = true ↔
      r < v.entered := by
  rw [BwosQueue.thiefMayAdvance, p.next_mod, decide_eq_true_iff,
    Params.nextVersion_cursorAt (Nat.le_refl _)]
  exact h.version_reserved_next hle hlt

/-- The next block may be written to if the consumer and the thieves have left it. -/
theorem isNextBlockWritable_iff (h : Shows p q v) (hreset : v.reset = v.entered) :
    q.isNextBlockWritable p .unbounded ((v.entered + 1) % p.numBlocks)
        ((v.entered + 1) / p.numBlocks) = true ↔
      v.entered < v.consumer + p.numBlocks ∧
        (v.entered + 1 = v.consumer + p.numBlocks → v.popped = p.entriesPerBlock) ∧
        v.left (v.entered + 1 - p.numBlocks) = p.entriesPerBlock := by
  have htwo := p.two_le_numBlocks
  have hfirst := h.valid.first
  have hconsumer := h.valid.consumer_le
  have htaken := h.valid.taken_le_entered
  have hlap := h.valid.lap
  have hentered := h.valid.entered_le
  have hopened := h.valid.reset_le
  obtain ⟨old, hold⟩ : ∃ old, v.entered + 1 = old + p.numBlocks :=
    ⟨v.entered + 1 - p.numBlocks, by omega⟩
  have hmod : (v.entered + 1) % p.numBlocks = old % p.numBlocks := by
    rw [hold, Nat.add_mod_right]
  have hsub : v.entered + 1 - p.numBlocks = old := by omega
  have hstolen := h.stolen old ⟨by omega, by omega⟩
  rw [BwosQueue.isNextBlockWritable, decide_eq_true_iff, Params.pred_div (by omega), hsub, hmod,
    hstolen, Params.version_cursorAt (h.valid.left_le old),
    Params.index_cursorAt (h.valid.left_le old)]
  by_cases hfar : v.entered < v.consumer + p.numBlocks
  · have hindex : (if old = v.consumer then v.popped else p.entriesPerBlock) ≤
        p.entriesPerBlock := by
      split_ifs
      · exact h.popped_le
      · exact Nat.le_refl _
    rw [h.consumed old ⟨by omega, by omega⟩, Params.version_cursorAt hindex,
      Params.index_cursorAt hindex]
    have hconsumed : (if old = v.consumer then v.popped else p.entriesPerBlock) =
        p.entriesPerBlock ↔
          (v.entered + 1 = v.consumer + p.numBlocks → v.popped = p.entriesPerBlock) := by
      split_ifs with heq
      · exact ⟨fun hpopped _ ↦ hpopped, fun hpopped ↦ hpopped (by omega)⟩
      · exact iff_of_true rfl fun h ↦ absurd h (by omega)
    simp only [hconsumed, hfar, true_and, and_true]
  · -- the consumer has not left the block in the round before the last
    obtain ⟨older, holder⟩ : ∃ older, old = older + p.numBlocks :=
      ⟨old - p.numBlocks, by omega⟩
    have hmod' : old % p.numBlocks = older % p.numBlocks := by rw [holder, Nat.add_mod_right]
    have hversion : p.version (q.consumed (old % p.numBlocks)) = older / p.numBlocks := by
      rw [hmod', h.consumed older ⟨by omega, by omega⟩, Params.version_cursorAt]
      split_ifs
      · exact h.popped_le
      · exact Nat.le_refl _
    refine iff_of_false (fun hall ↦ ?_) fun hall ↦ hfar hall.1
    have heq := (Params.version_eq_iff hmod').mp ((Option.some.inj hall.2.1).trans hversion)
    omega

/-! ### What the steps do -/

theorem commit (h : Shows p q v) {count : ℕ} (hopened : v.opened = v.entered)
    (hroom : v.committed p.entriesPerBlock v.entered + count ≤ p.entriesPerBlock) :
    Shows p { q with
      committed := Function.update q.committed q.producerBlock
        (q.committed q.producerBlock + count) } (v.commit count) where
  committed := by
    have hfront : InWindow p.numBlocks v.opened v.entered :=
      hopened ▸ inWindow_front p.numBlocks_pos
    have hpushed := h.valid.committed_entered
    rw [h.producer, h.committed_at hfront, Params.cursorAt_add]
    refine h.committed.change hfront (congrArg _ ?_) fun r hr ↦ congrArg _ ?_
    · unfold View.commit View.committed at *
      dsimp only
      omega
    · rcases Nat.lt_or_gt_of_ne hr with hlt | hgt
      · rw [h.valid.committed_of_lt hlt]
        exact (h.valid.commit hopened hroom).committed_of_lt hlt
      · rw [h.valid.committed_of_gt hgt]
        exact (h.valid.commit hopened hroom).committed_of_gt hgt
  consumed := h.consumed
  reserved := h.reserved
  stolen := h.stolen
  producer := h.producer
  consumer := h.consumer
  valid := h.valid.commit hopened hroom

theorem openNext (h : Shows p q v) (hopened : v.opened = v.entered)
    (hvalid : v.openNext.Valid p.numBlocks p.entriesPerBlock) :
    Shows p { q with
      committed := Function.update q.committed ((v.entered + 1) % p.numBlocks)
        (p.cursorAt (v.entered + 1) 0) } v.openNext where
  committed := by
    have hzero := h.valid.committed_of_gt (Nat.lt_succ_self v.entered)
    rw [← hopened] at hzero ⊢
    exact h.committed.advance_to p.numBlocks_pos (congrArg _ hzero) fun r _ ↦ rfl
  consumed := h.consumed
  reserved := h.reserved
  stolen := h.stolen
  producer := h.producer
  consumer := h.consumer
  valid := hvalid

theorem resetNext (h : Shows p q v) (hreset : v.reset = v.entered) (hopened : v.reset < v.opened) :
    Shows p { q with
      stolen := Function.update q.stolen ((v.entered + 1) % p.numBlocks)
        (p.cursorAt (v.entered + 1) 0) } v.resetNext where
  committed := h.committed
  consumed := h.consumed
  reserved := h.reserved
  stolen := by
    have hconsumer := h.valid.consumer_le
    have htaken := h.valid.taken_le_entered
    have hclaimed := h.valid.claimed_le (v.entered + 1)
    have hleft := h.valid.left_le_claimed (v.entered + 1) (by omega)
    rw [h.valid.committed_of_gt (Nat.lt_succ_self v.entered)] at hclaimed
    have hzero : v.left (v.entered + 1) = 0 := by omega
    rw [← hreset] at hzero ⊢
    exact h.stolen.advance_to p.numBlocks_pos (congrArg _ hzero) fun r _ ↦ rfl
  producer := h.producer
  consumer := h.consumer
  valid := h.valid.resetNext hopened

theorem enter (h : Shows p q v) (hreset : v.entered < v.reset) :
    Shows p { q with
      reserved := Function.update q.reserved ((v.entered + 1) % p.numBlocks)
        (p.cursorAt (v.entered + 1) 0)
      producerBlock := (v.entered + 1) % p.numBlocks } v.enter where
  committed := h.committed
  consumed := h.consumed
  reserved := by
    have htaken := h.valid.taken_le_entered
    have hclaimed := h.valid.claimed_le (v.entered + 1)
    rw [h.valid.committed_of_gt (Nat.lt_succ_self v.entered), Nat.le_zero] at hclaimed
    refine h.reserved.advance_to p.numBlocks_pos ?_ fun r _ ↦ rfl
    have hnot : ¬ v.entered + 1 ≤ v.taken := by omega
    exact congrArg _ ((if_neg hnot).trans hclaimed)
  stolen := h.stolen
  producer := rfl
  consumer := h.consumer
  valid := h.valid.enter hreset

theorem claim (h : Shows p q v) {count : ℕ} (hr : v.taken < r) (hle : r ≤ v.entered)
    (hroom : v.claimed r + count ≤ v.committed p.entriesPerBlock r) :
    Shows p { q with
      reserved := Function.update q.reserved (r % p.numBlocks)
        (p.cursorAt r (v.claimed r + count)) } (v.claim r count) where
  committed := h.committed
  consumed := h.consumed
  reserved := by
    have hconsumer := h.valid.consumer_le
    have hlap := h.valid.lap
    have hopened := h.valid.entered_le
    have hreset := h.valid.reset_le
    refine h.reserved.change ⟨hle, by omega⟩ (congrArg _ ?_) fun r' hr' ↦ congrArg _ ?_
    · exact (if_neg (Nat.not_le_of_lt hr)).trans (Function.update_self _ _ _)
    · change (if r' ≤ v.taken then _ else Function.update v.claimed r _ r') = _
      rw [Function.update_of_ne hr']
  stolen := h.stolen
  producer := h.producer
  consumer := h.consumer
  valid := h.valid.claim (Nat.lt_of_le_of_lt h.valid.consumer_le hr) hroom

theorem leave (h : Shows p q v) {count : ℕ} (hr : InWindow p.numBlocks v.reset r)
    (hvalid : (v.leave r count).Valid p.numBlocks p.entriesPerBlock) :
    Shows p { q with
      stolen := Function.update q.stolen (r % p.numBlocks)
        (q.stolen (r % p.numBlocks) + count) } (v.leave r count) where
  committed := h.committed
  consumed := h.consumed
  reserved := h.reserved
  stolen := by
    rw [h.stolen r hr, Params.cursorAt_add]
    refine h.stolen.change hr (congrArg _ (Function.update_self _ _ _)) fun r' hr' ↦ ?_
    exact congrArg _ (Function.update_of_ne hr' _ _)
  producer := h.producer
  consumer := h.consumer
  valid := hvalid

theorem takeOver (h : Shows p q v) (htaken : v.taken = v.consumer)
    (hentered : v.consumer < v.entered) (hpopped : v.popped = p.entriesPerBlock) :
    Shows p { q with
      reserved := Function.update q.reserved ((v.consumer + 1) % p.numBlocks)
        (p.cursorAt (v.consumer + 1) p.entriesPerBlock) } v.takeOver where
  committed := h.committed
  consumed := h.consumed
  reserved := by
    have hlap := h.valid.lap
    have hopened := h.valid.entered_le
    have hreset := h.valid.reset_le
    refine h.reserved.change ⟨hentered, by omega⟩ (congrArg _ ?_) fun r hr ↦ congrArg _ ?_
    · exact if_pos (Nat.le_of_eq (congrArg _ htaken.symm))
    · change (if r ≤ v.taken + 1 then _ else v.claimed r) = if r ≤ v.taken then _ else v.claimed r
      exact if_congr (by omega) rfl rfl
  stolen := h.stolen
  producer := h.producer
  consumer := h.consumer
  valid := h.valid.takeOver htaken hentered hpopped

theorem credit (h : Shows p q v) (htaken : v.consumer < v.taken) :
    Shows p { q with
      stolen := Function.update q.stolen ((v.consumer + 1) % p.numBlocks)
        (q.stolen ((v.consumer + 1) % p.numBlocks) +
          (p.entriesPerBlock - v.claimed (v.consumer + 1)))
      consumed := Function.update q.consumed ((v.consumer + 1) % p.numBlocks)
        (p.cursorAt (v.consumer + 1) (v.claimed (v.consumer + 1)))
      consumerBlock := (v.consumer + 1) % p.numBlocks } (v.credit p.entriesPerBlock) where
  committed := h.committed
  consumed := by
    have hpopped := h.valid.lapped (.inr htaken)
    refine h.consumed.advance_to p.numBlocks_pos (congrArg _ (if_pos rfl)) fun r hr ↦ congrArg _ ?_
    have hnot : r ≠ v.consumer + 1 := by omega
    refine (if_neg hnot).trans ?_
    split_ifs
    · exact hpopped.symm
    · rfl
  reserved := h.reserved
  stolen := by
    have hlap := h.valid.lap
    have hentered := h.valid.taken_le_entered
    have hreset_le := h.valid.entered_le
    have hopened := h.valid.reset_le
    have hr : InWindow p.numBlocks v.reset (v.consumer + 1) := ⟨by omega, by omega⟩
    rw [h.stolen _ hr, Params.cursorAt_add]
    refine h.stolen.change hr (congrArg _ (Function.update_self _ _ _)) fun r' hr' ↦ ?_
    exact congrArg _ (Function.update_of_ne hr' _ _)
  producer := h.producer
  consumer := rfl
  valid := h.valid.credit htaken

theorem consume (h : Shows p q v) {count : ℕ}
    (hroom : v.popped + count ≤ v.committed p.entriesPerBlock v.consumer) :
    Shows p { q with
      consumed := Function.update q.consumed (v.consumer % p.numBlocks)
        (p.cursorAt v.consumer (v.popped + count)) } (v.consume count) where
  committed := h.committed
  consumed := by
    have hfront : InWindow p.numBlocks v.consumer v.consumer := inWindow_front p.numBlocks_pos
    refine h.consumed.change hfront (congrArg _ (if_pos rfl)) fun r hr ↦ congrArg _ ?_
    exact (if_neg hr).trans (if_neg hr).symm
  reserved := h.reserved
  stolen := h.stolen
  producer := h.producer
  consumer := h.consumer
  valid := h.valid.consume hroom

end Shows

/-- A new queue shows the rounds of one. -/
theorem shows_initial [Inhabited α] :
    Shows p (.initial p .unbounded : BwosQueue α) (.initial p.numBlocks p.entriesPerBlock) := by
  have hn := p.numBlocks_pos
  have hword {r : ℕ} (hr : InWindow p.numBlocks p.numBlocks r) (i : ℕ)
      (hi : i ≤ p.entriesPerBlock) :
      p.cursorAt r i = p.make .unbounded (if isHead (r % p.numBlocks) then 1 else 0) i := by
    obtain ⟨hle, hlt⟩ := hr
    rw [Params.make, PackedCursor.make_eq (p.index_lt hi), Params.cursorAt]
    refine congrArg (· * 2 ^ p.indexBits + i) ?_
    rcases Nat.lt_or_eq_of_le hle with hless | rfl
    · have hne : ¬ r = 0 := by omega
      rw [Nat.div_eq_of_lt hless, isHead, Nat.mod_eq_of_lt hless, decide_eq_false hne]
      rfl
    · rw [Nat.div_self hn, isHead, Nat.mod_self]
      rfl
  have hhead {r : ℕ} (hr : InWindow p.numBlocks p.numBlocks r) :
      isHead (r % p.numBlocks) = true ↔ r = p.numBlocks := by
    obtain ⟨hle, hlt⟩ := hr
    rw [isHead, decide_eq_true_iff]
    constructor
    · intro hzero
      by_contra hne
      rw [Nat.mod_eq_of_lt (by omega)] at hzero
      omega
    · rintro rfl
      exact Nat.mod_self _
  have howner {r : ℕ} (hr : InWindow p.numBlocks p.numBlocks r) :
      p.owner .unbounded (r % p.numBlocks) =
        p.cursorAt r (if r = p.numBlocks then 0 else p.entriesPerBlock) := by
    rw [Params.owner, hword hr _ (by split_ifs <;> omega)]
    by_cases heq : r = p.numBlocks
    · rw [if_pos ((hhead hr).mpr heq), if_pos heq, if_pos ((hhead hr).mpr heq)]
    · rw [if_neg (mt (hhead hr).mp heq), if_neg heq, if_neg (mt (hhead hr).mp heq)]
  refine ⟨fun r hr ↦ ?_, fun r hr ↦ ?_, fun r hr ↦ ?_, fun r hr ↦ ?_, ?_, ?_,
    View.valid_initial hn⟩
  · exact (howner hr).trans (congrArg _ (View.committed_initial hr.1).symm)
  · exact howner hr
  · exact ((hword hr _ (Nat.le_refl _)).symm).trans (congrArg _ (if_pos hr.1).symm)
  · exact ((hword hr _ (Nat.le_refl _)).symm).trans (congrArg _ (if_pos hr.1).symm)
  · exact (Nat.mod_self _).symm
  · exact (Nat.mod_self _).symm

end Stackfull.Queue.Bwos
