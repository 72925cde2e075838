import Stackfull.Queue.BwosRing

/-!
# The operations of the work-stealing queue on the rounds

What each operation does to the rounds when nothing interrupts it. The owner is between operations
(`View.Rest`); thieves may be in the middle of theirs, so some of what they have claimed may not be
left yet.
-/

set_option autoImplicit false
set_option relaxedAutoImplicit false
set_option linter.dupNamespace false

namespace Stackfull.Queue.Bwos

open Stackfull.Lib

universe u

variable {α : Type u} {p : Params} {q : BwosQueue α} {v : View} {r i : ℕ}

namespace View

/-- The owner is between operations. -/
structure Rest (v : View) : Prop where
  opened : v.opened = v.entered
  reset : v.reset = v.entered
  taken : v.taken = v.consumer

/-- The next round may be entered: the consumer and the thieves have left its storage. -/
structure MayAdvance (n size : ℕ) (v : View) : Prop where
  lap : v.entered < v.consumer + n
  lapped : v.entered + 1 = v.consumer + n → v.popped = size
  left : v.left (v.entered + 1 - n) = size

/-- The producer enters the next round. -/
def advance (v : View) : View := v.openNext.resetNext.enter

/-- The consumer moves to the next round. -/
def visit (size : ℕ) (v : View) : View := v.takeOver.credit size

theorem Rest.commit (h : v.Rest) (count : ℕ) : (v.commit count).Rest :=
  ⟨h.opened, h.reset, h.taken⟩

theorem Rest.advance (h : v.Rest) : v.advance.Rest :=
  ⟨congrArg (· + 1) h.opened, congrArg (· + 1) h.reset, h.taken⟩

theorem Rest.consume (h : v.Rest) (count : ℕ) : (v.consume count).Rest :=
  ⟨h.opened, h.reset, h.taken⟩

theorem Rest.visit (h : v.Rest) (size : ℕ) : (v.visit size).Rest :=
  ⟨h.opened, h.reset, congrArg (· + 1) h.taken⟩

end View

/-! ### Writing entries -/

namespace BwosQueue

theorem fill_of_lt {slots : ℕ → α} {index j : ℕ} (values : List α) (hlt : j < index) :
    write.fill slots index values j = slots j := by
  induction values generalizing slots index with
  | nil => rfl
  | cons value rest ih =>
    rw [write.fill, ih (Nat.lt_succ_of_lt hlt), Function.update_of_ne (Nat.ne_of_lt hlt)]

theorem fill_add {slots : ℕ → α} {index j : ℕ} {values : List α} {value : α}
    (hvalue : values[j]? = some value) : write.fill slots index values (index + j) = value := by
  induction values generalizing slots index j with
  | nil => exact nomatch hvalue
  | cons first rest ih =>
    rw [write.fill]
    cases j with
    | zero =>
      refine (fill_of_lt rest (Nat.lt_add_one index)).trans ?_
      rw [Function.update_self]
      exact Option.some.inj hvalue
    | succ j =>
      rw [Nat.add_comm j 1, ← Nat.add_assoc]
      exact ih hvalue

/-- The queue with values written behind those of the producer's round, and committed. -/
def filled (p : Params) (q : BwosQueue α) (v : View) (values : List α) : BwosQueue α :=
  { q.write q.producerBlock (v.committed p.entriesPerBlock v.entered) values with
    committed := Function.update q.committed q.producerBlock
      (p.cursorAt v.entered (v.committed p.entriesPerBlock v.entered + values.length)) }

end BwosQueue

namespace Shows

/-- The rounds do not depend on the entries, nor on where the thieves look. -/
theorem of_cursors {q' : BwosQueue α} (h : Shows p q v) (hcommitted : q'.committed = q.committed)
    (hconsumed : q'.consumed = q.consumed) (hreserved : q'.reserved = q.reserved)
    (hstolen : q'.stolen = q.stolen) (hproducer : q'.producerBlock = q.producerBlock)
    (hconsumer : q'.consumerBlock = q.consumerBlock) : Shows p q' v where
  committed := hcommitted ▸ h.committed
  consumed := hconsumed ▸ h.consumed
  reserved := hreserved ▸ h.reserved
  stolen := hstolen ▸ h.stolen
  producer := hproducer ▸ h.producer
  consumer := hconsumer ▸ h.consumer
  valid := h.valid

theorem write (h : Shows p q v) (block index : ℕ) (values : List α) :
    Shows p (q.write block index values) v :=
  h.of_cursors rfl rfl rfl rfl rfl rfl

/-! ### The producer -/

theorem committed_producer (h : Shows p q v) (hrest : v.Rest) :
    q.committed q.producerBlock =
      p.cursorAt v.entered (v.committed p.entriesPerBlock v.entered) := by
  rw [h.producer]
  exact h.committed_at (hrest.opened ▸ inWindow_front p.numBlocks_pos)

theorem isNextBlockWritable_next (h : Shows p q v) (hrest : v.Rest) :
    q.isNextBlockWritable p .unbounded (p.next q.producerBlock)
        ((v.entered + 1) / p.numBlocks) = true ↔
      v.MayAdvance p.numBlocks p.entriesPerBlock := by
  rw [h.producer, p.next_mod, h.isNextBlockWritable_iff hrest.reset]
  exact ⟨fun ⟨hlap, hlapped, hleft⟩ ↦ ⟨hlap, hlapped, hleft⟩,
    fun hmay ↦ ⟨hmay.lap, hmay.lapped, hmay.left⟩⟩

/-- What `advanceProducer` does where the next round may be entered. -/
theorem advanceProducer_of_may (h : Shows p q v) (hrest : v.Rest) (hi : i ≤ p.entriesPerBlock)
    (hmay : v.MayAdvance p.numBlocks p.entriesPerBlock) :
    q.advanceProducer p .unbounded q.producerBlock (p.cursorAt v.entered i) = some { q with
      committed := Function.update q.committed ((v.entered + 1) % p.numBlocks)
        (p.cursorAt (v.entered + 1) 0)
      stolen := Function.update q.stolen ((v.entered + 1) % p.numBlocks)
        (p.cursorAt (v.entered + 1) 0)
      reserved := Function.update q.reserved ((v.entered + 1) % p.numBlocks)
        (p.cursorAt (v.entered + 1) 0)
      producerBlock := (v.entered + 1) % p.numBlocks } := by
  have hnext : p.next q.producerBlock = (v.entered + 1) % p.numBlocks := by
    rw [h.producer, p.next_mod]
  have hwritable := (h.isNextBlockWritable_next hrest).mpr hmay
  rw [hnext] at hwritable
  rw [BwosQueue.advanceProducer, hnext, Params.nextRound_cursorAt hi,
    Params.version_cursorAt (Nat.zero_le _), if_pos hwritable]

theorem advanceProducer_of_not_may (h : Shows p q v) (hrest : v.Rest) (hi : i ≤ p.entriesPerBlock)
    (hmay : ¬ v.MayAdvance p.numBlocks p.entriesPerBlock) :
    q.advanceProducer p .unbounded q.producerBlock (p.cursorAt v.entered i) = none := by
  have hnext : p.next q.producerBlock = (v.entered + 1) % p.numBlocks := by
    rw [h.producer, p.next_mod]
  have hwritable := mt (h.isNextBlockWritable_next hrest).mp hmay
  rw [hnext] at hwritable
  rw [BwosQueue.advanceProducer, hnext, Params.nextRound_cursorAt hi,
    Params.version_cursorAt (Nat.zero_le _), if_neg hwritable]

/-- Whether the producer can advance, wherever in its block it is. -/
theorem isSome_advanceProducer (h : Shows p q v) (hrest : v.Rest) (hi : i ≤ p.entriesPerBlock) :
    (q.advanceProducer p .unbounded q.producerBlock (p.cursorAt v.entered i)).isSome = true ↔
      v.MayAdvance p.numBlocks p.entriesPerBlock := by
  by_cases hmay : v.MayAdvance p.numBlocks p.entriesPerBlock
  · rw [h.advanceProducer_of_may hrest hi hmay]
    exact iff_of_true rfl hmay
  · rw [h.advanceProducer_of_not_may hrest hi hmay]
    exact iff_of_false (fun hsome ↦ nomatch hsome) hmay

theorem advance (h : Shows p q v) (hrest : v.Rest)
    (hfull : v.committed p.entriesPerBlock v.entered = p.entriesPerBlock)
    (hmay : v.MayAdvance p.numBlocks p.entriesPerBlock) :
    Shows p { q with
      committed := Function.update q.committed ((v.entered + 1) % p.numBlocks)
        (p.cursorAt (v.entered + 1) 0)
      stolen := Function.update q.stolen ((v.entered + 1) % p.numBlocks)
        (p.cursorAt (v.entered + 1) 0)
      reserved := Function.update q.reserved ((v.entered + 1) % p.numBlocks)
        (p.cursorAt (v.entered + 1) 0)
      producerBlock := (v.entered + 1) % p.numBlocks } v.advance := by
  have hopen := h.openNext hrest.opened
    (h.valid.openNext hrest.opened hfull hmay.lap hmay.lapped hmay.left)
  have hreset := hopen.resetNext hrest.reset
    (Nat.lt_succ_of_le (Nat.le_of_eq (hrest.reset.trans hrest.opened.symm)))
  exact hreset.enter (Nat.lt_succ_of_le (Nat.le_of_eq hrest.reset.symm))

/-- In a round that was just entered nothing is committed. -/
theorem committed_advance (h : Shows p q v)
    (hfull : v.committed p.entriesPerBlock v.entered = p.entriesPerBlock) :
    v.advance.committed p.entriesPerBlock v.advance.entered = 0 := by
  have hpushed := h.valid.committed_entered
  rw [hfull] at hpushed
  change min p.entriesPerBlock (v.pushed - (v.entered + 1) * p.entriesPerBlock) = 0
  rw [hpushed, Nat.add_mul, Nat.one_mul, Nat.sub_self, Nat.min_zero]

/-- Writing to the producer's block and committing what was written. -/
theorem filled (h : Shows p q v) (hrest : v.Rest) (values : List α)
    (hroom : v.committed p.entriesPerBlock v.entered + values.length ≤ p.entriesPerBlock) :
    Shows p (q.filled p v values) (v.commit values.length) := by
  have hwritten := h.write q.producerBlock (v.committed p.entriesPerBlock v.entered) values
  have hcommit := hwritten.commit hrest.opened hroom
  have hcommitted := h.committed_producer hrest
  change Shows p { q.write q.producerBlock _ values with
    committed := Function.update q.committed q.producerBlock
      (q.committed q.producerBlock + values.length) } _ at hcommit
  rwa [hcommitted, Params.cursorAt_add] at hcommit

/-- Where there is room, `push` writes the value and commits it. -/
theorem pushPass_of_room (h : Shows p q v) (hrest : v.Rest) {width : Width} (value : α)
    (hroom : v.committed p.entriesPerBlock v.entered < p.entriesPerBlock)
    (hword : width.wrap (p.cursorAt v.entered (v.committed p.entriesPerBlock v.entered + 1)) =
      p.cursorAt v.entered (v.committed p.entriesPerBlock v.entered + 1)) :
    q.pushPass p width value = .inr (true, q.filled p v [value]) := by
  have hindex : p.index (q.committed q.producerBlock) =
      v.committed p.entriesPerBlock v.entered := by
    rw [h.committed_producer hrest, Params.index_cursorAt (Nat.le_of_lt hroom)]
  rw [BwosQueue.pushPass]
  dsimp only
  rw [hindex, if_pos hroom, h.committed_producer hrest, PackedCursor.addIndex, Params.cursorAt_add,
    hword]
  rfl

theorem pushPass_of_full (h : Shows p q v) (hrest : v.Rest) (width : Width) (value : α)
    (hfull : v.committed p.entriesPerBlock v.entered = p.entriesPerBlock) :
    q.pushPass p width value =
      match q.advanceProducer p width q.producerBlock (p.cursorAt v.entered p.entriesPerBlock) with
      | none => .inr (false, q)
      | some q => .inl q := by
  have hindex : p.index (q.committed q.producerBlock) = p.entriesPerBlock := by
    rw [h.committed_producer hrest, hfull, Params.index_cursorAt (Nat.le_refl _)]
  rw [BwosQueue.pushPass]
  dsimp only
  rw [hindex, if_neg (Nat.lt_irrefl _), h.committed_producer hrest, hfull] <;> rfl

end Shows

/-- What a push that succeeds does: it enters the next round first if the producer's is full. -/
structure Pushes (p : Params) (q : BwosQueue α) (v : View) (value : α) (q' : BwosQueue α)
    (v' : View) : Prop where
  start : v' = v ∧ v.committed p.entriesPerBlock v.entered < p.entriesPerBlock ∨
    v' = v.advance ∧ v.committed p.entriesPerBlock v.entered = p.entriesPerBlock ∧
      v.MayAdvance p.numBlocks p.entriesPerBlock
  shows' : Shows p q' (v'.commit 1)
  entries : q'.entries = (q.write (v'.entered % p.numBlocks)
    (v'.committed p.entriesPerBlock v'.entered) [value]).entries
  position : q'.stealPosition = q.stealPosition

namespace Shows

/-- `push` fails if the producer's block is full and the next one is not free, and otherwise
succeeds. -/
theorem push_cases (h : Shows p q v) (hrest : v.Rest) (value : α) {passes : ℕ}
    (hpasses : 2 ≤ passes) :
    (∃ q' v', q.push p .unbounded passes value = some (true, q') ∧ Pushes p q v value q' v') ∨
      q.push p .unbounded passes value = some (false, q) ∧
        v.committed p.entriesPerBlock v.entered = p.entriesPerBlock ∧
        ¬ v.MayAdvance p.numBlocks p.entriesPerBlock := by
  obtain ⟨passes, rfl⟩ : ∃ n, passes = n + 2 := ⟨passes - 2, by omega⟩
  rcases Nat.lt_or_eq_of_le (View.committed_le p.entriesPerBlock v v.entered) with hroom | hfull
  · have hpass := h.pushPass_of_room hrest value hroom (Width.wrap_unbounded _)
    refine .inl ⟨_, v, ?_, ⟨.inl ⟨rfl, hroom⟩, h.filled hrest [value] hroom, ?_, rfl⟩⟩
    · simp only [BwosQueue.push, loop, hpass]
    · rw [BwosQueue.filled, h.producer]
  · have hpass := h.pushPass_of_full hrest .unbounded value hfull
    by_cases hmay : v.MayAdvance p.numBlocks p.entriesPerBlock
    · rw [h.advanceProducer_of_may hrest (Nat.le_refl _) hmay] at hpass
      have hnext := h.advance hrest hfull hmay
      have hzero := h.committed_advance hfull
      have hroom := Nat.lt_of_le_of_lt (Nat.le_of_eq hzero) p.entriesPerBlock_pos
      have hpass' := hnext.pushPass_of_room hrest.advance value hroom (Width.wrap_unbounded _)
      refine .inl ⟨_, v.advance, ?_,
        ⟨.inr ⟨rfl, hfull, hmay⟩, hnext.filled hrest.advance [value] hroom, rfl, rfl⟩⟩
      simp only [BwosQueue.push, loop, hpass, hpass']
    · rw [h.advanceProducer_of_not_may hrest (Nat.le_refl _) hmay] at hpass
      refine .inr ⟨?_, hfull, hmay⟩
      simp only [BwosQueue.push, loop, hpass]

end Shows

/-! ### The consumer -/

namespace View

/-- An entry is committed that nobody has claimed: in the consumer's round or in a later one. -/
def Unclaimed (size : ℕ) (v : View) : Prop :=
  v.popped < v.committed size v.consumer ∨
    ∃ r, v.consumer < r ∧ v.claimed r < v.committed size r

/-- The consumer has moved over rounds of which it took nothing. -/
structure Moved (size : ℕ) (v v' : View) : Prop where
  entered : v'.entered = v.entered
  pushed : v'.pushed = v.pushed
  claimed : v'.claimed = v.claimed
  le : v.consumer ≤ v'.consumer
  popped : v.consumer = v'.consumer ∧ v'.popped = v.popped ∨
    v.consumer < v'.consumer ∧ v.popped = size ∧ v'.popped = v.claimed v'.consumer
  skipped : ∀ r, v.consumer < r → r < v'.consumer → v.claimed r = size
  left : ∀ r, v'.left r =
    if v.consumer < r ∧ r ≤ v'.consumer then v.left r + (size - v.claimed r) else v.left r

variable {size : ℕ} {v v' : View}

theorem Moved.refl (size : ℕ) (v : View) : Moved size v v where
  entered := rfl
  pushed := rfl
  claimed := rfl
  le := Nat.le_refl _
  popped := .inl ⟨rfl, rfl⟩
  skipped := fun r h h' ↦ absurd h (Nat.not_lt_of_lt h')
  left := fun r ↦ (if_neg fun h ↦ by omega).symm

theorem Moved.committed (h : Moved size v v') (r : ℕ) :
    v'.committed size r = v.committed size r := by
  rw [View.committed, View.committed, h.pushed]

theorem Moved.of_visit (hpopped : v.popped = size) (h : Moved size (v.visit size) v') :
    Moved size v v' where
  entered := h.entered
  pushed := h.pushed
  claimed := h.claimed
  le := Nat.le_trans (Nat.le_succ _) h.le
  popped := by
    refine .inr ⟨h.le, hpopped, ?_⟩
    rcases h.popped with ⟨hsame, heq⟩ | ⟨-, -, heq⟩
    · exact heq.trans (congrArg v.claimed hsame)
    · exact heq
  skipped := by
    intro r hlow hhigh
    rcases Nat.lt_or_eq_of_le (Nat.succ_le_of_lt hlow) with hlater | rfl
    · exact h.skipped r hlater hhigh
    · rcases h.popped with ⟨hsame, -⟩ | ⟨-, hfull, -⟩
      · exact absurd hsame (Nat.ne_of_lt hhigh)
      · exact hfull
  left := by
    intro r
    have hle : v.consumer + 1 ≤ v'.consumer := h.le
    have hclaimed : (v.visit size).claimed r = v.claimed r := rfl
    rw [h.left r, hclaimed]
    change (if v.consumer + 1 < r ∧ r ≤ v'.consumer then _ else _) = _
    rcases eq_or_ne r (v.consumer + 1) with rfl | hne
    · rw [if_neg (by omega), if_pos (by omega)]
      exact Function.update_self _ _ _
    · have hother : (v.visit size).left r = v.left r := Function.update_of_ne hne _ _
      rw [hother]
      exact if_congr (by omega) rfl rfl

/-- An entry that nobody has claimed is still there when the consumer has moved a round. -/
theorem unclaimed_visit (hpopped : v.popped = size) :
    (v.visit size).Unclaimed size ↔ v.Unclaimed size := by
  constructor
  · rintro (h | ⟨r, hr, h⟩)
    · exact .inr ⟨v.consumer + 1, Nat.lt_succ_self _, h⟩
    · exact .inr ⟨r, Nat.lt_of_succ_lt hr, h⟩
  · rintro (h | ⟨r, hr, h⟩)
    · have hle := committed_le size v v.consumer
      omega
    · rcases Nat.lt_or_eq_of_le (Nat.succ_le_of_lt hr) with hlater | rfl
      · exact .inr ⟨r, hlater, h⟩
      · exact .inl h

end View

namespace Shows

theorem takeOver_of_lt (h : Shows p q v) (hrest : v.Rest) (hpopped : v.popped = p.entriesPerBlock)
    (hlt : v.consumer < v.entered) :
    ∃ q', q.takeOverConsumerBlock p .unbounded (p.next q.consumerBlock)
        (p.cursorAt v.consumer p.entriesPerBlock) = some q' ∧
      Shows p q' (v.visit p.entriesPerBlock) ∧ q'.entries = q.entries ∧
      q'.stealPosition = q.stealPosition := by
  have hlap := h.valid.lap
  rw [hrest.opened] at hlap
  have hnext : p.next q.consumerBlock = (v.consumer + 1) % p.numBlocks := by
    rw [h.consumer, p.next_mod]
  have hreserved : q.reserved ((v.consumer + 1) % p.numBlocks) =
      p.cursorAt (v.consumer + 1) (v.claimed (v.consumer + 1)) :=
    h.reserved_at ⟨hlt, by omega⟩ (Nat.lt_succ_of_le (Nat.le_of_eq hrest.taken))
  have hmay := (h.consumerMayAdvance_iff rfl (Nat.le_of_lt hlt) (by omega)).mpr hlt
  have htake := h.takeOver hrest.taken hlt hpopped
  have hcredit := htake.credit (Nat.lt_succ_of_le (Nat.le_of_eq hrest.taken.symm))
  refine ⟨_, ?_, hcredit, rfl, rfl⟩
  rw [BwosQueue.takeOverConsumerBlock, hnext, if_pos hmay]
  dsimp only
  rw [hreserved, Params.index_cursorAt (h.claimed_le _), Nat.min_eq_left (h.claimed_le _),
    Params.nextVersion_cursorAt (Nat.le_refl _), Params.make_cursorAt (Nat.le_refl _)]
  rfl

theorem takeOver_of_eq (h : Shows p q v) (heq : v.consumer = v.entered) :
    q.takeOverConsumerBlock p .unbounded (p.next q.consumerBlock)
      (p.cursorAt v.consumer p.entriesPerBlock) = none := by
  have hmay := mt (h.consumerMayAdvance_iff rfl (Nat.le_of_eq heq) (by omega)).mp
    (Nat.not_lt_of_le (Nat.le_of_eq heq.symm))
  rw [BwosQueue.takeOverConsumerBlock, h.consumer, p.next_mod, if_neg hmay]

/-- The committed entries of the consumer's round, where it has not consumed them all. -/
theorem committed_consumer (h : Shows p q v) (hlt : v.popped < p.entriesPerBlock) :
    q.committed (v.consumer % p.numBlocks) =
      p.cursorAt v.consumer (v.committed p.entriesPerBlock v.consumer) := by
  have hlap := h.valid.lap
  have hconsumer := h.valid.consumer_le
  have htaken := h.valid.taken_le_entered
  have hentered := h.valid.entered_le
  have hreset := h.valid.reset_le
  refine h.committed_at ⟨by omega, Nat.lt_of_le_of_ne hlap fun heq ↦ ?_⟩
  exact Nat.ne_of_lt hlt (h.valid.lapped (.inl heq))

/-- Where the consumer stops in its round, it is the producer's. -/
theorem consumer_eq_entered (h : Shows p q v) (hlt : v.popped < p.entriesPerBlock)
    (heq : v.popped = v.committed p.entriesPerBlock v.consumer) : v.consumer = v.entered :=
  Nat.le_antisymm (Nat.le_trans h.valid.consumer_le h.valid.taken_le_entered)
    (h.valid.entered_le_of_committed_lt (heq ▸ hlt))

/-- There is nothing in the rounds after the producer's. -/
theorem unclaimed_of_eq (h : Shows p q v) (heq : v.consumer = v.entered) :
    v.Unclaimed p.entriesPerBlock ↔ v.popped < v.committed p.entriesPerBlock v.consumer := by
  refine or_iff_left ?_
  rintro ⟨r, hr, hlt⟩
  have hle := h.valid.le_entered_of_committed_pos (Nat.zero_lt_of_lt hlt)
  omega

end Shows

/-- What `locateConsumer` does to the queue: it moves the consumer. -/
structure Locates (p : Params) (q : BwosQueue α) (v : View) (q' : BwosQueue α) (v' : View) :
    Prop where
  shows' : Shows p q' v'
  rest : v'.Rest
  moved : v.Moved p.entriesPerBlock v'
  entries : q'.entries = q.entries
  position : q'.stealPosition = q.stealPosition

namespace Shows

/-- `locateConsumer` moves the consumer to the first entry that nobody has claimed, if there is
one. -/
theorem locateConsumer_spec (h : Shows p q v) (hrest : v.Rest) {blocks : ℕ}
    (hblocks : v.entered < v.consumer + blocks) :
    ∃ found q' v', q.locateConsumer p .unbounded blocks = (found, q') ∧ Locates p q v q' v' ∧
      (found = true ↔ v'.popped < v'.committed p.entriesPerBlock v'.consumer) ∧
      (found = true ↔ v.Unclaimed p.entriesPerBlock) := by
  induction blocks generalizing q v with
  | zero =>
    have hconsumer := h.valid.consumer_le
    have htaken := h.valid.taken_le_entered
    omega
  | succ blocks ih =>
    have hconsumed := h.consumed_consumer
    rw [BwosQueue.locateConsumer, h.consumer, hconsumed, Params.index_cursorAt h.popped_le]
    rcases Nat.lt_or_eq_of_le h.popped_le with hlt | hpopped
    · rw [if_pos hlt, h.committed_consumer hlt, Params.index_cursorAt (View.committed_le _ _ _)]
      have hle := h.valid.popped_le
      refine ⟨_, q, v, rfl, ⟨h, hrest, .refl _ _, rfl, rfl⟩, ?_, ?_⟩
      · rw [decide_eq_true_iff]
        omega
      · rw [decide_eq_true_iff]
        constructor
        · exact fun hne ↦ .inl (by omega)
        · intro hunclaimed heq
          have hless := (h.unclaimed_of_eq (h.consumer_eq_entered hlt heq)).mp hunclaimed
          omega
    · rw [if_neg (by omega), hpopped, ← h.consumer]
      have hle := Nat.le_trans h.valid.consumer_le h.valid.taken_le_entered
      rcases Nat.lt_or_eq_of_le hle with hlt | heq
      · obtain ⟨q₁, htake, hshows, hentries, hposition⟩ := h.takeOver_of_lt hrest hpopped hlt
        have hmore : v.entered < v.consumer + 1 + blocks := by omega
        obtain ⟨found, q', v', hlocate, hlocates, hfound, hunclaimed⟩ :=
          ih hshows (hrest.visit _) hmore
        rw [htake]
        refine ⟨found, q', v', hlocate, ⟨hlocates.shows', hlocates.rest,
          hlocates.moved.of_visit hpopped, hlocates.entries.trans hentries,
          hlocates.position.trans hposition⟩, hfound, ?_⟩
        exact hunclaimed.trans (View.unclaimed_visit hpopped)
      · rw [h.takeOver_of_eq heq]
        have hnone : ¬ v.popped < v.committed p.entriesPerBlock v.consumer := by
          have hcommitted := View.committed_le p.entriesPerBlock v v.consumer
          omega
        refine ⟨false, q, v, rfl, ⟨h, hrest, .refl _ _, rfl, rfl⟩, ?_, ?_⟩
        · exact iff_of_false Bool.false_ne_true hnone
        · rw [h.unclaimed_of_eq heq]
          exact iff_of_false Bool.false_ne_true hnone

/-- The walk of `hasEntries` finds an entry that nobody has claimed, if there is one. -/
theorem hasEntriesFrom_iff (h : Shows p q v) (hrest : v.Rest) {blocks : ℕ}
    (hconsumer : v.consumer ≤ r) (hle : r ≤ v.entered) (hblocks : v.entered < r + blocks)
    (hlap : v.entered ≤ r + p.numBlocks) (hi : i ≤ p.entriesPerBlock)
    (hlapped : i < p.entriesPerBlock → v.entered < r + p.numBlocks ∧
      i ≤ v.committed p.entriesPerBlock r) :
    q.hasEntriesFrom p .unbounded blocks (r % p.numBlocks) (p.cursorAt r i) = true ↔
      i < v.committed p.entriesPerBlock r ∨
        ∃ r', r < r' ∧ v.claimed r' < v.committed p.entriesPerBlock r' := by
  induction blocks generalizing r i with
  | zero => omega
  | succ blocks ih =>
    have hbeyond (heq : v.entered ≤ r) :
        ¬ ∃ r', r < r' ∧ v.claimed r' < v.committed p.entriesPerBlock r' := by
      rintro ⟨r', hr', hlt⟩
      have hentered := h.valid.le_entered_of_committed_pos (Nat.zero_lt_of_lt hlt)
      omega
    rw [BwosQueue.hasEntriesFrom, Params.index_cursorAt hi]
    rcases Nat.lt_or_eq_of_le hi with hlt | rfl
    · obtain ⟨hwindow, hcommitted⟩ := hlapped hlt
      rw [if_pos hlt, h.committed_at ⟨hrest.opened ▸ hle, hrest.opened ▸ hwindow⟩,
        Params.index_cursorAt (View.committed_le _ _ _), decide_eq_true_iff]
      constructor
      · exact fun hne ↦ .inl (by omega)
      · rintro (hmore | hlater) heq
        · omega
        · exact hbeyond (h.valid.entered_le_of_committed_lt (heq ▸ hlt)) hlater
    · have hfull : ¬ p.entriesPerBlock < v.committed p.entriesPerBlock r := by
        have hcommitted := View.committed_le p.entriesPerBlock v r
        omega
      rw [if_neg (Nat.lt_irrefl _), or_iff_right hfull]
      dsimp only
      rw [p.next_mod]
      by_cases hnext : r < v.entered
      · have htaken := hrest.taken
        have hwindow : InWindow p.numBlocks v.entered (r + 1) := ⟨hnext, by omega⟩
        rw [if_pos ((h.consumerMayAdvance_iff rfl hle hlap).mpr hnext),
          h.reserved_at hwindow (by omega), h.committed_at (hrest.opened ▸ hwindow),
          Params.index_cursorAt (h.claimed_le _),
          Params.index_cursorAt (View.committed_le _ _ _),
          Params.nextVersion_cursorAt (Nat.le_refl _), Params.make_cursorAt (Nat.le_refl _)]
        have hclaimed := h.valid.claimed_le (r + 1)
        split_ifs with hmore hfree
        · exact iff_of_true rfl ⟨r + 1, Nat.lt_succ_self _, hmore⟩
        · -- everything that is committed in the producer's round is claimed
          have hentered := h.valid.entered_le_of_committed_lt (r := r + 1) (by omega)
          refine iff_of_false (fun hfalse ↦ nomatch hfalse) ?_
          rintro ⟨r', hr', hlt⟩
          have hle' := h.valid.le_entered_of_committed_pos (Nat.zero_lt_of_lt hlt)
          have heq : r' = r + 1 := by omega
          exact hmore (heq ▸ hlt)
        · have hall := h.claimed_le (r + 1)
          rw [ih (by omega) hnext (by omega) (by omega) (Nat.le_refl _)
            fun hlt ↦ absurd hlt (Nat.lt_irrefl _), or_iff_right]
          · constructor
            · rintro ⟨r', hr', hlt⟩
              exact ⟨r', Nat.lt_of_succ_lt hr', hlt⟩
            · rintro ⟨r', hr', hlt⟩
              refine ⟨r', Nat.lt_of_le_of_ne (Nat.succ_le_of_lt hr') fun heq ↦ ?_, hlt⟩
              subst heq
              exact hmore hlt
          · exact Nat.not_lt_of_le (View.committed_le _ _ _)
      · rw [if_neg (mt (h.consumerMayAdvance_iff rfl hle hlap).mp hnext)]
        exact iff_of_false Bool.false_ne_true (hbeyond (Nat.le_of_not_lt hnext))

/-- `hasEntries` says whether there is an entry that nobody has claimed. -/
theorem hasEntries_iff (h : Shows p q v) (hrest : v.Rest) :
    q.hasEntries p .unbounded = true ↔ v.Unclaimed p.entriesPerBlock := by
  have hle := Nat.le_trans h.valid.consumer_le h.valid.taken_le_entered
  have hlap := h.valid.lap
  rw [hrest.opened] at hlap
  rw [BwosQueue.hasEntries, h.consumer, h.consumed_consumer]
  refine h.hasEntriesFrom_iff hrest (Nat.le_refl _) hle (by omega) hlap h.popped_le fun hlt ↦ ?_
  refine ⟨Nat.lt_of_le_of_ne hlap fun heq ↦ ?_, h.valid.popped_le⟩
  exact Nat.ne_of_lt hlt (h.valid.lapped (.inl (hrest.opened.trans heq)))

/-- `locateConsumer` visits enough blocks. -/
theorem entered_lt (h : Shows p q v) (hrest : v.Rest) :
    v.entered < v.consumer + (p.numBlocks + 1) := by
  have hlap := h.valid.lap
  rw [hrest.opened] at hlap
  omega

/-- `pop` takes the first entry that nobody has claimed, if there is one. -/
theorem pop_spec (h : Shows p q v) (hrest : v.Rest) :
    ∃ q₁ v₁, Locates p q v q₁ v₁ ∧
      (v.Unclaimed p.entriesPerBlock ∧
          v₁.popped < v₁.committed p.entriesPerBlock v₁.consumer ∧
          (∃ q', q.pop p .unbounded =
              (some (q.entries (v₁.consumer % p.numBlocks) v₁.popped), q') ∧
            Shows p q' (v₁.consume 1) ∧ q'.entries = q.entries ∧
            q'.stealPosition = q.stealPosition) ∨
        ¬ v.Unclaimed p.entriesPerBlock ∧ q.pop p .unbounded = (none, q₁)) := by
  obtain ⟨found, q₁, v₁, hlocate, hlocates, hfound, hunclaimed⟩ :=
    h.locateConsumer_spec hrest (h.entered_lt hrest)
  have hshows := hlocates.shows'
  refine ⟨q₁, v₁, hlocates, ?_⟩
  cases found with
  | false =>
    refine .inr ⟨fun h ↦ (nomatch hunclaimed.mpr h), ?_⟩
    rw [BwosQueue.pop, hlocate]
  | true =>
    have hless := hfound.mp rfl
    refine .inl ⟨hunclaimed.mp rfl, hless, _, ?_, hshows.consume hless, hlocates.entries,
      hlocates.position⟩
    rw [BwosQueue.pop, hlocate]
    dsimp only
    rw [hshows.consumer, hshows.consumed_consumer, Params.index_cursorAt hshows.popped_le,
      hlocates.entries]
    rfl

/-- `popBlock` takes what nobody has claimed of the first block with such an entry. -/
theorem popBlock_spec (h : Shows p q v) (hrest : v.Rest) :
    ∃ q₁ v₁, Locates p q v q₁ v₁ ∧
      (v.Unclaimed p.entriesPerBlock ∧
          v₁.popped < v₁.committed p.entriesPerBlock v₁.consumer ∧
          (∃ q', q.popBlock p .unbounded = (q.copy (v₁.consumer % p.numBlocks) v₁.popped
              (v₁.committed p.entriesPerBlock v₁.consumer), q') ∧
            Shows p q' (v₁.consume
              (v₁.committed p.entriesPerBlock v₁.consumer - v₁.popped)) ∧
            q'.entries = q.entries ∧ q'.stealPosition = q.stealPosition) ∨
        ¬ v.Unclaimed p.entriesPerBlock ∧ q.popBlock p .unbounded = ([], q₁)) := by
  obtain ⟨found, q₁, v₁, hlocate, hlocates, hfound, hunclaimed⟩ :=
    h.locateConsumer_spec hrest (h.entered_lt hrest)
  have hshows := hlocates.shows'
  refine ⟨q₁, v₁, hlocates, ?_⟩
  cases found with
  | false =>
    refine .inr ⟨fun h ↦ (nomatch hunclaimed.mpr h), ?_⟩
    rw [BwosQueue.popBlock, hlocate]
  | true =>
    have hless := hfound.mp rfl
    have hsum : v₁.popped + (v₁.committed p.entriesPerBlock v₁.consumer - v₁.popped) =
        v₁.committed p.entriesPerBlock v₁.consumer := Nat.add_sub_cancel' (Nat.le_of_lt hless)
    refine .inl ⟨hunclaimed.mp rfl, hless, _, ?_, hshows.consume (Nat.le_of_eq hsum),
      hlocates.entries, hlocates.position⟩
    have hcommitted := hshows.committed_consumer
      (Nat.lt_of_lt_of_le hless (View.committed_le _ _ _))
    rw [BwosQueue.popBlock, hlocate]
    dsimp only
    rw [hshows.consumer, hshows.consumed_consumer, hcommitted,
      Params.index_cursorAt hshows.popped_le, Params.index_cursorAt (View.committed_le _ _ _), hsum]
    simp only [BwosQueue.copy, hlocates.entries]

/-- `minRemainingSlots` asks about the round that the next block is in, and never counts it. -/
theorem minRemainingSlots_eq (h : Shows p q v) (hrest : v.Rest) :
    q.minRemainingSlots p .unbounded =
      p.entriesPerBlock - v.committed p.entriesPerBlock v.entered := by
  have htwo := p.two_le_numBlocks
  have hfirst := h.valid.first
  have hconsumer := h.valid.consumer_le
  have htaken := h.valid.taken_le_entered
  obtain ⟨old, hold⟩ : ∃ old, v.entered + 1 = old + p.numBlocks :=
    ⟨v.entered + 1 - p.numBlocks, by omega⟩
  have hnext : p.next q.producerBlock = old % p.numBlocks := by
    rw [h.producer, p.next_mod, hold, Nat.add_mod_right]
  have hwindow : InWindow p.numBlocks v.entered old := ⟨by omega, by omega⟩
  have hpred : Width.unbounded.pred (old / p.numBlocks) ≠ some (old / p.numBlocks) := by
    rw [Width.pred_unbounded]
    intro heq
    split_ifs at heq with hzero
    have hsub := Option.some.inj heq
    omega
  have hwritable : ¬ q.isNextBlockWritable p .unbounded (old % p.numBlocks)
      (p.version (q.committed (old % p.numBlocks))) = true := by
    rw [h.committed_at (hrest.opened ▸ hwindow),
      Params.version_cursorAt (View.committed_le _ _ _), BwosQueue.isNextBlockWritable,
      h.stolen old (hrest.reset ▸ hwindow), Params.version_cursorAt (h.valid.left_le old),
      decide_eq_true_iff]
    exact fun hall ↦ hpred hall.2.2.2
  rw [BwosQueue.minRemainingSlots, hnext, if_neg hwritable, h.committed_producer hrest,
    Params.index_cursorAt (View.committed_le _ _ _)]

end Shows

end Stackfull.Queue.Bwos
