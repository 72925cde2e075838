import Stackfull.Queue.BwosExactlyOnce
import Stackfull.Queue.BwosStealing

/-!
# What the owner can rely on

Between its calls the owner's queue shows rounds in which nothing is half done on its side (`Rest`),
whatever the thieves are doing. So what `hasEntries` says is what `pop` and `popBlock` would find,
and `minRemainingSlots` is what is free in the producer's block, never the next block.

Without thieves the queue is a list. `Fifo` is that list, with the number of values taken off it so
far for the block boundaries: a push fails when the last block is full and more than `NumBlocks - 1`
blocks of values are in the list, and `popBlock` takes what is in the front block.
-/

set_option autoImplicit false
set_option relaxedAutoImplicit false
set_option linter.dupNamespace false

namespace Stackfull.Queue.Bwos

open Stackfull.Lib

universe u v

variable {ι : Type v} {α : Type u} {p : Params} {q : BwosQueue α} {v : View} {r i : ℕ}

/-! ### With thieves -/

/-- An entry is committed in the consumer's block that it has not consumed, or in any block that
nobody has claimed. -/
def BwosQueue.unclaimed (p : Params) (q : BwosQueue α) (block : ℕ) : Bool :=
  block = q.consumerBlock ∧ p.index (q.consumed block) < p.index (q.committed block) ∨
    p.index (q.reserved block) < p.index (q.committed block)

/-- `hasEntries` agrees with `pop` and `popBlock`, and misses no entry. -/
structure Agrees (p : Params) (q : BwosQueue α) : Prop where
  pop : q.hasEntries p .unbounded = true ↔ (q.pop p .unbounded).1.isSome = true
  popBlock : q.hasEntries p .unbounded = true ↔ 0 < (q.popBlock p .unbounded).1.length
  unclaimed : ∀ block, block < p.numBlocks → q.unclaimed p block = true →
    q.hasEntries p .unbounded = true

/-- `minRemainingSlots` counts the next block exactly if the producer could enter it, and a batch of
so many values fits. -/
structure ExactSlots (p : Params) (q : BwosQueue α) : Prop where
  slots : q.minRemainingSlots p .unbounded =
    p.entriesPerBlock - p.index (q.committed q.producerBlock) +
      if (q.advanceProducer p .unbounded q.producerBlock (q.committed q.producerBlock)).isSome then
        p.entriesPerBlock else 0
  batch : ∀ values : List α, values.length = q.minRemainingSlots p .unbounded →
    ∃ q', q.pushBatch p .unbounded (values.length + 2) values = some (values.length, q')

namespace Shows

/-- What is unclaimed in a block is unclaimed in its round. -/
theorem unclaimed_of_block (h : Shows p q v) (hrest : v.Rest) {block : ℕ}
    (hblock : block < p.numBlocks) (hunclaimed : q.unclaimed p block = true) :
    v.Unclaimed p.entriesPerBlock := by
  have hfirst := h.valid.first
  have hconsumer := h.valid.consumer_le
  have htaken := h.valid.taken_le_entered
  have hlap := h.valid.lap
  rw [hrest.opened] at hlap
  obtain ⟨r, hwindow, rfl⟩ := exists_round hblock (by omega : p.numBlocks ≤ v.entered)
  have hsize := View.committed_le p.entriesPerBlock v r
  rw [BwosQueue.unclaimed, decide_eq_true_iff, h.committed_at (hrest.opened ▸ hwindow),
    Params.index_cursorAt hsize, h.consumer] at hunclaimed
  rcases hunclaimed with ⟨hmod, hless⟩ | hless
  · rw [hmod, h.consumed_consumer, Params.index_cursorAt h.popped_le] at hless
    -- a producer that has come around found the consumer's block used up
    have hlt : v.entered < v.consumer + p.numBlocks := Nat.lt_of_le_of_ne hlap fun heq ↦ by
      have hfull := h.valid.lapped (.inl (hrest.opened.trans heq))
      omega
    obtain rfl : r = v.consumer := InWindow.eq_of_mod hwindow ⟨by omega, hlt⟩ hmod
    exact .inl hless
  · have hreserved : q.reserved (r % p.numBlocks) =
      p.cursorAt r (if r ≤ v.taken then p.entriesPerBlock else v.claimed r) :=
      h.reserved r hwindow
    rw [hreserved, Params.index_cursorAt (h.reservedIndex_le r)] at hless
    split_ifs at hless with hold
    · omega
    · exact .inr ⟨r, by omega, hless⟩

/-- `hasEntries` agrees with the pops wherever the owner is between calls. -/
theorem agrees (h : Shows p q v) (hrest : v.Rest) : Agrees p q where
  pop := by
    rw [h.hasEntries_iff hrest]
    obtain ⟨q₁, v₁, -, ⟨hsome, -, q', heq, -⟩ | ⟨hnone, heq⟩⟩ := h.pop_spec hrest
    · rw [heq]
      exact iff_of_true hsome rfl
    · rw [heq]
      exact iff_of_false hnone Bool.false_ne_true
  popBlock := by
    rw [h.hasEntries_iff hrest]
    obtain ⟨q₁, v₁, -, ⟨hsome, hless, q', heq, -⟩ | ⟨hnone, heq⟩⟩ := h.popBlock_spec hrest
    · rw [heq]
      refine iff_of_true hsome ?_
      rw [BwosQueue.copy, List.length_map, List.length_range]
      omega
    · rw [heq]
      exact iff_of_false hnone (Nat.lt_irrefl 0)
  unclaimed := fun _ hblock hunclaimed ↦
    (h.hasEntries_iff hrest).mpr (h.unclaimed_of_block hrest hblock hunclaimed)

/-- What fits in the producer's block is pushed. -/
theorem pushBatch_of_room (h : Shows p q v) (hrest : v.Rest) (values : List α)
    (hroom : v.committed p.entriesPerBlock v.entered + values.length ≤ p.entriesPerBlock) :
    q.pushBatch p .unbounded (values.length + 2) values =
      some (values.length, q.filled p v values) := by
  have happend := h.pushes_append hrest values [] hroom
  rw [List.append_nil, BwosQueue.pushes] at happend
  rw [h.pushBatch_eq hrest values (Nat.le_refl _), happend]
  rfl

/-- `minRemainingSlots` is exact where the next block may not be written to. -/
theorem exactSlots_iff (h : Shows p q v) (hrest : v.Rest) : ExactSlots p q ↔
    ¬ q.isNextBlockWritable p .unbounded (p.next q.producerBlock) (p.version (p.nextRound .unbounded
      (q.committed q.producerBlock) (isHead (p.next q.producerBlock)))) = true := by
  have hsize := View.committed_le p.entriesPerBlock v v.entered
  have hremaining := h.minRemainingSlots_eq hrest
  have hmay := h.isSome_advanceProducer hrest hsize
  rw [h.round_eq (Nat.le_trans (Nat.le_of_eq hrest.opened) (Nat.le_succ _)),
    Params.version_cursorAt (Nat.zero_le _), h.isNextBlockWritable_next hrest]
  constructor
  · rintro ⟨hslots, -⟩ hwritable
    have hpos := p.entriesPerBlock_pos
    rw [hremaining, h.committed_producer hrest, Params.index_cursorAt hsize,
      if_pos (hmay.mpr hwritable)] at hslots
    omega
  · intro hnot
    refine ⟨?_, fun values hlength ↦ ?_⟩
    · rw [hremaining, h.committed_producer hrest, Params.index_cursorAt hsize,
        if_neg (mt hmay.mp hnot)]
      rfl
    · rw [hremaining] at hlength
      exact ⟨_, h.pushBatch_of_room hrest values (by omega)⟩

end Shows

/-- Between the owner's calls its queue shows rounds in which nothing is half done. -/
theorem rest_of_reachable [DecidableEq ι] [Inhabited α] {s : State ι α}
    (hs : (threads ι α p).Reachable s) (hidle : s.owner.isIdle = true) :
    ∃ v, Shows p s.queue v ∧ v.Rest := by
  obtain ⟨v, fate, hsound, -⟩ := coherent hs
  refine ⟨v, hsound.shows', ?_⟩
  have howner := hsound.owner
  cases hpc : s.owner with
  | idle last =>
    rw [hpc] at howner
    exact howner
  | _ =>
    rw [hpc] at hidle
    exact nomatch hidle

/-- `minRemainingSlots` is exact in every state in which the producer could not enter the next
block, and in no other. -/
theorem minRemainingSlots_exact_iff [DecidableEq ι] [Inhabited α] {s : State ι α}
    (hs : (threads ι α p).Reachable s) (hidle : s.owner.isIdle = true) :
    ExactSlots p s.queue ↔ ¬ s.queue.isNextBlockWritable p .unbounded
      (p.next s.queue.producerBlock) (p.version (p.nextRound .unbounded
        (s.queue.committed s.queue.producerBlock)
        (isHead (p.next s.queue.producerBlock)))) = true := by
  obtain ⟨v, hshows, hrest⟩ := rest_of_reachable hs hidle
  exact hshows.exactSlots_iff hrest

/-- The first block is full and the producer in the second, which is the consumer's when the
producer comes around. -/
theorem minRemainingSlots_exact_full :
    let p : Params := ⟨2, 2, ⟨1, rfl⟩, by decide, by decide⟩
    let labels : List (Action (Fin 2) ℕ) :=
      .call (.pushBatch [5, 6, 7]) :: List.replicate 9 .own
    let s := ((threads (Fin 2) ℕ p).run (.initial p) labels).get (by decide +kernel)
    ExactSlots p s.queue :=
  (minRemainingSlots_exact_iff (System.reachable_of_run rfl (Option.some_get _).symm)
    (by decide +kernel)).mpr (by decide +kernel)

/-- In a new queue the next block may be written to, and is not counted. -/
theorem minRemainingSlots_too_low :
    ¬ ∀ (p : Params) (s : State (Fin 2) ℕ), (threads (Fin 2) ℕ p).Reachable s →
      s.owner.isIdle = true → (∀ a k, ¬ (s.thief a).Holds p k) → ExactSlots p s.queue := by
  intro h
  have hslots := (h ⟨2, 1, ⟨1, rfl⟩, by decide, by decide⟩ _ (.init rfl) rfl fun _ _ ↦ id).slots
  exact absurd hslots (by decide +kernel)

/-! ### Without thieves -/

/-- The operation of a call. -/
def Call.op : Call α → Op α
  | .push value => .push value
  | .pushBatch values => .pushBatch values
  | .pop => .pop
  | .popBlock => .popBlock

/-- A list, and how many values have been taken off it. -/
@[ext]
structure Fifo (α : Type u) where
  start : ℕ
  content : List α

namespace Fifo

/-- The last block is full and the list has more values than the other blocks have room for. -/
def full (p : Params) (f : Fifo α) : Bool :=
  p.entriesPerBlock ∣ f.start + f.content.length ∧
    (p.numBlocks - 1) * p.entriesPerBlock < f.content.length

def push (p : Params) (f : Fifo α) (value : α) : Bool × Fifo α :=
  if f.full p then (false, f) else (true, { f with content := f.content ++ [value] })

def pushBatch (p : Params) : List α → Fifo α → ℕ × Fifo α
  | [], f => (0, f)
  | value :: rest, f =>
    match f.push p value with
    | (true, f') => Prod.map (· + 1) id (pushBatch p rest f')
    | (false, f') => (0, f')

/-- Takes values off the front. -/
def take (f : Fifo α) (count : ℕ) : List α × Fifo α :=
  (f.content.take count, ⟨f.start + min count f.content.length, f.content.drop count⟩)

/-- What a call answers. The front block has the values up to the next multiple of
`EntriesPerBlock`. -/
def apply (p : Params) (f : Fifo α) : Call α → Answer α × Fifo α
  | .push value => Prod.map .flag id (f.push p value)
  | .pushBatch values => Prod.map .count id (f.pushBatch p values)
  | .pop => Prod.map (fun got ↦ .value got.head?) id (f.take 1)
  | .popBlock =>
    Prod.map .values id (f.take (p.entriesPerBlock - f.start % p.entriesPerBlock))

/-- The answers of calls one after another. -/
def answers (p : Params) : List (Call α) → Fifo α → List (Answer α)
  | [], _ => []
  | call :: calls, f => (f.apply p call).1 :: answers p calls (f.apply p call).2

end Fifo

/-- A push that pushed less than it was given. -/
def Call.refused : Call α → Answer α → Bool
  | .push _, .flag pushed => !pushed
  | .pushBatch values, .count pushed => pushed < values.length
  | _, _ => false

/-- A queue without thieves holds a list. -/
structure Serves (p : Params) (q : BwosQueue α) (v : View) (f : Fifo α) : Prop where
  shows' : Shows p q v
  rest : v.Rest
  claimed : ∀ r, v.claimed r = 0
  left : ∀ r, v.left r = if r ≤ v.consumer then p.entriesPerBlock else 0
  start : f.start = p.entry v.consumer v.popped
  length : f.start + f.content.length + p.numBlocks * p.entriesPerBlock = v.pushed
  begun : v.committed p.entriesPerBlock v.entered = 0 → v.pushed = p.numBlocks * p.entriesPerBlock
  stored : ∀ r i j, p.numBlocks ≤ r → v.opened < r + p.numBlocks →
    i < v.committed p.entriesPerBlock r → p.entry r i = f.start + j →
    f.content[j]? = some (q.entries (r % p.numBlocks) i)

theorem serves_initial [Inhabited α] : Serves p (.initial p .unbounded : BwosQueue α)
    (.initial p.numBlocks p.entriesPerBlock) ⟨0, []⟩ where
  shows' := shows_initial
  rest := ⟨rfl, rfl, rfl⟩
  claimed := fun _ ↦ rfl
  left := fun _ ↦ rfl
  start := by
    change 0 = p.entry p.numBlocks 0
    rw [Params.entry, Nat.sub_self, Nat.zero_mul]
  length := Nat.zero_add _
  begun := fun _ ↦ rfl
  stored := by
    intro r i j hround hopened hi
    have hle : p.numBlocks * p.entriesPerBlock ≤ r * p.entriesPerBlock :=
      Nat.mul_le_mul_right _ hround
    change i < min p.entriesPerBlock (p.numBlocks * p.entriesPerBlock - r * p.entriesPerBlock) at hi
    omega

namespace Serves

variable {f : Fifo α} {k : ℕ}

/-- The rounds that are in use, and how many values are in the list. -/
theorem bounds (h : Serves p q v f) : p.numBlocks ≤ v.consumer ∧ v.consumer ≤ v.entered ∧
    v.entered ≤ v.consumer + p.numBlocks ∧ f.content.length + v.popped =
      (v.entered - v.consumer) * p.entriesPerBlock + v.committed p.entriesPerBlock v.entered := by
  have hfirst := h.shows'.valid.first
  have hle := Nat.le_trans h.shows'.valid.consumer_le h.shows'.valid.taken_le_entered
  have hlap := h.shows'.valid.lap
  rw [h.rest.opened] at hlap
  have hpushed := h.shows'.valid.committed_entered
  have hlength := h.length
  have hconsumer : (v.consumer - p.numBlocks) * p.entriesPerBlock +
      p.numBlocks * p.entriesPerBlock = v.consumer * p.entriesPerBlock := by
    rw [← Nat.add_mul, Nat.sub_add_cancel hfirst]
  have hentered : (v.entered - v.consumer) * p.entriesPerBlock +
      v.consumer * p.entriesPerBlock = v.entered * p.entriesPerBlock := by
    rw [← Nat.add_mul, Nat.sub_add_cancel hle]
  rw [h.start, Params.entry] at hlength
  exact ⟨hfirst, hle, hlap, by omega⟩

/-- Without thieves a round has been left when the consumer is in it or behind it. -/
theorem mayAdvance_iff (h : Serves p q v f) : v.MayAdvance p.numBlocks p.entriesPerBlock ↔
    v.entered < v.consumer + p.numBlocks ∧
      (v.entered + 1 = v.consumer + p.numBlocks → v.popped = p.entriesPerBlock) := by
  refine ⟨fun hmay ↦ ⟨hmay.lap, hmay.lapped⟩, fun ⟨hlap, hlapped⟩ ↦ ⟨hlap, hlapped, ?_⟩⟩
  rw [h.left]
  exact if_pos (by omega)

/-- The list is full where the producer's block is and the next one may not be entered. -/
theorem full_iff (h : Serves p q v f) : f.full p = true ↔
    v.committed p.entriesPerBlock v.entered = p.entriesPerBlock ∧
      ¬ v.MayAdvance p.numBlocks p.entriesPerBlock := by
  obtain ⟨hfirst, hle, hlap, hcount⟩ := h.bounds
  have hn := p.numBlocks_pos
  have hsize := View.committed_le p.entriesPerBlock v v.entered
  have hpopped := h.shows'.popped_le
  have hpushed := h.shows'.valid.committed_entered
  have hlength := h.length
  have hothers : p.numBlocks * p.entriesPerBlock =
      (p.numBlocks - 1) * p.entriesPerBlock + p.entriesPerBlock := by
    rw [← Nat.succ_mul, Nat.succ_eq_add_one, Nat.sub_add_cancel hn]
  rw [Fifo.full, decide_eq_true_iff, h.mayAdvance_iff]
  constructor
  · rintro ⟨hdvd, hmany⟩
    have hcommitted : v.committed p.entriesPerBlock v.entered = p.entriesPerBlock := by
      have hsum := Nat.dvd_add hdvd (Nat.dvd_mul_left p.entriesPerBlock p.numBlocks)
      rw [hlength, hpushed, Nat.dvd_add_right (Nat.dvd_mul_left _ _)] at hsum
      rcases Nat.eq_zero_or_pos (v.committed p.entriesPerBlock v.entered) with hzero | hpos
      · have hbegun := h.begun hzero
        omega
      · exact Nat.le_antisymm hsize (Nat.le_of_dvd hpos hsum)
    refine ⟨hcommitted, fun ⟨hless, hlapped⟩ ↦ ?_⟩
    rw [hcommitted] at hcount
    rcases Nat.lt_or_eq_of_le (Nat.le_pred_of_lt (by omega :
      v.entered - v.consumer < p.numBlocks)) with hfew | hmost
    · have hmul : (v.entered - v.consumer + 1) * p.entriesPerBlock ≤
          (p.numBlocks - 1) * p.entriesPerBlock := Nat.mul_le_mul_right _ hfew
      rw [Nat.add_mul, Nat.one_mul] at hmul
      omega
    · have hall := hlapped (by rw [Nat.pred_eq_sub_one] at hmost; omega)
      rw [hmost, Nat.pred_eq_sub_one] at hcount
      omega
  · rintro ⟨hcommitted, hmay⟩
    rw [hcommitted] at hcount hpushed
    constructor
    · have hdvd : p.entriesPerBlock ∣ v.pushed := hpushed ▸
        Nat.dvd_add (Nat.dvd_mul_left _ _) (Nat.dvd_refl _)
      rw [← hlength] at hdvd
      exact (Nat.dvd_add_left (Nat.dvd_mul_left _ _)).mp hdvd
    · rcases Nat.lt_or_eq_of_le hlap with hless | heq
      · have hmost : v.entered + 1 = v.consumer + p.numBlocks := by
          by_contra hne
          exact hmay ⟨hless, fun h ↦ absurd h hne⟩
        have hsome : v.popped ≠ p.entriesPerBlock := fun hall ↦ hmay ⟨hless, fun _ ↦ hall⟩
        have hdistance : v.entered - v.consumer = p.numBlocks - 1 := by omega
        rw [hdistance] at hcount
        omega
      · have hall := h.shows'.valid.lapped (.inl (h.rest.opened.trans heq))
        have hdistance : v.entered - v.consumer = p.numBlocks := by omega
        have hpos := p.entriesPerBlock_pos
        rw [hdistance] at hcount
        omega

/-- Where the list is full the next block has an entry that was not consumed. -/
theorem unclaimed_next (h : Serves p q v f) (hfull : f.full p = true) :
    q.unclaimed p (p.next q.producerBlock) = true := by
  obtain ⟨hcommitted, hmay⟩ := h.full_iff.mp hfull
  obtain ⟨hfirst, hle, hlap, -⟩ := h.bounds
  have hn := p.numBlocks_pos
  have hpos := p.entriesPerBlock_pos
  -- the next block is still in the round that the producer is about to come around to
  obtain ⟨r, hr⟩ : ∃ r, v.entered + 1 = r + p.numBlocks := ⟨v.entered + 1 - p.numBlocks, by omega⟩
  have hwindow : InWindow p.numBlocks v.entered r := ⟨by omega, by omega⟩
  have hall : v.committed p.entriesPerBlock r = p.entriesPerBlock := by
    rcases Nat.eq_or_lt_of_le hwindow.1 with rfl | hlt
    · exact hcommitted
    · exact h.shows'.valid.committed_of_lt hlt
  rw [h.shows'.producer, Params.next_mod, hr, Nat.add_mod_right, BwosQueue.unclaimed,
    decide_eq_true_iff, h.shows'.committed_at (h.rest.opened ▸ hwindow), hall,
    Params.index_cursorAt (Nat.le_refl _)]
  rcases Nat.lt_or_eq_of_le hlap with hless | heq
  · have hmost : v.entered + 1 = v.consumer + p.numBlocks := by
      by_contra hne
      exact hmay (h.mayAdvance_iff.mpr ⟨hless, fun h ↦ absurd h hne⟩)
    obtain rfl : r = v.consumer := by omega
    have hpopped := h.shows'.popped_le
    have hsome : v.popped ≠ p.entriesPerBlock :=
      fun hall ↦ hmay (h.mayAdvance_iff.mpr ⟨hless, fun _ ↦ hall⟩)
    refine .inl ⟨h.shows'.consumer.symm, ?_⟩
    rw [h.shows'.consumed_consumer, Params.index_cursorAt hpopped]
    omega
  · have hreserved : q.reserved (r % p.numBlocks) =
        p.cursorAt r (if r ≤ v.taken then p.entriesPerBlock else v.claimed r) :=
      h.shows'.reserved r hwindow
    have hahead : ¬ r ≤ v.taken := by
      rw [h.rest.taken]
      omega
    refine .inr ?_
    rw [hreserved, if_neg hahead, h.claimed, Params.index_cursorAt (Nat.zero_le _)]
    exact hpos

/-- A value is pushed to a round with room, the producer's or the one that it has entered. -/
theorem pushed (h : Serves p q v f) {q' : BwosQueue α} {v₁ : View} {value : α}
    (hrest : v₁.Rest) (hopened : v.opened ≤ v₁.opened) (hpushed : v₁.pushed = v.pushed)
    (hconsumer : v₁.consumer = v.consumer) (hpopped : v₁.popped = v.popped)
    (hclaimed : v₁.claimed = v.claimed) (hleft : v₁.left = v.left)
    (hlow : v₁.entered * p.entriesPerBlock ≤ v₁.pushed) (hshows : Shows p q' (v₁.commit 1))
    (hentries : q'.entries = (q.write (v₁.entered % p.numBlocks)
      (v₁.committed p.entriesPerBlock v₁.entered) [value]).entries) :
    Serves p q' (v₁.commit 1) { f with content := f.content ++ [value] } where
  shows' := hshows
  rest := hrest.commit 1
  claimed := fun r ↦ (congrFun hclaimed r).trans (h.claimed r)
  left := by
    intro r
    change v₁.left r = if r ≤ v₁.consumer then _ else _
    rw [hleft, hconsumer]
    exact h.left r
  start := by
    change f.start = p.entry v₁.consumer v₁.popped
    rw [hconsumer, hpopped]
    exact h.start
  length := by
    change f.start + (f.content ++ [value]).length + _ = v₁.pushed + 1
    rw [List.length_append, hpushed, ← h.length, List.length_singleton]
    omega
  begun := by
    intro hzero
    have hpos := p.entriesPerBlock_pos
    change min p.entriesPerBlock (v₁.pushed + 1 - v₁.entered * p.entriesPerBlock) = 0 at hzero
    omega
  stored := by
    intro r i j hround hlap hi hj
    have hlength := h.length
    have hsize : i < p.entriesPerBlock := Nat.lt_of_lt_of_le hi (View.committed_le _ _ _)
    have hentered : r ≤ v₁.entered := hshows.valid.le_entered_of_committed_pos (by omega)
    have hslots (block : ℕ) : q'.entries block = if block = v₁.entered % p.numBlocks then
        BwosQueue.write.fill (q.entries (v₁.entered % p.numBlocks))
          (v₁.committed p.entriesPerBlock v₁.entered) [value] else q.entries block := by
      rw [hentries]
      exact Function.update_apply _ _ _ _
    change v₁.opened < r + p.numBlocks at hlap
    change i < min p.entriesPerBlock (v₁.pushed + 1 - r * p.entriesPerBlock) at hi
    have hrange : r * p.entriesPerBlock + i ≤ v₁.pushed := by omega
    have hmul : r * p.entriesPerBlock =
        (r - p.numBlocks) * p.entriesPerBlock + p.numBlocks * p.entriesPerBlock := by
      rw [← Nat.add_mul, Nat.sub_add_cancel hround]
    change (r - p.numBlocks) * p.entriesPerBlock + i = f.start + j at hj
    change (f.content ++ [value])[j]? = some (q'.entries (r % p.numBlocks) i)
    rcases Nat.lt_or_eq_of_le hrange with hold | hlast
    · -- an older entry
      have hcommitted : i < v.committed p.entriesPerBlock r := by
        unfold View.committed
        omega
      have hvalue := h.stored r i j hround (by omega) hcommitted hj
      rw [getElem?_append_of_some hvalue, hslots]
      split_ifs with hmod
      · obtain rfl : r = v₁.entered := InWindow.eq_of_mod ⟨hentered, hrest.opened ▸ hlap⟩
          (inWindow_front p.numBlocks_pos) hmod
        rw [BwosQueue.fill_of_lt [value]]
        unfold View.committed
        omega
      · rfl
    · -- the new one
      have hround' : r = v₁.entered := by
        by_contra hne
        have hle : (r + 1) * p.entriesPerBlock ≤ v₁.entered * p.entriesPerBlock :=
          Nat.mul_le_mul_right _ (by omega)
        rw [Nat.add_mul, Nat.one_mul] at hle
        omega
      have hindex : v₁.committed p.entriesPerBlock v₁.entered = i := by
        rw [← hround']
        unfold View.committed
        omega
      have hj' : j = f.content.length := by omega
      have hwritten : BwosQueue.write.fill (q.entries (v₁.entered % p.numBlocks)) i [value]
          (i + 0) = value := BwosQueue.fill_add rfl
      rw [hj', List.getElem?_concat_length, hslots, hround', if_pos rfl, hindex]
      exact congrArg some hwritten.symm

/-- `push` is the list's. -/
theorem push (h : Serves p q v f) (value : α) : ∃ q' v', q.push p .unbounded 2 value =
    some ((f.push p value).1, q') ∧ Serves p q' v' (f.push p value).2 := by
  have hfull := h.full_iff
  rcases h.shows'.push_cases h.rest value (Nat.le_refl 2) with ⟨q', v₁, heq, hpushes⟩ | ⟨heq, hno⟩
  · have hroom : ¬ f.full p = true := by
      rw [hfull]
      rcases hpushes.start with ⟨-, hless⟩ | ⟨-, -, hmay⟩
      · exact fun hall ↦ Nat.ne_of_lt hless hall.1
      · exact fun hall ↦ hall.2 hmay
    rw [Fifo.push, if_neg hroom]
    refine ⟨q', v₁.commit 1, heq, ?_⟩
    rcases hpushes.start with ⟨rfl, -⟩ | ⟨rfl, hcommitted, -⟩
    · exact h.pushed h.rest (Nat.le_refl _) rfl rfl rfl rfl rfl h.shows'.valid.low hpushes.shows'
        hpushes.entries
    · refine h.pushed h.rest.advance (Nat.le_succ _) rfl rfl rfl rfl rfl ?_ hpushes.shows'
        hpushes.entries
      have hpushed := h.shows'.valid.committed_entered
      change (v.entered + 1) * p.entriesPerBlock ≤ v.pushed
      rw [hpushed, hcommitted, Nat.add_mul, Nat.one_mul]
  · rw [Fifo.push, if_pos (hfull.mpr hno)]
    exact ⟨q, v, heq, h⟩

theorem pushes (h : Serves p q v f) (values : List α) : ∃ v',
    (q.pushes p .unbounded values).1 = (f.pushBatch p values).1 ∧
      Serves p (q.pushes p .unbounded values).2 v' (f.pushBatch p values).2 := by
  induction values generalizing q v f with
  | nil => exact ⟨v, rfl, h⟩
  | cons value rest ih =>
    obtain ⟨q', v', heq, hserves⟩ := h.push value
    rw [BwosQueue.pushes, Fifo.pushBatch, heq]
    rcases hpush : f.push p value with ⟨_ | _, f'⟩
    · rw [hpush] at hserves
      rw [Fifo.push] at hpush
      split_ifs at hpush with hfull
      · exact ⟨v, rfl, (Prod.mk.inj hpush).2 ▸ h⟩
      · cases hpush
    · rw [hpush] at hserves
      obtain ⟨v'', hcount, hlast⟩ := ih hserves
      exact ⟨v'', congrArg (· + 1) hcount, hlast⟩

/-- The consumer moves to the next block. -/
theorem moved (h : Serves p q v f) {q₁ : BwosQueue α} {v₁ : View}
    (hlocates : Locates p q v q₁ v₁) : Serves p q₁ v₁ f := by
  have hmoved := hlocates.moved
  have hle := hmoved.le
  have hpos := p.entriesPerBlock_pos
  have hcommitted := hmoved.committed
  have hopened : v₁.opened = v.opened := by
    rw [hlocates.rest.opened, h.rest.opened, hmoved.entered]
  refine ⟨hlocates.shows', hlocates.rest, fun r ↦ ?_, fun r ↦ ?_, ?_, ?_, ?_, ?_⟩
  · rw [hmoved.claimed]
    exact h.claimed r
  · rw [hmoved.left r, h.left r, h.claimed r]
    split_ifs <;> omega
  · rcases hmoved.popped with ⟨hsame, hpopped⟩ | ⟨hlt, hall, hpopped⟩
    · rw [← hsame, hpopped]
      exact h.start
    · -- there is nothing to skip, since nothing is stolen
      have hnext : v₁.consumer = v.consumer + 1 := by
        by_contra hne
        have hskipped := hmoved.skipped (v.consumer + 1) (Nat.lt_succ_self _) (by omega)
        rw [h.claimed] at hskipped
        omega
      have hfirst := h.bounds.1
      have hsub : v.consumer + 1 - p.numBlocks = v.consumer - p.numBlocks + 1 := by omega
      rw [h.start, hpopped, h.claimed, hall, hnext, Params.entry, Params.entry, hsub, Nat.add_mul,
        Nat.one_mul, Nat.add_zero]
  · rw [hmoved.pushed]
    exact h.length
  · rw [hcommitted, hmoved.entered, hmoved.pushed]
    exact h.begun
  · rw [hlocates.entries, hopened]
    intro r i j hround hlap hi hj
    exact h.stored r i j hround hlap (hcommitted r ▸ hi) hj

/-- The values at the front of the list are those of the consumer's round. -/
theorem front (h : Serves p q v f) {count : ℕ}
    (hroom : v.popped + count ≤ v.committed p.entriesPerBlock v.consumer) :
    f.content.take count =
      q.copy (v.consumer % p.numBlocks) v.popped (v.popped + count) := by
  have hfirst := h.bounds.1
  have hlap := h.shows'.valid.lap
  have hsize := View.committed_le p.entriesPerBlock v v.consumer
  refine List.ext_getElem? fun j ↦ ?_
  rw [BwosQueue.copy, Nat.add_sub_cancel_left, List.getElem?_map]
  rcases Nat.lt_or_ge j count with hj | hj
  · have hopened : v.opened < v.consumer + p.numBlocks := Nat.lt_of_le_of_ne hlap fun heq ↦ by
      have hall := h.shows'.valid.lapped (.inl heq)
      omega
    have hentry : p.entry v.consumer (v.popped + j) = f.start + j := by
      rw [h.start, p.entry_add]
    rw [List.getElem?_take_of_lt hj, List.getElem?_range hj]
    exact h.stored v.consumer (v.popped + j) j hfirst hopened (by omega) hentry
  · have hrange : (List.range count)[j]? = none :=
      List.getElem?_eq_none (by rwa [List.length_range])
    rw [List.getElem?_take_eq_none hj, hrange]
    rfl

theorem count_le (h : Serves p q v f) {count : ℕ}
    (hroom : v.popped + count ≤ v.committed p.entriesPerBlock v.consumer) :
    count ≤ f.content.length := by
  have hlength := congrArg List.length (h.front hroom)
  rw [List.length_take, BwosQueue.copy, List.length_map, List.length_range,
    Nat.add_sub_cancel_left] at hlength
  omega

/-- The consumer takes values off the list. -/
theorem taken (h : Serves p q v f) {q' : BwosQueue α} {count : ℕ}
    (hroom : v.popped + count ≤ v.committed p.entriesPerBlock v.consumer)
    (hshows : Shows p q' (v.consume count)) (hentries : q'.entries = q.entries) :
    Serves p q' (v.consume count) (f.take count).2 := by
  have hcount := h.count_le hroom
  have hmin : min count f.content.length = count := Nat.min_eq_left hcount
  refine ⟨hshows, h.rest.consume count, h.claimed, h.left, ?_, ?_, h.begun, ?_⟩
  · change f.start + min count f.content.length = p.entry v.consumer (v.popped + count)
    rw [hmin, h.start, p.entry_add]
  · change f.start + min count f.content.length + (f.content.drop count).length + _ = v.pushed
    rw [hmin, List.length_drop, ← h.length]
    omega
  · intro r i j hround hlap hi hj
    change p.entry r i = f.start + min count f.content.length + j at hj
    change (f.content.drop count)[j]? = some (q'.entries _ _)
    rw [hmin] at hj
    rw [List.getElem?_drop, hentries]
    exact h.stored r i (count + j) hround hlap hi (by omega)

/-- Where nothing is unclaimed the list is empty. -/
theorem content_eq_nil (h : Serves p q v f) (hnone : ¬ v.Unclaimed p.entriesPerBlock) :
    f.content = [] := by
  obtain ⟨hfirst, hle, -, hcount⟩ := h.bounds
  have hpos := p.entriesPerBlock_pos
  have hpopped := h.shows'.valid.popped_le
  obtain ⟨hhere, hlater⟩ := not_or.mp hnone
  have heq : v.consumer = v.entered := by
    by_contra hne
    -- the producer's round is ahead, and it has something in it unless nothing was ever pushed
    have hzero : v.committed p.entriesPerBlock v.entered = 0 := by
      by_contra hsome
      refine hlater ⟨v.entered, by omega, ?_⟩
      rw [h.claimed]
      omega
    have hbegun := h.begun hzero
    have hpushed := h.shows'.valid.committed_entered
    have hless : p.numBlocks * p.entriesPerBlock < v.entered * p.entriesPerBlock :=
      Nat.mul_lt_mul_of_pos_right (by omega) hpos
    omega
  rw [← heq, Nat.sub_self, Nat.zero_mul] at hcount
  exact List.eq_nil_of_length_eq_zero (by omega)

/-- Nothing can be taken off an empty list. -/
theorem take_eq_self (hnil : f.content = []) (count : ℕ) : f.take count = ([], f) := by
  obtain ⟨start, content⟩ := f
  obtain rfl : content = [] := hnil
  rw [Fifo.take, List.take_nil, List.drop_nil, List.length_nil, Nat.min_zero, Nat.add_zero]

/-- `pop` takes the first value of the list. -/
theorem pop (h : Serves p q v f) : ∃ q' v', q.pop p .unbounded = ((f.take 1).1.head?, q') ∧
    Serves p q' v' (f.take 1).2 := by
  obtain ⟨q₁, v₁, hlocates, ⟨-, hless, q', heq, hshows, hentries, -⟩ | ⟨hnone, heq⟩⟩ :=
    h.shows'.pop_spec h.rest
  · have hmoved := h.moved hlocates
    refine ⟨q', _, ?_, hmoved.taken hless hshows (hentries.trans hlocates.entries.symm)⟩
    have hfront : f.content.take 1 =
        q₁.copy (v₁.consumer % p.numBlocks) v₁.popped (v₁.popped + 1) := hmoved.front hless
    rw [heq, Fifo.take, hfront]
    simp [BwosQueue.copy, hlocates.entries]
  · rw [take_eq_self (h.content_eq_nil hnone)]
    exact ⟨q₁, v₁, heq, h.moved hlocates⟩

/-- The consumer's round has as many values to take as the front block of the list. -/
theorem take_front_block (h : Serves p q v f) {count : ℕ}
    (hcount : v.committed p.entriesPerBlock v.consumer = v.popped + count) (hpos : 0 < count) :
    f.take (p.entriesPerBlock - f.start % p.entriesPerBlock) = f.take count := by
  obtain ⟨-, hle, -, hsum⟩ := h.bounds
  have hsize := View.committed_le p.entriesPerBlock v v.consumer
  have hmod : f.start % p.entriesPerBlock = v.popped := by
    rw [h.start, Params.entry, Nat.add_comm, Nat.add_mul_mod_self_right,
      Nat.mod_eq_of_lt (by omega)]
  rw [hmod]
  rcases Nat.eq_or_lt_of_le hle with heq | hlt
  · -- the front block is the producer's, and may have fewer values than it has room for
    rw [← heq, Nat.sub_self, Nat.zero_mul, Nat.zero_add, hcount] at hsum
    have hlength : f.content.length = count := by omega
    have hroom : f.content.length ≤ p.entriesPerBlock - v.popped := by omega
    rw [← hlength, Fifo.take, Fifo.take, List.take_of_length_le hroom,
      List.drop_of_length_le hroom, Nat.min_eq_right hroom, List.take_length, List.drop_length,
      Nat.min_self]
  · rw [h.shows'.valid.committed_of_lt hlt] at hcount
    rw [hcount, Nat.add_sub_cancel_left]

/-- `popBlock` takes the values of the front block. -/
theorem popBlock (h : Serves p q v f) : ∃ q' v', q.popBlock p .unbounded =
    ((f.take (p.entriesPerBlock - f.start % p.entriesPerBlock)).1, q') ∧
      Serves p q' v' (f.take (p.entriesPerBlock - f.start % p.entriesPerBlock)).2 := by
  obtain ⟨q₁, v₁, hlocates, ⟨-, hless, q', heq, hshows, hentries, -⟩ | ⟨hnone, heq⟩⟩ :=
    h.shows'.popBlock_spec h.rest
  · have hmoved := h.moved hlocates
    obtain ⟨count, hcount⟩ : ∃ count, v₁.committed p.entriesPerBlock v₁.consumer =
        v₁.popped + count := ⟨_, (Nat.add_sub_cancel' (Nat.le_of_lt hless)).symm⟩
    rw [hcount, Nat.add_sub_cancel_left] at hshows
    rw [hcount] at heq
    have hroom := Nat.le_of_eq hcount.symm
    rw [hmoved.take_front_block hcount (by omega)]
    refine ⟨q', _, ?_, hmoved.taken hroom hshows (hentries.trans hlocates.entries.symm)⟩
    rw [heq, Fifo.take, hmoved.front hroom]
    simp only [BwosQueue.copy, hlocates.entries]
  · rw [take_eq_self (h.content_eq_nil hnone)]
    exact ⟨q₁, v₁, heq, h.moved hlocates⟩

/-- A batch that was cut short has filled the list. -/
theorem full_of_pushBatch_lt {values : List α} (hless : (f.pushBatch p values).1 < values.length) :
    (f.pushBatch p values).2.full p = true := by
  induction values generalizing f with
  | nil => exact absurd hless (Nat.lt_irrefl 0)
  | cons value rest ih =>
    rw [Fifo.pushBatch, Fifo.push] at hless ⊢
    split_ifs at hless ⊢ with hfull
    · exact hfull
    · exact ih (Nat.lt_of_succ_lt_succ hless)

/-- Every call of the owner is the list's. -/
theorem apply (h : Serves p q v f) (call : Call α) : ∃ q' v', q.apply p .unbounded call.op =
    some ((f.apply p call).1, q') ∧ Serves p q' v' (f.apply p call).2 := by
  cases call with
  | push value =>
    obtain ⟨q', v', heq, hserves⟩ := h.push value
    refine ⟨q', v', ?_, hserves⟩
    rw [Call.op, BwosQueue.apply, heq]
    rfl
  | pushBatch values =>
    obtain ⟨v', hcount, hserves⟩ := h.pushes values
    refine ⟨_, v', ?_, hserves⟩
    rw [Call.op, BwosQueue.apply, h.shows'.pushBatch_eq h.rest values (Nat.le_refl _), Fifo.apply]
    exact congrArg some (Prod.ext (congrArg Answer.count hcount) rfl)
  | pop =>
    obtain ⟨q', v', heq, hserves⟩ := h.pop
    refine ⟨q', v', ?_, hserves⟩
    rw [Call.op, BwosQueue.apply, heq]
    rfl
  | popBlock =>
    obtain ⟨q', v', heq, hserves⟩ := h.popBlock
    refine ⟨q', v', ?_, hserves⟩
    rw [Call.op, BwosQueue.apply, heq]
    rfl

/-- The answers of the owner's calls are the list's. -/
theorem answers (h : Serves p q v f) (calls : List (Call α)) :
    q.answers p .unbounded (calls.map Call.op) = some (f.answers p calls) := by
  induction calls generalizing q v f with
  | nil => rfl
  | cons call calls ih =>
    obtain ⟨q', v', heq, hserves⟩ := h.apply call
    rw [List.map_cons, BwosQueue.answers, heq, Fifo.answers]
    dsimp only
    rw [ih hserves]
    rfl

/-- A push is cut short only where the next block has an entry that was not consumed. -/
theorem unclaimed_of_refused (h : Serves p q v f) {call : Call α} {answer : Answer α}
    {q' : BwosQueue α} (happly : q.apply p .unbounded call.op = some (answer, q'))
    (hrefused : call.refused answer = true) :
    q'.unclaimed p (p.next q'.producerBlock) = true := by
  obtain ⟨q'', v', heq, hserves⟩ := h.apply call
  obtain ⟨rfl, rfl⟩ := Prod.mk.inj (Option.some.inj (heq.symm.trans happly))
  refine hserves.unclaimed_next ?_
  cases call with
  | push value =>
    rw [Fifo.apply, Fifo.push] at hrefused ⊢
    split_ifs at hrefused ⊢ with hfull
    · exact hfull
    · exact absurd hrefused Bool.false_ne_true
  | pushBatch values => exact full_of_pushBatch_lt (of_decide_eq_true hrefused)
  | pop => exact absurd hrefused Bool.false_ne_true
  | popBlock => exact absurd hrefused Bool.false_ne_true

end Serves

/-- Whatever the owner alone has done, its queue holds a list. -/
theorem serves_of_reachableUnder [Inhabited α]
    (hq : (system α p).ReachableUnder (fun _ op ↦ ∃ call : Call α, op = call.op) q) :
    ∃ v f, Serves p q v f := by
  induction hq with
  | init hinit =>
    obtain rfl : _ = BwosQueue.initial p .unbounded := hinit
    exact ⟨_, _, serves_initial⟩
  | step _ hcall hstep ih =>
    obtain ⟨v, f, hserves⟩ := ih
    obtain ⟨call, rfl⟩ := hcall
    obtain ⟨q', v', heq, hserves'⟩ := hserves.apply call
    have hafter : (system α p).step _ call.op = some q' := congrArg (Option.map Prod.snd) heq
    obtain rfl := Option.some.inj (hafter.symm.trans hstep)
    exact ⟨_, _, hserves'⟩

/-- `hasEntries` agrees with `pop` and `popBlock` whatever the thieves are doing, and misses no
entry. Without thieves the owner's calls answer as a list does, and a push fails only if the next
block has an entry that was not consumed. -/
theorem owner_contract (ι : Type v) [DecidableEq ι] (α : Type u) [Inhabited α] (p : Params) :
    (∀ s, (threads ι α p).Reachable s → s.owner.isIdle = true → Agrees p s.queue) ∧
      (∀ calls : List (Call α), (BwosQueue.initial p .unbounded).answers p .unbounded
        (calls.map Call.op) = some (Fifo.answers p calls ⟨0, []⟩)) ∧
      ∀ q, (system α p).ReachableUnder (fun _ op ↦ ∃ call : Call α, op = call.op) q →
        ∀ (call : Call α) answer q', q.apply p .unbounded call.op = some (answer, q') →
          call.refused answer = true → q'.unclaimed p (p.next q'.producerBlock) = true := by
  refine ⟨fun s hs hidle ↦ ?_, serves_initial.answers, fun q hq call answer q' happly hrefused ↦ ?_⟩
  · obtain ⟨v, hshows, hrest⟩ := rest_of_reachable hs hidle
    exact hshows.agrees hrest
  · obtain ⟨v, f, hserves⟩ := serves_of_reachableUnder hq
    exact hserves.unclaimed_of_refused happly hrefused

end Stackfull.Queue.Bwos
