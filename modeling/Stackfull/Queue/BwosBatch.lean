import Stackfull.Queue.BwosOperations

/-!
# A batch is pushed as one value after another would be

`pushBatch` commits as many entries at once as fit in the producer's block and enters the next block
only when it has more. That leaves the queue as pushing the values one after the other does, up to
the first push that fails.
-/

set_option autoImplicit false
set_option relaxedAutoImplicit false
set_option linter.dupNamespace false

namespace Stackfull.Queue.Bwos

open Stackfull.Lib

universe u

variable {α : Type u} {p : Params} {q : BwosQueue α} {v : View}

namespace BwosQueue

/-- One push after another, up to the first that fails: how many succeed, and the queue then. -/
def pushes (p : Params) (width : Width) : List α → BwosQueue α → ℕ × BwosQueue α
  | [], q => (0, q)
  | value :: rest, q =>
    match q.push p width 2 value with
    | some (true, q') => Prod.map (· + 1) id (pushes p width rest q')
    | _ => (0, q)

end BwosQueue

namespace Shows

theorem committed_commit (h : Shows p q v) (hrest : v.Rest) {count : ℕ}
    (hroom : v.committed p.entriesPerBlock v.entered + count ≤ p.entriesPerBlock) :
    (v.commit count).committed p.entriesPerBlock v.entered =
      v.committed p.entriesPerBlock v.entered + count := by
  have hpushed := h.valid.committed_entered
  have hpushed' := (h.valid.commit hrest.opened hroom).committed_entered
  change v.pushed + count =
    v.entered * p.entriesPerBlock + (v.commit count).committed p.entriesPerBlock v.entered
    at hpushed'
  omega

theorem filled_nil (h : Shows p q v) (hrest : v.Rest) : q.filled p v [] = q := by
  refine BwosQueue.ext rfl rfl rfl ?_ rfl rfl rfl ?_
  · change Function.update q.committed q.producerBlock _ = _
    rw [List.length_nil, Nat.add_zero, ← h.committed_producer hrest, Function.update_eq_self]
  · exact Function.update_eq_self _ _

/-- Values may be written and committed one at a time. -/
theorem filled_cons (h : Shows p q v) (hrest : v.Rest) (value : α) (rest : List α)
    (hroom : v.committed p.entriesPerBlock v.entered + 1 ≤ p.entriesPerBlock) :
    (q.filled p v [value]).filled p (v.commit 1) rest = q.filled p v (value :: rest) := by
  have hcommitted := h.committed_commit hrest hroom
  have hentered : (v.commit 1).entered = v.entered := rfl
  rw [BwosQueue.filled, hentered, hcommitted]
  refine BwosQueue.ext rfl rfl rfl ?_ rfl rfl rfl ?_
  · change Function.update (Function.update q.committed q.producerBlock _) q.producerBlock _ =
      Function.update q.committed q.producerBlock _
    rw [Function.update_idem, List.length_cons, Nat.add_assoc, Nat.add_comm 1 rest.length]
  · change Function.update (Function.update q.entries q.producerBlock _) q.producerBlock
      (BwosQueue.write.fill (Function.update q.entries q.producerBlock _ q.producerBlock) _ rest) =
      Function.update q.entries q.producerBlock _
    rw [Function.update_idem, Function.update_self]
    rfl

/-- Pushes that fit in the producer's round. -/
theorem pushes_append (h : Shows p q v) (hrest : v.Rest) (front back : List α)
    (hroom : v.committed p.entriesPerBlock v.entered + front.length ≤ p.entriesPerBlock) :
    q.pushes p .unbounded (front ++ back) =
      Prod.map (front.length + ·) id ((q.filled p v front).pushes p .unbounded back) := by
  induction front generalizing q v with
  | nil =>
    rw [h.filled_nil hrest]
    simp only [List.nil_append, List.length_nil, Nat.zero_add]
    rfl
  | cons value rest ih =>
    rw [List.length_cons] at hroom
    have hone : v.committed p.entriesPerBlock v.entered + 1 ≤ p.entriesPerBlock := by omega
    have hpush : q.push p .unbounded 2 value = some (true, q.filled p v [value]) := by
      simp only [BwosQueue.push, loop, h.pushPass_of_room hrest value hone (Width.wrap_unbounded _)]
    have hmore : (v.commit 1).committed p.entriesPerBlock (v.commit 1).entered + rest.length ≤
        p.entriesPerBlock := by
      change (v.commit 1).committed p.entriesPerBlock v.entered + rest.length ≤ _
      rw [h.committed_commit hrest hone]
      omega
    have hnext : Shows p (q.filled p v [value]) (v.commit 1) := h.filled hrest [value] hone
    rw [List.cons_append, BwosQueue.pushes, hpush]
    dsimp only
    rw [ih hnext (hrest.commit 1) hmore, h.filled_cons hrest value rest hone]
    refine Prod.ext ?_ rfl
    simp only [Prod.map_fst, List.length_cons]
    omega

/-- A pass of `pushBatch` fills the producer's block as far as the values go. -/
theorem pushBatchPass_eq (h : Shows p q v) (hrest : v.Rest) {width : Width} (value : α)
    (rest : List α) (pushed : ℕ) {count : ℕ}
    (hcount : count = min (p.entriesPerBlock - v.committed p.entriesPerBlock v.entered)
      (value :: rest).length)
    (hword : width.wrap (p.cursorAt v.entered
        (v.committed p.entriesPerBlock v.entered + count)) =
      p.cursorAt v.entered (v.committed p.entriesPerBlock v.entered + count)) :
    BwosQueue.pushBatchPass p width (value :: rest, pushed, q) =
      match (value :: rest).drop count with
      | [] => .inr (pushed + count, q.filled p v ((value :: rest).take count))
      | more =>
        match (q.filled p v ((value :: rest).take count)).advanceProducer p width
            q.producerBlock
            (p.cursorAt v.entered (v.committed p.entriesPerBlock v.entered + count)) with
        | none => .inr (pushed + count, q.filled p v ((value :: rest).take count))
        | some q' => .inl (more, pushed + count, q') := by
  have hindex : p.index (q.committed q.producerBlock) =
      v.committed p.entriesPerBlock v.entered := by
    rw [h.committed_producer hrest, Params.index_cursorAt (View.committed_le _ _ _)]
  have hlength : ((value :: rest).take count).length = count := by
    rw [List.length_take, hcount]
    omega
  have hfull : PackedCursor.addIndex width (q.committed q.producerBlock) count =
      p.cursorAt v.entered (v.committed p.entriesPerBlock v.entered + count) := by
    rw [h.committed_producer hrest, PackedCursor.addIndex, Params.cursorAt_add, hword]
  have hqueue : (if count = 0 then
      q.write q.producerBlock (v.committed p.entriesPerBlock v.entered) ((value :: rest).take count)
      else { q.write q.producerBlock (v.committed p.entriesPerBlock v.entered)
          ((value :: rest).take count) with
        committed := Function.update (q.write q.producerBlock
            (v.committed p.entriesPerBlock v.entered) ((value :: rest).take count)).committed
          q.producerBlock
          (p.cursorAt v.entered (v.committed p.entriesPerBlock v.entered + count)) }) =
      q.filled p v ((value :: rest).take count) := by
    split_ifs with hzero
    · have hsame := h.filled_nil hrest
      rw [hzero, List.take_zero, hsame]
      exact BwosQueue.ext rfl rfl rfl rfl rfl rfl rfl (Function.update_eq_self _ _)
    · rw [BwosQueue.filled, hlength] <;> rfl
  rw [BwosQueue.pushBatchPass]
  · rw [hindex, ← hcount, hfull, hqueue] <;> rfl
  · exact fun heq ↦ by cases heq

/-- Pushing to a full block is pushing to the next one, if that is free. -/
theorem pushes_of_full (h : Shows p q v) (hrest : v.Rest) (value : α) (rest : List α)
    (hfull : v.committed p.entriesPerBlock v.entered = p.entriesPerBlock) {q' : BwosQueue α}
    (hadvance : q.advanceProducer p .unbounded q.producerBlock
      (p.cursorAt v.entered p.entriesPerBlock) = some q') (hshows : Shows p q' v.advance) :
    q.pushes p .unbounded (value :: rest) = q'.pushes p .unbounded (value :: rest) := by
  have hzero := h.committed_advance hfull
  have hroom := Nat.lt_of_le_of_lt (Nat.le_of_eq hzero) p.entriesPerBlock_pos
  have hpass := h.pushPass_of_full hrest .unbounded value hfull
  rw [hadvance] at hpass
  have hpass' := hshows.pushPass_of_room hrest.advance value hroom (Width.wrap_unbounded _)
  have hpush : q.push p .unbounded 2 value = some (true, q'.filled p v.advance [value]) := by
    simp only [BwosQueue.push, loop, hpass, hpass']
  have hpush' : q'.push p .unbounded 2 value = some (true, q'.filled p v.advance [value]) := by
    simp only [BwosQueue.push, loop, hpass']
  rw [BwosQueue.pushes, BwosQueue.pushes, hpush, hpush']

theorem pushes_of_not_may (h : Shows p q v) (hrest : v.Rest) (value : α) (rest : List α)
    (hfull : v.committed p.entriesPerBlock v.entered = p.entriesPerBlock)
    (hmay : ¬ v.MayAdvance p.numBlocks p.entriesPerBlock) :
    q.pushes p .unbounded (value :: rest) = (0, q) := by
  have hpass := h.pushPass_of_full hrest .unbounded value hfull
  rw [h.advanceProducer_of_not_may hrest (Nat.le_refl _) hmay] at hpass
  have hpush : q.push p .unbounded 2 value = some (false, q) := by
    simp only [BwosQueue.push, loop, hpass]
  rw [BwosQueue.pushes, hpush]

/-- What is left of a queue by pushes. -/
theorem pushes_spec (h : Shows p q v) (hrest : v.Rest) (values : List α) :
    ∃ v', Shows p (q.pushes p .unbounded values).2 v' ∧ v'.Rest ∧ v.entered ≤ v'.entered := by
  induction values generalizing q v with
  | nil => exact ⟨v, h, hrest, Nat.le_refl _⟩
  | cons value rest ih =>
    rw [BwosQueue.pushes]
    rcases h.push_cases hrest value (Nat.le_refl 2) with ⟨q', v₁, heq, hpushes⟩ | ⟨heq, -, -⟩
    · rw [heq]
      rcases hpushes.start with ⟨rfl, -⟩ | ⟨rfl, -, -⟩
      · obtain ⟨v', hshows', hrest', hle⟩ := ih hpushes.shows' (hrest.commit 1)
        exact ⟨v', hshows', hrest', hle⟩
      · obtain ⟨v', hshows', hrest', hle⟩ := ih hpushes.shows' (hrest.advance.commit 1)
        exact ⟨v', hshows', hrest', Nat.le_of_succ_le hle⟩
    · rw [heq]
      exact ⟨v, h, hrest, Nat.le_refl _⟩

/-- The passes of `pushBatch` push one value after another. -/
theorem loop_pushBatchPass (h : Shows p q v) (hrest : v.Rest) (values : List α) (pushed : ℕ)
    {passes : ℕ} (hpasses : values.length +
      (if v.committed p.entriesPerBlock v.entered < p.entriesPerBlock then 1 else 2) ≤ passes) :
    loop (BwosQueue.pushBatchPass p .unbounded) passes (values, pushed, q) =
      some (Prod.map (pushed + ·) id (q.pushes p .unbounded values)) := by
  induction passes generalizing values pushed q v with
  | zero => split_ifs at hpasses <;> omega
  | succ passes ih =>
    cases values with
    | nil => rfl
    | cons value rest =>
      obtain ⟨count, hcount⟩ : ∃ count, count =
          min (p.entriesPerBlock - v.committed p.entriesPerBlock v.entered)
            (value :: rest).length := ⟨_, rfl⟩
      have hle := View.committed_le p.entriesPerBlock v v.entered
      have hlength : ((value :: rest).take count).length = count := by
        rw [List.length_take, hcount]
        omega
      have hroom : v.committed p.entriesPerBlock v.entered +
          ((value :: rest).take count).length ≤ p.entriesPerBlock := by omega
      have hfront := h.pushes_append hrest ((value :: rest).take count)
        ((value :: rest).drop count) hroom
      have hshows := h.filled hrest ((value :: rest).take count) hroom
      have hcommitted := h.committed_commit hrest hroom
      rw [List.take_append_drop, hlength] at hfront
      rw [hlength] at hshows hcommitted
      rw [loop, h.pushBatchPass_eq hrest value rest pushed hcount (Width.wrap_unbounded _), hfront]
      cases hback : (value :: rest).drop count with
      | nil => rfl
      | cons next more =>
        -- there is more only if the block is full
        have hmore : (value :: rest).length = count + (next :: more).length := by
          rw [← hback, List.length_drop]
          omega
        simp only [List.length_cons] at hcount hmore
        have hsum : v.committed p.entriesPerBlock v.entered + count = p.entriesPerBlock := by
          omega
        have hfull : (v.commit count).committed p.entriesPerBlock (v.commit count).entered =
            p.entriesPerBlock := hcommitted.trans hsum
        have hrest' := hrest.commit count
        dsimp only
        rw [hsum]
        by_cases hmay : (v.commit count).MayAdvance p.numBlocks p.entriesPerBlock
        · obtain ⟨q', hadvance, hnext⟩ : ∃ q',
              (q.filled p v ((value :: rest).take count)).advanceProducer p .unbounded
                q.producerBlock (p.cursorAt v.entered p.entriesPerBlock) = some q' ∧
              Shows p q' (v.commit count).advance :=
            ⟨_, hshows.advanceProducer_of_may hrest' (Nat.le_refl _) hmay,
              hshows.advance hrest' hfull hmay⟩
          have hzero := hshows.committed_advance hfull
          rw [hshows.pushes_of_full hrest' next more hfull hadvance hnext, hadvance]
          dsimp only
          rw [ih hnext hrest'.advance (next :: more) (pushed + count) ?_]
          · refine congrArg some (Prod.ext ?_ rfl)
            exact Nat.add_assoc _ _ _
          · rw [hzero, if_pos (Nat.lt_of_lt_of_le Nat.one_pos p.entriesPerBlock_pos)]
            simp only [List.length_cons] at hpasses ⊢
            split_ifs at hpasses <;> omega
        · have hadvance : (q.filled p v ((value :: rest).take count)).advanceProducer p .unbounded
              q.producerBlock (p.cursorAt v.entered p.entriesPerBlock) = none :=
            hshows.advanceProducer_of_not_may hrest' (Nat.le_refl _) hmay
          rw [hshows.pushes_of_not_may hrest' next more hfull hmay, hadvance]
          rfl

/-- A batch is pushed as one value after another would be. -/
theorem pushBatch_eq (h : Shows p q v) (hrest : v.Rest) (values : List α) {passes : ℕ}
    (hpasses : values.length + 2 ≤ passes) :
    q.pushBatch p .unbounded passes values = some (q.pushes p .unbounded values) := by
  have hloop := h.loop_pushBatchPass hrest values 0 (Nat.le_trans (by split_ifs <;> omega) hpasses)
  rw [BwosQueue.pushBatch, hloop]
  refine congrArg some (Prod.ext ?_ rfl)
  exact Nat.zero_add _

end Shows

end Stackfull.Queue.Bwos
