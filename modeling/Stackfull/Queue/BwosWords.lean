import Stackfull.Queue.BwosStealing

/-!
# The work-stealing queue in words of limited width

In words of `w` bits the version of a cursor has `w - IndexBits` bits. As long as no round needs a
larger version, no word overflows and every operation does what it does in unbounded words; only
`stealPosition` wraps, and its blocks do not notice. The first round whose version does not fit is
one of the head block's. There `nextRound` wraps the version to 0, and `isNextBlockWritable`
subtracts 1 from it without a mask: it asks for a version that no cursor has. So the push that would
enter that round fails.
-/

set_option autoImplicit false
set_option relaxedAutoImplicit false
set_option linter.dupNamespace false

namespace Stackfull.Queue.Bwos

open Stackfull.Lib

universe u

variable {α : Type u} {p : Params} {q : BwosQueue α} {v : View} {r i w : ℕ}

/-! ### Words of a round -/

/-- The cursor leaves room for a version, and the template parameters fit in a word. -/
structure Params.Fits (p : Params) (w : ℕ) : Prop where
  version : p.indexBits < w
  numBlocks : p.numBlocks < 2 ^ w

/-- How many versions there are. -/
def Params.laps (p : Params) (w : ℕ) : ℕ := 2 ^ (w - p.indexBits)

namespace Params.Fits

variable (hfits : p.Fits w)
include hfits

theorem laps_mul : p.laps w * 2 ^ p.indexBits = 2 ^ w := by
  have h := hfits.version
  rw [laps, ← Nat.pow_add, Nat.sub_add_cancel (Nat.le_of_lt h)]

/-- There are fewer versions than half the words. -/
theorem laps_lt : p.laps w + 1 ≤ 2 ^ w := by
  have hpos : 0 < p.indexBits := by
    have hsize := p.entriesPerBlock_pos
    have hlt := lt_two_pow_bitsToHold p.entriesPerBlock
    refine Nat.pos_of_ne_zero fun hzero ↦ ?_
    rw [indexBits] at hzero
    rw [hzero] at hlt
    omega
  have hle : 2 ^ 1 ≤ 2 ^ p.indexBits := Nat.pow_le_pow_right Nat.two_pos hpos
  have hlaps : 0 < p.laps w := Nat.two_pow_pos _
  have hmul : p.laps w * 2 ≤ p.laps w * 2 ^ p.indexBits := Nat.mul_le_mul_left _ hle
  rw [hfits.laps_mul] at hmul
  omega

theorem dvd : p.numBlocks ∣ 2 ^ w := by
  obtain ⟨k, hk⟩ := p.isPowerOfTwo
  have hlt := hfits.numBlocks
  rw [hk] at hlt ⊢
  exact Nat.pow_dvd_pow 2 (Nat.le_of_lt ((Nat.pow_lt_pow_iff_right Nat.one_lt_two).mp hlt))

theorem cursorAt_lt (hr : r / p.numBlocks < p.laps w) (hi : i ≤ p.entriesPerBlock) :
    p.cursorAt r i < 2 ^ w := by
  have hindex := p.index_lt hi
  have hle : (r / p.numBlocks + 1) * 2 ^ p.indexBits ≤ p.laps w * 2 ^ p.indexBits :=
    Nat.mul_le_mul_right _ hr
  rw [hfits.laps_mul, Nat.add_mul, Nat.one_mul] at hle
  rw [cursorAt]
  omega

theorem wrap_cursorAt (hr : r / p.numBlocks < p.laps w) (hi : i ≤ p.entriesPerBlock) :
    (Width.bits w).wrap (p.cursorAt r i) = p.cursorAt r i :=
  Nat.mod_eq_of_lt (hfits.cursorAt_lt hr hi)

theorem make_cursorAt (hr : r / p.numBlocks < p.laps w) (hi : i ≤ p.entriesPerBlock) :
    p.make (.bits w) (r / p.numBlocks) i = p.cursorAt r i := by
  have hword := hfits.wrap_cursorAt hr (Nat.zero_le _)
  rw [← Params.make_cursorAt hi, make, make, PackedCursor.make, PackedCursor.make,
    Width.wrap_unbounded, Nat.shiftLeft_eq]
  exact congrArg (· ||| i) hword

omit hfits in
theorem nextRound_cursorAt (hi : i ≤ p.entriesPerBlock) :
    p.nextRound (.bits w) (p.cursorAt r i) (isHead ((r + 1) % p.numBlocks)) =
      (Width.bits w).wrap (p.cursorAt (r + 1) 0) :=
  congrArg (Width.bits w).wrap (Params.nextRound_cursorAt hi)

theorem pred_div (hr : r / p.numBlocks < p.laps w) (hpos : p.numBlocks ≤ r) :
    (Width.bits w).pred (r / p.numBlocks) = Width.unbounded.pred (r / p.numBlocks) := by
  have hlaps := hfits.laps_lt
  have hone : 1 ≤ r / p.numBlocks := (Nat.one_le_div_iff p.numBlocks_pos).mpr hpos
  have hsplit : r / p.numBlocks + 2 ^ w - 1 = (r / p.numBlocks - 1) + 2 ^ w := by omega
  rw [Width.pred_unbounded, if_neg (by omega)]
  change some ((r / p.numBlocks + 2 ^ w - 1) % 2 ^ w) = _
  rw [hsplit, Nat.add_mod_right, Nat.mod_eq_of_lt (by omega)]

theorem block_mod (position : ℕ) : p.block (position % 2 ^ w) = p.block position := by
  rw [p.block_eq, p.block_eq, Nat.mod_mod_of_dvd _ hfits.dvd]

end Params.Fits

/-- The queue with a position of `w` bits. -/
def BwosQueue.wrapped (w : ℕ) (q : BwosQueue α) : BwosQueue α :=
  { q with stealPosition := q.stealPosition % 2 ^ w }

/-- The version of the producer's round fits. -/
def View.Small (p : Params) (w : ℕ) (v : View) : Prop := v.entered / p.numBlocks < p.laps w

theorem View.Small.of_le (h : v.Small p w) (hr : r ≤ v.entered) : r / p.numBlocks < p.laps w :=
  Nat.lt_of_le_of_lt (Nat.div_le_div_right hr) h

/-- A push does not open a round whose version does not fit. -/
def BwosQueue.fits (p : Params) (w : ℕ) (q : BwosQueue α) : Bool :=
  ¬ (p.index (q.committed q.producerBlock) = p.entriesPerBlock ∧
    (q.advanceProducer p .unbounded q.producerBlock (q.committed q.producerBlock)).isSome ∧
    2 ^ (w - p.indexBits) ≤ p.version (p.nextRound .unbounded (q.committed q.producerBlock)
      (isHead (p.next q.producerBlock))))

/-- None of the pushes that a batch amounts to does. -/
def BwosQueue.fitsAll (p : Params) (w : ℕ) : List α → BwosQueue α → Bool
  | [], _ => true
  | value :: rest, q => q.fits p w &&
    match q.push p .unbounded 2 value with
    | some (true, q') => fitsAll p w rest q'
    | _ => true

/-- The condition on an operation. -/
def BwosQueue.fitting (p : Params) (w : ℕ) (q : BwosQueue α) : Op α → Bool
  | .push _ => q.fits p w
  | .pushBatch values => q.fitsAll p w values
  | _ => true

namespace Shows

theorem fits_iff (h : Shows p q v) (hrest : v.Rest) :
    q.fits p w = true ↔ (v.committed p.entriesPerBlock v.entered = p.entriesPerBlock →
      v.MayAdvance p.numBlocks p.entriesPerBlock → (v.entered + 1) / p.numBlocks < p.laps w) := by
  have hsize := View.committed_le p.entriesPerBlock v v.entered
  rw [BwosQueue.fits, decide_eq_true_iff, h.committed_producer hrest, Params.index_cursorAt hsize,
    h.isSome_advanceProducer hrest hsize, h.producer, p.next_mod, Params.nextRound_cursorAt hsize,
    Params.version_cursorAt (Nat.zero_le _), ← Params.laps, ← Nat.not_lt]
  tauto

theorem wrapped (h : Shows p q v) (w : ℕ) : Shows p (q.wrapped w) v :=
  h.of_cursors rfl rfl rfl rfl rfl rfl

/-! ### The producer -/

/-- Where the version of the next round fits, `advanceProducer` is not affected. -/
theorem advanceProducer_bits (h : Shows p q v) (hfits : p.Fits w) (hi : i ≤ p.entriesPerBlock)
    (hnext : (v.entered + 1) / p.numBlocks < p.laps w) :
    (q.wrapped w).advanceProducer p (.bits w) q.producerBlock (p.cursorAt v.entered i) =
      (q.advanceProducer p .unbounded q.producerBlock (p.cursorAt v.entered i)).map
        (BwosQueue.wrapped w) := by
  have hfirst := h.valid.first
  have hconsumer := h.valid.consumer_le
  have htaken := h.valid.taken_le_entered
  have hpred := hfits.pred_div hnext (by omega)
  have hwritable : (q.wrapped w).isNextBlockWritable p (.bits w) ((v.entered + 1) % p.numBlocks)
      ((v.entered + 1) / p.numBlocks) = q.isNextBlockWritable p .unbounded
        ((v.entered + 1) % p.numBlocks) ((v.entered + 1) / p.numBlocks) := by
    rw [BwosQueue.isNextBlockWritable, BwosQueue.isNextBlockWritable, hpred]
    rfl
  rw [BwosQueue.advanceProducer, BwosQueue.advanceProducer, h.producer, p.next_mod,
    Params.Fits.nextRound_cursorAt hi, hfits.wrap_cursorAt hnext (Nat.zero_le _),
    Params.nextRound_cursorAt hi, Params.version_cursorAt (Nat.zero_le _), hwritable]
  by_cases hmay : q.isNextBlockWritable p .unbounded ((v.entered + 1) % p.numBlocks)
    ((v.entered + 1) / p.numBlocks) = true
  · rw [if_pos hmay, if_pos hmay]
    rfl
  · rw [if_neg hmay, if_neg hmay]
    rfl

/-- Where it does not, `advanceProducer` fails. -/
theorem advanceProducer_wraps (h : Shows p q v) (hfits : p.Fits w) (hi : i ≤ p.entriesPerBlock)
    (hsmall : v.Small p w) (hnext : ¬ (v.entered + 1) / p.numBlocks < p.laps w) :
    (q.wrapped w).advanceProducer p (.bits w) q.producerBlock (p.cursorAt v.entered i) = none := by
  have hfirst := h.valid.first
  have hconsumer := h.valid.consumer_le
  have htaken := h.valid.taken_le_entered
  have hlaps := hfits.laps_lt
  have hversion : (v.entered + 1) / p.numBlocks = p.laps w := by
    have hdiv := p.div_succ v.entered
    have hlt : v.entered / p.numBlocks < p.laps w := hsmall
    split_ifs at hdiv <;> omega
  have hzero : (Width.bits w).wrap (p.cursorAt (v.entered + 1) 0) = p.cursorAt 0 0 := by
    rw [Params.cursorAt, hversion, hfits.laps_mul, Params.cursorAt, Nat.zero_div, Nat.zero_mul]
    exact Nat.mod_self _
  have hpred : (Width.bits w).pred (0 / p.numBlocks) = some (2 ^ w - 1) := by
    change some ((0 / p.numBlocks + 2 ^ w - 1) % 2 ^ w) = _
    rw [Nat.zero_div, Nat.zero_add, Nat.mod_eq_of_lt (by omega)]
  -- no cursor has the version before version 0
  obtain ⟨r, hwindow, hmod⟩ := exists_round (Nat.mod_lt (v.entered + 1) p.numBlocks_pos) hfirst
  have hindex : (if r = v.consumer then v.popped else p.entriesPerBlock) ≤ p.entriesPerBlock := by
    split_ifs
    · exact h.popped_le
    · exact Nat.le_refl _
  have hconsumed : p.version (q.consumed ((v.entered + 1) % p.numBlocks)) = r / p.numBlocks := by
    rw [← hmod, h.consumed r hwindow, Params.version_cursorAt hindex]
  have hless : r / p.numBlocks < p.laps w :=
    hsmall.of_le (Nat.le_trans hwindow.1 (Nat.le_trans hconsumer htaken))
  rw [BwosQueue.advanceProducer, h.producer, p.next_mod, Params.Fits.nextRound_cursorAt hi, hzero,
    Params.version_cursorAt (Nat.zero_le _), BwosQueue.isNextBlockWritable, hpred]
  refine if_neg fun hwritable ↦ ?_
  have heq := Option.some.inj (of_decide_eq_true hwritable).2.1
  change 2 ^ w - 1 = p.version (q.consumed ((v.entered + 1) % p.numBlocks)) at heq
  omega

/-- The version of the producer's round. -/
theorem version_producer (h : Shows p q v) (hrest : v.Rest) :
    p.version (q.committed q.producerBlock) = v.entered / p.numBlocks := by
  rw [h.committed_producer hrest, Params.version_cursorAt (View.committed_le _ _ _)]

theorem wrap_producer (hfits : p.Fits w) (hsmall : v.Small p w) (hi : i ≤ p.entriesPerBlock) :
    (Width.bits w).wrap (p.cursorAt v.entered i) = p.cursorAt v.entered i :=
  hfits.wrap_cursorAt hsmall hi

/-- A push to a block with room. -/
theorem push_of_room (h : Shows p q v) (hrest : v.Rest) {width : Width} (value : α)
    (hroom : v.committed p.entriesPerBlock v.entered < p.entriesPerBlock)
    (hword : width.wrap (p.cursorAt v.entered (v.committed p.entriesPerBlock v.entered + 1)) =
      p.cursorAt v.entered (v.committed p.entriesPerBlock v.entered + 1)) (passes : ℕ) :
    q.push p width (passes + 1) value = some (true, q.filled p v [value]) := by
  simp only [BwosQueue.push, loop, h.pushPass_of_room hrest value hroom hword]

/-- A push in words of limited width: it is not affected, or it fails although it would succeed. -/
theorem push_bits (h : Shows p q v) (hrest : v.Rest) (hfits : p.Fits w) (hsmall : v.Small p w)
    (value : α) :
    ∃ ok q' v', q.push p .unbounded 2 value = some (ok, q') ∧ Shows p q' v' ∧ v'.Rest ∧
      (q.fits p w = true ∧ v'.Small p w ∧
          (q.wrapped w).push p (.bits w) 2 value = some (ok, q'.wrapped w) ∨
        q.fits p w = false ∧ ¬ v'.Small p w ∧ ok = true ∧
          (q.wrapped w).push p (.bits w) 2 value = some (false, q.wrapped w)) := by
  have hw := h.wrapped w
  rcases Nat.lt_or_eq_of_le (View.committed_le p.entriesPerBlock v v.entered) with hroom | hfull
  · have hpush := h.push_of_room hrest value hroom (Width.wrap_unbounded _) 1
    have hpush' := hw.push_of_room hrest value hroom (wrap_producer hfits hsmall hroom) 1
    have hfit := (h.fits_iff (w := w) hrest).mpr fun hfull ↦
      absurd hroom (Nat.not_lt_of_ge hfull.ge)
    exact ⟨true, _, _, hpush, h.filled hrest [value] hroom, hrest.commit 1,
      .inl ⟨hfit, hsmall, hpush'⟩⟩
  · have hpass := h.pushPass_of_full hrest .unbounded value hfull
    have hpass' := hw.pushPass_of_full hrest (.bits w) value hfull
    have hblock : (q.wrapped w).producerBlock = q.producerBlock := rfl
    rw [hblock] at hpass'
    by_cases hmay : v.MayAdvance p.numBlocks p.entriesPerBlock
    · have hadvance := h.advanceProducer_of_may hrest (Nat.le_refl _) hmay
      have hnext := h.advance hrest hfull hmay
      have hzero := h.committed_advance hfull
      have hroom := Nat.lt_of_le_of_lt (Nat.le_of_eq hzero) p.entriesPerBlock_pos
      have hpush := hnext.push_of_room hrest.advance value hroom (Width.wrap_unbounded _) 0
      rw [hadvance] at hpass
      refine ⟨true, _, _, ?_, hnext.filled hrest.advance [value] hroom, hrest.advance.commit 1, ?_⟩
      · rw [BwosQueue.push, loop, hpass]
        exact hpush
      · by_cases hfit : (v.entered + 1) / p.numBlocks < p.laps w
        · have hadvance' := h.advanceProducer_bits hfits (Nat.le_refl _) hfit
          have hword := hfits.wrap_cursorAt hfit (Nat.succ_le_of_lt hroom)
          have hpush' := (hnext.wrapped w).push_of_room hrest.advance value hroom hword 0
          rw [hadvance', hadvance] at hpass'
          refine .inl ⟨(h.fits_iff hrest).mpr fun _ _ ↦ hfit, hfit, ?_⟩
          rw [BwosQueue.push, loop, hpass']
          exact hpush'
        · have hadvance' := h.advanceProducer_wraps hfits (Nat.le_refl _) hsmall hfit
          rw [hadvance'] at hpass'
          have hno := mt (h.fits_iff (w := w) hrest).mp fun h ↦ hfit (h hfull hmay)
          refine .inr ⟨Bool.eq_false_of_not_eq_true hno, hfit, rfl, ?_⟩
          rw [BwosQueue.push, loop, hpass']
    · have hadvance := h.advanceProducer_of_not_may hrest (Nat.le_refl _) hmay
      have hadvance' : (q.wrapped w).advanceProducer p (.bits w) q.producerBlock
          (p.cursorAt v.entered p.entriesPerBlock) = none := by
        by_cases hfit : (v.entered + 1) / p.numBlocks < p.laps w
        · rw [h.advanceProducer_bits hfits (Nat.le_refl _) hfit, hadvance]
          rfl
        · exact h.advanceProducer_wraps hfits (Nat.le_refl _) hsmall hfit
      rw [hadvance] at hpass
      rw [hadvance'] at hpass'
      refine ⟨false, q, v, ?_, h, hrest,
        .inl ⟨(h.fits_iff hrest).mpr fun _ h ↦ absurd h hmay, hsmall, ?_⟩⟩
      · rw [BwosQueue.push, loop, hpass]
      · rw [BwosQueue.push, loop, hpass']

/-- A block with room takes at least one value. -/
theorem pushes_pos (h : Shows p q v) (hrest : v.Rest) (value : α) (rest : List α)
    (hroom : v.committed p.entriesPerBlock v.entered < p.entriesPerBlock) :
    0 < (q.pushes p .unbounded (value :: rest)).1 := by
  rw [BwosQueue.pushes, h.push_of_room hrest value hroom (Width.wrap_unbounded _) 1]
  exact Nat.succ_pos _

/-- The passes of `pushBatch` in words of limited width: they are not affected, or they push fewer
values. -/
theorem loop_pushBatchPass_bits (h : Shows p q v) (hrest : v.Rest) (hfits : p.Fits w)
    (hsmall : v.Small p w) (values : List α) (pushed : ℕ) {passes : ℕ}
    (hpasses : values.length +
      (if v.committed p.entriesPerBlock v.entered < p.entriesPerBlock then 1 else 2) ≤ passes) :
    ∃ v', Shows p (q.pushes p .unbounded values).2 v' ∧ v'.Rest ∧
      (v'.Small p w ∧ loop (BwosQueue.pushBatchPass p (.bits w)) passes
          (values, pushed, q.wrapped w) = some (pushed + (q.pushes p .unbounded values).1,
            (q.pushes p .unbounded values).2.wrapped w) ∨
        ¬ v'.Small p w ∧ ∃ n q', loop (BwosQueue.pushBatchPass p (.bits w)) passes
          (values, pushed, q.wrapped w) = some (n, q') ∧
            n < pushed + (q.pushes p .unbounded values).1) := by
  induction passes generalizing values pushed q v with
  | zero => split_ifs at hpasses <;> omega
  | succ passes ih =>
    cases values with
    | nil => exact ⟨v, h, hrest, .inl ⟨hsmall, rfl⟩⟩
    | cons value rest =>
      obtain ⟨count, hcount⟩ : ∃ count, count =
          min (p.entriesPerBlock - v.committed p.entriesPerBlock v.entered)
            (value :: rest).length := ⟨_, rfl⟩
      have hle := View.committed_le p.entriesPerBlock v v.entered
      have hlength : ((value :: rest).take count).length = count := by
        rw [List.length_take, hcount]
        omega
      have hroom : v.committed p.entriesPerBlock v.entered +
          ((value :: rest).take count).length ≤ p.entriesPerBlock := by omega
      have hfront := h.pushes_append hrest ((value :: rest).take count)
        ((value :: rest).drop count) hroom
      have hshows := h.filled hrest ((value :: rest).take count) hroom
      have hcommitted := h.committed_commit hrest hroom
      rw [List.take_append_drop, hlength] at hfront
      rw [hlength] at hshows hcommitted hroom
      have hpass := (h.wrapped w).pushBatchPass_eq hrest value rest pushed hcount
        (wrap_producer hfits hsmall hroom)
      rw [loop, hpass, hfront]
      cases hback : (value :: rest).drop count with
      | nil => exact ⟨_, hshows, hrest.commit count, .inl ⟨hsmall, rfl⟩⟩
      | cons next more =>
        -- there is more only if the block is full
        have hmore : (value :: rest).length = count + (next :: more).length := by
          rw [← hback, List.length_drop]
          omega
        simp only [List.length_cons] at hcount hmore
        have hsum : v.committed p.entriesPerBlock v.entered + count = p.entriesPerBlock := by
          omega
        have hfull : (v.commit count).committed p.entriesPerBlock (v.commit count).entered =
            p.entriesPerBlock := hcommitted.trans hsum
        have hrest' := hrest.commit count
        have hbits : (v.commit count).Small p w := hsmall
        dsimp only
        rw [hsum]
        by_cases hmay : (v.commit count).MayAdvance p.numBlocks p.entriesPerBlock
        · obtain ⟨q', hadvance, hnext⟩ : ∃ q',
              (q.filled p v ((value :: rest).take count)).advanceProducer p .unbounded
                q.producerBlock (p.cursorAt v.entered p.entriesPerBlock) = some q' ∧
              Shows p q' (v.commit count).advance :=
            ⟨_, hshows.advanceProducer_of_may hrest' (Nat.le_refl _) hmay,
              hshows.advance hrest' hfull hmay⟩
          have hzero := hshows.committed_advance hfull
          have hfree := Nat.lt_of_le_of_lt (Nat.le_of_eq hzero) p.entriesPerBlock_pos
          have hmap := hshows.pushes_of_full hrest' next more hfull hadvance hnext
          rw [hmap]
          by_cases hfit : ((v.commit count).entered + 1) / p.numBlocks < p.laps w
          · have hadvance' : ((q.wrapped w).filled p v ((value :: rest).take count)).advanceProducer
                p (.bits w) (q.wrapped w).producerBlock (p.cursorAt v.entered p.entriesPerBlock) =
                  some (q'.wrapped w) :=
              (hshows.advanceProducer_bits hfits (Nat.le_refl _) hfit).trans
                (congrArg (Option.map (BwosQueue.wrapped w)) hadvance)
            rw [hadvance']
            obtain ⟨v', hshows', hrest'', hcases⟩ := ih hnext hrest'.advance hfit (next :: more)
              (pushed + count) (by
                rw [if_pos hfree]
                simp only [List.length_cons] at hpasses ⊢
                split_ifs at hpasses <;> omega)
            refine ⟨v', hshows', hrest'', ?_⟩
            simp only [Prod.map_fst, Prod.map_snd, id_eq, ← Nat.add_assoc]
            exact hcases
          · have hadvance' : ((q.wrapped w).filled p v ((value :: rest).take count)).advanceProducer
                p (.bits w) (q.wrapped w).producerBlock (p.cursorAt v.entered p.entriesPerBlock) =
                  none := hshows.advanceProducer_wraps hfits (Nat.le_refl _) hbits hfit
            rw [hadvance']
            obtain ⟨v', hshows', hrest'', hle⟩ := hnext.pushes_spec hrest'.advance (next :: more)
            have hpos := hnext.pushes_pos hrest'.advance next more hfree
            refine ⟨v', hshows', hrest'',
              .inr ⟨fun hsmall' ↦ hfit (hsmall'.of_le hle), _, _, rfl, ?_⟩⟩
            simp only [Prod.map_fst]
            omega
        · have hadvance := hshows.advanceProducer_of_not_may hrest' (Nat.le_refl _) hmay
          have hadvance' : ((q.wrapped w).filled p v ((value :: rest).take count)).advanceProducer
              p (.bits w) (q.wrapped w).producerBlock (p.cursorAt v.entered p.entriesPerBlock) =
                none := by
            by_cases hfit : ((v.commit count).entered + 1) / p.numBlocks < p.laps w
            · exact (hshows.advanceProducer_bits hfits (Nat.le_refl _) hfit).trans
                (congrArg (Option.map (BwosQueue.wrapped w)) hadvance)
            · exact hshows.advanceProducer_wraps hfits (Nat.le_refl _) hbits hfit
          rw [hadvance', hshows.pushes_of_not_may hrest' next more hfull hmay]
          exact ⟨_, hshows, hrest', .inl ⟨hbits, rfl⟩⟩

/-- `pushBatch` is not affected, or it pushes fewer values. -/
theorem pushBatch_bits (h : Shows p q v) (hrest : v.Rest) (hfits : p.Fits w) (hsmall : v.Small p w)
    (values : List α) :
    ∃ v', Shows p (q.pushes p .unbounded values).2 v' ∧ v'.Rest ∧
      (v'.Small p w ∧ (q.wrapped w).pushBatch p (.bits w) (values.length + 2) values =
          some ((q.pushes p .unbounded values).1, (q.pushes p .unbounded values).2.wrapped w) ∨
        ¬ v'.Small p w ∧ ∃ n q', (q.wrapped w).pushBatch p (.bits w) (values.length + 2) values =
          some (n, q') ∧ n < (q.pushes p .unbounded values).1) := by
  have hpasses : values.length +
      (if v.committed p.entriesPerBlock v.entered < p.entriesPerBlock then 1 else 2) ≤
      values.length + 2 := by split_ifs <;> omega
  have hloop := h.loop_pushBatchPass_bits hrest hfits hsmall values 0 hpasses
  simpa only [Nat.zero_add, BwosQueue.pushBatch] using hloop

/-- The version of the producer's round, told by its cursor. -/
theorem small_iff {v' : View} (h : Shows p q v) (hrest : v.Rest) (h' : Shows p q v')
    (hrest' : v'.Rest) : v.Small p w ↔ v'.Small p w := by
  rw [View.Small, View.Small, ← h.version_producer hrest, ← h'.version_producer hrest']

/-- The pushes of a batch open no round whose version does not fit if the last one does. -/
theorem fitsAll_iff (h : Shows p q v) (hrest : v.Rest) (hfits : p.Fits w) (hsmall : v.Small p w)
    (values : List α) {v' : View} (h' : Shows p (q.pushes p .unbounded values).2 v')
    (hrest' : v'.Rest) : q.fitsAll p w values = true ↔ v'.Small p w := by
  induction values generalizing q v with
  | nil => exact iff_of_true rfl ((h.small_iff hrest h' hrest').mp hsmall)
  | cons value rest ih =>
    obtain ⟨ok, q₁, v₁, hpush, h₁, hrest₁, hcases⟩ := h.push_bits hrest hfits hsmall value
    rw [BwosQueue.pushes, hpush] at h'
    rw [BwosQueue.fitsAll, hpush, Bool.and_eq_true]
    rcases hcases with ⟨hfit, hsmall₁, -⟩ | ⟨hfit, hsmall₁, rfl, -⟩
    · rw [hfit, eq_self_iff_true, true_and]
      cases ok with
      | false => exact iff_of_true rfl ((h.small_iff hrest h' hrest').mp hsmall)
      | true => exact ih h₁ hrest₁ hsmall₁ h'
    · rw [hfit]
      obtain ⟨v₂, h₂, hrest₂, hle⟩ := h₁.pushes_spec hrest₁ rest
      refine iff_of_false (fun hall ↦ absurd hall.1 Bool.false_ne_true) fun hsmall' ↦ hsmall₁ ?_
      exact ((h₂.small_iff hrest₂ h' hrest').mpr hsmall').of_le hle

theorem minRemainingSlots_bits (h : Shows p q v) (hrest : v.Rest) (hfits : p.Fits w)
    (hsmall : v.Small p w) :
    (q.wrapped w).minRemainingSlots p (.bits w) = q.minRemainingSlots p .unbounded := by
  have hfirst := h.valid.first
  have hconsumer := h.valid.consumer_le
  have htaken := h.valid.taken_le_entered
  have hlaps := hfits.laps_lt
  obtain ⟨r, hwindow, hmod⟩ := exists_round (Nat.mod_lt (v.entered + 1) p.numBlocks_pos)
    (by omega : p.numBlocks ≤ v.entered)
  have hnext : p.next q.producerBlock = r % p.numBlocks := by
    rw [h.producer, p.next_mod, hmod]
  have hless := hsmall.of_le hwindow.1
  have hpred : (Width.bits w).pred (r / p.numBlocks) ≠ some (r / p.numBlocks) := by
    intro heq
    have hsub : (r / p.numBlocks + 2 ^ w - 1) % 2 ^ w = r / p.numBlocks := Option.some.inj heq
    rcases Nat.eq_zero_or_pos (r / p.numBlocks) with hzero | hpos
    · rw [hzero, Nat.zero_add, Nat.mod_eq_of_lt (by omega)] at hsub
      omega
    · have hsplit : r / p.numBlocks + 2 ^ w - 1 = (r / p.numBlocks - 1) + 2 ^ w := by omega
      rw [hsplit, Nat.add_mod_right, Nat.mod_eq_of_lt (by omega)] at hsub
      omega
  have hwritable : ¬ (q.wrapped w).isNextBlockWritable p (.bits w) (r % p.numBlocks)
      (p.version (q.committed (r % p.numBlocks))) = true := by
    rw [h.committed_at (hrest.opened ▸ hwindow),
      Params.version_cursorAt (View.committed_le _ _ _)]
    intro hall
    have hstolen := (of_decide_eq_true hall).2.2.2
    change _ = some (p.version (q.stolen (r % p.numBlocks))) at hstolen
    rw [h.stolen r (hrest.reset ▸ hwindow), Params.version_cursorAt (h.valid.left_le r)] at hstolen
    exact hpred hstolen
  rw [h.minRemainingSlots_eq hrest, BwosQueue.minRemainingSlots]
  change (if (q.wrapped w).isNextBlockWritable p (.bits w) (p.next q.producerBlock)
    (p.version (q.committed (p.next q.producerBlock))) = true then _ else
    p.entriesPerBlock - p.index (q.committed q.producerBlock)) = _
  rw [hnext, if_neg hwritable, h.committed_producer hrest,
    Params.index_cursorAt (View.committed_le _ _ _)]

/-! ### The consumer -/

theorem takeOver_bits (h : Shows p q v) (hrest : v.Rest) (hfits : p.Fits w) (hsmall : v.Small p w) :
    (q.wrapped w).takeOverConsumerBlock p (.bits w) (p.next q.consumerBlock)
        (p.cursorAt v.consumer p.entriesPerBlock) =
      (q.takeOverConsumerBlock p .unbounded (p.next q.consumerBlock)
        (p.cursorAt v.consumer p.entriesPerBlock)).map (BwosQueue.wrapped w) := by
  have hlap := h.valid.lap
  rw [hrest.opened] at hlap
  have hle := Nat.le_trans h.valid.consumer_le h.valid.taken_le_entered
  rw [BwosQueue.takeOverConsumerBlock, BwosQueue.takeOverConsumerBlock, h.consumer, p.next_mod]
  have hiff := h.consumerMayAdvance_iff rfl hle hlap
  by_cases hlt : v.consumer < v.entered
  · have hmay := hiff.mpr hlt
    have hless := hsmall.of_le (Nat.succ_le_of_lt hlt)
    have hwindow : InWindow p.numBlocks v.entered (v.consumer + 1) := ⟨hlt, by omega⟩
    have hleft := h.valid.left_le_claimed (v.consumer + 1) (Nat.lt_succ_self _)
    have hclaimed := h.claimed_le (v.consumer + 1)
    have hreserved := h.reserved_at hwindow (Nat.lt_succ_of_le (Nat.le_of_eq hrest.taken))
    have hword : (Width.bits w).wrap (q.stolen ((v.consumer + 1) % p.numBlocks) +
        (p.entriesPerBlock - v.claimed (v.consumer + 1))) =
        q.stolen ((v.consumer + 1) % p.numBlocks) +
          (p.entriesPerBlock - v.claimed (v.consumer + 1)) := by
      rw [h.stolen _ (hrest.reset ▸ hwindow), Params.cursorAt_add]
      exact hfits.wrap_cursorAt hless (by omega)
    have hmay' : (q.wrapped w).consumerMayAdvance p ((v.consumer + 1) % p.numBlocks)
      (p.cursorAt v.consumer p.entriesPerBlock) = true := hmay
    rw [if_pos hmay', if_pos hmay, Params.nextVersion_cursorAt (Nat.le_refl _),
      hfits.make_cursorAt hless (Nat.le_refl _), Params.make_cursorAt (Nat.le_refl _)]
    dsimp only [BwosQueue.wrapped]
    rw [hreserved, Params.index_cursorAt hclaimed, Nat.min_eq_left hclaimed, hword]
    rfl
  · have hmay := mt hiff.mp hlt
    have hmay' : ¬ (q.wrapped w).consumerMayAdvance p ((v.consumer + 1) % p.numBlocks)
      (p.cursorAt v.consumer p.entriesPerBlock) = true := hmay
    rw [if_neg hmay', if_neg hmay]
    rfl

theorem locateConsumer_bits (h : Shows p q v) (hrest : v.Rest) (hfits : p.Fits w)
    (hsmall : v.Small p w) (blocks : ℕ) :
    (q.wrapped w).locateConsumer p (.bits w) blocks =
      Prod.map id (BwosQueue.wrapped w) (q.locateConsumer p .unbounded blocks) := by
  induction blocks generalizing q v with
  | zero => rfl
  | succ blocks ih =>
    have hconsumed := h.consumed_consumer
    rw [← h.consumer] at hconsumed
    rw [BwosQueue.locateConsumer, BwosQueue.locateConsumer]
    have hblock : (q.wrapped w).consumerBlock = q.consumerBlock := rfl
    have hsame : (q.wrapped w).consumed = q.consumed := rfl
    have hcommitted : (q.wrapped w).committed = q.committed := rfl
    rw [hblock, hsame, hcommitted]
    rw [hconsumed, Params.index_cursorAt h.popped_le]
    rcases Nat.lt_or_eq_of_le h.popped_le with hlt | hpopped
    · rw [if_pos hlt, if_pos hlt]
      rfl
    · rw [if_neg (by omega), if_neg (by omega), hpopped, h.takeOver_bits hrest hfits hsmall]
      have hle := Nat.le_trans h.valid.consumer_le h.valid.taken_le_entered
      rcases Nat.lt_or_eq_of_le hle with hlt | heq
      · obtain ⟨q', htake, hshows, -, -⟩ := h.takeOver_of_lt hrest hpopped hlt
        rw [htake]
        exact ih hshows (hrest.visit _) hsmall
      · rw [h.takeOver_of_eq heq]
        rfl

theorem pop_bits (h : Shows p q v) (hrest : v.Rest) (hfits : p.Fits w) (hsmall : v.Small p w) :
    (q.wrapped w).pop p (.bits w) = Prod.map id (BwosQueue.wrapped w) (q.pop p .unbounded) := by
  obtain ⟨found, q', v', hlocate, hlocates, hfound, -⟩ :=
    h.locateConsumer_spec hrest (h.entered_lt hrest)
  have hshows := hlocates.shows'
  have hbits := h.locateConsumer_bits hrest hfits hsmall (p.numBlocks + 1)
  rw [BwosQueue.pop, BwosQueue.pop, hbits, hlocate]
  cases found with
  | false => rfl
  | true =>
    have hless := hfound.mp rfl
    have hle := Nat.le_trans hshows.valid.consumer_le hshows.valid.taken_le_entered
    have hsmall' := hsmall.of_le (hlocates.moved.entered ▸ hle)
    have hword : (Width.bits w).wrap (q'.consumed q'.consumerBlock + 1) =
        q'.consumed q'.consumerBlock + 1 := by
      rw [hshows.consumer, hshows.consumed_consumer, Params.cursorAt_add]
      exact hfits.wrap_cursorAt hsmall' (Nat.le_trans hless (View.committed_le _ _ _))
    dsimp only [Prod.map_apply, id_eq, BwosQueue.wrapped, PackedCursor.addIndex]
    rw [hword]
    rfl

theorem popBlock_bits (h : Shows p q v) (hrest : v.Rest) (hfits : p.Fits w)
    (hsmall : v.Small p w) : (q.wrapped w).popBlock p (.bits w) =
      Prod.map id (BwosQueue.wrapped w) (q.popBlock p .unbounded) := by
  rw [BwosQueue.popBlock, BwosQueue.popBlock, h.locateConsumer_bits hrest hfits hsmall]
  rcases q.locateConsumer p .unbounded (p.numBlocks + 1) with ⟨_ | _, q'⟩
  · rfl
  · rfl

theorem hasEntriesFrom_bits (h : Shows p q v) (hfits : p.Fits w) (hsmall : v.Small p w)
    (blocks : ℕ) (hlow : v.consumer ≤ r) (hle : r ≤ v.entered) (hlap : v.entered ≤ r + p.numBlocks)
    (hi : i ≤ p.entriesPerBlock) :
    (q.wrapped w).hasEntriesFrom p (.bits w) blocks (r % p.numBlocks) (p.cursorAt r i) =
      q.hasEntriesFrom p .unbounded blocks (r % p.numBlocks) (p.cursorAt r i) := by
  induction blocks generalizing r i with
  | zero => rfl
  | succ blocks ih =>
    rw [BwosQueue.hasEntriesFrom, BwosQueue.hasEntriesFrom, Params.index_cursorAt hi, p.next_mod]
    rcases Nat.lt_or_eq_of_le hi with hlt | rfl
    · rw [if_pos hlt, if_pos hlt]
      rfl
    · rw [if_neg (Nat.lt_irrefl _), if_neg (Nat.lt_irrefl _)]
      have hiff := h.consumerMayAdvance_iff rfl hle hlap
      by_cases hnext : r < v.entered
      · have hmay := hiff.mpr hnext
        have hmay' : (q.wrapped w).consumerMayAdvance p ((r + 1) % p.numBlocks)
          (p.cursorAt r p.entriesPerBlock) = true := hmay
        dsimp only
        rw [if_pos hmay', if_pos hmay, Params.nextVersion_cursorAt (Nat.le_refl _),
          hfits.make_cursorAt (hsmall.of_le hnext) (Nat.le_refl _),
          Params.make_cursorAt (Nat.le_refl _),
          ih (Nat.le_succ_of_le hlow) hnext (by omega) (Nat.le_refl _)]
        rfl
      · have hmay := mt hiff.mp hnext
        have hmay' : ¬ (q.wrapped w).consumerMayAdvance p ((r + 1) % p.numBlocks)
          (p.cursorAt r p.entriesPerBlock) = true := hmay
        dsimp only
        rw [if_neg hmay', if_neg hmay]

theorem hasEntries_bits (h : Shows p q v) (hrest : v.Rest) (hfits : p.Fits w)
    (hsmall : v.Small p w) :
    (q.wrapped w).hasEntries p (.bits w) = q.hasEntries p .unbounded := by
  have hle := Nat.le_trans h.valid.consumer_le h.valid.taken_le_entered
  have hlap := h.valid.lap
  rw [hrest.opened] at hlap
  have hconsumed := h.consumed_consumer
  rw [BwosQueue.hasEntries, BwosQueue.hasEntries]
  change (q.wrapped w).hasEntriesFrom p (.bits w) _ q.consumerBlock (q.consumed q.consumerBlock) = _
  rw [h.consumer, hconsumed]
  exact h.hasEntriesFrom_bits hfits hsmall _ (Nat.le_refl _) hle hlap h.popped_le

end Shows

/-! ### The thieves -/

namespace Settled

/-- What a thief's pass leaves alone. -/
theorem stolen_bits (h : Settled p q v r) (hfits : p.Fits w) (hsmall : v.Small p w)
    (hopen : v.Open p.entriesPerBlock r) {count : ℕ}
    (hroom : v.claimed r + count ≤ p.entriesPerBlock) :
    (Width.bits w).wrap ((q.wrapped w).reserved (r % p.numBlocks) + count) =
        q.reserved (r % p.numBlocks) + count ∧
      (Width.bits w).wrap ((q.wrapped w).stolen (r % p.numBlocks) + count) =
        q.stolen (r % p.numBlocks) + count := by
  have hless := hsmall.of_le h.looks.window.1
  have hleft := h.quiet r
  rw [if_neg (Nat.not_le_of_lt hopen.1)] at hleft
  have hstolen : q.stolen (r % p.numBlocks) = p.cursorAt r (v.claimed r) :=
    (h.shows'.stolen r (h.rest.reset ▸ h.looks.window)).trans (congrArg _ hleft)
  change (Width.bits w).wrap (q.reserved (r % p.numBlocks) + count) = _ ∧
    (Width.bits w).wrap (q.stolen (r % p.numBlocks) + count) = _
  rw [h.shows'.reserved_of_open h.rest h.looks.window hopen, hstolen, Params.cursorAt_add]
  exact ⟨hfits.wrap_cursorAt hless hroom, hfits.wrap_cursorAt hless hroom⟩

theorem wrap_stealPosition (position : ℕ) :
    (Width.bits w).wrap (position % 2 ^ w + 1) = (position + 1) % 2 ^ w :=
  Nat.mod_add_mod _ _ _

theorem go_bits : ({ q.wrapped w with
    stealPosition := (Width.bits w).wrap ((q.wrapped w).stealPosition + 1) } : BwosQueue α) =
      ({ q with stealPosition := q.stealPosition + 1 } : BwosQueue α).wrapped w :=
  BwosQueue.ext rfl rfl (wrap_stealPosition _) rfl rfl rfl rfl rfl

theorem looks_bits (h : Settled p q v r) (hfits : p.Fits w) : Looks p (q.wrapped w) v r :=
  ⟨h.looks.window, (hfits.block_mod _).trans h.looks.block⟩

theorem stealPass_bits (h : Settled p q v r) (hfits : p.Fits w) (hsmall : v.Small p w) :
    (q.wrapped w).stealPass p (.bits w) =
      (q.stealPass p .unbounded).map (BwosQueue.wrapped w)
        (Prod.map id (BwosQueue.wrapped w)) := by
  have hiff := h.shows'.reserved_lt_iff h.rest h.looks.window
  rw [BwosQueue.stealPass, BwosQueue.stealPass, (h.looks_bits hfits).block, h.looks.block]
  by_cases hindex : p.index (q.reserved (r % p.numBlocks)) < p.entriesPerBlock
  · have hopen := hiff.mp hindex
    have hroom : v.claimed r + 1 ≤ p.entriesPerBlock := hopen.2
    obtain ⟨hreserved, hstolen⟩ := h.stolen_bits hfits hsmall hopen hroom
    have hindex' : p.index ((q.wrapped w).reserved (r % p.numBlocks)) < p.entriesPerBlock := hindex
    rw [if_pos hindex', if_pos hindex, PackedCursor.addIndex, hreserved, hstolen]
    rw [apply_ite (Sum.map (BwosQueue.wrapped w) (Prod.map id (BwosQueue.wrapped w)))]
    rfl
  · have hindex' : ¬ p.index ((q.wrapped w).reserved (r % p.numBlocks)) < p.entriesPerBlock :=
      hindex
    rw [if_neg hindex', if_neg hindex, go_bits]
    rw [apply_ite (Sum.map (BwosQueue.wrapped w) (Prod.map id (BwosQueue.wrapped w)))]
    rfl

theorem stealBlockPass_bits (h : Settled p q v r) (hfits : p.Fits w) (hsmall : v.Small p w) :
    (q.wrapped w).stealBlockPass p (.bits w) =
      (q.stealBlockPass p .unbounded).map (BwosQueue.wrapped w)
        (Prod.map id (BwosQueue.wrapped w)) := by
  have hiff := h.shows'.reserved_lt_iff h.rest h.looks.window
  rw [BwosQueue.stealBlockPass, BwosQueue.stealBlockPass, (h.looks_bits hfits).block,
    h.looks.block]
  dsimp only
  by_cases hindex : p.index (q.reserved (r % p.numBlocks)) < p.entriesPerBlock
  · have hopen := hiff.mp hindex
    have hsize := View.committed_le p.entriesPerBlock v r
    have hcommitted : p.index (q.committed (r % p.numBlocks)) =
        v.committed p.entriesPerBlock r := by
      rw [h.shows'.committed_at (h.rest.opened ▸ h.looks.window), Params.index_cursorAt hsize]
    have hreserved : p.index (q.reserved (r % p.numBlocks)) = v.claimed r := by
      rw [h.shows'.reserved_of_open h.rest h.looks.window hopen,
        Params.index_cursorAt (h.shows'.claimed_le r)]
    have hroom : v.claimed r + (p.index (q.committed (r % p.numBlocks)) -
        p.index (q.reserved (r % p.numBlocks))) ≤ p.entriesPerBlock := by
      have hclaimed := h.shows'.valid.claimed_le r
      omega
    have hstolen := (h.stolen_bits hfits hsmall hopen hroom).2
    have hindex' : p.index ((q.wrapped w).reserved (r % p.numBlocks)) < p.entriesPerBlock := hindex
    rw [if_pos hindex', if_pos hindex]
    dsimp only [BwosQueue.wrapped] at hstolen ⊢
    rw [hstolen]
    rw [apply_ite (Sum.map (BwosQueue.wrapped w) (Prod.map id (BwosQueue.wrapped w)))]
    rfl
  · have hindex' : ¬ p.index ((q.wrapped w).reserved (r % p.numBlocks)) < p.entriesPerBlock :=
      hindex
    rw [if_neg hindex', if_neg hindex, go_bits]
    rw [apply_ite (Sum.map (BwosQueue.wrapped w) (Prod.map id (BwosQueue.wrapped w)))]
    rfl

/-- A pass that goes on leaves a queue between operations. -/
theorem go (h : Settled p q v r) {q' : BwosQueue α}
    (hgo : q' = { q with stealPosition := q.stealPosition + 1 })
    (hopen : ¬ v.Open p.entriesPerBlock r)
    (hmay : q.thiefMayAdvance p (r % p.numBlocks) (q.reserved (r % p.numBlocks)) = true) :
    Settled p q' v (r + 1) := by
  have hlt := (h.shows'.thiefMayAdvance_of_not_open h.rest h.looks.window hopen).mp hmay
  exact hgo ▸ ⟨h.shows'.of_cursors rfl rfl rfl rfl rfl rfl, h.rest, h.quiet,
    Shows.looks_next h.looks hlt⟩

theorem stealPass_inl (h : Settled p q v r) {q' : BwosQueue α}
    (hpass : q.stealPass p .unbounded = .inl q') : Settled p q' v (r + 1) := by
  have hiff := h.shows'.reserved_lt_iff h.rest h.looks.window
  rw [BwosQueue.stealPass, h.looks.block] at hpass
  split_ifs at hpass with hindex hnone hmay
  exact h.go (Sum.inl.inj hpass).symm (mt hiff.mpr hindex) hmay

theorem stealBlockPass_inl (h : Settled p q v r) {q' : BwosQueue α}
    (hpass : q.stealBlockPass p .unbounded = .inl q') : Settled p q' v (r + 1) := by
  have hiff := h.shows'.reserved_lt_iff h.rest h.looks.window
  rw [BwosQueue.stealBlockPass, h.looks.block] at hpass
  dsimp only at hpass
  split_ifs at hpass with hindex hnone hmay
  exact h.go (Sum.inl.inj hpass).symm (mt hiff.mpr hindex) hmay

theorem steal_bits (h : Settled p q v r) (hfits : p.Fits w) (hsmall : v.Small p w) (passes : ℕ) :
    (q.wrapped w).steal p (.bits w) passes =
      (q.steal p .unbounded passes).map (Prod.map id (BwosQueue.wrapped w)) :=
  loop_map (fun q ↦ ∃ r, Settled p q v r) (BwosQueue.wrapped w) (Prod.map id (BwosQueue.wrapped w))
    (fun _ _ ⟨_, h⟩ hpass ↦ ⟨_, h.stealPass_inl hpass⟩)
    (fun _ ⟨_, h⟩ ↦ h.stealPass_bits hfits hsmall) passes ⟨r, h⟩

theorem stealBlock_bits (h : Settled p q v r) (hfits : p.Fits w) (hsmall : v.Small p w)
    (passes : ℕ) : (q.wrapped w).stealBlock p (.bits w) passes =
      (q.stealBlock p .unbounded passes).map (Prod.map id (BwosQueue.wrapped w)) :=
  loop_map (fun q ↦ ∃ r, Settled p q v r) (BwosQueue.wrapped w) (Prod.map id (BwosQueue.wrapped w))
    (fun _ _ ⟨_, h⟩ hpass ↦ ⟨_, h.stealBlockPass_inl hpass⟩)
    (fun _ ⟨_, h⟩ ↦ h.stealBlockPass_bits hfits hsmall) passes ⟨r, h⟩

theorem isEmptyForThief_bits (hfits : p.Fits w) (q : BwosQueue α) :
    (q.wrapped w).isEmptyForThief p (.bits w) = q.isEmptyForThief p .unbounded := by
  have hfrom (blocks position : ℕ) :
      (q.wrapped w).isEmptyForThiefFrom p (.bits w) blocks (position % 2 ^ w) =
        q.isEmptyForThiefFrom p .unbounded blocks position := by
    induction blocks generalizing position with
    | zero => rfl
    | succ blocks ih =>
      rw [BwosQueue.isEmptyForThiefFrom, BwosQueue.isEmptyForThiefFrom, hfits.block_mod,
        wrap_stealPosition, ih]
      rfl
  exact hfrom _ _

/-- An operation in words of limited width: it is not affected, or it pushes less than it could. -/
theorem apply_bits (h : Settled p q v r) (hfits : p.Fits w) (hsmall : v.Small p w) (op : Op α) :
    ∃ answer q' v' r', q.apply p .unbounded op = some (answer, q') ∧ Settled p q' v' r' ∧
      (q.fitting p w op = true ∧ v'.Small p w ∧
          (q.wrapped w).apply p (.bits w) op = some (answer, q'.wrapped w) ∨
        q.fitting p w op = false ∧ ∃ answer' q'', answer' ≠ answer ∧
          (q.wrapped w).apply p (.bits w) op = some (answer', q'')) := by
  have hw := h.shows'.wrapped w
  cases op with
  | push value =>
    obtain ⟨ok, q', v₁, hpush, hshows, hrest, hcases⟩ :=
      h.shows'.push_bits h.rest hfits hsmall value
    obtain ⟨v', r', hsettled, -, -⟩ := h.push (Nat.le_refl 2) hpush
    refine ⟨.flag ok, q', v', r', by rw [BwosQueue.apply, hpush]; rfl, hsettled, ?_⟩
    rw [hshows.small_iff hrest hsettled.shows' hsettled.rest] at hcases
    rcases hcases with ⟨hfit, hsmall', hpush'⟩ | ⟨hfit, -, rfl, hpush'⟩
    · exact .inl ⟨hfit, hsmall', by rw [BwosQueue.apply, hpush']; rfl⟩
    · refine .inr ⟨hfit, .flag false, q.wrapped w, (fun heq ↦ by cases heq), ?_⟩
      rw [BwosQueue.apply, hpush']
      rfl
  | pushBatch values =>
    obtain ⟨v₁, hshows, hrest, hcases⟩ := h.shows'.pushBatch_bits h.rest hfits hsmall values
    obtain ⟨v', r', hsettled, -, -⟩ := h.pushes values
    have hfit := h.shows'.fitsAll_iff h.rest hfits hsmall values hshows hrest
    refine ⟨.count (q.pushes p .unbounded values).1, (q.pushes p .unbounded values).2, v', r', ?_,
      hsettled, ?_⟩
    · rw [BwosQueue.apply, h.shows'.pushBatch_eq h.rest values (Nat.le_refl _)]
      rfl
    · rcases hcases with ⟨hsmall', hpush'⟩ | ⟨hsmall', n, q'', hpush', hless⟩
      · refine .inl ⟨hfit.mpr hsmall',
          (hshows.small_iff hrest hsettled.shows' hsettled.rest).mp hsmall', ?_⟩
        rw [BwosQueue.apply, hpush']
        rfl
      · refine .inr ⟨Bool.eq_false_of_not_eq_true (mt hfit.mp hsmall'), .count n, q'',
          fun heq ↦ Nat.ne_of_lt hless (Answer.count.inj heq), ?_⟩
        rw [BwosQueue.apply, hpush']
        rfl
  | pop =>
    obtain ⟨out, q', v', heq, hsettled, hentered, -⟩ := h.pop
    refine ⟨.value out, q', v', r, by rw [BwosQueue.apply, heq]; rfl, hsettled,
      .inl ⟨rfl, hsmall.of_le (Nat.le_of_eq hentered), ?_⟩⟩
    rw [BwosQueue.apply, h.shows'.pop_bits h.rest hfits hsmall, heq]
    rfl
  | popBlock =>
    obtain ⟨out, q', v', heq, hsettled, hentered, -⟩ := h.popBlock
    refine ⟨.values out, q', v', r, by rw [BwosQueue.apply, heq]; rfl, hsettled,
      .inl ⟨rfl, hsmall.of_le (Nat.le_of_eq hentered), ?_⟩⟩
    rw [BwosQueue.apply, h.shows'.popBlock_bits h.rest hfits hsmall, heq]
    rfl
  | steal =>
    obtain ⟨out, q', v', r', heq, hsettled, hentered, -⟩ := h.steal
    refine ⟨.value out, q', v', r', by rw [BwosQueue.apply, heq]; rfl, hsettled,
      .inl ⟨rfl, hsmall.of_le (Nat.le_of_eq hentered), ?_⟩⟩
    rw [BwosQueue.apply, h.steal_bits hfits hsmall, heq]
    rfl
  | stealBlock =>
    obtain ⟨out, q', v', r', heq, hsettled, hentered, -⟩ := h.stealBlock
    refine ⟨.values out, q', v', r', by rw [BwosQueue.apply, heq]; rfl, hsettled,
      .inl ⟨rfl, hsmall.of_le (Nat.le_of_eq hentered), ?_⟩⟩
    rw [BwosQueue.apply, h.stealBlock_bits hfits hsmall, heq]
    rfl
  | minRemainingSlots =>
    refine ⟨_, q, v, r, rfl, h, .inl ⟨rfl, hsmall, ?_⟩⟩
    rw [BwosQueue.apply, h.shows'.minRemainingSlots_bits h.rest hfits hsmall]
  | hasStealable => exact ⟨_, q, v, r, rfl, h, .inl ⟨rfl, hsmall, rfl⟩⟩
  | hasEntries =>
    refine ⟨_, q, v, r, rfl, h, .inl ⟨rfl, hsmall, ?_⟩⟩
    rw [BwosQueue.apply, h.shows'.hasEntries_bits h.rest hfits hsmall]
  | producerBlockHasActiveStealers => exact ⟨_, q, v, r, rfl, h, .inl ⟨rfl, hsmall, rfl⟩⟩
  | isEmptyForThief =>
    refine ⟨_, q, v, r, rfl, h, .inl ⟨rfl, hsmall, ?_⟩⟩
    rw [BwosQueue.apply, isEmptyForThief_bits hfits]

end Settled

/-! ### Runs -/

/-- The versions of a run fit: no push of it opens a round whose version does not. -/
def BwosQueue.fittingRun (p : Params) (w : ℕ) : List (Op α) → BwosQueue α → Bool
  | [], _ => true
  | op :: ops, q => q.fitting p w op &&
    match q.apply p .unbounded op with
    | none => true
    | some (_, q') => fittingRun p w ops q'

/-- All operations return in unbounded words. -/
theorem Settled.isSome_answers (h : Settled p q v r) (ops : List (Op α)) :
    (q.answers p .unbounded ops).isSome = true := by
  induction ops generalizing q v r with
  | nil => rfl
  | cons op ops ih =>
    obtain ⟨answer, q', v', r', happly, hsettled, -⟩ := h.apply op
    rw [BwosQueue.answers, happly, Option.isSome_map]
    exact ih hsettled

theorem Settled.answers_bits (h : Settled p q v r) (hfits : p.Fits w) (hsmall : v.Small p w)
    (ops : List (Op α)) : (q.wrapped w).answers p (.bits w) ops = q.answers p .unbounded ops ↔
      q.fittingRun p w ops = true := by
  induction ops generalizing q v r with
  | nil => exact iff_of_true rfl rfl
  | cons op ops ih =>
    obtain ⟨answer, q', v', r', happly, hsettled, hcases⟩ := h.apply_bits hfits hsmall op
    rw [BwosQueue.answers, BwosQueue.answers, BwosQueue.fittingRun, happly, Bool.and_eq_true]
    dsimp only
    rcases hcases with ⟨hfit, hsmall', happly'⟩ | ⟨hfit, answer', q'', hne, happly'⟩
    · rw [happly', hfit, eq_self_iff_true, true_and, ← ih hsettled hsmall']
      exact (Option.map_injective fun _ _ h ↦ (List.cons.inj h).2).eq_iff
    · rw [happly', hfit]
      refine iff_of_false (fun heq ↦ hne ?_) fun hall ↦ absurd hall.1 Bool.false_ne_true
      obtain ⟨rest, hrest⟩ := Option.isSome_iff_exists.mp (hsettled.isSome_answers ops)
      rw [hrest] at heq
      obtain ⟨rest', -, hcons⟩ := Option.map_eq_some_iff.mp heq
      exact (List.cons.inj hcons).1

theorem Params.Fits.make_bits (hfits : p.Fits w) {version : ℕ} (hversion : version < p.laps w)
    (hi : i ≤ p.entriesPerBlock) : p.make (.bits w) version i = p.make .unbounded version i := by
  have hdiv : version * p.numBlocks / p.numBlocks = version :=
    Nat.mul_div_cancel _ p.numBlocks_pos
  have hbits := hfits.make_cursorAt (hdiv.symm ▸ hversion) hi
  rwa [← Params.make_cursorAt hi, hdiv] at hbits

theorem Params.Fits.one_lt_laps (hfits : p.Fits w) : 1 < p.laps w :=
  Nat.one_lt_two_pow (Nat.sub_ne_zero_of_lt hfits.version)

theorem initial_bits [Inhabited α] (hfits : p.Fits w) :
    (BwosQueue.initial p (.bits w) : BwosQueue α) =
      (BwosQueue.initial p .unbounded).wrapped w := by
  have hlaps := hfits.one_lt_laps
  have howner : p.owner (.bits w) = p.owner .unbounded := by
    funext block
    rw [Params.owner, Params.owner, hfits.make_bits hlaps (Nat.zero_le _),
      hfits.make_bits (Nat.zero_lt_of_lt hlaps) (Nat.le_refl _)]
  have hthief : p.thief (.bits w) = p.thief .unbounded := by
    funext block
    rw [Params.thief, Params.thief, hfits.make_bits _ (Nat.le_refl _)]
    split_ifs
    · exact hlaps
    · exact Nat.zero_lt_of_lt hlaps
  rw [BwosQueue.initial, howner, hthief]
  exact BwosQueue.ext rfl rfl (Nat.zero_mod _).symm rfl rfl rfl rfl rfl

/-- Words of limited width give the results of unbounded ones, as long as no push opens a round
whose version does not fit, and no longer. -/
theorem same_answers_iff [Inhabited α] (p : Params) {w : ℕ} (hfits : p.Fits w)
    (ops : List (Op α)) :
    (BwosQueue.initial p (.bits w)).answers p (.bits w) ops =
        (BwosQueue.initial p .unbounded).answers p .unbounded ops ↔
      (BwosQueue.initial p .unbounded).fittingRun p w ops = true := by
  have hsmall : (View.initial p.numBlocks p.entriesPerBlock).Small p w := by
    change p.numBlocks / p.numBlocks < p.laps w
    rw [Nat.div_self p.numBlocks_pos]
    exact hfits.one_lt_laps
  rw [initial_bits hfits]
  exact settled_initial.answers_bits hfits hsmall ops

theorem two_isPowerOfTwo : ∃ k, 2 = 2 ^ k := ⟨1, rfl⟩

theorem two_le_two : 2 ≤ 2 := Nat.le_refl 2

/-- A queue of 2 blocks with one entry each. Its cursors have one bit for the index. -/
def twoBlocks : Params := ⟨2, 1, two_isPowerOfTwo, two_le_two, Nat.one_pos⟩

theorem fits_twoBlocks : twoBlocks.Fits 3 := ⟨by decide +kernel, by decide⟩

/-- Values that go through the queue one at a time. -/
def oneAtATime (n : ℕ) : List (Op ℕ) :=
  (List.range n).flatMap fun value ↦ [.push value, .pop]

/-- Six values reach version 3, the last one that three bits have room for. -/
theorem same_answers_six :
    (BwosQueue.initial twoBlocks (.bits 3)).answers twoBlocks (.bits 3) (oneAtATime 6) =
      (BwosQueue.initial twoBlocks .unbounded).answers twoBlocks .unbounded (oneAtATime 6) :=
  (same_answers_iff twoBlocks fits_twoBlocks (oneAtATime 6)).mpr (by decide +kernel)

/-- The seventh value does not get into the empty queue, and neither does any value after it. -/
theorem wraps_to_full :
    ¬ ∀ (p : Params) (w : ℕ), p.Fits w → ∀ ops : List (Op ℕ),
      (BwosQueue.initial p (.bits w)).answers p (.bits w) ops =
        (BwosQueue.initial p .unbounded).answers p .unbounded ops := by
  intro h
  have hseven := h twoBlocks 3 fits_twoBlocks (oneAtATime 7)
  exact absurd hseven (by decide +kernel)

end Stackfull.Queue.Bwos
