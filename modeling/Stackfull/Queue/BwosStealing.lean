import Stackfull.Lib.Transition
import Stackfull.Queue.BwosBatch

/-!
# What thieves find

Operations one after another. The thieves share a position, the block they look at, and walk from
its round over the rounds in which nothing can be claimed any more. They meet the first round in
which something can be claimed from there on, but none behind. The position falls behind nothing as
long as the producer does not come all the way around: when it enters the block that the thieves
look at, that block jumps ahead by `NumBlocks` rounds, over whatever can be claimed in between.
-/

set_option autoImplicit false
set_option relaxedAutoImplicit false
set_option linter.dupNamespace false

namespace Stackfull.Queue.Bwos

open Stackfull.Lib

universe u v

variable {α : Type u} {p : Params} {q : BwosQueue α} {v : View} {r r' : ℕ}

/-! ### Rounds in which something can be claimed -/

namespace View

/-- No thief is between its claim and the copy: what is claimed is left, and in the consumer's round
and before everything is. -/
def Quiet (size : ℕ) (v : View) : Prop :=
  ∀ r, v.left r = if r ≤ v.consumer then size else v.claimed r

/-- A round in which thieves may claim entries, once they are committed. -/
def Open (size : ℕ) (v : View) (r : ℕ) : Prop := v.consumer < r ∧ v.claimed r < size

/-- A walk from a round ends where entries may be claimed, or in the producer's round. -/
structure Walks (size : ℕ) (v : View) (r r' : ℕ) : Prop where
  le : r ≤ r'
  skipped : ∀ k, r ≤ k → k < r' → ¬ v.Open size k
  stops : v.Open size r' ∨ r' = v.entered

/-- Everything in the rounds before one has been claimed. -/
def ClaimedBefore (size : ℕ) (v : View) (r : ℕ) : Prop :=
  ∀ k, v.consumer < k → k < r → v.claimed k = size

variable {n size : ℕ}

theorem ClaimedBefore.consume (h : v.ClaimedBefore size r) (count : ℕ) :
    (v.consume count).ClaimedBefore size r := h

theorem Quiet.commit (h : v.Quiet size) (count : ℕ) : (v.commit count).Quiet size := h

theorem Quiet.advance (h : v.Quiet size) : v.advance.Quiet size := h

theorem Quiet.consume (h : v.Quiet size) (count : ℕ) : (v.consume count).Quiet size := h

theorem Quiet.moved {v' : View} (h : v.Quiet size) (hmoved : v.Moved size v')
    (hclaimed : ∀ r, v.claimed r ≤ size) : v'.Quiet size := by
  intro r
  have hle := hmoved.le
  have hr := hclaimed r
  rw [hmoved.left r, h r, hmoved.claimed]
  split_ifs <;> omega

theorem Quiet.claim (h : v.Quiet size) (hr : v.consumer < r) (count : ℕ) :
    ((v.claim r count).leave r count).Quiet size := by
  intro k
  change Function.update v.left r _ k = if k ≤ v.consumer then size else
    Function.update v.claimed r _ k
  have hk := h k
  rcases eq_or_ne k r with rfl | hne
  · rw [Function.update_self, Function.update_self, if_neg (Nat.not_le_of_lt hr)]
    rw [if_neg (Nat.not_le_of_lt hr)] at hk
    exact congrArg (· + count) hk
  · rwa [Function.update_of_ne hne, Function.update_of_ne hne]

/-- Behind a walk everything has been claimed, if it has been where the walk begins. -/
theorem ClaimedBefore.walks (h : v.ClaimedBefore size r) (hwalks : v.Walks size r r')
    (hclaimed : ∀ k, v.claimed k ≤ size) : v.ClaimedBefore size r' := by
  intro k hlow hhigh
  rcases Nat.lt_or_ge k r with hbefore | hafter
  · exact h k hlow hbefore
  · have hopen := hwalks.skipped k hafter hhigh
    have hle := hclaimed k
    exact Nat.le_antisymm hle (Nat.le_of_not_lt fun hlt ↦ hopen ⟨hlow, hlt⟩)

end View

/-! ### The walk -/

/-- The thieves look at the block of a round. -/
structure Looks (p : Params) (q : BwosQueue α) (v : View) (r : ℕ) : Prop where
  window : InWindow p.numBlocks v.entered r
  block : p.block q.stealPosition = r % p.numBlocks

theorem Looks.of_position {q' : BwosQueue α} (h : Looks p q v r)
    (hposition : q'.stealPosition = q.stealPosition) : Looks p q' v r :=
  ⟨h.window, hposition ▸ h.block⟩

namespace Shows

/-- The index of `reserved` has room exactly where entries may be claimed. -/
theorem reserved_lt_iff (h : Shows p q v) (hrest : v.Rest) (hr : InWindow p.numBlocks v.entered r) :
    p.index (q.reserved (r % p.numBlocks)) < p.entriesPerBlock ↔ v.Open p.entriesPerBlock r := by
  rw [h.reserved r hr, Params.index_cursorAt (h.reservedIndex_le r), hrest.taken, View.Open]
  split_ifs with hle
  · exact iff_of_false (Nat.lt_irrefl _) fun hopen ↦ Nat.not_le_of_lt hopen.1 hle
  · exact (and_iff_right (Nat.lt_of_not_le hle)).symm

theorem reserved_of_open (h : Shows p q v) (hrest : v.Rest)
    (hr : InWindow p.numBlocks v.entered r) (hopen : v.Open p.entriesPerBlock r) :
    q.reserved (r % p.numBlocks) = p.cursorAt r (v.claimed r) :=
  h.reserved_at hr (hrest.taken ▸ hopen.1)

/-- Where nothing can be claimed the block is fully reserved. -/
theorem reserved_of_not_open (h : Shows p q v) (hrest : v.Rest)
    (hr : InWindow p.numBlocks v.entered r) (hopen : ¬ v.Open p.entriesPerBlock r) :
    q.reserved (r % p.numBlocks) = p.cursorAt r p.entriesPerBlock := by
  rw [h.reserved r hr, hrest.taken]
  refine congrArg _ ?_
  split_ifs with hle
  · rfl
  · have hclaimed := h.claimed_le r
    exact Nat.le_antisymm hclaimed
      (Nat.le_of_not_lt fun hlt ↦ hopen ⟨Nat.lt_of_not_le hle, hlt⟩)

theorem entered_lt_add (h : InWindow p.numBlocks v.entered r) : v.entered ≤ r + p.numBlocks :=
  Nat.le_of_lt h.2

theorem thiefMayAdvance_of_not_open (h : Shows p q v) (hrest : v.Rest)
    (hr : InWindow p.numBlocks v.entered r) (hopen : ¬ v.Open p.entriesPerBlock r) :
    q.thiefMayAdvance p (r % p.numBlocks) (q.reserved (r % p.numBlocks)) = true ↔
      r < v.entered := by
  rw [h.reserved_of_not_open hrest hr hopen]
  exact h.thiefMayAdvance_iff hr.1 (Nat.le_of_lt hr.2)

theorem looks_next (hlooks : Looks p q v r) (hlt : r < v.entered) :
    Looks p { q with stealPosition := q.stealPosition + 1 } v (r + 1) where
  window := ⟨hlt, by have h := hlooks.window.2; omega⟩
  block := by
    have h := hlooks.block
    rw [Params.block_eq] at h ⊢
    change (q.stealPosition + 1) % p.numBlocks = (r + 1) % p.numBlocks
    rw [Nat.add_mod, h, ← Nat.add_mod]

/-- A thief's loop, if its pass moves on over rounds in which nothing can be claimed. -/
theorem loop_walks {ρ : Type v} {body : BwosQueue α → BwosQueue α ⊕ (ρ × BwosQueue α)}
    (hgo : ∀ q r, Shows p q v → Looks p q v r → ¬ v.Open p.entriesPerBlock r → r < v.entered →
      body q = .inl { q with stealPosition := q.stealPosition + 1 })
    (h : Shows p q v) (hlooks : Looks p q v r) {passes : ℕ} (hpasses : v.entered < r + passes) :
    ∃ r' q₁ rest, v.Walks p.entriesPerBlock r r' ∧ Shows p q₁ v ∧ Looks p q₁ v r' ∧
      q₁.entries = q.entries ∧ q₁.stealPosition + r = q.stealPosition + r' ∧
      loop body passes q = loop body (rest + 1) q₁ := by
  induction passes generalizing q r with
  | zero =>
    have hle := hlooks.window.1
    omega
  | succ passes ih =>
    by_cases hstop : v.Open p.entriesPerBlock r ∨ r = v.entered
    · exact ⟨r, q, passes, ⟨Nat.le_refl _, fun k hlow hhigh ↦ by omega, hstop⟩, h, hlooks, rfl, rfl,
        rfl⟩
    · obtain ⟨hopen, hne⟩ := not_or.mp hstop
      have hlt := Nat.lt_of_le_of_ne hlooks.window.1 hne
      have hnext : Shows p { q with stealPosition := q.stealPosition + 1 } v :=
        h.of_cursors rfl rfl rfl rfl rfl rfl
      obtain ⟨r', q₁, rest, hwalks, hshows, hlooks', hentries, hposition, hloop⟩ :=
        ih hnext (looks_next hlooks hlt) (by omega)
      refine ⟨r', q₁, rest, ⟨Nat.le_of_succ_le hwalks.le, fun k hlow hhigh ↦ ?_, hwalks.stops⟩,
        hshows, hlooks', hentries, ?_, ?_⟩
      · rcases Nat.eq_or_lt_of_le hlow with rfl | hlater
        · exact hopen
        · exact hwalks.skipped k hlater hhigh
      · change q₁.stealPosition + (r + 1) = q.stealPosition + 1 + r' at hposition
        omega
      · rw [loop, hgo q r h hlooks hopen hlt]
        exact hloop

/-- A thief claims entries, copies them and leaves. -/
theorem steal (h : Shows p q v) (hrest : v.Rest) (hquiet : v.Quiet p.entriesPerBlock)
    (hr : InWindow p.numBlocks v.entered r) (hlow : v.consumer < r) {count : ℕ}
    (hroom : v.claimed r + count ≤ v.committed p.entriesPerBlock r) :
    Shows p { q with
      reserved := Function.update q.reserved (r % p.numBlocks) (p.cursorAt r (v.claimed r + count))
      stolen := Function.update q.stolen (r % p.numBlocks) (q.stolen (r % p.numBlocks) + count) }
      ((v.claim r count).leave r count) := by
  have hclaim := h.claim (hrest.taken ▸ hlow) hr.1 hroom
  have hleft : v.left r = v.claimed r := by rw [hquiet r, if_neg (Nat.not_le_of_lt hlow)]
  have hself : (v.claim r count).claimed r = v.claimed r + count := Function.update_self _ _ _
  have hsame : (v.claim r count).left r = v.left r := rfl
  refine hclaim.leave (hrest.reset ▸ hr : InWindow p.numBlocks v.reset r)
    (hclaim.valid.leave ?_ fun _ ↦ ?_)
  · rw [hsame, hleft]
    exact Nat.le_trans hroom (View.committed_le _ _ _)
  · rw [hself, hsame, hleft]

/-- A pass of `steal` over a round in which nothing can be claimed. -/
theorem stealPass_go (h : Shows p q v) (hrest : v.Rest) (hlooks : Looks p q v r)
    (hopen : ¬ v.Open p.entriesPerBlock r) (hlt : r < v.entered) :
    q.stealPass p .unbounded = .inl { q with stealPosition := q.stealPosition + 1 } := by
  have hindex := mt (h.reserved_lt_iff hrest hlooks.window).mp hopen
  have hmay := (h.thiefMayAdvance_of_not_open hrest hlooks.window hopen).mpr hlt
  rw [BwosQueue.stealPass, hlooks.block, if_neg hindex, if_pos hmay]
  rfl

theorem stealBlockPass_go (h : Shows p q v) (hrest : v.Rest) (hlooks : Looks p q v r)
    (hopen : ¬ v.Open p.entriesPerBlock r) (hlt : r < v.entered) :
    q.stealBlockPass p .unbounded = .inl { q with stealPosition := q.stealPosition + 1 } := by
  have hindex := mt (h.reserved_lt_iff hrest hlooks.window).mp hopen
  have hmay := (h.thiefMayAdvance_of_not_open hrest hlooks.window hopen).mpr hlt
  rw [BwosQueue.stealBlockPass, hlooks.block, if_neg hindex, if_pos hmay]
  rfl

end Shows

/-- What a thief's loop does: it walks, claims `count` entries of the round it ends at, and copies
them, or finds nothing there. -/
structure Steals (p : Params) (q : BwosQueue α) (v : View) (r r' count : ℕ) (q' : BwosQueue α) :
    Prop where
  walks : v.Walks p.entriesPerBlock r r'
  shows' : Shows p q' (if count = 0 then v else (v.claim r' count).leave r' count)
  looks : Looks p q' v r'
  entries : q'.entries = q.entries
  claims : 0 < count → v.consumer < r'
  room : v.claimed r' + count ≤ v.committed p.entriesPerBlock r'
  nothing : count = 0 → ¬ (v.Open p.entriesPerBlock r' ∧
    v.claimed r' < v.committed p.entriesPerBlock r')

namespace Shows

/-- `steal` takes the next entry of the round that its walk ends at. -/
theorem steal_spec (h : Shows p q v) (hrest : v.Rest) (hquiet : v.Quiet p.entriesPerBlock)
    (hlooks : Looks p q v r) {passes : ℕ} (hpasses : p.numBlocks ≤ passes) :
    ∃ r' q', q.steal p .unbounded passes =
        some (some (q.entries (r' % p.numBlocks) (v.claimed r')), q') ∧ Steals p q v r r' 1 q' ∨
      q.steal p .unbounded passes = some (none, q') ∧ Steals p q v r r' 0 q' := by
  have hwindow := hlooks.window.2
  obtain ⟨r', q₁, rest, hwalks, hshows, hlooks', hentries, -, hloop⟩ :=
    h.loop_walks (fun q r h hlooks hopen hlt ↦ h.stealPass_go hrest hlooks hopen hlt) hlooks
      (by omega : v.entered < r + passes)
  have hroom := h.valid.claimed_le r'
  refine ⟨r', ?_⟩
  rw [BwosQueue.steal, hloop, loop, BwosQueue.stealPass, hlooks'.block]
  by_cases hopen : v.Open p.entriesPerBlock r'
  · have hcommitted := hshows.committed_at (hrest.opened ▸ hlooks'.window)
    rw [hshows.reserved_of_open hrest hlooks'.window hopen, hcommitted,
      Params.index_cursorAt (h.claimed_le r'), Params.index_cursorAt (View.committed_le _ _ _),
      if_pos hopen.2]
    split_ifs with heq
    · refine ⟨q₁, .inr ⟨rfl, hwalks, hshows, hlooks', hentries, fun h ↦ absurd h (Nat.lt_irrefl _),
        hroom, fun _ hmore ↦ ?_⟩⟩
      exact Nat.ne_of_lt hmore.2 heq
    · have hmore : v.claimed r' + 1 ≤ v.committed p.entriesPerBlock r' := by omega
      have hsteal := hshows.steal hrest hquiet hlooks'.window hopen.1 hmore
      refine ⟨_, .inl ⟨?_, hwalks, hsteal, hlooks'.of_position rfl, hentries, fun _ ↦ hopen.1,
        hmore, fun h ↦ absurd h Nat.one_ne_zero⟩⟩
      rw [hentries]
      rfl
  · have hindex := mt (hshows.reserved_lt_iff hrest hlooks'.window).mp hopen
    have hlast := hwalks.stops.resolve_left hopen
    have hmay := mt (hshows.thiefMayAdvance_of_not_open hrest hlooks'.window hopen).mp
      (by omega)
    rw [if_neg hindex, if_neg hmay]
    exact ⟨q₁, .inr ⟨rfl, hwalks, hshows, hlooks', hentries, fun h ↦ absurd h (Nat.lt_irrefl _),
      hroom, fun _ hmore ↦ hopen hmore.1⟩⟩

/-- `stealBlock` takes all committed entries of the round that its walk ends at. -/
theorem stealBlock_spec (h : Shows p q v) (hrest : v.Rest) (hquiet : v.Quiet p.entriesPerBlock)
    (hlooks : Looks p q v r) {passes : ℕ} (hpasses : p.numBlocks ≤ passes) :
    ∃ r' q' count, q.stealBlock p .unbounded passes = some (q.copy (r' % p.numBlocks) (v.claimed r')
      (v.claimed r' + count), q') ∧ Steals p q v r r' count q' := by
  have hwindow := hlooks.window.2
  obtain ⟨r', q₁, rest, hwalks, hshows, hlooks', hentries, -, hloop⟩ :=
    h.loop_walks (fun q r h hlooks hopen hlt ↦ h.stealBlockPass_go hrest hlooks hopen hlt) hlooks
      (by omega : v.entered < r + passes)
  have hroom := h.valid.claimed_le r'
  have hnone : q.copy (r' % p.numBlocks) (v.claimed r') (v.claimed r' + 0) = [] := by
    rw [BwosQueue.copy, Nat.add_zero, Nat.sub_self]
    rfl
  refine ⟨r', ?_⟩
  rw [BwosQueue.stealBlock, hloop, loop, BwosQueue.stealBlockPass, hlooks'.block]
  dsimp only
  by_cases hopen : v.Open p.entriesPerBlock r'
  · have hcommitted := hshows.committed_at (hrest.opened ▸ hlooks'.window)
    rw [hshows.reserved_of_open hrest hlooks'.window hopen, hcommitted,
      Params.index_cursorAt (h.claimed_le r'), Params.index_cursorAt (View.committed_le _ _ _),
      if_pos hopen.2]
    split_ifs with heq
    · refine ⟨q₁, 0, by rw [hnone], hwalks, hshows, hlooks', hentries,
        fun h ↦ absurd h (Nat.lt_irrefl _), hroom, fun _ hmore ↦ ?_⟩
      exact Nat.ne_of_lt hmore.2 heq
    · obtain ⟨count, hcount⟩ : ∃ count, v.committed p.entriesPerBlock r' = v.claimed r' + count :=
        ⟨_, (Nat.add_sub_cancel' hroom).symm⟩
      have hpos : count ≠ 0 := by omega
      have hsteal := hshows.steal hrest hquiet hlooks'.window hopen.1 (Nat.le_of_eq hcount.symm)
      rw [hcount, Nat.add_sub_cancel_left]
      refine ⟨{ q₁ with
          reserved := Function.update q₁.reserved (r' % p.numBlocks)
            (p.cursorAt r' (v.claimed r' + count))
          stolen := Function.update q₁.stolen (r' % p.numBlocks)
            (q₁.stolen (r' % p.numBlocks) + count) },
        count, ?_, hwalks, ?_, hlooks'.of_position rfl, hentries, fun _ ↦ hopen.1,
        Nat.le_of_eq hcount.symm, fun h ↦ absurd h hpos⟩
      · simp only [BwosQueue.copy, hentries]
        rfl
      · rw [if_neg hpos]
        exact hsteal
  · have hindex := mt (hshows.reserved_lt_iff hrest hlooks'.window).mp hopen
    have hlast := hwalks.stops.resolve_left hopen
    have hmay := mt (hshows.thiefMayAdvance_of_not_open hrest hlooks'.window hopen).mp
      (by omega)
    rw [if_neg hindex, if_neg hmay]
    exact ⟨q₁, 0, by rw [hnone], hwalks, hshows, hlooks', hentries,
      fun h ↦ absurd h (Nat.lt_irrefl _), hroom, fun _ hmore ↦ hopen hmore.1⟩

/-- The scan of `isEmptyForThief` is the same walk. -/
theorem isEmptyForThiefFrom_iff (h : Shows p q v) (hrest : v.Rest) {blocks position : ℕ}
    (hr : InWindow p.numBlocks v.entered r) (hblock : p.block position = r % p.numBlocks)
    (hblocks : v.entered < r + blocks) :
    ∃ r', v.Walks p.entriesPerBlock r r' ∧
      (q.isEmptyForThiefFrom p .unbounded blocks position = true ↔
        ¬ (v.Open p.entriesPerBlock r' ∧ v.claimed r' < v.committed p.entriesPerBlock r')) := by
  induction blocks generalizing r position with
  | zero =>
    have hle := hr.1
    omega
  | succ blocks ih =>
    have hroom := h.valid.claimed_le r
    rw [BwosQueue.isEmptyForThiefFrom, hblock]
    by_cases hopen : v.Open p.entriesPerBlock r
    · refine ⟨r, ⟨Nat.le_refl _, fun k hlow hhigh ↦ by omega, .inl hopen⟩, ?_⟩
      rw [h.reserved_of_open hrest hr hopen, h.committed_at (hrest.opened ▸ hr),
        Params.index_cursorAt (h.claimed_le r), Params.index_cursorAt (View.committed_le _ _ _),
        if_pos hopen.2, decide_eq_true_iff]
      constructor
      · exact fun heq hmore ↦ Nat.ne_of_lt hmore.2 heq
      · exact fun hnone ↦ Nat.le_antisymm hroom (Nat.le_of_not_lt fun hlt ↦ hnone ⟨hopen, hlt⟩)
    · have hindex := mt (h.reserved_lt_iff hrest hr).mp hopen
      have hmay := h.thiefMayAdvance_of_not_open hrest hr hopen
      rw [if_neg hindex]
      by_cases hlt : r < v.entered
      · have hnext : p.block (position + 1) = (r + 1) % p.numBlocks := by
          rw [Params.block_eq] at hblock ⊢
          rw [Nat.add_mod, hblock, ← Nat.add_mod]
        have hwindow := hr.2
        obtain ⟨r', hwalks, hiff⟩ := ih ⟨hlt, by omega⟩ hnext (by omega)
        rw [if_pos (hmay.mpr hlt), Width.wrap_unbounded]
        refine ⟨r', ⟨Nat.le_of_succ_le hwalks.le, fun k hlow hhigh ↦ ?_, hwalks.stops⟩, hiff⟩
        rcases Nat.eq_or_lt_of_le hlow with rfl | hlater
        · exact hopen
        · exact hwalks.skipped k hlater hhigh
      · have hlast := Nat.le_antisymm hr.1 (Nat.le_of_not_lt hlt)
        rw [if_neg (mt hmay.mp hlt)]
        refine ⟨r, ⟨Nat.le_refl _, fun k hlow hhigh ↦ by omega, .inr hlast⟩, ?_⟩
        exact iff_of_true rfl fun hmore ↦ hopen hmore.1

end Shows

/-! ### Runs of operations -/

/-- Operations one after another. -/
def system (α : Type u) [Inhabited α] (p : Params) : System (BwosQueue α) (Op α) where
  init := (· = .initial p .unbounded)
  step q op := (q.apply p .unbounded op).map Prod.snd

/-- A block other than the consumer's holds a committed entry that nobody has claimed. -/
def BwosQueue.stealable (p : Params) (q : BwosQueue α) : Bool :=
  (List.range p.numBlocks).any fun block ↦
    block ≠ q.consumerBlock ∧ p.index (q.reserved block) < p.index (q.committed block)

/-- A push does not enter the block that the thieves look at while another holds entries for them.
-/
def BwosQueue.spares (p : Params) (q : BwosQueue α) : Bool :=
  ¬ (p.index (q.committed q.producerBlock) = p.entriesPerBlock ∧
    (q.advanceProducer p .unbounded q.producerBlock (q.committed q.producerBlock)).isSome ∧
    p.next q.producerBlock = p.block q.stealPosition ∧ q.stealable p)

/-- None of the pushes that a batch amounts to does. -/
def BwosQueue.sparesAll (p : Params) : List α → BwosQueue α → Bool
  | [], _ => true
  | value :: rest, q => q.spares p &&
    match q.push p .unbounded 2 value with
    | some (true, q') => sparesAll p rest q'
    | _ => true

/-- The condition on an operation. -/
def BwosQueue.sparing (p : Params) (q : BwosQueue α) : Op α → Bool
  | .push _ => q.spares p
  | .pushBatch values => q.sparesAll p values
  | _ => true

/-- The thieves find nothing only where there is nothing for them. -/
structure FindsAll (p : Params) (q : BwosQueue α) : Prop where
  steal : ∀ q', q.apply p .unbounded .steal = some (.value none, q') → q.stealable p = false
  stealBlock : ∀ q', q.apply p .unbounded .stealBlock = some (.values [], q') →
    q.stealable p = false
  isEmptyForThief : q.isEmptyForThief p .unbounded = true → q.stealable p = false

/-- A queue between operations. -/
structure Settled (p : Params) (q : BwosQueue α) (v : View) (r : ℕ) : Prop where
  shows' : Shows p q v
  rest : v.Rest
  quiet : v.Quiet p.entriesPerBlock
  looks : Looks p q v r

theorem settled_initial [Inhabited α] : Settled p (.initial p .unbounded : BwosQueue α)
    (.initial p.numBlocks p.entriesPerBlock) p.numBlocks where
  shows' := shows_initial
  rest := ⟨rfl, rfl, rfl⟩
  quiet := fun r ↦ rfl
  looks := by
    refine ⟨inWindow_front p.numBlocks_pos, ?_⟩
    rw [Params.block_eq, Nat.mod_self]
    exact Nat.zero_mod _

/-! ### What the operations keep -/

namespace Settled

/-- What is not stealable has been claimed, if the producer is not on the consumer's heels. -/
theorem committed_le_claimed (h : Settled p q v r) (hnone : q.stealable p = false)
    (hlap : v.entered < v.consumer + p.numBlocks) {k : ℕ} (hlow : v.consumer < k)
    (hhigh : k ≤ v.entered) : v.committed p.entriesPerBlock k ≤ v.claimed k := by
  have hwindow : InWindow p.numBlocks v.entered k := ⟨hhigh, by omega⟩
  have hother : k % p.numBlocks ≠ q.consumerBlock := by
    rw [h.shows'.consumer]
    intro hmod
    have heq := InWindow.eq_of_mod hwindow ⟨by omega, hlap⟩ hmod
    omega
  have hblock := List.any_eq_false.mp hnone (k % p.numBlocks)
    (List.mem_range.mpr (Nat.mod_lt _ p.numBlocks_pos))
  rw [decide_eq_true_iff, h.shows'.reserved_at hwindow (h.rest.taken ▸ hlow),
    h.shows'.committed_at (h.rest.opened ▸ hwindow), Params.index_cursorAt (h.shows'.claimed_le k),
    Params.index_cursorAt (View.committed_le _ _ _)] at hblock
  exact Nat.le_of_not_lt fun hlt ↦ hblock ⟨hother, hlt⟩

/-- Nothing is stealable if all rounds after the consumer's have been claimed. -/
theorem stealable_eq_false (h : Settled p q v r)
    (hall : ∀ k, v.consumer < k → v.committed p.entriesPerBlock k ≤ v.claimed k) :
    q.stealable p = false := by
  have hfirst := h.shows'.valid.first
  have hconsumer := h.shows'.valid.consumer_le
  have htaken := h.shows'.valid.taken_le_entered
  refine List.any_eq_false.mpr fun block hblock ↦ ?_
  obtain ⟨k, hwindow, rfl⟩ := exists_round (List.mem_range.mp hblock)
    (by omega : p.numBlocks ≤ v.entered)
  rw [decide_eq_true_iff, h.shows'.committed_at (h.rest.opened ▸ hwindow),
    h.shows'.reserved k hwindow, Params.index_cursorAt (h.shows'.reservedIndex_le k),
    Params.index_cursorAt (View.committed_le _ _ _)]
  rintro ⟨-, hlt⟩
  split_ifs at hlt with hle
  · exact Nat.not_lt_of_le (View.committed_le _ _ _) hlt
  · have hclaimed := hall k (h.rest.taken ▸ Nat.lt_of_not_le hle)
    omega

/-- The producer commits an entry. -/
theorem committed (h : Settled p q v r) {q' : BwosQueue α} (hshows : Shows p q' (v.commit 1))
    (hposition : q'.stealPosition = q.stealPosition) : Settled p q' (v.commit 1) r where
  shows' := hshows
  rest := h.rest.commit 1
  quiet := h.quiet
  looks := ⟨h.looks.window, hposition ▸ h.looks.block⟩

/-- The round that the thieves look at, when the producer enters the next one. -/
theorem looks_advance (h : Settled p q v r) {q' : BwosQueue α}
    (hposition : q'.stealPosition = q.stealPosition) :
    Looks p q' (v.advance.commit 1)
      (if r + p.numBlocks = v.entered + 1 then v.entered + 1 else r) := by
  obtain ⟨hle, hlt⟩ := h.looks.window
  have hblock := h.looks.block
  have hn := p.numBlocks_pos
  have hlow : (if r + p.numBlocks = v.entered + 1 then v.entered + 1 else r) ≤ v.entered + 1 := by
    split_ifs <;> omega
  have hhigh : v.entered + 1 <
      (if r + p.numBlocks = v.entered + 1 then v.entered + 1 else r) + p.numBlocks := by
    split_ifs <;> omega
  refine ⟨⟨hlow, hhigh⟩, ?_⟩
  rw [hposition, hblock]
  split_ifs with heq
  · rw [← heq, Nat.add_mod_right]
  · rfl

theorem push (h : Settled p q v r) {value : α} {passes : ℕ} (hpasses : 2 ≤ passes) {ok : Bool}
    {q' : BwosQueue α} (hpush : q.push p .unbounded passes value = some (ok, q')) :
    ∃ v' r', Settled p q' v' r' ∧ v.entered ≤ v'.entered ∧ (q.spares p = true →
      v.ClaimedBefore p.entriesPerBlock r → v'.ClaimedBefore p.entriesPerBlock r') := by
  rcases h.shows'.push_cases h.rest value hpasses with ⟨q₁, v₁, heq, hpushes⟩ | ⟨heq, -, -⟩
  · obtain rfl : q₁ = q' := congrArg Prod.snd (Option.some.inj (heq.symm.trans hpush))
    rcases hpushes.start with ⟨rfl, -⟩ | ⟨rfl, hfull, hmay⟩
    · exact ⟨_, r, h.committed hpushes.shows' hpushes.position, Nat.le_refl _,
        fun _ hbefore ↦ hbefore⟩
    · refine ⟨_, _, ⟨hpushes.shows', h.rest.advance.commit 1, h.quiet,
        h.looks_advance hpushes.position⟩, Nat.le_succ _, fun hspares hbefore k hlow hhigh ↦ ?_⟩
      split_ifs at hhigh with heq
      · have hproducer := h.shows'.committed_producer h.rest
        rw [hfull] at hproducer
        have hsome := (h.shows'.isSome_advanceProducer h.rest (Nat.le_refl _)).mpr hmay
        rw [← hproducer] at hsome
        have hindex : p.index (q.committed q.producerBlock) = p.entriesPerBlock := by
          rw [hproducer, Params.index_cursorAt (Nat.le_refl _)]
        have hnext : p.next q.producerBlock = p.block q.stealPosition := by
          rw [h.shows'.producer, p.next_mod, h.looks.block, ← heq, Nat.add_mod_right]
        have hnone : q.stealable p = false := by
          rw [BwosQueue.spares, decide_eq_true_iff] at hspares
          exact Bool.eq_false_of_not_eq_true fun hsteal ↦ hspares ⟨hindex, hsome, hnext, hsteal⟩
        have hle : k ≤ v.entered := Nat.le_of_lt_succ hhigh
        have hcommitted := h.committed_le_claimed hnone hmay.lap hlow hle
        have hclaimed := h.shows'.claimed_le k
        have hall : v.committed p.entriesPerBlock k = p.entriesPerBlock := by
          rcases Nat.lt_or_eq_of_le hle with hless | rfl
          · exact h.shows'.valid.committed_of_lt hless
          · exact hfull
        exact Nat.le_antisymm hclaimed (hall ▸ hcommitted)
      · exact hbefore k hlow hhigh
  · obtain rfl : q = q' := congrArg Prod.snd (Option.some.inj (heq.symm.trans hpush))
    exact ⟨v, r, h, Nat.le_refl _, fun _ hbefore ↦ hbefore⟩

theorem pushes (h : Settled p q v r) (values : List α) :
    ∃ v' r', Settled p (q.pushes p .unbounded values).2 v' r' ∧ v.entered ≤ v'.entered ∧
      (q.sparesAll p values = true →
        v.ClaimedBefore p.entriesPerBlock r → v'.ClaimedBefore p.entriesPerBlock r') := by
  induction values generalizing q v r with
  | nil => exact ⟨v, r, h, Nat.le_refl _, fun _ hbefore ↦ hbefore⟩
  | cons value rest ih =>
    rw [BwosQueue.pushes, BwosQueue.sparesAll]
    rcases hpush : q.push p .unbounded 2 value with _ | ⟨_ | _, q₁⟩
    · exact ⟨v, r, h, Nat.le_refl _, fun _ hbefore ↦ hbefore⟩
    · exact ⟨v, r, h, Nat.le_refl _, fun _ hbefore ↦ hbefore⟩
    · obtain ⟨v₁, r₁, hnext, hle₁, hbefore₁⟩ := h.push (Nat.le_refl _) hpush
      obtain ⟨v', r', hlast, hle', hbefore'⟩ := ih hnext
      refine ⟨v', r', hlast, Nat.le_trans hle₁ hle', fun hspares hbefore ↦ ?_⟩
      obtain ⟨hone, hmore⟩ := (Bool.and_eq_true _ _).mp hspares
      exact hbefore' hmore (hbefore₁ hone hbefore)

/-- The consumer moves. -/
theorem moved (h : Settled p q v r) {q₁ : BwosQueue α} {v₁ : View}
    (hlocates : Locates p q v q₁ v₁) : Settled p q₁ v₁ r where
  shows' := hlocates.shows'
  rest := hlocates.rest
  quiet := h.quiet.moved hlocates.moved h.shows'.claimed_le
  looks := ⟨hlocates.moved.entered ▸ h.looks.window, hlocates.position ▸ h.looks.block⟩

theorem claimedBefore_moved {size : ℕ} {v₁ : View} (hmoved : v.Moved size v₁)
    (h : v.ClaimedBefore size r) : v₁.ClaimedBefore size r := by
  intro k hlow hhigh
  rw [hmoved.claimed]
  exact h k (Nat.lt_of_le_of_lt hmoved.le hlow) hhigh

theorem consumed (h : Settled p q v r) {q' : BwosQueue α} {count : ℕ}
    (hshows : Shows p q' (v.consume count)) (hposition : q'.stealPosition = q.stealPosition) :
    Settled p q' (v.consume count) r where
  shows' := hshows
  rest := h.rest.consume count
  quiet := h.quiet
  looks := ⟨h.looks.window, hposition ▸ h.looks.block⟩

/-- A thief walks and claims. -/
theorem stolen (h : Settled p q v r) {r' count : ℕ} {q' : BwosQueue α}
    (hsteals : Steals p q v r r' count q') :
    ∃ v', Settled p q' v' r' ∧ v'.entered = v.entered ∧
      (v.ClaimedBefore p.entriesPerBlock r → v'.ClaimedBefore p.entriesPerBlock r') := by
  have hshows := hsteals.shows'
  have hbefore (hb : v.ClaimedBefore p.entriesPerBlock r) :=
    hb.walks hsteals.walks h.shows'.claimed_le
  split_ifs at hshows with hzero
  · exact ⟨v, ⟨hshows, h.rest, h.quiet, hsteals.looks⟩, rfl, hbefore⟩
  · have hlow := hsteals.claims (Nat.pos_of_ne_zero hzero)
    refine ⟨_, ⟨hshows, ⟨h.rest.opened, h.rest.reset, h.rest.taken⟩, h.quiet.claim hlow count,
      ⟨hsteals.looks.window, hsteals.looks.block⟩⟩, rfl, fun hb k hk hlt ↦ ?_⟩
    change Function.update v.claimed r' _ k = p.entriesPerBlock
    rw [Function.update_of_ne (Nat.ne_of_lt hlt)]
    exact hbefore hb k hk hlt

theorem pop (h : Settled p q v r) :
    ∃ out q' v', q.pop p .unbounded = (out, q') ∧ Settled p q' v' r ∧ v'.entered = v.entered ∧
      (v.ClaimedBefore p.entriesPerBlock r → v'.ClaimedBefore p.entriesPerBlock r) := by
  obtain ⟨q₁, v₁, hlocates, hcases⟩ := h.shows'.pop_spec h.rest
  have hmoved := h.moved hlocates
  have hbefore (hb : v.ClaimedBefore p.entriesPerBlock r) := claimedBefore_moved hlocates.moved hb
  rcases hcases with ⟨-, -, q', heq, hshows, -, hposition⟩ | ⟨-, heq⟩
  · exact ⟨_, q', _, heq, hmoved.consumed hshows (hposition.trans hlocates.position.symm),
      hlocates.moved.entered, fun hb ↦ (hbefore hb).consume _⟩
  · exact ⟨_, q₁, v₁, heq, hmoved, hlocates.moved.entered, hbefore⟩

theorem popBlock (h : Settled p q v r) :
    ∃ out q' v', q.popBlock p .unbounded = (out, q') ∧ Settled p q' v' r ∧
      v'.entered = v.entered ∧
      (v.ClaimedBefore p.entriesPerBlock r → v'.ClaimedBefore p.entriesPerBlock r) := by
  obtain ⟨q₁, v₁, hlocates, hcases⟩ := h.shows'.popBlock_spec h.rest
  have hmoved := h.moved hlocates
  have hbefore (hb : v.ClaimedBefore p.entriesPerBlock r) := claimedBefore_moved hlocates.moved hb
  rcases hcases with ⟨-, -, q', heq, hshows, -, hposition⟩ | ⟨-, heq⟩
  · exact ⟨_, q', _, heq, hmoved.consumed hshows (hposition.trans hlocates.position.symm),
      hlocates.moved.entered, fun hb ↦ (hbefore hb).consume _⟩
  · exact ⟨_, q₁, v₁, heq, hmoved, hlocates.moved.entered, hbefore⟩

theorem steal (h : Settled p q v r) :
    ∃ out q' v' r', q.steal p .unbounded p.numBlocks = some (out, q') ∧ Settled p q' v' r' ∧
      v'.entered = v.entered ∧
      (v.ClaimedBefore p.entriesPerBlock r → v'.ClaimedBefore p.entriesPerBlock r') := by
  obtain ⟨r', q', ⟨heq, hsteals⟩ | ⟨heq, hsteals⟩⟩ :=
    h.shows'.steal_spec h.rest h.quiet h.looks (Nat.le_refl p.numBlocks)
  all_goals
    obtain ⟨v', hsettled, hentered, hbefore⟩ := h.stolen hsteals
    exact ⟨_, q', v', r', heq, hsettled, hentered, hbefore⟩

theorem stealBlock (h : Settled p q v r) :
    ∃ out q' v' r', q.stealBlock p .unbounded p.numBlocks = some (out, q') ∧
      Settled p q' v' r' ∧ v'.entered = v.entered ∧
      (v.ClaimedBefore p.entriesPerBlock r → v'.ClaimedBefore p.entriesPerBlock r') := by
  obtain ⟨r', q', count, heq, hsteals⟩ :=
    h.shows'.stealBlock_spec h.rest h.quiet h.looks (Nat.le_refl p.numBlocks)
  obtain ⟨v', hsettled, hentered, hbefore⟩ := h.stolen hsteals
  exact ⟨_, q', v', r', heq, hsettled, hentered, hbefore⟩

/-- Every operation returns, and leaves a queue between operations. -/
theorem apply (h : Settled p q v r) (op : Op α) :
    ∃ answer q' v' r', q.apply p .unbounded op = some (answer, q') ∧ Settled p q' v' r' ∧
      (q.sparing p op = true →
        v.ClaimedBefore p.entriesPerBlock r → v'.ClaimedBefore p.entriesPerBlock r') := by
  have hsame : Settled p q v r ∧ (q.sparing p op = true →
      v.ClaimedBefore p.entriesPerBlock r → v.ClaimedBefore p.entriesPerBlock r) :=
    ⟨h, fun _ hbefore ↦ hbefore⟩
  cases op with
  | push value =>
    obtain ⟨ok, q', heq⟩ : ∃ ok q', q.push p .unbounded 2 value = some (ok, q') := by
      rcases h.shows'.push_cases h.rest value (Nat.le_refl 2) with ⟨q₁, v₁, heq, -⟩ | ⟨heq, -, -⟩
      · exact ⟨true, q₁, heq⟩
      · exact ⟨false, q, heq⟩
    obtain ⟨v', r', hsettled, -, hbefore⟩ := h.push (Nat.le_refl 2) heq
    exact ⟨.flag ok, q', v', r', by rw [BwosQueue.apply, heq]; rfl, hsettled, hbefore⟩
  | pushBatch values =>
    obtain ⟨v', r', hsettled, -, hbefore⟩ := h.pushes values
    refine ⟨.count (q.pushes p .unbounded values).1, (q.pushes p .unbounded values).2, v', r', ?_,
      hsettled, hbefore⟩
    rw [BwosQueue.apply, h.shows'.pushBatch_eq h.rest values (Nat.le_refl _)]
    rfl
  | pop =>
    obtain ⟨out, q', v', heq, hsettled, -, hbefore⟩ := h.pop
    exact ⟨_, q', v', r, by rw [BwosQueue.apply, heq]; rfl, hsettled, fun _ ↦ hbefore⟩
  | popBlock =>
    obtain ⟨out, q', v', heq, hsettled, -, hbefore⟩ := h.popBlock
    exact ⟨_, q', v', r, by rw [BwosQueue.apply, heq]; rfl, hsettled, fun _ ↦ hbefore⟩
  | steal =>
    obtain ⟨out, q', v', r', heq, hsettled, -, hbefore⟩ := h.steal
    exact ⟨_, q', v', r', by rw [BwosQueue.apply, heq]; rfl, hsettled, fun _ ↦ hbefore⟩
  | stealBlock =>
    obtain ⟨out, q', v', r', heq, hsettled, -, hbefore⟩ := h.stealBlock
    exact ⟨_, q', v', r', by rw [BwosQueue.apply, heq]; rfl, hsettled, fun _ ↦ hbefore⟩
  | minRemainingSlots => exact ⟨_, q, v, r, rfl, hsame⟩
  | hasStealable => exact ⟨_, q, v, r, rfl, hsame⟩
  | hasEntries => exact ⟨_, q, v, r, rfl, hsame⟩
  | producerBlockHasActiveStealers => exact ⟨_, q, v, r, rfl, hsame⟩
  | isEmptyForThief => exact ⟨_, q, v, r, rfl, hsame⟩

/-- A walk with nothing behind it that finds nothing shows that there is nothing. -/
theorem stealable_of_walks (h : Settled p q v r) (hbefore : v.ClaimedBefore p.entriesPerBlock r)
    {r' : ℕ} (hwalks : v.Walks p.entriesPerBlock r r')
    (hnone : ¬ (v.Open p.entriesPerBlock r' ∧
      v.claimed r' < v.committed p.entriesPerBlock r')) : q.stealable p = false := by
  have hbehind := hbefore.walks hwalks h.shows'.claimed_le
  refine h.stealable_eq_false fun k hlow ↦ ?_
  have hsize := View.committed_le p.entriesPerBlock v k
  rcases Nat.lt_trichotomy k r' with hlt | rfl | hgt
  · rw [hbehind k hlow hlt]
    exact hsize
  · by_contra hmore
    refine hnone ⟨⟨hlow, ?_⟩, Nat.lt_of_not_le hmore⟩
    omega
  · -- beyond the end of the walk nothing is committed
    have hentered : v.entered ≤ r' := by
      rcases hwalks.stops with hopen | heq
      · have hclaimed := Nat.le_of_not_lt fun hlt ↦ hnone ⟨hopen, hlt⟩
        exact h.shows'.valid.entered_le_of_committed_lt (Nat.lt_of_le_of_lt hclaimed hopen.2)
      · exact Nat.le_of_eq heq.symm
    rw [h.shows'.valid.committed_of_gt (Nat.lt_of_le_of_lt hentered hgt)]
    exact Nat.zero_le _

theorem findsAll (h : Settled p q v r) (hbefore : v.ClaimedBefore p.entriesPerBlock r) :
    FindsAll p q where
  steal := by
    intro q' hsteal
    obtain ⟨r', q₁, ⟨heq, -⟩ | ⟨-, hsteals⟩⟩ :=
      h.shows'.steal_spec h.rest h.quiet h.looks (Nat.le_refl p.numBlocks)
    · rw [BwosQueue.apply, heq] at hsteal
      exact nomatch hsteal
    · exact h.stealable_of_walks hbefore hsteals.walks (hsteals.nothing rfl)
  stealBlock := by
    intro q' hsteal
    obtain ⟨r', q₁, count, heq, hsteals⟩ :=
      h.shows'.stealBlock_spec h.rest h.quiet h.looks (Nat.le_refl p.numBlocks)
    rw [BwosQueue.apply, heq] at hsteal
    have hempty : q.copy (r' % p.numBlocks) (v.claimed r') (v.claimed r' + count) = [] :=
      Answer.values.inj (congrArg Prod.fst (Option.some.inj hsteal))
    have hzero : count = 0 := by
      have hlength := congrArg List.length hempty
      simpa [BwosQueue.copy] using hlength
    exact h.stealable_of_walks hbefore hsteals.walks (hsteals.nothing hzero)
  isEmptyForThief := by
    intro hempty
    have hwindow := h.looks.window.2
    obtain ⟨r', hwalks, hiff⟩ := h.shows'.isEmptyForThiefFrom_iff h.rest h.looks.window
      h.looks.block (by omega : v.entered < r + (p.numBlocks + 1))
    exact h.stealable_of_walks hbefore hwalks (hiff.mp hempty)

end Settled

/-- In every run of operations in which the producer does not enter the block that the thieves look
at while another one holds entries for them, the thieves find nothing only where there is nothing.
-/
theorem thieves_find_all [Inhabited α] {q : BwosQueue α}
    (hq : (system α p).ReachableUnder (fun q op ↦ q.sparing p op = true) q) : FindsAll p q := by
  obtain ⟨v, r, hsettled, hbefore⟩ : ∃ v r, Settled p q v r ∧
      v.ClaimedBefore p.entriesPerBlock r := by
    refine System.ReachableUnder.invariant
      (P := fun q ↦ ∃ v r, Settled p q v r ∧ v.ClaimedBefore p.entriesPerBlock r) ?_ ?_ hq
    · rintro q rfl
      exact ⟨_, _, settled_initial, fun k hlow hhigh ↦ absurd hhigh (Nat.not_lt_of_lt hlow)⟩
    · rintro q op q' ⟨v, r, hsettled, hbefore⟩ hsparing hstep
      obtain ⟨answer, q₁, v', r', happly, hsettled', hbefore'⟩ := hsettled.apply op
      obtain ⟨result, heq, rfl⟩ := Option.map_eq_some_iff.mp hstep
      obtain rfl := Option.some.inj (happly.symm.trans heq)
      exact ⟨v', r', hsettled', hbefore' hsparing hbefore⟩
  exact hsettled.findsAll hbefore

theorem four_isPowerOfTwo : ∃ k, 4 = 2 ^ k := ⟨2, rfl⟩

theorem two_le_four : 2 ≤ 4 := Nat.le_add_left 2 2

/-- A queue of 4 blocks with one entry each. -/
def fourBlocks : Params := ⟨4, 1, four_isPowerOfTwo, two_le_four, Nat.one_pos⟩

/-- The owner pops two of four values, and the thieves take the other two, and then another one that
was pushed before the producer came around. -/
theorem thieves_find_all_pushPopSteal :
    let ops : List (Op ℕ) :=
      [.push 5, .push 6, .push 7, .push 8, .pop, .pop, .steal, .push 9, .stealBlock, .steal]
    let q := ((system ℕ fourBlocks).runUnder (BwosQueue.sparing fourBlocks)
      (.initial fourBlocks .unbounded) ops).get (by decide +kernel)
    (q.apply fourBlocks .unbounded .steal).map Prod.fst = some (.value none) ∧
      FindsAll fourBlocks q :=
  ⟨by decide +kernel,
    thieves_find_all (System.reachableUnder_of_run rfl (Option.some_get _).symm)⟩

/-- The push of 9 enters the block that the thieves look at. They take 9 and then find nothing,
although the two blocks after the consumer's hold 7 and 8. -/
theorem overlooks_entries :
    ¬ ∀ q : BwosQueue ℕ, (system ℕ fourBlocks).Reachable q → FindsAll fourBlocks q := by
  intro h
  let ops : List (Op ℕ) :=
    [.push 5, .push 6, .push 7, .push 8, .pop, .pop, .push 9, .steal]
  let q := ((system ℕ fourBlocks).run (.initial fourBlocks .unbounded) ops).get (by decide +kernel)
  have hfinds := h q (System.reachable_of_run rfl (Option.some_get _).symm)
  exact absurd (hfinds.isEmptyForThief (by decide +kernel)) (by decide +kernel)

end Stackfull.Queue.Bwos
