import Mathlib.Logic.Function.Basic
import Mathlib.Tactic.Common

/-!
# Rounds of blocks that are filled, consumed and stolen from

What the work-stealing queue does, without its words. Blocks of `size` entries are used in rounds;
`n` rounds share the storage. The producer fills one round after the other and the consumer follows.
In the rounds between them the thieves claim entries from the front and leave them when they have
copied them. The consumer takes a round over from the thieves: their claims end there, and what they
have not claimed counts as left. A round is used again only when all of it has been left.

The producer enters a round in three steps (`opened`, `reset`, `entered`) and the consumer takes one
over in two (`taken`, `consumer`), so that each may be interrupted there.
-/

set_option autoImplicit false
set_option relaxedAutoImplicit false
set_option linter.dupNamespace false

namespace Stackfull.Queue.Bwos

/-- The newest round that is open, that is reset and that is entered by the producer; the newest
round taken over and the consumer's; how many entries have been pushed in all rounds, and popped up
to in the consumer's; and how many entries of each round the thieves have claimed, and how many are
left. -/
structure View where
  opened : ℕ
  reset : ℕ
  entered : ℕ
  taken : ℕ
  consumer : ℕ
  pushed : ℕ
  popped : ℕ
  claimed : ℕ → ℕ
  left : ℕ → ℕ

namespace View

/-- How many entries of a round are committed. -/
def committed (size : ℕ) (v : View) (r : ℕ) : ℕ := min size (v.pushed - r * size)

/-- How the rounds stand to each other. -/
structure Valid (n size : ℕ) (v : View) : Prop where
  first : n ≤ v.consumer
  consumer_le : v.consumer ≤ v.taken
  taken_le : v.taken ≤ v.consumer + 1
  taken_le_entered : v.taken ≤ v.entered
  entered_le : v.entered ≤ v.reset
  reset_le : v.reset ≤ v.opened
  opened_le : v.opened ≤ v.entered + 1
  lap : v.opened ≤ v.consumer + n
  lapped : v.opened = v.consumer + n ∨ v.consumer < v.taken → v.popped = size
  low : v.entered * size ≤ v.pushed
  high : v.pushed ≤ (v.entered + 1) * size
  full : v.entered < v.opened → v.pushed = (v.entered + 1) * size
  claimed_le : ∀ r, v.claimed r ≤ v.committed size r
  claimed_le_popped : v.claimed v.consumer ≤ v.popped
  popped_le : v.popped ≤ v.committed size v.consumer
  left_le : ∀ r, v.left r ≤ size
  left_le_claimed : ∀ r, v.consumer < r → v.left r ≤ v.claimed r
  recycled : ∀ r, r + n ≤ v.opened → v.left r = size

/-! ### Steps -/

/-- The producer commits entries. -/
def commit (v : View) (count : ℕ) : View := { v with pushed := v.pushed + count }

/-- The producer opens the next round. -/
def openNext (v : View) : View := { v with opened := v.opened + 1 }

/-- The producer resets what was left of the next round's storage. -/
def resetNext (v : View) : View := { v with reset := v.reset + 1 }

/-- The producer enters the next round. -/
def enter (v : View) : View := { v with entered := v.entered + 1 }

/-- A thief claims entries of a round. -/
def claim (v : View) (r count : ℕ) : View :=
  { v with claimed := Function.update v.claimed r (v.claimed r + count) }

/-- A thief leaves entries of a round. -/
def leave (v : View) (r count : ℕ) : View :=
  { v with left := Function.update v.left r (v.left r + count) }

/-- The consumer takes the next round over. -/
def takeOver (v : View) : View := { v with taken := v.taken + 1 }

/-- The consumer credits what the thieves did not claim as left, and moves. -/
def credit (size : ℕ) (v : View) : View :=
  { v with
    consumer := v.consumer + 1
    popped := v.claimed (v.consumer + 1)
    left := Function.update v.left (v.consumer + 1)
      (v.left (v.consumer + 1) + (size - v.claimed (v.consumer + 1))) }

/-- The consumer consumes entries. -/
def consume (v : View) (count : ℕ) : View := { v with popped := v.popped + count }

/-! ### Consequences -/

variable {n size : ℕ} {v : View} {r count : ℕ}

theorem committed_le (size : ℕ) (v : View) (r : ℕ) : v.committed size r ≤ size :=
  Nat.min_le_left _ _

theorem committed_mono {m : ℕ} (h : v.pushed ≤ m) :
    v.committed size r ≤ ({ v with pushed := m }).committed size r := by
  unfold committed
  dsimp only
  omega

namespace Valid

/-- All rounds but the producer's are filled. -/
theorem committed_of_lt (hv : v.Valid n size) (hr : r < v.entered) : v.committed size r = size := by
  have hle : (r + 1) * size ≤ v.entered * size := Nat.mul_le_mul_right _ hr
  have hlow := hv.low
  rw [Nat.add_mul, Nat.one_mul] at hle
  unfold committed
  omega

/-- Nothing is committed beyond the producer's round. -/
theorem committed_of_gt (hv : v.Valid n size) (hr : v.entered < r) : v.committed size r = 0 := by
  have hle : (v.entered + 1) * size ≤ r * size := Nat.mul_le_mul_right _ hr
  have hhigh := hv.high
  unfold committed
  omega

theorem committed_entered (hv : v.Valid n size) :
    v.pushed = v.entered * size + v.committed size v.entered := by
  have hlow := hv.low
  have hhigh := hv.high
  rw [Nat.add_mul, Nat.one_mul] at hhigh
  unfold committed
  omega

/-- A round with free entries is the producer's. -/
theorem entered_le_of_committed_lt (hv : v.Valid n size) (h : v.committed size r < size) :
    v.entered ≤ r := by
  by_contra hr
  have heq := hv.committed_of_lt (Nat.lt_of_not_le hr)
  omega

/-- A round in which something is committed has been entered. -/
theorem le_entered_of_committed_pos (hv : v.Valid n size) (h : 0 < v.committed size r) :
    r ≤ v.entered := by
  by_contra hr
  have heq := hv.committed_of_gt (Nat.lt_of_not_le hr)
  omega

/-! ### The steps keep the rounds -/

theorem commit (hv : v.Valid n size) (hopened : v.opened = v.entered)
    (hroom : v.committed size v.entered + count ≤ size) : (v.commit count).Valid n size := by
  have heq := hv.committed_entered
  have hmono (r : ℕ) : v.committed size r ≤ (v.commit count).committed size r :=
    committed_mono (Nat.le_add_right _ _)
  refine { hv with
    low := Nat.le_trans hv.low (Nat.le_add_right _ _), high := ?_, full := fun h ↦ ?_,
    claimed_le := fun r ↦ Nat.le_trans (hv.claimed_le r) (hmono r),
    popped_le := Nat.le_trans hv.popped_le (hmono _) }
  · change v.pushed + count ≤ (v.entered + 1) * size
    rw [Nat.add_mul, Nat.one_mul]
    omega
  · change v.entered < v.opened at h
    omega

theorem openNext (hv : v.Valid n size) (hopened : v.opened = v.entered)
    (hfull : v.committed size v.entered = size) (hlap : v.entered < v.consumer + n)
    (hlapped : v.entered + 1 = v.consumer + n → v.popped = size)
    (hleft : v.left (v.entered + 1 - n) = size) : (v.openNext).Valid n size := by
  have hfirst := hv.first
  refine { hv with
    reset_le := ?_, opened_le := ?_, lap := ?_, lapped := ?_, full := fun _ ↦ ?_,
    recycled := fun r hr ↦ ?_ }
  · exact Nat.le_trans hv.reset_le (Nat.le_succ _)
  · change v.opened + 1 ≤ v.entered + 1
    omega
  · change v.opened + 1 ≤ v.consumer + n
    omega
  · change v.opened + 1 = v.consumer + n ∨ v.consumer < v.taken → v.popped = size
    rintro (h | h)
    · exact hlapped (by omega)
    · exact hv.lapped (.inr h)
  · change v.pushed = (v.entered + 1) * size
    rw [hv.committed_entered, hfull, Nat.add_mul, Nat.one_mul]
  · change r + n ≤ v.opened + 1 at hr
    rcases Nat.lt_or_eq_of_le hr with hold | hnew
    · exact hv.recycled r (by omega)
    · have heq : r = v.entered + 1 - n := by omega
      exact heq ▸ hleft

theorem resetNext (hv : v.Valid n size) (hopened : v.reset < v.opened) :
    (v.resetNext).Valid n size :=
  { hv with
    entered_le := Nat.le_trans hv.entered_le (Nat.le_succ _)
    reset_le := hopened }

theorem enter (hv : v.Valid n size) (hreset : v.entered < v.reset) : (v.enter).Valid n size := by
  have hfull := hv.full (Nat.lt_of_lt_of_le hreset hv.reset_le)
  have hreset_le := hv.reset_le
  have hopened_le := hv.opened_le
  refine { hv with
    taken_le_entered := ?_, entered_le := hreset, opened_le := ?_, low := ?_, high := ?_,
    full := fun h ↦ ?_ }
  · exact Nat.le_trans hv.taken_le_entered (Nat.le_succ _)
  · exact Nat.le_trans hopened_le (Nat.le_succ _)
  · exact Nat.le_of_eq hfull.symm
  · change v.pushed ≤ (v.entered + 1 + 1) * size
    rw [hfull]
    exact Nat.mul_le_mul_right _ (Nat.le_succ _)
  · change v.entered + 1 < v.opened at h
    omega

theorem claim (hv : v.Valid n size) (hr : v.consumer < r)
    (hroom : v.claimed r + count ≤ v.committed size r) : (v.claim r count).Valid n size := by
  have hother {r' : ℕ} (hne : r' ≠ r) : (v.claim r count).claimed r' = v.claimed r' :=
    Function.update_of_ne hne _ _
  have hself : (v.claim r count).claimed r = v.claimed r + count := Function.update_self _ _ _
  refine { hv with claimed_le := fun r' ↦ ?_, claimed_le_popped := ?_, left_le_claimed := ?_ }
  · rcases eq_or_ne r' r with rfl | hne
    · rw [hself]
      exact hroom
    · rw [hother hne]
      exact hv.claimed_le r'
  · change (v.claim r count).claimed v.consumer ≤ v.popped
    rw [hother (Nat.ne_of_lt hr)]
    exact hv.claimed_le_popped
  · intro r' hr'
    change v.left r' ≤ (v.claim r count).claimed r'
    have hold := hv.left_le_claimed r' hr'
    rcases eq_or_ne r' r with rfl | hne
    · rw [hself]
      omega
    · rwa [hother hne]

theorem leave (hv : v.Valid n size) (hroom : v.left r + count ≤ size)
    (hclaimed : v.consumer < r → v.left r + count ≤ v.claimed r) :
    (v.leave r count).Valid n size := by
  have hother {r' : ℕ} (hne : r' ≠ r) : (v.leave r count).left r' = v.left r' :=
    Function.update_of_ne hne _ _
  have hself : (v.leave r count).left r = v.left r + count := Function.update_self _ _ _
  refine { hv with left_le := fun r' ↦ ?_, left_le_claimed := fun r' hr' ↦ ?_, recycled := ?_ }
  · rcases eq_or_ne r' r with rfl | hne
    · rwa [hself]
    · rw [hother hne]
      exact hv.left_le r'
  · rcases eq_or_ne r' r with rfl | hne
    · rw [hself]
      exact hclaimed hr'
    · rw [hother hne]
      exact hv.left_le_claimed r' hr'
  · intro r' hr'
    have hold := hv.recycled r' hr'
    rcases eq_or_ne r' r with rfl | hne
    · rw [hself]
      omega
    · rwa [hother hne]

theorem takeOver (hv : v.Valid n size) (htaken : v.taken = v.consumer)
    (hentered : v.consumer < v.entered) (hpopped : v.popped = size) : (v.takeOver).Valid n size :=
  { hv with
    consumer_le := Nat.le_trans hv.consumer_le (Nat.le_succ _)
    taken_le := Nat.succ_le_succ (Nat.le_of_eq htaken)
    taken_le_entered := Nat.succ_le_of_lt (Nat.lt_of_le_of_lt (Nat.le_of_eq htaken) hentered)
    lapped := fun _ ↦ hpopped }

theorem credit (hv : v.Valid n size) (htaken : v.consumer < v.taken) :
    (v.credit size).Valid n size := by
  have htaken_le := hv.taken_le
  have hlap := hv.lap
  have hother {r : ℕ} (hne : r ≠ v.consumer + 1) : (v.credit size).left r = v.left r :=
    Function.update_of_ne hne _ _
  have hself : (v.credit size).left (v.consumer + 1) =
      v.left (v.consumer + 1) + (size - v.claimed (v.consumer + 1)) := Function.update_self _ _ _
  have hleft := hv.left_le_claimed (v.consumer + 1) (Nat.lt_succ_self _)
  have hclaimed := Nat.le_trans (hv.claimed_le (v.consumer + 1)) (committed_le _ _ _)
  refine { hv with
    first := Nat.le_trans hv.first (Nat.le_succ _), consumer_le := htaken, taken_le := ?_,
    lap := ?_, lapped := ?_, claimed_le_popped := Nat.le_refl _, popped_le := hv.claimed_le _,
    left_le := fun r ↦ ?_, left_le_claimed := fun r hr ↦ ?_, recycled := fun r hr ↦ ?_ }
  · exact Nat.le_trans htaken_le (Nat.le_succ _)
  · change v.opened ≤ v.consumer + 1 + n
    omega
  · change v.opened = v.consumer + 1 + n ∨ v.consumer + 1 < v.taken → _
    rintro (h | h) <;> omega
  · rcases eq_or_ne r (v.consumer + 1) with rfl | hne
    · rw [hself]
      omega
    · rw [hother hne]
      exact hv.left_le r
  · change v.consumer + 1 < r at hr
    rw [hother (by omega)]
    exact hv.left_le_claimed r (by omega)
  · have hold := hv.recycled r hr
    change r + n ≤ v.opened at hr
    rwa [hother (by omega)]

theorem consume (hv : v.Valid n size)
    (hroom : v.popped + count ≤ v.committed size v.consumer) : (v.consume count).Valid n size := by
  have hsize := committed_le size v v.consumer
  refine { hv with
    lapped := fun h ↦ ?_, claimed_le_popped := ?_, popped_le := hroom }
  · have hpopped := hv.lapped h
    change v.popped + count = size
    omega
  · exact Nat.le_trans hv.claimed_le_popped (Nat.le_add_right _ _)

end Valid

/-! ### The rounds of a new queue -/

/-- The rounds of a new queue. -/
def initial (n size : ℕ) : View where
  opened := n
  reset := n
  entered := n
  taken := n
  consumer := n
  pushed := n * size
  popped := 0
  claimed := fun _ ↦ 0
  left := fun r ↦ if r ≤ n then size else 0

theorem committed_initial {n size : ℕ} (hr : r ≤ n) :
    (initial n size).committed size r = if r = n then 0 else size := by
  change min size (n * size - r * size) = _
  split_ifs with heq
  · rw [heq, Nat.sub_self, Nat.min_zero]
  · have hle : (r + 1) * size ≤ n * size := Nat.mul_le_mul_right _ (by omega)
    rw [Nat.add_mul, Nat.one_mul] at hle
    omega

theorem valid_initial {n size : ℕ} (hn : 0 < n) : (initial n size).Valid n size where
  first := Nat.le_refl _
  consumer_le := Nat.le_refl _
  taken_le := Nat.le_succ _
  taken_le_entered := Nat.le_refl _
  entered_le := Nat.le_refl _
  reset_le := Nat.le_refl _
  opened_le := Nat.le_succ _
  lap := Nat.le_add_right _ _
  lapped := by
    rintro (h | h)
    · change n = n + n at h
      omega
    · exact absurd h (Nat.lt_irrefl _)
  low := Nat.le_refl _
  high := Nat.mul_le_mul_right _ (Nat.le_succ _)
  full := fun h ↦ absurd h (Nat.lt_irrefl _)
  claimed_le := fun _ ↦ Nat.zero_le _
  claimed_le_popped := Nat.le_refl _
  popped_le := Nat.zero_le _
  left_le := by
    intro r
    change (if r ≤ n then size else 0) ≤ size
    split_ifs <;> omega
  left_le_claimed := by
    intro r hr
    change (if r ≤ n then size else 0) ≤ 0
    exact Nat.le_of_eq (if_neg (Nat.not_le_of_lt hr))
  recycled := by
    intro r hr
    change r + n ≤ n at hr
    exact if_pos (by omega)

end View

end Stackfull.Queue.Bwos
