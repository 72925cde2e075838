import Stackfull.Queue.BwosBatch
import Stackfull.Queue.BwosThreads

/-!
# Who holds which entry

An entry is free until a thief claims it or the owner takes its round over. A thief holds what it
has claimed until it has copied it; then the entry is stolen. What the thieves have not claimed of a
round that the owner takes over is kept by the owner. `Fates` relates the fates of the entries to
the rounds: `left` counts the entries that are stolen or kept. That is why a thief's addition to
`stolen` never counts an entry twice, and why the producer, who waits for all entries of a round to
be left, does not come upon a thief that still copies.
-/

set_option autoImplicit false
set_option relaxedAutoImplicit false
set_option linter.dupNamespace false

namespace Stackfull.Queue.Bwos

open Stackfull.Lib

universe u v

variable {ι : Type v} {p : Params} {v : View} {r r' i j first last : ℕ}

/-! ### Entries and their numbers -/

namespace Params

/-- The number of an entry of a round, counted from the head block's first round. -/
def entry (p : Params) (r i : ℕ) : ℕ := (r - p.numBlocks) * p.entriesPerBlock + i

/-- The entry of a round is its ticket in the round's cursors. -/
theorem ticket_cursorAt (hr : p.numBlocks ≤ r) (hi : i ≤ p.entriesPerBlock) (j : ℕ) :
    p.ticket (r % p.numBlocks) (p.cursorAt r i) j = p.entry r j := by
  have hdiv := Nat.div_add_mod (r - p.numBlocks) p.numBlocks
  rw [← Nat.sub_mul_mod (n := p.numBlocks) (k := 1) (by omega), Nat.mul_one, ticket,
    version_cursorAt hi, entry, Nat.div_eq_sub_div p.numBlocks_pos hr, Nat.add_sub_cancel,
    Nat.mul_comm _ p.numBlocks, hdiv]

theorem entry_add (p : Params) (r i j : ℕ) : p.entry r i + j = p.entry r (i + j) :=
  Nat.add_assoc _ _ _

/-- The entries of the earlier rounds come before those of the later ones. -/
theorem entry_lt_of_lt (hr : p.numBlocks ≤ r) (hlt : r < r') (hi : i < p.entriesPerBlock) :
    p.entry r i < p.entry r' j := by
  have hle : (r - p.numBlocks + 1) * p.entriesPerBlock ≤ (r' - p.numBlocks) * p.entriesPerBlock :=
    Nat.mul_le_mul_right _ (by omega)
  rw [Nat.add_mul, Nat.one_mul] at hle
  unfold entry
  omega

theorem entry_lt_iff (hr : p.numBlocks ≤ r) (hr' : p.numBlocks ≤ r') (hi : i < p.entriesPerBlock)
    (hj : j < p.entriesPerBlock) : p.entry r i < p.entry r' j ↔ r < r' ∨ r = r' ∧ i < j := by
  rcases Nat.lt_trichotomy r r' with hlt | rfl | hgt
  · exact iff_of_true (entry_lt_of_lt hr hlt hi) (.inl hlt)
  · unfold entry
    omega
  · have hless : p.entry r' j < p.entry r i := entry_lt_of_lt hr' hgt hj
    omega

theorem entry_eq_iff (hr : p.numBlocks ≤ r) (hr' : p.numBlocks ≤ r') (hi : i < p.entriesPerBlock)
    (hj : j < p.entriesPerBlock) : p.entry r i = p.entry r' j ↔ r = r' ∧ i = j := by
  have hlt : p.entry r i < p.entry r' j ↔ _ := entry_lt_iff hr hr' hi hj
  have hgt : p.entry r' j < p.entry r i ↔ _ := entry_lt_iff hr' hr hj hi
  omega

/-- Consecutive entries of a round. -/
theorem mem_entries_iff (hr : p.numBlocks ≤ r) (hr' : p.numBlocks ≤ r')
    (hi : i < p.entriesPerBlock) (hlast : last ≤ p.entriesPerBlock) :
    p.entry r first ≤ p.entry r' i ∧ p.entry r' i < p.entry r last ↔
      r' = r ∧ first ≤ i ∧ i < last := by
  rcases Nat.lt_trichotomy r' r with hlt | rfl | hgt
  · have hless : p.entry r' i < p.entry r first := entry_lt_of_lt hr' hlt hi
    omega
  · unfold entry
    omega
  · have hpos := p.entriesPerBlock_pos
    have hless : p.entry r (p.entriesPerBlock - 1) < p.entry r' i :=
      entry_lt_of_lt hr hgt (by omega)
    unfold entry at hless ⊢
    omega

/-- Every number is that of an entry. -/
theorem exists_entry (p : Params) (k : ℕ) :
    ∃ r i, p.numBlocks ≤ r ∧ i < p.entriesPerBlock ∧ k = p.entry r i := by
  refine ⟨p.numBlocks + k / p.entriesPerBlock, k % p.entriesPerBlock, Nat.le_add_right _ _,
    Nat.mod_lt _ p.entriesPerBlock_pos, ?_⟩
  rw [entry, Nat.add_sub_cancel_left, Nat.mul_comm]
  exact (Nat.div_add_mod k p.entriesPerBlock).symm

end Params

/-! ### Fates -/

/-- What has become of an entry. -/
inductive Fate (ι : Type v)
  | free
  | held (a : ι)
  | stolen
  | kept
  deriving DecidableEq

/-- The entry has been left. -/
def Fate.isDone : Fate ι → Bool
  | .stolen => true
  | .kept => true
  | _ => false

/-- The fates are those of the rounds. -/
structure Fates (p : Params) (v : View) (fate : ℕ → Fate ι) : Prop where
  left : ∀ r, p.numBlocks ≤ r →
    v.left r = roundCount p.entriesPerBlock (fun k ↦ (fate k).isDone = true) (r - p.numBlocks)
  free : ∀ r i, p.numBlocks ≤ r → i < p.entriesPerBlock →
    (fate (p.entry r i) = .free ↔ v.consumer < r ∧ v.claimed r ≤ i)
  kept : ∀ r i, p.numBlocks ≤ r → i < p.entriesPerBlock →
    (fate (p.entry r i) = .kept ↔ r ≤ v.consumer ∧ v.claimed r ≤ i)

/-- Consecutive entries have one fate from now on. -/
def assign (p : Params) (fate : ℕ → Fate ι) (r first last : ℕ) (new : Fate ι) : ℕ → Fate ι :=
  fun k ↦ if p.entry r first ≤ k ∧ k < p.entry r last then new else fate k

variable {fate : ℕ → Fate ι} {a : ι}

theorem assign_entry {new : Fate ι} (hr : p.numBlocks ≤ r) (hr' : p.numBlocks ≤ r')
    (hi : i < p.entriesPerBlock) (hlast : last ≤ p.entriesPerBlock) :
    assign p fate r first last new (p.entry r' i) =
      if r' = r ∧ first ≤ i ∧ i < last then new else fate (p.entry r' i) :=
  if_congr (Params.mem_entries_iff hr hr' hi hlast) rfl rfl

theorem Fate.isDone_free : (Fate.free : Fate ι).isDone = false := rfl

theorem Fate.isDone_held (a : ι) : (Fate.held a).isDone = false := rfl

namespace Fates

/-- The fates depend on the claims and the consumer only. -/
theorem of_same (h : Fates p v fate) {v' : View} (hconsumer : v'.consumer = v.consumer)
    (hclaimed : v'.claimed = v.claimed) (hleft : v'.left = v.left) : Fates p v' fate where
  left := hleft ▸ h.left
  free := hconsumer ▸ hclaimed ▸ h.free
  kept := hconsumer ▸ hclaimed ▸ h.kept

theorem left_le (h : Fates p v fate) (hr : p.numBlocks ≤ r) : v.left r ≤ p.entriesPerBlock := by
  rw [h.left r hr]
  exact roundCount_le

/-- What is left of a round ahead of the consumer has been claimed. -/
theorem left_le_claimed (h : Fates p v fate) (hr : p.numBlocks ≤ r) (hlow : v.consumer < r) :
    v.left r ≤ v.claimed r := by
  rw [h.left r hr]
  refine roundCount_le_of_lt fun i hi hdone ↦ Nat.lt_of_not_le fun hclaimed ↦ ?_
  have hfree := (h.free r i hr hi).mpr ⟨hlow, hclaimed⟩
  change (fate (p.entry r i)).isDone = true at hdone
  rw [hfree] at hdone
  exact nomatch hdone

/-- In a round that has been left completely nobody holds anything. -/
theorem not_held (h : Fates p v fate) (hr : p.numBlocks ≤ r) (hi : i < p.entriesPerBlock)
    (hleft : v.left r = p.entriesPerBlock) (a : ι) : fate (p.entry r i) ≠ .held a := by
  intro hheld
  have hdone : (fate (p.entry r i)).isDone = true :=
    roundCount_eq_size_iff.mp ((h.left r hr).symm.trans hleft) i hi
  rw [hheld] at hdone
  exact nomatch hdone

/-- A thief claims free entries. -/
theorem claim (h : Fates p v fate) (hr : p.numBlocks ≤ r) (hlow : v.consumer < r) {count : ℕ}
    (hroom : v.claimed r + count ≤ p.entriesPerBlock) (a : ι) :
    Fates p (v.claim r count)
      (assign p fate r (v.claimed r) (v.claimed r + count) (.held a)) := by
  have hclaimed (k : ℕ) : (v.claim r count).claimed k =
      if k = r then v.claimed r + count else v.claimed k := Function.update_apply _ _ _ _
  refine ⟨fun k hk ↦ (h.left k hk).trans (roundCount_congr fun i hi ↦ ?_).symm,
    fun k i hk hi ↦ ?_, fun k i hk hi ↦ ?_⟩
  · change (assign p fate r _ _ _ (p.entry k i)).isDone = true ↔ (fate (p.entry k i)).isDone = true
    rw [assign_entry hr hk hi hroom]
    split_ifs with hrange
    · obtain ⟨rfl, hfirst, -⟩ := hrange
      rw [(h.free k i hk hi).mpr ⟨hlow, hfirst⟩]
      exact Iff.rfl
    · exact Iff.rfl
  · rw [assign_entry hr hk hi hroom, hclaimed]
    have hfree := h.free k i hk hi
    split_ifs with hrange heq heq
    · refine iff_of_false (fun hheld ↦ nomatch hheld) fun hall ↦ ?_
      exact Nat.not_le_of_lt hrange.2.2 hall.2
    · exact absurd hrange.1 heq
    · rw [hfree, heq]
      change _ ↔ v.consumer < r ∧ _
      omega
    · exact hfree
  · rw [assign_entry hr hk hi hroom, hclaimed]
    have hkept := h.kept k i hk hi
    change _ ↔ k ≤ v.consumer ∧ _
    split_ifs with hrange heq heq
    · exact iff_of_false (fun hheld ↦ nomatch hheld) fun hall ↦ by omega
    · exact absurd hrange.1 heq
    · rw [hkept, heq]
      omega
    · exact hkept

/-- A thief leaves what it holds. -/
theorem leave (h : Fates p v fate) (hr : p.numBlocks ≤ r)
    (hlast : last ≤ p.entriesPerBlock)
    (hheld : ∀ k, fate k = .held a ↔ p.entry r first ≤ k ∧ k < p.entry r last) :
    Fates p (v.leave r (last - first)) (assign p fate r first last .stolen) := by
  have hother {k i : ℕ} (hk : p.numBlocks ≤ k) (hi : i < p.entriesPerBlock)
      (hrange : k = r ∧ first ≤ i ∧ i < last) : fate (p.entry k i) = .held a :=
    (hheld _).mpr ((Params.mem_entries_iff hr hk hi hlast).mpr hrange)
  refine ⟨fun k hk ↦ ?_, fun k i hk hi ↦ ?_, fun k i hk hi ↦ ?_⟩
  · change Function.update v.left r (v.left r + (last - first)) k = _
    rcases eq_or_ne k r with rfl | hne
    · rw [Function.update_self, h.left k hk]
      refine (roundCount_range hlast (fun i hfirst hless hdone ↦ ?_) fun i hi ↦ ?_).symm
      · have heq := hother hk (Nat.lt_of_lt_of_le hless hlast) ⟨rfl, hfirst, hless⟩
        change (fate (p.entry k i)).isDone = true at hdone
        rw [heq] at hdone
        exact nomatch hdone
      · change (assign p fate k _ _ _ (p.entry k i)).isDone = true ↔
          (fate (p.entry k i)).isDone = true ∨ _
        rw [assign_entry hr hk hi hlast]
        split_ifs with hrange
        · exact iff_of_true rfl (.inr hrange.2)
        · exact (or_iff_left fun hin ↦ hrange ⟨rfl, hin⟩).symm
    · rw [Function.update_of_ne hne, h.left k hk]
      refine (roundCount_congr fun i hi ↦ ?_).symm
      change (assign p fate r _ _ _ (p.entry k i)).isDone = true ↔
        (fate (p.entry k i)).isDone = true
      rw [assign_entry hr hk hi hlast, if_neg fun hrange ↦ hne hrange.1]
  · rw [assign_entry hr hk hi hlast]
    refine Iff.trans ?_ (h.free k i hk hi)
    split_ifs with hrange
    · exact iff_of_false (fun hstolen ↦ nomatch hstolen) fun hfree ↦
        nomatch hfree.symm.trans (hother hk hi hrange)
    · exact Iff.rfl
  · rw [assign_entry hr hk hi hlast]
    refine Iff.trans ?_ (h.kept k i hk hi)
    split_ifs with hrange
    · exact iff_of_false (fun hstolen ↦ nomatch hstolen) fun hkept ↦
        nomatch hkept.symm.trans (hother hk hi hrange)
    · exact Iff.rfl

/-- The consumer takes a round over and keeps what nobody has claimed. -/
theorem credit (h : Fates p v fate) (hfirst : p.numBlocks ≤ v.consumer) :
    Fates p (v.credit p.entriesPerBlock) (assign p fate (v.consumer + 1)
      (v.claimed (v.consumer + 1)) p.entriesPerBlock .kept) := by
  have hr : p.numBlocks ≤ v.consumer + 1 := Nat.le_succ_of_le hfirst
  have hsame (k : ℕ) : (v.credit p.entriesPerBlock).claimed k = v.claimed k := rfl
  refine ⟨fun k hk ↦ ?_, fun k i hk hi ↦ ?_, fun k i hk hi ↦ ?_⟩
  · change Function.update v.left (v.consumer + 1) _ k = _
    rcases eq_or_ne k (v.consumer + 1) with rfl | hne
    · rw [Function.update_self, h.left _ hk]
      refine (roundCount_range (Nat.le_refl _) (fun i hlow hi hdone ↦ ?_) fun i hi ↦ ?_).symm
      · have hfree := (h.free _ i hk hi).mpr ⟨Nat.lt_succ_self _, hlow⟩
        change (fate (p.entry _ i)).isDone = true at hdone
        rw [hfree] at hdone
        exact nomatch hdone
      · change (assign p fate _ _ _ _ (p.entry _ i)).isDone = true ↔
          (fate (p.entry _ i)).isDone = true ∨ _
        rw [assign_entry hr hk hi (Nat.le_refl _)]
        split_ifs with hrange
        · exact iff_of_true rfl (.inr hrange.2)
        · exact (or_iff_left fun hin ↦ hrange ⟨rfl, hin⟩).symm
    · rw [Function.update_of_ne hne, h.left k hk]
      refine (roundCount_congr fun i hi ↦ ?_).symm
      change (assign p fate _ _ _ _ (p.entry k i)).isDone = true ↔
        (fate (p.entry k i)).isDone = true
      rw [assign_entry hr hk hi (Nat.le_refl _), if_neg fun hrange ↦ hne hrange.1]
  · rw [assign_entry hr hk hi (Nat.le_refl _), hsame]
    have hfree := h.free k i hk hi
    change _ ↔ v.consumer + 1 < k ∧ _
    split_ifs with hrange
    · exact iff_of_false (fun hkept ↦ nomatch hkept) fun hall ↦ by omega
    · rw [hfree]
      constructor
      · rintro ⟨hlow, hle⟩
        refine ⟨Nat.lt_of_le_of_ne hlow fun heq ↦ hrange ⟨heq.symm, ?_, hi⟩, hle⟩
        rwa [← heq] at hle
      · exact fun ⟨hlow, hle⟩ ↦ ⟨Nat.lt_of_succ_lt hlow, hle⟩
  · rw [assign_entry hr hk hi (Nat.le_refl _), hsame]
    have hkept := h.kept k i hk hi
    change _ ↔ k ≤ v.consumer + 1 ∧ _
    split_ifs with hrange
    · obtain ⟨rfl, hlow, -⟩ := hrange
      exact iff_of_true rfl ⟨Nat.le_refl _, hlow⟩
    · rw [hkept]
      constructor
      · exact fun ⟨hle, hlow⟩ ↦ ⟨Nat.le_succ_of_le hle, hlow⟩
      · rintro ⟨hle, hlow⟩
        have hne : k ≠ v.consumer + 1 := fun heq ↦ hrange ⟨heq, heq ▸ hlow, hi⟩
        omega

end Fates

end Stackfull.Queue.Bwos
