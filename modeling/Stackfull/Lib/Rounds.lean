import Mathlib.Data.Finset.Card
import Mathlib.Order.Interval.Finset.Nat
import Mathlib.Logic.Function.Basic
import Mathlib.Tactic.Common

/-!
# Rounds over a ring

A ring of `n` cells is used in rounds: round `r` uses cell `r % n`, so that at any time a cell
belongs to one of the last `n` rounds up to the newest one, the front. `InWindow` is that relation;
inside it a round is determined by its cell, and when the front moves by one, the cell of the oldest
round passes to the new one.

`Tracks cell value front` says that every cell holds the value of its round. It is kept when one
cell is changed together with the value of its round (`Tracks.set`) and when the front moves
(`Tracks.advance`).

Tickets are numbered through the rounds, `size` of them to a round. `roundCount` is how many tickets
of a round are done; a round is complete when all of them are.
-/

set_option autoImplicit false
set_option relaxedAutoImplicit false
set_option linter.dupNamespace false

namespace Stackfull.Lib

universe u

variable {n front r r' : ℕ}

/-- Round `r` is one of the last `n` rounds up to the front. -/
def InWindow (n front r : ℕ) : Prop :=
  r ≤ front ∧ front < r + n

theorem InWindow.eq_of_mod (h : InWindow n front r) (h' : InWindow n front r')
    (hmod : r % n = r' % n) : r = r' := by
  obtain ⟨hle, hlt⟩ := h
  obtain ⟨hle', hlt'⟩ := h'
  rcases Nat.le_total r r' with hr | hr
  · have hdvd := Nat.dvd_of_mod_eq_zero (Nat.sub_mod_eq_zero_of_mod_eq hmod.symm)
    have hzero := Nat.eq_zero_of_dvd_of_lt hdvd (by omega)
    omega
  · have hdvd := Nat.dvd_of_mod_eq_zero (Nat.sub_mod_eq_zero_of_mod_eq hmod)
    have hzero := Nat.eq_zero_of_dvd_of_lt hdvd (by omega)
    omega

theorem inWindow_front (hn : 0 < n) : InWindow n front front :=
  ⟨Nat.le_refl front, by omega⟩

/-- Every cell has a round in the window, no older than a given one of its rounds. -/
theorem exists_inWindow (hn : 0 < n) (hr : r ≤ front) :
    ∃ r', InWindow n front r' ∧ r' % n = r % n ∧ r ≤ r' := by
  have hdiv := Nat.div_add_mod (front - r) n
  have hmod := Nat.mod_lt (front - r) hn
  refine ⟨r + n * ((front - r) / n), ⟨by omega, by omega⟩, ?_, by omega⟩
  rw [Nat.add_mul_mod_self_left]

/-- Every cell has a round in the window, once each has had one. -/
theorem exists_round {b : ℕ} (hb : b < n) (hfront : n ≤ front) :
    ∃ r, InWindow n front r ∧ r % n = b := by
  obtain ⟨r, hr, hmod, -⟩ : ∃ r, InWindow n front r ∧ r % n = b % n ∧ b ≤ r :=
    exists_inWindow (by omega) (by omega)
  exact ⟨r, hr, hmod.trans (Nat.mod_eq_of_lt hb)⟩

/-- A round of the moved window is the new one or one whose cell is another. -/
theorem InWindow.of_succ (hn : 0 < n) (h : InWindow n (front + 1) r) (hr : r ≠ front + 1) :
    InWindow n front r ∧ r % n ≠ (front + 1) % n := by
  obtain ⟨hle, hlt⟩ := h
  refine ⟨⟨by omega, by omega⟩, fun hmod ↦ hr ?_⟩
  exact InWindow.eq_of_mod ⟨hle, hlt⟩ (inWindow_front hn) hmod

variable {σ : Type u} {cell : ℕ → σ} {value : ℕ → σ}

/-- Every cell holds the value of its round. -/
def Tracks (n : ℕ) (cell : ℕ → σ) (value : ℕ → σ) (front : ℕ) : Prop :=
  ∀ r, InWindow n front r → cell (r % n) = value r

/-- A cell and the value of its round change together. -/
theorem Tracks.set (h : Tracks n cell value front) (hr : InWindow n front r) (x : σ) :
    Tracks n (Function.update cell (r % n) x) (Function.update value r x) front := by
  intro r' hr'
  by_cases heq : r' = r
  · subst heq
    simp
  · have hcell : r' % n ≠ r % n := fun hmod ↦ heq (hr'.eq_of_mod hr hmod)
    rw [Function.update_of_ne hcell, Function.update_of_ne heq]
    exact h r' hr'

/-- The front moves, and the oldest cell passes to the new round. -/
theorem Tracks.advance (h : Tracks n cell value front) (hn : 0 < n) :
    Tracks n (Function.update cell ((front + 1) % n) (value (front + 1))) value (front + 1) := by
  intro r hr
  by_cases heq : r = front + 1
  · subst heq
    simp
  · obtain ⟨hold, hcell⟩ := hr.of_succ hn heq
    rw [Function.update_of_ne hcell]
    exact h r hold

/-- A cell changes with the value of its round, and the values of the other rounds stay. -/
theorem Tracks.change (h : Tracks n cell value front) {value' : ℕ → σ} (hr : InWindow n front r)
    {x : σ} (hself : value' r = x) (hothers : ∀ r', r' ≠ r → value' r' = value r') :
    Tracks n (Function.update cell (r % n) x) value' front := by
  intro r' hr'
  by_cases heq : r' = r
  · rw [heq, Function.update_self, hself]
  · have hcell : r' % n ≠ r % n := fun hmod ↦ heq (hr'.eq_of_mod hr hmod)
    rw [Function.update_of_ne hcell, hothers r' heq]
    exact h r' hr'

/-- The front moves, the oldest cell passes to the new round, and the values of the other rounds
stay. -/
theorem Tracks.advance_to (h : Tracks n cell value front) (hn : 0 < n) {value' : ℕ → σ} {x : σ}
    (hself : value' (front + 1) = x) (hothers : ∀ r, r ≤ front → value' r = value r) :
    Tracks n (Function.update cell ((front + 1) % n) x) value' (front + 1) := by
  intro r hr
  by_cases heq : r = front + 1
  · rw [heq, Function.update_self, hself]
  · obtain ⟨hold, hcell⟩ := hr.of_succ hn heq
    rw [Function.update_of_ne hcell, hothers r hold.1]
    exact h r hold

/-- Only the values of the rounds in the window matter. -/
theorem Tracks.congr {value' : ℕ → σ} (h : Tracks n cell value front)
    (heq : ∀ r, InWindow n front r → value' r = value r) : Tracks n cell value' front := by
  intro r hr
  rw [heq r hr]
  exact h r hr

/-! ### The tickets of a round -/

/-- How many tickets of round `r` are done. -/
def roundCount (size : ℕ) (done : ℕ → Prop) [DecidablePred done] (r : ℕ) : ℕ :=
  ((Finset.range size).filter fun i ↦ done (r * size + i)).card

variable {size : ℕ} {done done' : ℕ → Prop} [DecidablePred done] [DecidablePred done']

theorem roundCount_le : roundCount size done r ≤ size := by
  calc roundCount size done r ≤ (Finset.range size).card := Finset.card_filter_le _ _
    _ = size := Finset.card_range size

theorem roundCount_mono (h : ∀ k, done k → done' k) :
    roundCount size done r ≤ roundCount size done' r := by
  refine Finset.card_le_card fun i hi ↦ ?_
  obtain ⟨hmem, hdone⟩ := Finset.mem_filter.mp hi
  exact Finset.mem_filter.mpr ⟨hmem, h _ hdone⟩

theorem roundCount_congr (h : ∀ i, i < size → (done' (r * size + i) ↔ done (r * size + i))) :
    roundCount size done' r = roundCount size done r := by
  refine congrArg Finset.card (Finset.filter_congr fun i hi ↦ ?_)
  exact h i (Finset.mem_range.mp hi)

/-- All tickets of a round are done. -/
theorem roundCount_eq_size_iff :
    roundCount size done r = size ↔ ∀ i, i < size → done (r * size + i) := by
  unfold roundCount
  constructor
  · intro h i hi
    have hall := Finset.eq_of_subset_of_card_le (Finset.filter_subset _ (Finset.range size))
      (le_of_eq ((Finset.card_range size).trans h.symm))
    have hmem : i ∈ (Finset.range size).filter fun i ↦ done (r * size + i) := by
      rw [hall]
      exact Finset.mem_range.mpr hi
    exact (Finset.mem_filter.mp hmem).2
  · intro h
    rw [Finset.filter_true_of_mem fun i hi ↦ h i (Finset.mem_range.mp hi), Finset.card_range]

theorem roundCount_eq_zero (h : ∀ i, i < size → ¬ done (r * size + i)) :
    roundCount size done r = 0 := by
  unfold roundCount
  rw [Finset.filter_false_of_mem fun i hi ↦ h i (Finset.mem_range.mp hi), Finset.card_empty]

/-- The first tickets of a round are done. -/
theorem le_roundCount {i : ℕ} (hi : i ≤ size) (h : ∀ j, j < i → done (r * size + j)) :
    i ≤ roundCount size done r := by
  calc i = (Finset.range i).card := (Finset.card_range i).symm
    _ ≤ roundCount size done r := Finset.card_le_card fun j hj ↦ by
      have hlt := Finset.mem_range.mp hj
      exact Finset.mem_filter.mpr ⟨Finset.mem_range.mpr (by omega), h j hlt⟩

/-- If as many tickets of a round are done as were given out, all that were given out are done. -/
theorem done_of_le_roundCount {c i : ℕ} (hgiven : ∀ j, j < size → done (r * size + j) → j < c)
    (hcount : c ≤ roundCount size done r) (hi : i < c) : done (r * size + i) := by
  have hsubset : ((Finset.range size).filter fun j ↦ done (r * size + j)) ⊆ Finset.range c := by
    intro j hj
    obtain ⟨hmem, hdone⟩ := Finset.mem_filter.mp hj
    exact Finset.mem_range.mpr (hgiven j (Finset.mem_range.mp hmem) hdone)
  have hall := Finset.eq_of_subset_of_card_le hsubset (by rwa [Finset.card_range])
  have hmem : i ∈ (Finset.range size).filter fun j ↦ done (r * size + j) := by
    rw [hall]
    exact Finset.mem_range.mpr hi
  exact (Finset.mem_filter.mp hmem).2

/-- If no more tickets of a round are done than its first ones, which are, no other is. -/
theorem lt_of_roundCount_le {c i : ℕ} (hc : c ≤ size) (hfirst : ∀ j, j < c → done (r * size + j))
    (hcount : roundCount size done r ≤ c) (hi : i < size) (hdone : done (r * size + i)) : i < c := by
  have hsubset : Finset.range c ⊆ (Finset.range size).filter fun j ↦ done (r * size + j) := by
    intro j hj
    have hlt := Finset.mem_range.mp hj
    exact Finset.mem_filter.mpr ⟨Finset.mem_range.mpr (by omega), hfirst j hlt⟩
  have hall := Finset.eq_of_subset_of_card_le hsubset (by rwa [Finset.card_range])
  have hmem : i ∈ (Finset.range size).filter fun j ↦ done (r * size + j) :=
    Finset.mem_filter.mpr ⟨Finset.mem_range.mpr hi, hdone⟩
  rw [← hall] at hmem
  exact Finset.mem_range.mp hmem

/-- Tickets of a round that are done among its first ones are no more than those. -/
theorem roundCount_le_of_lt {c : ℕ} (h : ∀ i, i < size → done (r * size + i) → i < c) :
    roundCount size done r ≤ c := by
  calc roundCount size done r ≤ (Finset.range c).card := Finset.card_le_card fun i hi ↦ by
        obtain ⟨hmem, hdone⟩ := Finset.mem_filter.mp hi
        exact Finset.mem_range.mpr (h i (Finset.mem_range.mp hmem) hdone)
    _ = c := Finset.card_range c

/-- Consecutive tickets of a round become done. -/
theorem roundCount_range {first last : ℕ} (hlast : last ≤ size)
    (hnew : ∀ i, first ≤ i → i < last → ¬ done (r * size + i))
    (h : ∀ i, i < size → (done' (r * size + i) ↔ done (r * size + i) ∨ first ≤ i ∧ i < last)) :
    roundCount size done' r = roundCount size done r + (last - first) := by
  have hfilter : ((Finset.range size).filter fun i ↦ done' (r * size + i)) =
      ((Finset.range size).filter fun i ↦ done (r * size + i)) ∪ Finset.Ico first last := by
    ext i
    simp only [Finset.mem_filter, Finset.mem_range, Finset.mem_union, Finset.mem_Ico]
    constructor
    · rintro ⟨hi, hdone⟩
      exact ((h i hi).mp hdone).imp_left fun hold ↦ ⟨hi, hold⟩
    · rintro (⟨hi, hold⟩ | hrange)
      · exact ⟨hi, (h i hi).mpr (.inl hold)⟩
      · have hi : i < size := Nat.lt_of_lt_of_le hrange.2 hlast
        exact ⟨hi, (h i hi).mpr (.inr hrange)⟩
  have hdisjoint : Disjoint ((Finset.range size).filter fun i ↦ done (r * size + i))
      (Finset.Ico first last) := by
    refine Finset.disjoint_left.mpr fun i hold hrange ↦ ?_
    obtain ⟨hfirst, hless⟩ := Finset.mem_Ico.mp hrange
    exact hnew i hfirst hless (Finset.mem_filter.mp hold).2
  unfold roundCount
  rw [hfilter, Finset.card_union_of_disjoint hdisjoint, Nat.card_Ico]

/-- A ticket is in the round of its number. -/
theorem ticket_eq (hsize : 0 < size) {k i : ℕ} (hi : i < size) :
    r * size + i = k ↔ r = k / size ∧ i = k % size := by
  constructor
  · rintro rfl
    constructor
    · rw [Nat.add_comm, Nat.add_mul_div_right _ _ hsize, Nat.div_eq_of_lt hi, Nat.zero_add]
    · rw [Nat.add_comm, Nat.add_mul_mod_self_right, Nat.mod_eq_of_lt hi]
  · rintro ⟨rfl, rfl⟩
    rw [Nat.mul_comm]
    exact Nat.div_add_mod k size

/-- One more ticket is done. -/
theorem roundCount_insert (hsize : 0 < size) {k : ℕ} (hk : ¬ done k)
    (h : ∀ j, done' j ↔ done j ∨ j = k) :
    roundCount size done' = Function.update (roundCount size done) (k / size)
      (roundCount size done (k / size) + 1) := by
  funext r
  by_cases hr : r = k / size
  · subst hr
    have hmod := Nat.mod_lt k hsize
    have hfilter : ((Finset.range size).filter fun i ↦ done' (k / size * size + i)) =
        insert (k % size) ((Finset.range size).filter fun i ↦ done (k / size * size + i)) := by
      ext i
      simp only [Finset.mem_filter, Finset.mem_range, Finset.mem_insert, h]
      constructor
      · rintro ⟨hi, hdone | heq⟩
        · exact .inr ⟨hi, hdone⟩
        · exact .inl ((ticket_eq hsize hi).mp heq).2
      · rintro (rfl | ⟨hi, hdone⟩)
        · exact ⟨hmod, .inr ((ticket_eq hsize hmod).mpr ⟨rfl, rfl⟩)⟩
        · exact ⟨hi, .inl hdone⟩
    have hnew : k % size ∉
        (Finset.range size).filter fun i ↦ done (k / size * size + i) := by
      intro hmem
      rw [Finset.mem_filter, (ticket_eq hsize hmod).mpr ⟨rfl, rfl⟩] at hmem
      exact hk hmem.2
    rw [Function.update_self]
    unfold roundCount
    rw [hfilter, Finset.card_insert_of_notMem hnew]
  · rw [Function.update_of_ne hr]
    refine roundCount_congr fun i hi ↦ ?_
    rw [h]
    refine or_iff_left fun heq ↦ hr ?_
    exact ((ticket_eq hsize hi).mp heq).1

end Stackfull.Lib
