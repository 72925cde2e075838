import Stackfull.Queue.BwosRecorded

/-!
# Every pushed value is delivered once

Where a value is follows from the fate of its entry: it is in the queue while the entry is free,
being copied while a thief holds it, and returned once it is stolen. What the owner keeps it returns
in order, so that its entries are in the queue behind where the consumer stands and returned before.
-/

set_option autoImplicit false
set_option relaxedAutoImplicit false
set_option linter.dupNamespace false

namespace Stackfull.Queue.Bwos

open Stackfull.Lib

universe u v

variable {ι : Type v} {α : Type u} {p : Params} {s : State ι α} {v : View} {fate : ℕ → Fate ι}
  {r i k : ℕ}

/-- An entry of a round is committed, and neither a thief nor the consumer has claimed it. -/
structure View.Waits (size : ℕ) (v : View) (r i : ℕ) : Prop where
  committed : i < v.committed size r
  free : v.claimed r ≤ i
  ahead : v.consumer < r ∨ r = v.consumer ∧ v.popped ≤ i

namespace Sound

/-- Between the two steps of a takeover the owner knows what the thieves had claimed. -/
theorem taken_cases (hs : Sound p s v fate) : v.taken = v.consumer ∨
    v.taken = v.consumer + 1 ∧ ∃ batch blocks previous, s.owner = .credit batch blocks previous ∧
      previous = p.cursorAt (v.consumer + 1) (v.claimed (v.consumer + 1)) := by
  have howner := hs.owner
  cases hpc : s.owner with
  | credit batch blocks previous =>
    rw [hpc] at howner
    exact .inr ⟨howner.2.2.1, batch, blocks, previous, rfl, howner.2.2.2⟩
  | idle last =>
    rw [hpc] at howner
    exact .inl (View.Rest.taken howner)
  | locate batch blocks =>
    rw [hpc] at howner
    exact .inl (View.Rest.taken howner)
  | write batch index written value rest pushed =>
    rw [hpc] at howner
    exact .inl howner.1.taken
  | commit batch written rest pushed =>
    rw [hpc] at howner
    exact .inl howner.1.taken
  | check batch values pushed =>
    rw [hpc] at howner
    exact .inl howner.1.taken
  | openNext batch values pushed =>
    rw [hpc] at howner
    exact .inl howner.1.taken
  | resetNext batch values pushed =>
    rw [hpc] at howner
    exact .inl howner.2.2
  | enter batch values pushed =>
    rw [hpc] at howner
    exact .inl howner.2.2
  | exchange batch blocks =>
    rw [hpc] at howner
    exact .inl howner.1.taken

/-- The block of a round ahead still is of that round. -/
theorem window (hs : Sound p s v fate) (hwaits : v.Waits p.entriesPerBlock r i) :
    p.numBlocks ≤ r ∧ r ≤ v.entered ∧ v.opened < r + p.numBlocks := by
  have hfirst := hs.shows'.valid.first
  have hlap := hs.shows'.valid.lap
  have hsize := View.committed_le p.entriesPerBlock v r
  have hcommitted := hwaits.committed
  refine ⟨?_, hs.shows'.valid.le_entered_of_committed_pos (by omega), ?_⟩
  · rcases hwaits.ahead with hahead | ⟨heq, -⟩ <;> omega
  · rcases hwaits.ahead with hahead | ⟨rfl, hpopped⟩
    · omega
    · refine Nat.lt_of_le_of_ne hlap fun heq ↦ ?_
      have hfull := hs.shows'.valid.lapped (.inl heq)
      omega

/-- What waits in a round is in the queue. -/
theorem inQueue_of_waits (hs : Sound p s v fate) (hwaits : v.Waits p.entriesPerBlock r i) :
    s.InQueue p (r % p.numBlocks) i ∧
      p.ticket (r % p.numBlocks) (s.queue.committed (r % p.numBlocks)) i = p.entry r i := by
  obtain ⟨hround, hentered, hopened⟩ := hs.window hwaits
  have hsize := View.committed_le p.entriesPerBlock v r
  have hreset := hs.shows'.valid.entered_le
  have hopen := hs.shows'.valid.reset_le
  have hcommitted := hs.shows'.committed_at (r := r) ⟨by omega, hopened⟩
  rw [State.InQueue, hcommitted, Params.index_cursorAt hsize, Params.ticket_cursorAt hround hsize]
  refine ⟨⟨hwaits.committed, ?_⟩, rfl⟩
  rcases hwaits.ahead with hahead | ⟨rfl, hpopped⟩
  · rcases Nat.lt_or_ge v.taken r with htaken | htaken
    · refine .inr (.inl ?_)
      rw [hs.shows'.reserved_at ⟨hentered, by omega⟩ htaken,
        Params.index_cursorAt (hs.shows'.claimed_le r)]
      exact hwaits.free
    · rcases hs.taken_cases with heq | ⟨heq, batch, blocks, previous, hpc, rfl⟩
      · omega
      · obtain rfl : r = v.consumer + 1 := by omega
        refine .inr (.inr ⟨hs.shows'.next_consumer.symm, batch, blocks, _, hpc, ?_⟩)
        rw [Params.index_cursorAt (hs.shows'.claimed_le _)]
        exact hwaits.free
  · refine .inl ⟨hs.shows'.consumer.symm, ?_⟩
    rw [hs.shows'.consumed_consumer, Params.index_cursorAt hs.shows'.popped_le]
    exact hpopped

/-- What is in the queue waits in a round. -/
theorem waits_of_inQueue (hs : Sound p s v fate) {block : ℕ} (hblock : block < p.numBlocks)
    (hin : s.InQueue p block i) : ∃ r, block = r % p.numBlocks ∧ v.Waits p.entriesPerBlock r i := by
  have hfirst := hs.shows'.valid.first
  have hconsumer := hs.shows'.valid.consumer_le
  have htaken := hs.shows'.valid.taken_le_entered
  have hentered := hs.shows'.valid.entered_le
  have hreset := hs.shows'.valid.reset_le
  have hlap := hs.shows'.valid.lap
  have hopened_le := hs.shows'.valid.opened_le
  obtain ⟨r, hwindow, rfl⟩ := exists_round hblock (by omega : p.numBlocks ≤ v.opened)
  obtain ⟨hcommitted, hfree⟩ := hin
  have hsize := View.committed_le p.entriesPerBlock v r
  rw [hs.shows'.committed_at hwindow, Params.index_cursorAt hsize] at hcommitted
  have hle : r ≤ v.entered := hs.shows'.valid.le_entered_of_committed_pos (by omega)
  refine ⟨r, rfl, ?_⟩
  rcases hfree with ⟨hmod, hpopped⟩ | hreserved | ⟨hmod, batch, blocks, previous, hpc, hprevious⟩
  · rw [hs.shows'.consumer] at hmod
    rw [hmod, hs.shows'.consumed_consumer, Params.index_cursorAt hs.shows'.popped_le] at hpopped
    have hlt : v.opened < v.consumer + p.numBlocks := Nat.lt_of_le_of_ne hlap fun heq ↦ by
      have hfull := hs.shows'.valid.lapped (.inl heq)
      omega
    obtain rfl : r = v.consumer := InWindow.eq_of_mod hwindow ⟨by omega, hlt⟩ hmod
    exact ⟨hcommitted, Nat.le_trans hs.shows'.valid.claimed_le_popped hpopped,
      .inr ⟨rfl, hpopped⟩⟩
  · have hwindow' : InWindow p.numBlocks v.entered r := ⟨hle, by have h := hwindow.2; omega⟩
    have hindex : s.queue.reserved (r % p.numBlocks) =
      p.cursorAt r (if r ≤ v.taken then p.entriesPerBlock else v.claimed r) :=
      hs.shows'.reserved r hwindow'
    rw [hindex, Params.index_cursorAt (hs.shows'.reservedIndex_le r)] at hreserved
    split_ifs at hreserved with hold
    · omega
    · exact ⟨hcommitted, hreserved, .inl (by omega)⟩
  · have howner := hs.owner
    rw [hpc] at howner
    obtain ⟨hopened, -, hnext, rfl⟩ := howner
    rw [hs.shows'.next_consumer] at hmod
    obtain rfl : r = v.consumer + 1 := InWindow.eq_of_mod hwindow ⟨by omega, by omega⟩ hmod
    rw [Params.index_cursorAt (hs.shows'.claimed_le _)] at hprevious
    exact ⟨hcommitted, hprevious, .inl (Nat.lt_succ_self _)⟩

end Sound

namespace Recorded

/-- A value that waits in a round is in the queue under its ticket. -/
theorem waiting_iff (hr : Recorded p s v fate) (hs : Sound p s v fate) (hround : p.numBlocks ≤ r)
    (hi : i < p.entriesPerBlock) :
    s.Waiting p (p.entry r i) ↔ v.Waits p.entriesPerBlock r i := by
  constructor
  · rintro ⟨block, j, hblock, hin, hticket, -⟩
    obtain ⟨r', rfl, hwaits⟩ := hs.waits_of_inQueue hblock hin
    rw [(hs.inQueue_of_waits hwaits).2] at hticket
    have hsize := View.committed_le p.entriesPerBlock v r'
    have hj := hwaits.committed
    obtain ⟨rfl, rfl⟩ :=
      (Params.entry_eq_iff (hs.window hwaits).1 hround (by omega) hi).mp hticket
    exact hwaits
  · intro hwaits
    obtain ⟨hin, hticket⟩ := hs.inQueue_of_waits hwaits
    exact ⟨_, i, Nat.mod_lt _ p.numBlocks_pos, hin, hticket,
      hr.stored r i hround (hs.window hwaits).2.2 hwaits.committed⟩

/-- A value has been returned if it was stolen, or kept and popped. -/
theorem returned_iff (hr : Recorded p s v fate) (hround : p.numBlocks ≤ r)
    (hi : i < p.entriesPerBlock) : s.Returned (p.entry r i) ↔ fate (p.entry r i) = .stolen ∨
      v.claimed r ≤ i ∧ (r < v.consumer ∨ r = v.consumer ∧ i < v.popped) := by
  rw [State.Returned, tickets_append, List.mem_append, hr.kept r i hround hi, hr.robbed, or_comm]

theorem copying_iff (hs : Sound p s v fate) : s.Copying p k ↔ ∃ a, fate k = .held a :=
  exists_congr fun a ↦ (hs.held a k).symm

/-- A value was pushed if its entry is committed. -/
theorem pushed_iff (hr : Recorded p s v fate) (hround : p.numBlocks ≤ r)
    (hi : i < p.entriesPerBlock) :
    p.entry r i < s.pushed.length ↔ i < v.committed p.entriesPerBlock r := by
  have hlength := hr.length
  have hmul : r * p.entriesPerBlock =
      (r - p.numBlocks) * p.entriesPerBlock + p.numBlocks * p.entriesPerBlock := by
    rw [← Nat.add_mul, Nat.sub_add_cancel hround]
  unfold Params.entry View.committed
  omega

/-- The queue keeps what is expected of it. -/
theorem contract (hr : Recorded p s v fate) (hs : Sound p s v fate) : s.Contract p where
  values := by
    intro x k hmem
    rcases List.mem_append.mp hmem with hpopped | hstolen
    · exact hr.popped x k hpopped
    · exact hr.stolen x k hstolen
  once := by
    rw [tickets_append, List.nodup_append]
    refine ⟨hr.order.imp fun hlt ↦ Nat.ne_of_lt hlt, hr.once, fun k hpopped j hstolen heq ↦ ?_⟩
    obtain ⟨r, i, hround, hi, rfl⟩ := p.exists_entry k
    obtain ⟨hfree, hbefore⟩ := (hr.kept r i hround hi).mp hpopped
    have hkept := (hs.fates.kept r i hround hi).mpr ⟨by omega, hfree⟩
    rw [heq, (hr.robbed j).mp hstolen] at hkept
    exact nomatch hkept
  order := hr.order
  placed := by
    intro k
    obtain ⟨r, i, hround, hi, rfl⟩ := p.exists_entry k
    have hfree := hs.fates.free r i hround hi
    have hkept := hs.fates.kept r i hround hi
    rw [hr.pushed_iff hround hi, hr.returned_iff hround hi, copying_iff hs,
      hr.waiting_iff hs hround hi]
    have hclaimed := hs.shows'.valid.claimed_le r
    have hpopped := hs.shows'.valid.popped_le
    constructor
    · intro hcommitted
      cases hfate : fate (p.entry r i) with
      | stolen => exact .inl (.inl rfl)
      | held a => exact .inr (.inl ⟨a, rfl⟩)
      | free =>
        obtain ⟨hlow, hless⟩ := hfree.mp hfate
        exact .inr (.inr ⟨hcommitted, hless, .inl hlow⟩)
      | kept =>
        obtain ⟨hle, hless⟩ := hkept.mp hfate
        rcases Nat.lt_or_eq_of_le hle with hlow | rfl
        · exact .inl (.inr ⟨hless, .inl hlow⟩)
        · rcases Nat.lt_or_ge i v.popped with hbefore | hbehind
          · exact .inl (.inr ⟨hless, .inr ⟨rfl, hbefore⟩⟩)
          · exact .inr (.inr ⟨hcommitted, hless, .inr ⟨rfl, hbehind⟩⟩)
    · -- what is neither free nor kept was claimed, so it is committed
      have hclaim (hgone : fate (p.entry r i) ≠ .free) (hlost : fate (p.entry r i) ≠ .kept) :
          i < v.committed p.entriesPerBlock r := by
        rw [Ne, hfree] at hgone
        rw [Ne, hkept] at hlost
        omega
      rintro ((hstolen | ⟨hless, hbefore | ⟨rfl, hbefore⟩⟩) | ⟨a, hheld⟩ | hwaits)
      · exact hclaim (fun h ↦ nomatch hstolen.symm.trans h) fun h ↦ nomatch hstolen.symm.trans h
      · have hentered := Nat.le_trans hs.shows'.valid.consumer_le hs.shows'.valid.taken_le_entered
        rw [hs.shows'.valid.committed_of_lt (by omega)]
        exact hi
      · omega
      · exact hclaim (fun h ↦ nomatch hheld.symm.trans h) fun h ↦ nomatch hheld.symm.trans h
      · exact hwaits.committed
  exclusive := by
    intro k
    obtain ⟨r, i, hround, hi, rfl⟩ := p.exists_entry k
    have hfree := hs.fates.free r i hround hi
    have hkept := hs.fates.kept r i hround hi
    rw [hr.returned_iff hround hi, copying_iff hs, hr.waiting_iff hs hround hi]
    refine ⟨?_, ?_, ?_⟩
    · rintro ⟨hstolen | ⟨hless, hbefore⟩, a, hheld⟩
      · exact nomatch hstolen.symm.trans hheld
      · exact nomatch (hkept.mpr ⟨by omega, hless⟩).symm.trans hheld
    · rintro ⟨hstolen | ⟨-, hbefore⟩, hwaits⟩
      · rcases hwaits.ahead with hahead | ⟨rfl, -⟩
        · exact nomatch hstolen.symm.trans (hfree.mpr ⟨hahead, hwaits.free⟩)
        · exact nomatch hstolen.symm.trans (hkept.mpr ⟨Nat.le_refl _, hwaits.free⟩)
      · have hahead := hwaits.ahead
        omega
    · rintro ⟨⟨a, hheld⟩, hwaits⟩
      rcases hwaits.ahead with hahead | ⟨rfl, -⟩
      · exact nomatch hheld.symm.trans (hfree.mpr ⟨hahead, hwaits.free⟩)
      · exact nomatch hheld.symm.trans (hkept.mpr ⟨Nat.le_refl _, hwaits.free⟩)
  holder := by
    intro a b k ha hb
    exact Fate.held.inj (((hs.held a k).mpr ha).symm.trans ((hs.held b k).mpr hb))
  copied := hr.copied
  intact := by
    intro a block reserved last got j hpc hlow hlast
    obtain ⟨r, i, hcopies, -, hindex, hticket, hopened⟩ := hs.copying hpc
    have hcommitted := hcopies.committed
    rw [hticket, hcopies.block]
    exact hr.stored r j hcopies.first hopened (by omega)
  apart := by
    intro a block reserved last got batch index written value rest pushed hpc howner hblock
    obtain ⟨r, i, hcopies, -, -, -, hopened⟩ := hs.copying hpc
    obtain ⟨hrest, hindex, -⟩ : Owner.Knows p v (.write batch index written value rest pushed) :=
      howner ▸ hs.owner
    -- the thief copies from the producer's block, so its round is the producer's
    rw [hcopies.block, hs.shows'.producer] at hblock
    obtain rfl : r = v.entered := InWindow.eq_of_mod ⟨hcopies.entered, hrest.opened ▸ hopened⟩
      (inWindow_front p.numBlocks_pos) hblock
    have hcommitted := hcopies.committed
    omega

end Recorded

/-- Every pushed value is delivered once, whatever the owner and the thieves do. -/
theorem delivered_once [DecidableEq ι] [Inhabited α] (hs : (threads ι α p).Reachable s) :
    s.Contract p := by
  obtain ⟨v, fate, hsound, hrecorded⟩ := coherent hs
  exact hrecorded.contract hsound

/-- The owner has popped the first two values. Thief 0 has claimed the third and not copied it when
the owner takes its block over, and pops the fourth. -/
theorem delivered_once_takeover :
    let p : Params := ⟨2, 2, ⟨1, rfl⟩, by decide, by decide⟩
    let labels : List (Action (Fin 2) ℕ) :=
      .call (.pushBatch [5, 6, 7, 8]) :: List.replicate 10 .own ++
      .call .popBlock :: .own :: .steal 0 false :: List.replicate 8 (.act 0 false) ++
      .call .pop :: List.replicate 4 .own
    let s := ((threads (Fin 2) ℕ p).run (.initial p) labels).get (by decide +kernel)
    tickets s.popped = [0, 1, 3] ∧ s.Contract p :=
  ⟨by decide +kernel, delivered_once (System.reachable_of_run rfl (Option.some_get _).symm)⟩

end Stackfull.Queue.Bwos
