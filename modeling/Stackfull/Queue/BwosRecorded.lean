import Stackfull.Queue.BwosThreadsSafety

/-!
# Every pushed value is returned once

`Recorded` ties the entries and the histories to the rounds: the entries of the rounds whose storage
has not been opened again are the values that were pushed, what a thief has copied is what was
pushed there, the owner has returned what it has kept up to where it stands, in order, and the
thieves what is stolen. Each entry has one fate, so no two operations return it.
-/

set_option autoImplicit false
set_option relaxedAutoImplicit false
set_option linter.dupNamespace false

namespace Stackfull.Queue.Bwos

open Stackfull.Lib

universe u v

variable {ι : Type v} {α : Type u} {p : Params} {s t : State ι α} {v v' : View}
  {fate fate' : ℕ → Fate ι} {r i k : ℕ}

/-- The entries and the histories are those of the rounds. -/
structure Recorded (p : Params) (s : State ι α) (v : View) (fate : ℕ → Fate ι) : Prop where
  length : s.pushed.length + p.numBlocks * p.entriesPerBlock = v.pushed
  stored : ∀ r i, p.numBlocks ≤ r → v.opened < r + p.numBlocks →
    i < v.committed p.entriesPerBlock r →
    s.pushed[p.entry r i]? = some (s.queue.entries (r % p.numBlocks) i)
  written : ∀ j x, s.owner.written[j]? = some x →
    s.queue.entries (v.entered % p.numBlocks) (v.committed p.entriesPerBlock v.entered + j) = x
  copied : ∀ a, (s.thief a).Copied p s.pushed
  popped : ∀ x k, (x, k) ∈ s.popped → s.pushed[k]? = some x
  order : (tickets s.popped).Pairwise (· < ·)
  kept : ∀ r i, p.numBlocks ≤ r → i < p.entriesPerBlock → (p.entry r i ∈ tickets s.popped ↔
    v.claimed r ≤ i ∧ (r < v.consumer ∨ r = v.consumer ∧ i < v.popped))
  stolen : ∀ x k, (x, k) ∈ s.stolen → s.pushed[k]? = some x
  once : (tickets s.stolen).Nodup
  robbed : ∀ k, k ∈ tickets s.stolen ↔ fate k = .stolen

/-! ### Histories -/

theorem tickets_zipIdx (got : List α) (k : ℕ) : tickets (got.zipIdx k) = List.range' k got.length :=
  List.zipIdx_map_snd k got

theorem tickets_append (first second : List (α × ℕ)) :
    tickets (first ++ second) = tickets first ++ tickets second :=
  List.map_append

theorem mem_zipIdx {got : List α} {x : α} {first : ℕ} (h : (x, k) ∈ got.zipIdx first) :
    ∃ j, k = first + j ∧ got[j]? = some x := by
  obtain ⟨hle, heq⟩ := List.mk_mem_zipIdx_iff_le_and_getElem?_sub.mp h
  exact ⟨k - first, by omega, heq⟩

theorem getElem?_append_of_some {xs : List α} {x : α} (h : xs[k]? = some x) (ys : List α) :
    (xs ++ ys)[k]? = some x := by
  obtain ⟨hlt, -⟩ := List.getElem?_eq_some_iff.mp h
  rwa [List.getElem?_append_left hlt]

theorem Thief.Copied.append {pushed : List α} {thief : Thief α} (h : thief.Copied p pushed)
    (more : List α) : thief.Copied p (pushed ++ more) :=
  fun j x hgot ↦ getElem?_append_of_some (h j x hgot) more

theorem Thief.copied_nil {pushed : List α} {thief : Thief α} (h : thief.got = []) :
    thief.Copied p pushed := by
  intro j x hgot
  rw [h, List.getElem?_nil] at hgot
  exact nomatch hgot

/-! ### The owner's steps -/

theorem Owner.written_fill (q : BwosQueue α) (batch : Bool) (values : List α) (pushed : ℕ) :
    (Owner.fill p q batch values pushed).written = [] := by
  cases values with
  | nil => rfl
  | cons value rest =>
    rw [Owner.fill]
    split_ifs <;> rfl

theorem Owner.written_begin (q : BwosQueue α) (call : Call α) :
    (Owner.begin p q call).written = [] := by
  cases call with
  | push value => exact written_fill q false [value] 0
  | pushBatch values => exact written_fill q true values 0
  | pop => rfl
  | popBlock => rfl

theorem Owner.written_afterWrite (batch : Bool) (index : ℕ) (written rest : List α) (pushed : ℕ) :
    (Owner.afterWrite p batch index written rest pushed).written = written := by
  cases rest with
  | nil => rfl
  | cons value rest =>
    rw [Owner.afterWrite]
    split_ifs <;> rfl

theorem Owner.written_afterCommit (batch : Bool) (rest : List α) (pushed : ℕ) :
    (Owner.afterCommit batch rest pushed).written = [] := by
  cases rest <;> rfl

theorem written_nil {owner : Owner α} (h : owner.written = []) {f : ℕ → α} :
    ∀ j x, owner.written[j]? = some x → f j = x := by
  intro j x hwritten
  rw [h, List.getElem?_nil] at hwritten
  exact nomatch hwritten

namespace Recorded

/-- The owner goes on and writes nothing. -/
theorem owned (hr : Recorded p s v fate) {owner : Owner α} (howner : owner.written = []) :
    Recorded p { s with owner := owner } v fate :=
  { hr with written := written_nil howner }

theorem write (hr : Recorded p s v fate) (hs : Sound p s v fate) {batch : Bool}
    {index pushed : ℕ} {written rest : List α} {value : α}
    (hpc : s.owner = .write batch index written value rest pushed) :
    Recorded p { s with
      queue := s.queue.write s.queue.producerBlock index [value]
      owner := .afterWrite p batch index (written ++ [value]) rest pushed } v fate := by
  obtain ⟨hrest, hindex, hlt⟩ : Owner.Knows p v (.write batch index written value rest pushed) :=
    hpc ▸ hs.owner
  have hentries (block : ℕ) : (s.queue.write s.queue.producerBlock index [value]).entries block =
      if block = v.entered % p.numBlocks then
        BwosQueue.write.fill (s.queue.entries (v.entered % p.numBlocks)) index [value]
      else s.queue.entries block := by
    change Function.update s.queue.entries s.queue.producerBlock _ block = _
    rw [hs.shows'.producer, Function.update_apply]
  refine { hr with stored := fun r i hfirst hopened hi ↦ ?_, written := fun j x hwritten ↦ ?_ }
  · change s.pushed[p.entry r i]? = some ((s.queue.write _ index [value]).entries _ i)
    rw [hentries, hr.stored r i hfirst hopened hi]
    split_ifs with hmod
    · -- the block of the producer's round holds no other round
      have hle : r ≤ v.entered := hs.shows'.valid.le_entered_of_committed_pos (by omega)
      have hr' : r = v.entered := InWindow.eq_of_mod ⟨hle, hrest.opened ▸ hopened⟩
        (inWindow_front p.numBlocks_pos) hmod
      rw [hr'] at hi ⊢
      rw [BwosQueue.fill_of_lt [value] (by omega)]
    · rfl
  · rw [Owner.written_afterWrite] at hwritten
    change (s.queue.write _ index [value]).entries _ _ = x
    rw [hentries, if_pos rfl]
    have hold := hr.written j x
    rw [hpc] at hold
    rcases Nat.lt_or_ge j written.length with hless | hge
    · rw [List.getElem?_append_left hless] at hwritten
      rw [BwosQueue.fill_of_lt [value] (by omega)]
      exact hold hwritten
    · rw [List.getElem?_append_right hge] at hwritten
      have hj : j = written.length := by
        have hlength := (List.getElem?_eq_some_iff.mp hwritten).1
        rw [List.length_singleton] at hlength
        omega
      rw [hj, ← hindex]
      rw [hj, Nat.sub_self] at hwritten
      exact BwosQueue.fill_add (j := 0) hwritten

theorem commit (hr : Recorded p s v fate) (hs : Sound p s v fate) {batch : Bool} {pushed : ℕ}
    {written rest : List α} (hpc : s.owner = .commit batch written rest pushed)
    (queue : BwosQueue α) (hentries : queue.entries = s.queue.entries) :
    Recorded p { s with
      queue := queue
      owner := .afterCommit batch rest (pushed + written.length)
      pushed := s.pushed ++ written } (v.commit written.length) fate := by
  obtain ⟨hrest, hroom, -⟩ : Owner.Knows p v (.commit batch written rest pushed) := hpc ▸ hs.owner
  have hlength := hr.length
  have hpushed := hs.shows'.valid.committed_entered
  have hfirst := hs.shows'.valid.first
  have hconsumer := hs.shows'.valid.consumer_le
  have htaken := hs.shows'.valid.taken_le_entered
  have hvalid := hs.shows'.valid.commit hrest.opened hroom
  -- the first of the new entries is the next one
  have hnext : s.pushed.length =
      p.entry v.entered (v.committed p.entriesPerBlock v.entered) := by
    have hmul : v.entered * p.entriesPerBlock =
        (v.entered - p.numBlocks) * p.entriesPerBlock + p.numBlocks * p.entriesPerBlock := by
      rw [← Nat.add_mul, Nat.sub_add_cancel (by omega)]
    unfold Params.entry
    omega
  refine ⟨?_, fun r i hround hopened hi ↦ ?_, ?_, fun a ↦ (hr.copied a).append written,
    fun x k hmem ↦ getElem?_append_of_some (hr.popped x k hmem) _, hr.order, hr.kept,
    fun x k hmem ↦ getElem?_append_of_some (hr.stolen x k hmem) _, hr.once, hr.robbed⟩
  · change (s.pushed ++ written).length + _ = v.pushed + written.length
    rw [List.length_append]
    omega
  · change (s.pushed ++ written)[p.entry r i]? = some (queue.entries (r % p.numBlocks) i)
    rw [hentries]
    rcases Nat.lt_or_ge i (v.committed p.entriesPerBlock r) with hold | hnew
    · exact getElem?_append_of_some (hr.stored r i hround hopened hold) written
    · have hle := hvalid.le_entered_of_committed_pos (Nat.zero_lt_of_lt hi)
      have hge := hs.shows'.valid.entered_le_of_committed_lt
        (Nat.lt_of_le_of_lt hnew (Nat.lt_of_lt_of_le hi (View.committed_le _ _ _)))
      obtain rfl : r = v.entered := Nat.le_antisymm hle hge
      rw [hs.shows'.committed_commit hrest hroom] at hi
      obtain ⟨j, rfl⟩ := Nat.exists_eq_add_of_le hnew
      have hj : j < written.length := by omega
      have hwritten := hr.written j written[j]
      rw [hpc] at hwritten
      rw [hwritten (List.getElem?_eq_getElem hj), ← p.entry_add, ← hnext,
        List.getElem?_append_right (Nat.le_add_right _ _), Nat.add_sub_cancel_left,
        List.getElem?_eq_getElem hj]
  · exact written_nil (Owner.written_afterCommit _ _ _)

/-- The producer opens the next round, and with it the oldest round's entries are gone. -/
theorem openNext (hr : Recorded p s v fate) {owner : Owner α} (howner : owner.written = [])
    (queue : BwosQueue α) (hentries : queue.entries = s.queue.entries) :
    Recorded p { s with queue := queue, owner := owner } v.openNext fate :=
  { hr with
    stored := fun r i hfirst hopened hi ↦ by
      change s.pushed[_]? = some (queue.entries _ _)
      rw [hentries]
      exact hr.stored r i hfirst (Nat.lt_of_succ_lt hopened) hi
    written := written_nil howner }

/-- A step of the owner that the histories do not see. -/
theorem unseen (hr : Recorded p s v fate) {owner : Owner α} (howner : owner.written = [])
    (queue : BwosQueue α) (hentries : queue.entries = s.queue.entries)
    (hopened : v'.opened = v.opened) (hpushed : v'.pushed = v.pushed)
    (hconsumer : v'.consumer = v.consumer) (hpopped : v'.popped = v.popped)
    (hclaimed : v'.claimed = v.claimed) :
    Recorded p { s with queue := queue, owner := owner } v' fate where
  length := hr.length.trans hpushed.symm
  stored := by
    intro r i hfirst hlap hi
    rw [View.committed, hpushed] at hi
    change s.pushed[_]? = some (queue.entries _ _)
    rw [hentries]
    exact hr.stored r i hfirst (hopened ▸ hlap) hi
  written := written_nil howner
  copied := hr.copied
  popped := hr.popped
  order := hr.order
  kept := by
    rw [hconsumer, hpopped, hclaimed]
    exact hr.kept
  stolen := hr.stolen
  once := hr.once
  robbed := hr.robbed

/-- The owner returns the next entries of the consumer's round. -/
theorem take (hr : Recorded p s v fate) (hs : Sound p s v fate)
    (hless : v.popped < v.committed p.entriesPerBlock v.consumer) (batch : Bool) :
    Recorded p (s.take p batch) (v.consume (v.wanted p.entriesPerBlock batch)) fate := by
  have hroom := v.wanted_le hless batch
  have hsize := View.committed_le p.entriesPerBlock v v.consumer
  have hfirst := hs.shows'.valid.first
  have hclaimed := hs.shows'.valid.claimed_le_popped
  have hlap := hs.shows'.valid.lap
  have hopened : v.opened < v.consumer + p.numBlocks := Nat.lt_of_le_of_ne hlap fun heq ↦ by
    have hpopped := hs.shows'.valid.lapped (.inl heq)
    omega
  obtain ⟨count, hcount⟩ : ∃ count, count = v.wanted p.entriesPerBlock batch := ⟨_, rfl⟩
  rw [← hcount] at hroom ⊢
  -- what the call returns
  obtain ⟨got, hgot⟩ : ∃ got, got = s.queue.copy (v.consumer % p.numBlocks) v.popped
    (v.popped + count) := ⟨_, rfl⟩
  have hlength : got.length = count := by
    rw [hgot, BwosQueue.copy, List.length_map, List.length_range, Nat.add_sub_cancel_left]
  have hstep : (s.take p batch).popped =
      s.popped ++ got.zipIdx (p.entry v.consumer v.popped) := by
    change s.popped ++ (s.queue.copy _ _ (p.index (if batch then _ else _))).zipIdx _ = _
    rw [hs.shows'.last_eq hless, hs.shows'.consumer, hs.shows'.consumed_consumer, ← hcount,
      Params.index_cursorAt hs.shows'.popped_le, Params.index_cursorAt (Nat.le_trans hroom hsize),
      Params.ticket_cursorAt hfirst hs.shows'.popped_le, hgot]
  have htickets : tickets (s.take p batch).popped =
      tickets s.popped ++ List.range' (p.entry v.consumer v.popped) count := by
    rw [hstep, tickets_append, tickets_zipIdx, hlength]
  have hvalue (j : ℕ) (hj : j < count) : got[j]? =
      some (s.queue.entries (v.consumer % p.numBlocks) (v.popped + j)) := by
    rw [hgot, BwosQueue.copy, Nat.add_sub_cancel_left, List.getElem?_map, List.getElem?_range hj]
    rfl
  refine ⟨hr.length, hr.stored, written_nil rfl, hr.copied, fun x k hmem ↦ ?_, ?_,
    fun r i hround hi ↦ ?_, hr.stolen, hr.once, hr.robbed⟩
  · rw [hstep, List.mem_append] at hmem
    rcases hmem with hold | hnew
    · exact hr.popped x k hold
    · obtain ⟨j, rfl, hj⟩ := mem_zipIdx hnew
      have hlt := (List.getElem?_eq_some_iff.mp hj).1
      rw [hlength] at hlt
      rw [hvalue j hlt] at hj
      rw [p.entry_add]
      exact (hr.stored v.consumer _ hfirst hopened (by omega)).trans hj
  · rw [htickets, List.pairwise_append]
    refine ⟨hr.order, List.pairwise_lt_range', fun old hold new hnew ↦ ?_⟩
    obtain ⟨r, i, hround, hi, rfl⟩ := p.exists_entry old
    have hlow := (List.mem_range'_1.mp hnew).1
    have hbefore := ((hr.kept r i hround hi).mp hold).2
    have hless' := (Params.entry_lt_iff hround hfirst hi
      (Nat.lt_of_lt_of_le hless hsize)).mpr hbefore
    omega
  · have hkept := hr.kept r i hround hi
    have hrange : p.entry v.consumer v.popped ≤ p.entry r i ∧
        p.entry r i < p.entry v.consumer (v.popped + count) ↔
          r = v.consumer ∧ v.popped ≤ i ∧ i < v.popped + count :=
      Params.mem_entries_iff hfirst hround hi (Nat.le_trans hroom hsize)
    rw [htickets, List.mem_append, hkept, List.mem_range'_1, p.entry_add, hrange]
    change _ ↔ v.claimed r ≤ i ∧ (r < v.consumer ∨ r = v.consumer ∧ i < v.popped + count)
    constructor
    · rintro (⟨hlow, hbefore⟩ | ⟨rfl, hlow, hhigh⟩)
      · exact ⟨hlow, hbefore.imp_right fun h ↦ ⟨h.1, by omega⟩⟩
      · exact ⟨by omega, .inr ⟨rfl, hhigh⟩⟩
    · rintro ⟨hlow, hbefore | ⟨rfl, hhigh⟩⟩
      · exact .inl ⟨hlow, .inl hbefore⟩
      · rcases Nat.lt_or_ge i v.popped with hold | hnew
        · exact .inl ⟨hlow, .inr ⟨rfl, hold⟩⟩
        · exact .inr ⟨rfl, hnew, hhigh⟩

/-- The consumer takes the next round over. -/
theorem credit (hr : Recorded p s v fate) (hs : Sound p s v fate) (htaken : v.consumer < v.taken)
    {owner : Owner α} (howner : owner.written = []) (queue : BwosQueue α)
    (hentries : queue.entries = s.queue.entries) :
    Recorded p { s with queue := queue, owner := owner } (v.credit p.entriesPerBlock)
      (assign p fate (v.consumer + 1) (v.claimed (v.consumer + 1)) p.entriesPerBlock .kept) := by
  have hpopped := hs.shows'.valid.lapped (.inr htaken)
  have hfirst := hs.shows'.valid.first
  refine ⟨hr.length, fun r i hround hopened hi ↦ ?_, written_nil howner, hr.copied, hr.popped,
    hr.order, fun r i hround hi ↦ ?_, hr.stolen, hr.once, fun k ↦ ?_⟩
  · change s.pushed[_]? = some (queue.entries _ _)
    rw [hentries]
    exact hr.stored r i hround hopened hi
  · refine (hr.kept r i hround hi).trans ?_
    change _ ↔ v.claimed r ≤ i ∧
      (r < v.consumer + 1 ∨ r = v.consumer + 1 ∧ i < v.claimed (v.consumer + 1))
    constructor
    · rintro ⟨hlow, hbefore⟩
      exact ⟨hlow, .inl (by omega)⟩
    · rintro ⟨hlow, hbefore | ⟨rfl, hclaimed⟩⟩
      · exact ⟨hlow, by omega⟩
      · omega
  · obtain ⟨r, i, hround, hi, rfl⟩ := p.exists_entry k
    rw [hr.robbed, assign_entry (Nat.le_succ_of_le hfirst) hround hi (Nat.le_refl _)]
    split_ifs with hrange
    · obtain ⟨rfl, hfree, -⟩ := hrange
      rw [(hs.fates.free _ i hround hi).mpr ⟨Nat.lt_succ_self _, hfree⟩]
      exact iff_of_false (fun h ↦ nomatch h) fun h ↦ nomatch h
    · exact Iff.rfl

/-! ### The thieves' steps -/

variable [DecidableEq ι] {a : ι}

/-- A thief has copied what was pushed, and the others have still. -/
theorem copied_update (hr : Recorded p s v fate) {thief : Thief α}
    (hcopied : thief.Copied p s.pushed) (b : ι) :
    (Function.update s.thief a thief b).Copied p s.pushed := by
  rcases eq_or_ne b a with rfl | hne
  · rwa [Function.update_self]
  · rw [Function.update_of_ne hne]
    exact hr.copied b

theorem goto (hr : Recorded p s v fate) {thief : Thief α} (hcopied : thief.Copied p s.pushed) :
    Recorded p (s.goto a thief) v fate :=
  { hr with copied := hr.copied_update hcopied }

theorem claim (hr : Recorded p s v fate) (hs : Sound p s v fate) {count : ℕ}
    (htaken : v.taken < r) (hroom : v.claimed r + count ≤ p.entriesPerBlock) {thief : Thief α}
    (hgot : thief.got = []) (queue : BwosQueue α) (hentries : queue.entries = s.queue.entries) :
    Recorded p ({ s with queue := queue }.goto a thief) (v.claim r count)
      (assign p fate r (v.claimed r) (v.claimed r + count) (.held a)) := by
  have hconsumer := hs.shows'.valid.consumer_le
  have hfirst := hs.shows'.valid.first
  refine ⟨hr.length, fun r i hround hopened hi ↦ ?_, fun j x hwritten ↦ ?_,
    hr.copied_update (Thief.copied_nil hgot), hr.popped, hr.order, fun k i hround hi ↦ ?_,
    hr.stolen, hr.once, fun k ↦ ?_⟩
  · change s.pushed[_]? = some (queue.entries _ _)
    rw [hentries]
    exact hr.stored r i hround hopened hi
  · change queue.entries _ _ = x
    rw [hentries]
    exact hr.written j x hwritten
  · refine (hr.kept k i hround hi).trans ?_
    change _ ↔ Function.update v.claimed r _ k ≤ i ∧ (k < v.consumer ∨ k = v.consumer ∧ _)
    rcases eq_or_ne k r with rfl | hne
    · exact iff_of_false (fun h ↦ by omega) fun h ↦ by omega
    · rw [Function.update_of_ne hne]
      exact Iff.rfl
  · obtain ⟨r', i, hround, hi, rfl⟩ := p.exists_entry k
    refine (hr.robbed _).trans ?_
    rw [assign_entry (by omega) hround hi hroom]
    split_ifs with hrange
    · obtain ⟨rfl, hfree, -⟩ := hrange
      rw [(hs.fates.free _ i hround hi).mpr ⟨by omega, hfree⟩]
      exact iff_of_false (fun h ↦ nomatch h) fun h ↦ nomatch h
    · exact Iff.rfl

/-- A thief copies the next entry. -/
theorem copy (hr : Recorded p s v fate) (hs : Sound p s v fate) {block reserved last : ℕ}
    {got : List α} (hpc : s.thief a = .copy block reserved last got) :
    Recorded p (s.goto a (if p.index reserved + got.length + 1 < last then
      .copy block reserved last (got ++ [s.queue.entries block (p.index reserved + got.length)])
      else .leave block reserved
        (got ++ [s.queue.entries block (p.index reserved + got.length)]))) v fate := by
  obtain ⟨r, i, hcopies, hmore, hindex, hticket, hopened⟩ := hs.copying hpc
  have hlast := hcopies.committed
  have hnext : s.pushed[p.ticket block reserved (p.index reserved) + got.length]? =
      some (s.queue.entries block (p.index reserved + got.length)) := by
    rw [hticket, p.entry_add, hindex, hcopies.block]
    exact hr.stored r _ hcopies.first hopened (by omega)
  have hold := hr.copied a
  rw [hpc] at hold
  have hcopied (j : ℕ) (x : α)
      (hgot : (got ++ [s.queue.entries block (p.index reserved + got.length)])[j]? = some x) :
      s.pushed[p.ticket block reserved (p.index reserved) + j]? = some x := by
    rcases Nat.lt_or_ge j got.length with hless | hge
    · rw [List.getElem?_append_left hless] at hgot
      exact hold j x hgot
    · rw [List.getElem?_append_right hge] at hgot
      have hj : j = got.length := by
        have hlength := (List.getElem?_eq_some_iff.mp hgot).1
        rw [List.length_singleton] at hlength
        omega
      rw [hj, Nat.sub_self] at hgot
      rw [hj, hnext]
      exact hgot
  refine hr.goto ?_
  split_ifs
  · exact hcopied
  · exact hcopied

/-- A thief returns what it has copied. -/
theorem leave (hr : Recorded p s v fate) (hs : Sound p s v fate) {block reserved : ℕ}
    {got : List α} (hpc : s.thief a = .leave block reserved got)
    (hcopies : Copies p v block reserved (i + got.length) r i) (queue : BwosQueue α)
    (hentries : queue.entries = s.queue.entries) :
    Recorded p ({ s with
      queue := queue
      stolen := s.stolen ++ got.zipIdx (p.ticket block reserved (p.index reserved)) }.goto a
      (.idle (some got))) (v.leave r got.length)
      (assign p fate r i (i + got.length) .stolen) := by
  have hsize := Nat.le_trans hcopies.committed (View.committed_le p.entriesPerBlock v r)
  have hindex : p.index reserved = i := by
    rw [hcopies.reserved, Params.index_cursorAt (by omega)]
  have hticket (j : ℕ) : p.ticket block reserved j = p.entry r j := by
    rw [hcopies.block, hcopies.reserved, Params.ticket_cursorAt hcopies.first (by omega)]
  have hheld (k : ℕ) : fate k = .held a ↔ p.entry r i ≤ k ∧ k < p.entry r (i + got.length) := by
    rw [hs.held a k, hpc]
    change p.ticket block reserved (p.index reserved) ≤ k ∧
      k < p.ticket block reserved (p.index reserved + got.length) ↔ _
    rw [hticket, hticket, hindex]
  have htickets : tickets (s.stolen ++
      got.zipIdx (p.ticket block reserved (p.index reserved))) =
      tickets s.stolen ++ List.range' (p.entry r i) got.length := by
    rw [tickets_append, tickets_zipIdx, hticket, hindex]
  have hnew (k : ℕ) : k ∈ List.range' (p.entry r i) got.length ↔ fate k = .held a := by
    rw [List.mem_range'_1, p.entry_add, hheld]
  have hold := hr.copied a
  rw [hpc] at hold
  refine ⟨hr.length, fun r i hround hopened hi ↦ ?_, fun j x hwritten ↦ ?_,
    hr.copied_update (Thief.copied_nil rfl), hr.popped, hr.order, hr.kept, fun x k hmem ↦ ?_, ?_,
    fun k ↦ ?_⟩
  · change s.pushed[_]? = some (queue.entries _ _)
    rw [hentries]
    exact hr.stored r i hround hopened hi
  · change queue.entries _ _ = x
    rw [hentries]
    exact hr.written j x hwritten
  · rcases List.mem_append.mp hmem with hbefore | hmore
    · exact hr.stolen x k hbefore
    · obtain ⟨j, rfl, hj⟩ := mem_zipIdx hmore
      exact hold j x hj
  · change (tickets (s.stolen ++ _)).Nodup
    rw [htickets, List.nodup_append]
    refine ⟨hr.once, List.nodup_range', fun k hbefore j hmore heq ↦ ?_⟩
    have hstolen := (hr.robbed k).mp hbefore
    rw [heq, (hnew j).mp hmore] at hstolen
    exact nomatch hstolen
  · change k ∈ tickets (s.stolen ++ _) ↔ _
    rw [htickets, List.mem_append, hr.robbed, hnew, assign, hheld]
    split_ifs with hrange
    · exact iff_of_true (.inr hrange) rfl
    · exact or_iff_left hrange

end Recorded

/-! ### A new queue -/

/-- The fates in a new queue: the owner has taken the head block's round over. -/
def Fate.initial (p : Params) (ι : Type v) (k : ℕ) : Fate ι :=
  if k < p.entriesPerBlock then .kept else .free

theorem Fate.initial_entry (hr : p.numBlocks ≤ r) (hi : i < p.entriesPerBlock) :
    Fate.initial p ι (p.entry r i) = if r = p.numBlocks then .kept else .free := by
  have hlast : p.entry p.numBlocks 0 ≤ p.entry r i ∧
      p.entry r i < p.entry p.numBlocks p.entriesPerBlock ↔
        r = p.numBlocks ∧ 0 ≤ i ∧ i < p.entriesPerBlock :=
    Params.mem_entries_iff (Nat.le_refl p.numBlocks) hr hi (Nat.le_refl _)
  have hzero (j : ℕ) : p.entry p.numBlocks j = j := by
    rw [Params.entry, Nat.sub_self, Nat.zero_mul, Nat.zero_add]
  rw [hzero, hzero] at hlast
  exact if_congr (by omega) rfl rfl

theorem fates_initial : Fates p (.initial p.numBlocks p.entriesPerBlock) (Fate.initial p ι) where
  left := by
    intro r hr
    change (if r ≤ p.numBlocks then p.entriesPerBlock else 0) = _
    have hdone {i : ℕ} (hi : i < p.entriesPerBlock) :
        (Fate.initial p ι ((r - p.numBlocks) * p.entriesPerBlock + i)).isDone = true ↔
          r = p.numBlocks := by
      have heq : Fate.initial p ι ((r - p.numBlocks) * p.entriesPerBlock + i) = _ :=
        Fate.initial_entry hr hi
      rw [heq]
      split_ifs with h
      · exact iff_of_true rfl h
      · exact iff_of_false (fun h ↦ nomatch h) h
    split_ifs with hle
    · refine (roundCount_eq_size_iff.mpr fun i hi ↦ ?_).symm
      exact (hdone hi).mpr (Nat.le_antisymm hle hr)
    · refine (roundCount_eq_zero fun i hi hall ↦ hle ?_).symm
      exact Nat.le_of_eq ((hdone hi).mp hall)
  free := by
    intro r i hr hi
    rw [Fate.initial_entry hr hi]
    change _ ↔ p.numBlocks < r ∧ 0 ≤ i
    split_ifs with heq
    · exact iff_of_false (fun h ↦ nomatch h) fun h ↦ by omega
    · exact iff_of_true rfl ⟨by omega, Nat.zero_le i⟩
  kept := by
    intro r i hr hi
    rw [Fate.initial_entry hr hi]
    change _ ↔ r ≤ p.numBlocks ∧ 0 ≤ i
    split_ifs with heq
    · exact iff_of_true rfl ⟨Nat.le_of_eq heq, Nat.zero_le i⟩
    · exact iff_of_false (fun h ↦ nomatch h) fun h ↦ by omega

theorem sound_initial [Inhabited α] : Sound p (.initial p : State ι α)
    (.initial p.numBlocks p.entriesPerBlock) (Fate.initial p ι) where
  shows' := shows_initial
  fates := fates_initial
  owner := ⟨rfl, rfl, rfl⟩
  thief := fun _ ↦ trivial
  held := by
    intro a k
    refine iff_of_false (fun h ↦ ?_) fun h ↦ h
    rw [Fate.initial] at h
    split_ifs at h

theorem recorded_initial [Inhabited α] : Recorded p (.initial p : State ι α)
    (.initial p.numBlocks p.entriesPerBlock) (Fate.initial p ι) where
  length := Nat.zero_add _
  stored := by
    intro r i hfirst hopened hi
    have hle : p.numBlocks * p.entriesPerBlock ≤ r * p.entriesPerBlock :=
      Nat.mul_le_mul_right _ hfirst
    change i < min p.entriesPerBlock (p.numBlocks * p.entriesPerBlock - r * p.entriesPerBlock) at hi
    omega
  written := written_nil rfl
  copied := fun _ ↦ Thief.copied_nil rfl
  popped := fun _ _ hmem ↦ nomatch hmem
  order := List.Pairwise.nil
  kept := by
    intro r i hr hi
    refine iff_of_false (fun hmem ↦ nomatch hmem) fun ⟨_, hbefore⟩ ↦ ?_
    change r < p.numBlocks ∨ r = p.numBlocks ∧ i < 0 at hbefore
    omega
  stolen := fun _ _ hmem ↦ nomatch hmem
  once := List.nodup_nil
  robbed := by
    intro k
    refine iff_of_false (fun hmem ↦ nomatch hmem) fun h ↦ ?_
    rw [Fate.initial] at h
    split_ifs at h

/-! ### Every step -/

/-- The queue, the threads and the histories fit some rounds and fates. -/
def Coherent (p : Params) (s : State ι α) : Prop :=
  ∃ v fate, Sound p s v fate ∧ Recorded p s v fate

theorem Coherent.own (hs : Coherent p s) (hstep : s.own p = some t) : Coherent p t := by
  obtain ⟨v, fate, hsound, hrecorded⟩ := hs
  unfold State.own at hstep
  split at hstep
  case h_1 => exact nomatch hstep
  case h_2 batch index written value rest pushed hpc =>
    exact Option.some.inj hstep ▸ ⟨v, fate, hsound.write hpc, hrecorded.write hsound hpc⟩
  case h_3 batch written rest pushed hpc =>
    exact Option.some.inj hstep ▸
      ⟨_, fate, hsound.commit hpc, hrecorded.commit hsound hpc _ rfl⟩
  case h_4 batch values pushed hpc =>
    refine Option.some.inj hstep ▸ ⟨v, fate, hsound.check hpc, hrecorded.owned ?_⟩
    split_ifs <;> rfl
  case h_5 batch values pushed hpc =>
    exact Option.some.inj hstep ▸ ⟨_, fate, hsound.openNext hpc, hrecorded.openNext rfl _ rfl⟩
  case h_6 batch values pushed hpc =>
    exact Option.some.inj hstep ▸ ⟨_, fate, hsound.resetNext hpc,
      hrecorded.unseen rfl _ rfl rfl rfl rfl rfl rfl⟩
  case h_7 batch values pushed hpc =>
    exact Option.some.inj hstep ▸ ⟨_, fate, hsound.enter hpc,
      hrecorded.unseen (Owner.written_fill _ _ _ _) _ rfl rfl rfl rfl rfl rfl⟩
  case h_8 batch hpc =>
    have hrest : v.Rest := by
      have h := hsound.owner
      rw [hpc] at h
      exact h
    exact Option.some.inj hstep ▸
      ⟨v, fate, hsound.owned_same rfl hsound.shows' hrest, hrecorded.owned rfl⟩
  case h_9 batch blocks hpc =>
    have hrest : v.Rest := by
      have h := hsound.owner
      rw [hpc] at h
      exact h
    have hconsumed : s.queue.consumed s.queue.consumerBlock = p.cursorAt v.consumer v.popped := by
      rw [hsound.shows'.consumer, hsound.shows'.consumed_consumer]
    have hidle (t : State ι α) (heq : t = { s with owner := .idle (some (.taken batch [])) }) :
        Coherent p t :=
      heq ▸ ⟨v, fate, hsound.owned_same rfl hsound.shows' hrest, hrecorded.owned rfl⟩
    dsimp only at hstep
    rw [hconsumed, Params.index_cursorAt hsound.shows'.popped_le] at hstep
    split_ifs at hstep with hlt hnone hmay
    · exact hidle t (Option.some.inj hstep).symm
    · rw [hsound.shows'.consumer, hsound.shows'.committed_consumer hlt,
        Params.index_cursorAt (View.committed_le _ _ _)] at hnone
      have hless := Nat.lt_of_le_of_ne hsound.shows'.valid.popped_le hnone
      exact Option.some.inj hstep ▸
        ⟨_, fate, hsound.take hrest hless batch, hrecorded.take hsound hless batch⟩
    · have hpopped := Nat.le_antisymm hsound.shows'.popped_le (Nat.le_of_not_lt hlt)
      have hlap := hsound.shows'.valid.lap
      rw [hrest.opened] at hlap
      rw [hpopped, hsound.shows'.next_consumer, hsound.shows'.consumerMayAdvance_iff rfl
        (Nat.le_trans hsound.shows'.valid.consumer_le hsound.shows'.valid.taken_le_entered) hlap]
        at hmay
      exact Option.some.inj hstep ▸ ⟨v, fate,
        hsound.owned_same rfl hsound.shows' ⟨hrest, hpopped, hmay⟩, hrecorded.owned rfl⟩
    · exact hidle t (Option.some.inj hstep).symm
  case h_10 batch blocks hpc =>
    exact Option.some.inj hstep ▸ ⟨_, fate, hsound.exchange hpc,
      hrecorded.unseen rfl _ rfl rfl rfl rfl rfl rfl⟩
  case h_11 batch blocks previous hpc =>
    have htaken : v.consumer < v.taken := by
      have h := hsound.owner
      rw [hpc] at h
      exact Nat.lt_of_lt_of_eq (Nat.lt_succ_self _) h.2.2.1.symm
    exact Option.some.inj hstep ▸ ⟨_, _, hsound.credit hpc,
      hrecorded.credit hsound htaken rfl _ rfl⟩

theorem Coherent.call (hs : Coherent p s) {last : Option (Answer α)}
    (hpc : s.owner = .idle last) (call : Call α) :
    Coherent p { s with owner := .begin p s.queue call } := by
  obtain ⟨v, fate, hsound, hrecorded⟩ := hs
  have hrest : v.Rest := by
    have h := hsound.owner
    rw [hpc] at h
    exact h
  exact ⟨v, fate, hsound.call hrest call, hrecorded.owned (Owner.written_begin _ _)⟩

variable [DecidableEq ι] {a : ι}

/-- A thief goes on that holds nothing, before and after. -/
theorem Coherent.goto (hs : Coherent p s) {thief : Thief α} (hgot : thief.got = [])
    (hknows : ∀ v fate, Sound p s v fate → thief.Knows p v)
    (hholds : ∀ k, thief.Holds p k ↔ (s.thief a).Holds p k) : Coherent p (s.goto a thief) := by
  obtain ⟨v, fate, hsound, hrecorded⟩ := hs
  exact ⟨v, fate, hsound.goto (hknows v fate hsound) hholds,
    hrecorded.goto (Thief.copied_nil hgot)⟩

theorem Coherent.act (hs : Coherent p s) {spurious : Bool} (hstep : s.act p a spurious = some t) :
    Coherent p t := by
  unfold State.act at hstep
  split at hstep
  case h_1 => exact nomatch hstep
  case h_2 batch hpc =>
    exact Option.some.inj hstep ▸
      hs.goto rfl (fun _ _ _ ↦ trivial) fun k ↦ by rw [hpc]; exact Iff.rfl
  case h_3 batch position hpc =>
    dsimp only at hstep
    split_ifs at hstep with hroom
    · exact Option.some.inj hstep ▸ hs.goto rfl (fun _ _ hsound ↦ hsound.seen position hroom)
        fun k ↦ by rw [hpc]; exact Iff.rfl
    · exact Option.some.inj hstep ▸
        hs.goto rfl (fun _ _ _ ↦ trivial) fun k ↦ by rw [hpc]; exact Iff.rfl
  case h_4 batch position reserved hpc =>
    dsimp only at hstep
    split_ifs at hstep with hnone
    · exact Option.some.inj hstep ▸
        hs.goto rfl (fun _ _ _ ↦ trivial) fun k ↦ by rw [hpc]; exact Iff.rfl
    · refine Option.some.inj hstep ▸ hs.goto rfl (fun v fate hsound ↦ ?_)
        fun k ↦ by rw [hpc]; exact Iff.rfl
      obtain ⟨r, i, hseen⟩ : Thief.Knows (α := α) p v (.check batch position reserved) :=
        hpc ▸ hsound.thief a
      exact ⟨r, i, hseen, hsound.committed_seen hseen hnone⟩
  case h_5 batch position reserved committed hpc =>
    dsimp only at hstep
    by_cases hwon : s.queue.reserved (p.block position) = reserved ∧ spurious = false
    · rw [if_pos hwon] at hstep
      obtain ⟨v, fate, hsound, hrecorded⟩ := hs
      obtain ⟨r, count, htaken, hclaim⟩ := hsound.claim hpc hwon.1
      have hroom := hclaim.shows'.claimed_le r
      change Function.update v.claimed r (v.claimed r + count) r ≤ _ at hroom
      rw [Function.update_self] at hroom
      exact Option.some.inj hstep ▸ ⟨_, _, hclaim, hrecorded.claim hsound htaken hroom rfl _ rfl⟩
    · rw [if_neg hwon] at hstep
      exact Option.some.inj hstep ▸
        hs.goto rfl (fun _ _ _ ↦ trivial) fun k ↦ by rw [hpc]; exact Iff.rfl
  case h_6 block reserved last got hpc =>
    obtain ⟨v, fate, hsound, hrecorded⟩ := hs
    refine ⟨v, fate, ?_⟩
    have hcopy := hsound.copy hpc (s.queue.entries block (p.index reserved + got.length))
    have hcopied := hrecorded.copy hsound hpc
    dsimp only at hstep
    split_ifs at hstep hcopy hcopied with hmore
    · exact Option.some.inj hstep ▸ ⟨hcopy, hcopied⟩
    · exact Option.some.inj hstep ▸ ⟨hcopy, hcopied⟩
  case h_7 block reserved got hpc =>
    obtain ⟨v, fate, hsound, hrecorded⟩ := hs
    obtain ⟨r, i, hcopies, hleave⟩ := hsound.leave hpc
      (s.stolen ++ got.zipIdx (p.ticket block reserved (p.index reserved)))
    exact Option.some.inj hstep ▸ ⟨_, _, hleave, hrecorded.leave hsound hpc hcopies _ rfl⟩
  case h_8 batch position reserved hpc =>
    dsimp only at hstep
    split_ifs at hstep with hmay
    · exact Option.some.inj hstep ▸
        hs.goto rfl (fun _ _ _ ↦ trivial) fun k ↦ by rw [hpc]; exact Iff.rfl
    · exact Option.some.inj hstep ▸
        hs.goto rfl (fun _ _ _ ↦ trivial) fun k ↦ by rw [hpc]; exact Iff.rfl
  case h_9 batch position hpc =>
    dsimp only at hstep
    split_ifs at hstep with hwon
    · obtain ⟨v, fate, hsound, hrecorded⟩ := hs
      have hnothing : ∀ k, (.look batch : Thief α).Holds p k ↔ (s.thief a).Holds p k :=
        fun k ↦ by rw [hpc]; exact Iff.rfl
      have hlook := hrecorded.goto (a := a) (@Thief.copied_nil α p s.pushed (.look batch) rfl)
      refine Option.some.inj hstep ▸ ⟨v, fate, ?_, { hlook with }⟩
      exact hsound.thieved rfl rfl (hsound.shows'.of_cursors rfl rfl rfl rfl rfl rfl) hsound.fates
        hsound.owner trivial (.refl v) (fun k ↦ (hsound.held a k).trans (hnothing k).symm)
        fun _ _ _ ↦ Iff.rfl
    · exact Option.some.inj hstep ▸
        hs.goto rfl (fun _ _ _ ↦ trivial) fun k ↦ by rw [hpc]; exact Iff.rfl

/-- Every step keeps the queue coherent. -/
theorem Coherent.step (hs : Coherent p s) {action : Action ι α}
    (hstep : s.step p action = some t) : Coherent p t := by
  unfold State.step at hstep
  split at hstep
  case h_1 call =>
    split at hstep
    · next last hpc => exact Option.some.inj hstep ▸ hs.call hpc call
    · exact nomatch hstep
  case h_2 => exact hs.own hstep
  case h_3 a batch =>
    split at hstep
    · next last hpc =>
      exact Option.some.inj hstep ▸
        hs.goto rfl (fun _ _ _ ↦ trivial) fun k ↦ by rw [hpc]; exact Iff.rfl
    · exact nomatch hstep
  case h_4 a spurious => exact hs.act hstep

/-- Every state that the threads reach is coherent. -/
theorem coherent [Inhabited α] (hs : (threads ι α p).Reachable s) : Coherent p s := by
  refine System.Reachable.invariant (P := Coherent p) ?_ ?_ hs
  · rintro s rfl
    exact ⟨_, _, sound_initial, recorded_initial⟩
  · exact fun s action t hs hstep ↦ hs.step hstep

end Stackfull.Queue.Bwos
