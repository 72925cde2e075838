import Stackfull.Queue.BwosClaims

/-!
# The owner and the thieves at the same time

`Sound` says what each thread knows where it stands, over the rounds and the fates of the entries.
The owner's knowledge is only ever about what the thieves cannot undo. A thief's knowledge while it
is about to exchange `reserved` depends on that cursor: as long as it is what the thief loaded, the
round has not been taken over, nobody has claimed more, and what the thief saw in `committed` is of
the same round. So an exchange that succeeds claims committed entries that nobody else holds.
-/

set_option autoImplicit false
set_option relaxedAutoImplicit false
set_option linter.dupNamespace false

namespace Stackfull.Queue.Bwos

open Stackfull.Lib

universe u v

variable {ι : Type v} {α : Type u} {p : Params} {v v' : View} {r i k : ℕ}

/-! ### What a thread knows -/

/-- What the owner knows where it stands. -/
def Owner.Knows (p : Params) (v : View) : Owner α → Prop
  | .idle _ => v.Rest
  | .write _ index written _ _ _ =>
    v.Rest ∧ index = v.committed p.entriesPerBlock v.entered + written.length ∧
      index < p.entriesPerBlock
  | .commit _ written rest _ =>
    v.Rest ∧ v.committed p.entriesPerBlock v.entered + written.length ≤ p.entriesPerBlock ∧
      (rest ≠ [] → v.committed p.entriesPerBlock v.entered + written.length = p.entriesPerBlock)
  | .check _ _ _ => v.Rest ∧ v.committed p.entriesPerBlock v.entered = p.entriesPerBlock
  | .openNext _ _ _ =>
    v.Rest ∧ v.committed p.entriesPerBlock v.entered = p.entriesPerBlock ∧
      v.MayAdvance p.numBlocks p.entriesPerBlock
  | .resetNext _ _ _ => v.opened = v.entered + 1 ∧ v.reset = v.entered ∧ v.taken = v.consumer
  | .enter _ _ _ => v.opened = v.entered + 1 ∧ v.reset = v.entered + 1 ∧ v.taken = v.consumer
  | .locate _ _ => v.Rest
  | .exchange _ _ => v.Rest ∧ v.popped = p.entriesPerBlock ∧ v.consumer < v.entered
  | .credit _ _ previous =>
    v.opened = v.entered ∧ v.reset = v.entered ∧ v.taken = v.consumer + 1 ∧
      previous = p.cursorAt (v.consumer + 1) (v.claimed (v.consumer + 1))

/-- In the block that a thief looks at it saw how much of a round was claimed. -/
structure Seen (p : Params) (v : View) (position reserved r i : ℕ) : Prop where
  block : p.block position = r % p.numBlocks
  reserved : reserved = p.cursorAt r i
  first : p.numBlocks ≤ r
  entered : r ≤ v.entered
  claimed : i ≤ v.claimed r
  room : i < p.entriesPerBlock

/-- A thief copies entries of a round. -/
structure Copies (p : Params) (v : View) (block reserved last r i : ℕ) : Prop where
  block : block = r % p.numBlocks
  reserved : reserved = p.cursorAt r i
  first : p.numBlocks ≤ r
  entered : r ≤ v.entered
  committed : last ≤ v.committed p.entriesPerBlock r
  nonempty : i < last

/-- What a thief knows where it stands. -/
def Thief.Knows (p : Params) (v : View) : Thief α → Prop
  | .check _ position reserved => ∃ r i, Seen p v position reserved r i
  | .claim _ position reserved committed =>
    ∃ r i, Seen p v position reserved r i ∧ (v.taken < r → v.claimed r = i →
      ∃ j, committed = p.cursorAt r j ∧ i < j ∧ j ≤ v.committed p.entriesPerBlock r)
  | .copy block reserved last got =>
    ∃ r i, Copies p v block reserved last r i ∧ i + got.length < last
  | .leave block reserved got =>
    ∃ r i, Copies p v block reserved (i + got.length) r i
  | _ => True

/-- What the owner has written and not committed. -/
def Owner.written : Owner α → List α
  | .write _ _ written _ _ _ => written
  | .commit _ written _ _ => written
  | _ => []

/-- The queue, the fates of the entries and what the threads know fit the rounds. -/
structure Sound (p : Params) (s : State ι α) (v : View) (fate : ℕ → Fate ι) : Prop where
  shows' : Shows p s.queue v
  fates : Fates p v fate
  owner : s.owner.Knows p v
  thief : ∀ a, (s.thief a).Knows p v
  held : ∀ a k, fate k = .held a ↔ (s.thief a).Holds p k

/-! ### What knowledge survives -/

/-- Rounds only move on, and entries are only added and claimed. -/
structure View.Grows (v v' : View) : Prop where
  entered : v.entered ≤ v'.entered
  taken : v.taken ≤ v'.taken
  pushed : v.pushed ≤ v'.pushed
  claimed : ∀ r, v.claimed r ≤ v'.claimed r

theorem View.Grows.refl (v : View) : v.Grows v :=
  ⟨Nat.le_refl _, Nat.le_refl _, Nat.le_refl _, fun _ ↦ Nat.le_refl _⟩

theorem View.Grows.committed (h : v.Grows v') (size r : ℕ) :
    v.committed size r ≤ v'.committed size r := by
  have hpushed := h.pushed
  unfold View.committed
  omega

theorem View.grows_claim (v : View) (r count : ℕ) : v.Grows (v.claim r count) where
  entered := Nat.le_refl _
  taken := Nat.le_refl _
  pushed := Nat.le_refl _
  claimed := by
    intro k
    change v.claimed k ≤ Function.update v.claimed r (v.claimed r + count) k
    rcases eq_or_ne k r with rfl | hne
    · rw [Function.update_self]
      exact Nat.le_add_right _ _
    · rw [Function.update_of_ne hne]

theorem Seen.mono {position reserved : ℕ} (h : Seen p v position reserved r i)
    (hgrows : v.Grows v') : Seen p v' position reserved r i where
  block := h.block
  reserved := h.reserved
  first := h.first
  entered := Nat.le_trans h.entered hgrows.entered
  claimed := Nat.le_trans h.claimed (hgrows.claimed r)
  room := h.room

theorem Copies.mono {block reserved last : ℕ} (h : Copies p v block reserved last r i)
    (hgrows : v.Grows v') : Copies p v' block reserved last r i where
  block := h.block
  reserved := h.reserved
  first := h.first
  entered := Nat.le_trans h.entered hgrows.entered
  committed := Nat.le_trans h.committed (hgrows.committed _ r)
  nonempty := h.nonempty

/-- A thief's knowledge survives the steps of the others. -/
theorem Thief.Knows.mono {thief : Thief α} (h : thief.Knows p v) (hgrows : v.Grows v') :
    thief.Knows p v' := by
  cases thief with
  | check batch position reserved =>
    obtain ⟨r, i, hseen⟩ := h
    exact ⟨r, i, hseen.mono hgrows⟩
  | claim batch position reserved committed =>
    obtain ⟨r, i, hseen, hcommitted⟩ := h
    refine ⟨r, i, hseen.mono hgrows, fun htaken hclaimed ↦ ?_⟩
    have hsame : v.claimed r = i :=
      Nat.le_antisymm (hclaimed ▸ hgrows.claimed r) hseen.claimed
    obtain ⟨j, heq, hlt, hle⟩ := hcommitted (Nat.lt_of_le_of_lt hgrows.taken htaken) hsame
    exact ⟨j, heq, hlt, Nat.le_trans hle (hgrows.committed _ r)⟩
  | copy block reserved last got =>
    obtain ⟨r, i, hcopies, hmore⟩ := h
    exact ⟨r, i, hcopies.mono hgrows, hmore⟩
  | leave block reserved got =>
    obtain ⟨r, i, hcopies⟩ := h
    exact ⟨r, i, hcopies.mono hgrows⟩
  | _ => trivial

/-- The owner's knowledge survives the steps of the thieves. -/
theorem Owner.Knows.disturbed {owner : Owner α} (h : owner.Knows p v) {claimed left : ℕ → ℕ}
    (hleft : ∀ r, v.left r = p.entriesPerBlock → left r = p.entriesPerBlock)
    (hclaimed : ∀ r, r ≤ v.taken → claimed r = v.claimed r) :
    owner.Knows p { v with claimed := claimed, left := left } := by
  have hrest (h : v.Rest) : ({ v with claimed := claimed, left := left } : View).Rest :=
    ⟨h.opened, h.reset, h.taken⟩
  cases owner with
  | idle last => exact hrest h
  | write batch index written value rest pushed => exact ⟨hrest h.1, h.2⟩
  | commit batch written rest pushed => exact ⟨hrest h.1, h.2⟩
  | check batch values pushed => exact ⟨hrest h.1, h.2⟩
  | openNext batch values pushed =>
    obtain ⟨hidle, hfull, hmay⟩ := h
    exact ⟨hrest hidle, hfull, hmay.lap, hmay.lapped, hleft _ hmay.left⟩
  | resetNext batch values pushed => exact h
  | enter batch values pushed => exact h
  | locate batch blocks => exact hrest h
  | exchange batch blocks => exact ⟨hrest h.1, h.2⟩
  | credit batch blocks previous =>
    obtain ⟨hopened, hreset, htaken, hprevious⟩ := h
    refine ⟨hopened, hreset, htaken, hprevious.trans (congrArg _ ?_)⟩
    exact (hclaimed _ (Nat.le_of_eq htaken.symm)).symm

/-! ### The owner's steps -/

theorem Shows.round_eq {q : BwosQueue α} (h : Shows p q v) (hopened : v.opened ≤ v.entered + 1) :
    p.nextRound .unbounded (q.committed q.producerBlock) (isHead (p.next q.producerBlock)) =
      p.cursorAt (v.entered + 1) 0 := by
  have htwo := p.two_le_numBlocks
  have hentered := h.valid.entered_le
  have hreset := h.valid.reset_le
  have hwindow : InWindow p.numBlocks v.opened v.entered := ⟨by omega, by omega⟩
  rw [h.producer, p.next_mod, h.committed_at hwindow,
    Params.nextRound_cursorAt (View.committed_le _ _ _)]

theorem Shows.next_producer {q : BwosQueue α} (h : Shows p q v) :
    p.next q.producerBlock = (v.entered + 1) % p.numBlocks := by
  rw [h.producer, p.next_mod]

theorem Shows.next_consumer {q : BwosQueue α} (h : Shows p q v) :
    p.next q.consumerBlock = (v.consumer + 1) % p.numBlocks := by
  rw [h.consumer, p.next_mod]

/-- How many entries of its round the consumer takes. -/
def View.wanted (size : ℕ) (v : View) (batch : Bool) : ℕ :=
  if batch then v.committed size v.consumer - v.popped else 1

theorem View.wanted_le {size : ℕ} (v : View) (hless : v.popped < v.committed size v.consumer)
    (batch : Bool) : v.popped + v.wanted size batch ≤ v.committed size v.consumer := by
  unfold View.wanted
  split_ifs <;> omega

/-- Where the consumer's cursor stands after that. -/
theorem Shows.last_eq {q : BwosQueue α} (h : Shows p q v)
    (hless : v.popped < v.committed p.entriesPerBlock v.consumer) {batch : Bool} :
    (if batch then q.committed q.consumerBlock
      else PackedCursor.addIndex .unbounded (q.consumed q.consumerBlock) 1) =
      p.cursorAt v.consumer (v.popped + v.wanted p.entriesPerBlock batch) := by
  have hsize := View.committed_le p.entriesPerBlock v v.consumer
  rw [h.consumer, h.consumed_consumer, h.committed_consumer (Nat.lt_of_lt_of_le hless hsize),
    View.wanted]
  split_ifs
  · rw [Nat.add_sub_cancel' (Nat.le_of_lt hless)]
  · rw [PackedCursor.addIndex, Width.wrap_unbounded, Params.cursorAt_add]

/-- The owner goes on pushing. -/
theorem Owner.fill_knows {q : BwosQueue α} (h : Shows p q v) (hrest : v.Rest) (batch : Bool)
    (values : List α) (pushed : ℕ) : (Owner.fill p q batch values pushed).Knows p v := by
  have hsize := View.committed_le p.entriesPerBlock v v.entered
  cases values with
  | nil => exact hrest
  | cons value rest =>
    rw [Owner.fill, h.committed_producer hrest, Params.index_cursorAt hsize]
    split_ifs with hroom
    · exact ⟨hrest, rfl, hroom⟩
    · exact ⟨hrest, by omega⟩

namespace Sound

variable {s t : State ι α} {fate fate' : ℕ → Fate ι}

/-- The owner moves. -/
theorem owned (hs : Sound p s v fate) (hthief : t.thief = s.thief) (hshows : Shows p t.queue v')
    (hfates : Fates p v' fate') (howner : t.owner.Knows p v') (hgrows : v.Grows v')
    (hheld : ∀ a k, fate' k = .held a ↔ fate k = .held a) : Sound p t v' fate' where
  shows' := hshows
  fates := hfates
  owner := howner
  thief := hthief ▸ fun a ↦ (hs.thief a).mono hgrows
  held := hthief ▸ fun a k ↦ (hheld a k).trans (hs.held a k)

/-- The owner goes on and changes nothing of the rounds. -/
theorem owned_same (hs : Sound p s v fate) (hthief : t.thief = s.thief)
    (hshows : Shows p t.queue v) (howner : t.owner.Knows p v) : Sound p t v fate :=
  hs.owned hthief hshows hs.fates howner (.refl v) fun _ _ ↦ Iff.rfl

theorem call (hs : Sound p s v fate) (hrest : v.Rest) (call : Call α) :
    Sound p { s with owner := .begin p s.queue call } v fate := by
  refine hs.owned_same rfl hs.shows' ?_
  change Owner.Knows p v (.begin p s.queue call)
  cases call with
  | push value => exact Owner.fill_knows hs.shows' hrest false [value] 0
  | pushBatch values => exact Owner.fill_knows hs.shows' hrest true values 0
  | pop => exact hrest
  | popBlock => exact hrest

theorem write (hs : Sound p s v fate) {batch : Bool} {index pushed : ℕ} {written rest : List α}
    {value : α} (hpc : s.owner = .write batch index written value rest pushed) :
    Sound p { s with
      queue := s.queue.write s.queue.producerBlock index [value]
      owner := .afterWrite p batch index (written ++ [value]) rest pushed } v fate := by
  obtain ⟨hrest, hindex, hlt⟩ : Owner.Knows p v (.write batch index written value rest pushed) :=
    hpc ▸ hs.owner
  have hlength : (written ++ [value]).length = written.length + 1 := by simp
  refine hs.owned_same rfl (hs.shows'.write _ _ _) ?_
  cases rest with
  | nil =>
    refine ⟨hrest, ?_, fun hne ↦ absurd rfl hne⟩
    omega
  | cons value' rest' =>
    change Owner.Knows p v (if index + 1 < p.entriesPerBlock then _ else _)
    split_ifs with hroom
    · exact ⟨hrest, by omega, hroom⟩
    · exact ⟨hrest, by omega, fun _ ↦ by omega⟩

theorem commit (hs : Sound p s v fate) {batch : Bool} {pushed : ℕ} {written rest : List α}
    (hpc : s.owner = .commit batch written rest pushed) :
    Sound p { s with
      queue := { s.queue with
        committed := Function.update s.queue.committed s.queue.producerBlock
          (s.queue.committed s.queue.producerBlock + written.length) }
      owner := .afterCommit batch rest (pushed + written.length)
      pushed := s.pushed ++ written } (v.commit written.length) fate := by
  obtain ⟨hrest, hroom, hfull⟩ : Owner.Knows p v (.commit batch written rest pushed) :=
    hpc ▸ hs.owner
  refine hs.owned rfl (hs.shows'.commit hrest.opened hroom) (hs.fates.of_same rfl rfl rfl) ?_
    ⟨Nat.le_refl _, Nat.le_refl _, Nat.le_add_right _ _, fun _ ↦ Nat.le_refl _⟩
    fun _ _ ↦ Iff.rfl
  cases rest with
  | nil => exact hrest.commit _
  | cons value rest =>
    exact ⟨hrest.commit _,
      (hs.shows'.committed_commit hrest hroom).trans (hfull (List.cons_ne_nil _ _))⟩

theorem check (hs : Sound p s v fate) {batch : Bool} {pushed : ℕ} {values : List α}
    (hpc : s.owner = .check batch values pushed) :
    Sound p { s with
      owner :=
        if s.queue.isNextBlockWritable p .unbounded (p.next s.queue.producerBlock) (p.version
          (p.nextRound .unbounded (s.queue.committed s.queue.producerBlock)
            (isHead (p.next s.queue.producerBlock)))) then
          .openNext batch values pushed
        else .idle (some (.pushed batch pushed)) } v fate := by
  obtain ⟨hrest, hfull⟩ : Owner.Knows p v (.check batch values pushed) := hpc ▸ hs.owner
  refine hs.owned_same rfl hs.shows' ?_
  rw [hs.shows'.round_eq (by rw [hrest.opened]; exact Nat.le_succ _),
    Params.version_cursorAt (Nat.zero_le _)]
  change Owner.Knows p v (if _ then _ else _)
  split_ifs with hwritable
  · exact ⟨hrest, hfull, (hs.shows'.isNextBlockWritable_next hrest).mp hwritable⟩
  · exact hrest

theorem openNext (hs : Sound p s v fate) {batch : Bool} {pushed : ℕ} {values : List α}
    (hpc : s.owner = .openNext batch values pushed) :
    Sound p { s with
      queue := { s.queue with
        committed := Function.update s.queue.committed (p.next s.queue.producerBlock)
          (p.nextRound .unbounded (s.queue.committed s.queue.producerBlock)
            (isHead (p.next s.queue.producerBlock))) }
      owner := .resetNext batch values pushed } v.openNext fate := by
  obtain ⟨hrest, hfull, hmay⟩ : Owner.Knows p v (.openNext batch values pushed) := hpc ▸ hs.owner
  have hopen := hs.shows'.openNext hrest.opened
    (hs.shows'.valid.openNext hrest.opened hfull hmay.lap hmay.lapped hmay.left)
  rw [hs.shows'.round_eq (by rw [hrest.opened]; exact Nat.le_succ _), hs.shows'.next_producer]
  exact hs.owned rfl hopen (hs.fates.of_same rfl rfl rfl)
    ⟨congrArg (· + 1) hrest.opened, hrest.reset, hrest.taken⟩
    ⟨Nat.le_refl _, Nat.le_refl _, Nat.le_refl _, fun _ ↦ Nat.le_refl _⟩ fun _ _ ↦ Iff.rfl

theorem resetNext (hs : Sound p s v fate) {batch : Bool} {pushed : ℕ} {values : List α}
    (hpc : s.owner = .resetNext batch values pushed) :
    Sound p { s with
      queue := { s.queue with
        stolen := Function.update s.queue.stolen (p.next s.queue.producerBlock)
          (p.nextRound .unbounded (s.queue.committed s.queue.producerBlock)
            (isHead (p.next s.queue.producerBlock))) }
      owner := .enter batch values pushed } v.resetNext fate := by
  obtain ⟨hopened, hreset, htaken⟩ : Owner.Knows p v (.resetNext batch values pushed) :=
    hpc ▸ hs.owner
  have hlt : v.reset < v.opened := by omega
  rw [hs.shows'.round_eq (Nat.le_of_eq hopened), hs.shows'.next_producer]
  exact hs.owned rfl (hs.shows'.resetNext hreset hlt) (hs.fates.of_same rfl rfl rfl)
    ⟨hopened, congrArg (· + 1) hreset, htaken⟩
    ⟨Nat.le_refl _, Nat.le_refl _, Nat.le_refl _, fun _ ↦ Nat.le_refl _⟩ fun _ _ ↦ Iff.rfl

/-- The queue when the producer has entered the next block. -/
def entered (p : Params) (q : BwosQueue α) : BwosQueue α :=
  { q with
    reserved := Function.update q.reserved (p.next q.producerBlock)
      (p.nextRound .unbounded (q.committed q.producerBlock) (isHead (p.next q.producerBlock)))
    producerBlock := p.next q.producerBlock }

theorem enter (hs : Sound p s v fate) {batch : Bool} {pushed : ℕ} {values : List α}
    (hpc : s.owner = .enter batch values pushed) :
    Sound p { s with
      queue := entered p s.queue
      owner := .fill p (entered p s.queue) batch values pushed } v.enter fate := by
  obtain ⟨hopened, hreset, htaken⟩ : Owner.Knows p v (.enter batch values pushed) := hpc ▸ hs.owner
  have hlt : v.entered < v.reset := by omega
  have hshows : Shows p (entered p s.queue) v.enter := by
    have henter := hs.shows'.enter hlt
    rw [entered, hs.shows'.round_eq (Nat.le_of_eq hopened), hs.shows'.next_producer]
    exact henter
  have hrest : v.enter.Rest := ⟨hopened, hreset, htaken⟩
  exact hs.owned rfl hshows (hs.fates.of_same rfl rfl rfl)
    (Owner.fill_knows hshows hrest _ _ _)
    ⟨Nat.le_succ _, Nat.le_refl _, Nat.le_refl _, fun _ ↦ Nat.le_refl _⟩ fun _ _ ↦ Iff.rfl

theorem take (hs : Sound p s v fate) (hrest : v.Rest)
    (hless : v.popped < v.committed p.entriesPerBlock v.consumer) (batch : Bool) :
    Sound p (s.take p batch) (v.consume (v.wanted p.entriesPerBlock batch)) fate := by
  have hroom := v.wanted_le hless batch
  refine hs.owned rfl ?_ (hs.fates.of_same rfl rfl rfl) (hrest.consume _)
    ⟨Nat.le_refl _, Nat.le_refl _, Nat.le_refl _, fun _ ↦ Nat.le_refl _⟩ fun _ _ ↦ Iff.rfl
  have hconsume := hs.shows'.consume hroom
  rw [← hs.shows'.last_eq hless, ← hs.shows'.consumer] at hconsume
  exact hconsume

theorem exchange (hs : Sound p s v fate) {batch : Bool} {blocks : ℕ}
    (hpc : s.owner = .exchange batch blocks) :
    Sound p { s with
      queue := { s.queue with
        reserved := Function.update s.queue.reserved (p.next s.queue.consumerBlock)
          (p.make .unbounded (p.nextVersion (p.next s.queue.consumerBlock)
            (s.queue.consumed s.queue.consumerBlock)) p.entriesPerBlock) }
      owner := .credit batch blocks (s.queue.reserved (p.next s.queue.consumerBlock)) }
      v.takeOver fate := by
  obtain ⟨hrest, hpopped, hlt⟩ : Owner.Knows p v (.exchange batch blocks) := hpc ▸ hs.owner
  have hlap := hs.shows'.valid.lap
  rw [hrest.opened] at hlap
  have htaken := hrest.taken
  have hconsumed : s.queue.consumed s.queue.consumerBlock =
      p.cursorAt v.consumer p.entriesPerBlock := by
    rw [hs.shows'.consumer, hs.shows'.consumed_consumer, hpopped]
  rw [hconsumed, hs.shows'.next_consumer, Params.nextVersion_cursorAt (Nat.le_refl _),
    Params.make_cursorAt (Nat.le_refl _)]
  refine hs.owned rfl (hs.shows'.takeOver hrest.taken hlt hpopped) (hs.fates.of_same rfl rfl rfl) ?_
    ⟨Nat.le_refl _, Nat.le_succ _, Nat.le_refl _, fun _ ↦ Nat.le_refl _⟩ fun _ _ ↦ Iff.rfl
  exact ⟨hrest.opened, hrest.reset, congrArg (· + 1) hrest.taken,
    hs.shows'.reserved_at ⟨hlt, by omega⟩ (by omega)⟩

theorem credit (hs : Sound p s v fate) {batch : Bool} {blocks previous : ℕ}
    (hpc : s.owner = .credit batch blocks previous) :
    Sound p { s with
      queue := { s.queue with
        stolen := Function.update s.queue.stolen (p.next s.queue.consumerBlock)
          (s.queue.stolen (p.next s.queue.consumerBlock) +
            (p.entriesPerBlock - min (p.index previous) p.entriesPerBlock))
        consumed := Function.update s.queue.consumed (p.next s.queue.consumerBlock) previous
        consumerBlock := p.next s.queue.consumerBlock }
      owner := .locate batch blocks }
      (v.credit p.entriesPerBlock) (assign p fate (v.consumer + 1) (v.claimed (v.consumer + 1))
        p.entriesPerBlock .kept) := by
  obtain ⟨hopened, hreset, htaken, rfl⟩ : Owner.Knows p v (.credit batch blocks previous) :=
    hpc ▸ hs.owner
  have hclaimed := hs.shows'.claimed_le (v.consumer + 1)
  have hcredit := hs.shows'.credit (by omega)
  rw [hs.shows'.next_consumer, Params.index_cursorAt hclaimed, Nat.min_eq_left hclaimed]
  refine hs.owned rfl hcredit (hs.fates.credit hs.shows'.valid.first) ⟨hopened, hreset, htaken⟩
    ⟨Nat.le_refl _, Nat.le_refl _, Nat.le_refl _, fun _ ↦ Nat.le_refl _⟩ fun a k ↦ ?_
  obtain ⟨r, i, hr, hi, rfl⟩ := p.exists_entry k
  rw [assign_entry (Nat.le_succ_of_le hs.shows'.valid.first) hr hi (Nat.le_refl _)]
  split_ifs with hrange
  · obtain ⟨rfl, hfree, -⟩ := hrange
    rw [(hs.fates.free _ i hr hi).mpr ⟨Nat.lt_succ_self _, hfree⟩]
    exact iff_of_false (fun h ↦ nomatch h) fun h ↦ nomatch h
  · exact Iff.rfl

/-! ### The thieves' steps -/

/-- The round of an entry that a thief holds is still there. -/
theorem opened_lt (hs : Sound p s v fate) {a : ι} (hr : p.numBlocks ≤ r)
    (hi : i < p.entriesPerBlock) (hheld : fate (p.entry r i) = .held a) :
    v.opened < r + p.numBlocks :=
  Nat.lt_of_not_le fun hle ↦ hs.fates.not_held hr hi (hs.shows'.valid.recycled r hle) a hheld

/-- What a thief copies is of a round that is still there. -/
theorem copying (hs : Sound p s v fate) {a : ι} {block reserved last : ℕ} {got : List α}
    (hpc : s.thief a = .copy block reserved last got) :
    ∃ r i, Copies p v block reserved last r i ∧ i + got.length < last ∧ p.index reserved = i ∧
      (∀ j, p.ticket block reserved j = p.entry r j) ∧ v.opened < r + p.numBlocks := by
  obtain ⟨r, i, hcopies, hmore⟩ : Thief.Knows p v (.copy block reserved last got) :=
    hpc ▸ hs.thief a
  have hsize := View.committed_le p.entriesPerBlock v r
  have hlast := hcopies.committed
  have hindex : p.index reserved = i := by
    rw [hcopies.reserved, Params.index_cursorAt (by omega)]
  have hticket (j : ℕ) : p.ticket block reserved j = p.entry r j := by
    rw [hcopies.block, hcopies.reserved, Params.ticket_cursorAt hcopies.first (by omega)]
  have hheld : fate (p.entry r i) = .held a := by
    rw [hs.held a, hpc]
    change p.ticket block reserved (p.index reserved) ≤ _ ∧ _ < p.ticket block reserved last
    rw [hticket, hticket, hindex]
    exact ⟨Nat.le_refl _, Nat.add_lt_add_left hcopies.nonempty _⟩
  exact ⟨r, i, hcopies, hmore, hindex, hticket, hs.opened_lt hcopies.first (by omega) hheld⟩

/-- While `reserved` is what a thief saw, the round has not been taken over and nobody has claimed
more of it. -/
theorem unchanged (hs : Sound p s v fate) {position reserved : ℕ}
    (hseen : Seen p v position reserved r i)
    (hsame : s.queue.reserved (p.block position) = reserved) :
    v.taken < r ∧ v.claimed r = i := by
  obtain ⟨r', hwindow, hmod, -⟩ : ∃ r', InWindow p.numBlocks v.entered r' ∧
      r' % p.numBlocks = r % p.numBlocks ∧ r ≤ r' :=
    exists_inWindow p.numBlocks_pos hseen.entered
  have hindex := hs.shows'.reservedIndex_le r'
  have hroom := hseen.room
  rw [hseen.block, ← hmod, hs.shows'.reserved r' hwindow, hseen.reserved,
    Params.cursorAt_eq_iff hmod hindex (Nat.le_of_lt hseen.room)] at hsame
  obtain ⟨rfl, heq⟩ := hsame
  split_ifs at heq with htaken
  · omega
  · exact ⟨Nat.lt_of_not_le htaken, heq⟩

/-- A thief loads `reserved`. -/
theorem seen (hs : Sound p s v fate) (position : ℕ)
    (hroom : p.index (s.queue.reserved (p.block position)) < p.entriesPerBlock) :
    ∃ r i, Seen p v position (s.queue.reserved (p.block position)) r i := by
  have hfirst := hs.shows'.valid.first
  have hconsumer := hs.shows'.valid.consumer_le
  have htaken := hs.shows'.valid.taken_le_entered
  have hblock : p.block position < p.numBlocks := by
    rw [p.block_eq]
    exact Nat.mod_lt _ p.numBlocks_pos
  obtain ⟨r, hwindow, hmod⟩ := exists_round hblock (by omega : p.numBlocks ≤ v.entered)
  have hreserved : s.queue.reserved (r % p.numBlocks) =
    p.cursorAt r (if r ≤ v.taken then p.entriesPerBlock else v.claimed r) :=
    hs.shows'.reserved r hwindow
  rw [hmod] at hreserved
  rw [hreserved, Params.index_cursorAt (hs.shows'.reservedIndex_le r)] at hroom
  split_ifs at hroom hreserved with hlow
  · omega
  · exact ⟨r, v.claimed r, hmod.symm, hreserved, by omega, hwindow.1, Nat.le_refl _, hroom⟩

/-- A thief loads `committed`. -/
theorem committed_seen (hs : Sound p s v fate) {position reserved : ℕ}
    (hseen : Seen p v position reserved r i)
    (hne : p.index reserved ≠ p.index (s.queue.committed (p.block position)))
    (htaken : v.taken < r) (hclaimed : v.claimed r = i) :
    ∃ j, s.queue.committed (p.block position) = p.cursorAt r j ∧ i < j ∧
      j ≤ v.committed p.entriesPerBlock r := by
  have hsize := View.committed_le p.entriesPerBlock v r
  have hroom := hseen.room
  have hentered := hseen.entered
  have hreset := hs.shows'.valid.entered_le
  have hopened := hs.shows'.valid.reset_le
  have hleft := hs.shows'.valid.left_le_claimed r
    (Nat.lt_of_le_of_lt hs.shows'.valid.consumer_le htaken)
  -- the producer has not opened the block again: not all of the round has been left
  have hwindow : v.opened < r + p.numBlocks := Nat.lt_of_not_le fun hle ↦ by
    have hall := hs.shows'.valid.recycled r hle
    omega
  have hcommitted := hs.shows'.committed_at (r := r) ⟨by omega, hwindow⟩
  have hle := hs.shows'.valid.claimed_le r
  rw [hseen.block, hcommitted, hseen.reserved, Params.index_cursorAt hsize,
    Params.index_cursorAt (Nat.le_of_lt hroom)] at hne
  refine ⟨_, ?_, by omega, Nat.le_refl _⟩
  rw [hseen.block, hcommitted]

variable [DecidableEq ι] {a : ι}

/-- A thief moves. -/
theorem thieved (hs : Sound p s v fate) {thief : Thief α} (howner : t.owner = s.owner)
    (hthief : t.thief = Function.update s.thief a thief) (hshows : Shows p t.queue v')
    (hfates : Fates p v' fate') (howner' : s.owner.Knows p v') (hknows : thief.Knows p v')
    (hgrows : v.Grows v') (hself : ∀ k, fate' k = .held a ↔ thief.Holds p k)
    (hothers : ∀ b, b ≠ a → ∀ k, fate' k = .held b ↔ fate k = .held b) :
    Sound p t v' fate' where
  shows' := hshows
  fates := hfates
  owner := howner ▸ howner'
  thief := by
    intro b
    rw [hthief]
    rcases eq_or_ne b a with rfl | hne
    · rwa [Function.update_self]
    · rw [Function.update_of_ne hne]
      exact (hs.thief b).mono hgrows
  held := by
    intro b k
    rw [hthief]
    rcases eq_or_ne b a with rfl | hne
    · rw [Function.update_self]
      exact hself k
    · rw [Function.update_of_ne hne]
      exact (hothers b hne k).trans (hs.held b k)

/-- A thief goes on and holds what it held. -/
theorem goto (hs : Sound p s v fate) {thief : Thief α} (hknows : thief.Knows p v)
    (hholds : ∀ k, thief.Holds p k ↔ (s.thief a).Holds p k) : Sound p (s.goto a thief) v fate :=
  hs.thieved rfl rfl hs.shows' hs.fates hs.owner hknows (.refl v)
    (fun k ↦ (hs.held a k).trans (hholds k).symm) fun _ _ _ ↦ Iff.rfl

/-- A thief's exchange of `reserved` succeeds. -/
theorem claim (hs : Sound p s v fate) {batch : Bool} {position reserved committed : ℕ}
    (hpc : s.thief a = .claim batch position reserved committed)
    (hsame : s.queue.reserved (p.block position) = reserved) :
    ∃ r count, v.taken < r ∧
      Sound p ({ s with
        queue := { s.queue with
          reserved := Function.update s.queue.reserved (p.block position)
            (if batch then committed else PackedCursor.addIndex .unbounded reserved 1) } }.goto a
        (.copy (p.block position) reserved (p.index (if batch then committed
          else PackedCursor.addIndex .unbounded reserved 1)) [])) (v.claim r count)
        (assign p fate r (v.claimed r) (v.claimed r + count) (.held a)) := by
  obtain ⟨r, i, hseen, hcommitted⟩ : Thief.Knows (α := α) p v
      (.claim batch position reserved committed) := hpc ▸ hs.thief a
  obtain ⟨htaken, hclaimed⟩ := hs.unchanged hseen hsame
  obtain ⟨j, heq, hlt, hle⟩ := hcommitted htaken hclaimed
  have hfirst := hs.shows'.valid.first
  have hlow := Nat.lt_of_le_of_lt hs.shows'.valid.consumer_le htaken
  have hsize := View.committed_le p.entriesPerBlock v r
  -- where the claim ends
  obtain ⟨last, hword, hsome, hlast⟩ : ∃ last,
      (if batch then committed else PackedCursor.addIndex .unbounded reserved 1) =
        p.cursorAt r last ∧ i < last ∧ last ≤ v.committed p.entriesPerBlock r := by
    cases batch with
    | true => exact ⟨j, heq, hlt, hle⟩
    | false =>
      refine ⟨i + 1, ?_, Nat.lt_succ_self i, by omega⟩
      rw [hseen.reserved, PackedCursor.addIndex, Width.wrap_unbounded, Params.cursorAt_add]
      rfl
  have hsum : v.claimed r + (last - i) = last := by omega
  have hroom : v.claimed r + (last - i) ≤ v.committed p.entriesPerBlock r := by omega
  have hindex : p.index (p.cursorAt r last) = last :=
    Params.index_cursorAt (Nat.le_trans hlast hsize)
  have hnothing (k : ℕ) : fate k ≠ .held a := by
    rw [Ne, hs.held a k, hpc]
    exact fun h ↦ h
  refine ⟨r, last - i, htaken, hs.thieved rfl rfl ?_
    (hs.fates.claim hseen.first hlow (Nat.le_trans hroom hsize) a) ?_ ?_ (v.grows_claim r _)
    (fun k ↦ ?_) fun b hne k ↦ ?_⟩
  · have hclaim := hs.shows'.claim htaken hseen.entered hroom
    rw [hsum, ← hword, ← hseen.block] at hclaim
    exact hclaim
  · refine hs.owner.disturbed (fun _ h ↦ h) fun k hk ↦ Function.update_of_ne ?_ _ _
    omega
  · rw [hword, hindex]
    exact ⟨r, i, ⟨hseen.block, hseen.reserved, hseen.first, hseen.entered, hlast, hsome⟩, hsome⟩
  · rw [hword, hindex, hsum, hclaimed, assign]
    change _ ↔ p.ticket (p.block position) reserved (p.index reserved) ≤ k ∧
      k < p.ticket (p.block position) reserved last
    rw [hseen.block, hseen.reserved, Params.index_cursorAt (Nat.le_of_lt hseen.room),
      Params.ticket_cursorAt hseen.first (Nat.le_of_lt hseen.room),
      Params.ticket_cursorAt hseen.first (Nat.le_of_lt hseen.room)]
    split_ifs with hrange
    · exact iff_of_true rfl hrange
    · exact iff_of_false (hnothing k) hrange
  · obtain ⟨r', i', hr', hi', rfl⟩ := p.exists_entry k
    rw [assign_entry hseen.first hr' hi' (Nat.le_trans hroom hsize)]
    split_ifs with hrange
    · obtain ⟨rfl, hfree, -⟩ := hrange
      rw [(hs.fates.free r' i' hr' hi').mpr ⟨hlow, hfree⟩]
      refine iff_of_false (fun h ↦ hne ?_) fun h ↦ by cases h
      exact (Fate.held.inj h).symm
    · exact Iff.rfl

/-- A thief copies the next entry. -/
theorem copy (hs : Sound p s v fate) {block reserved last : ℕ} {got : List α}
    (hpc : s.thief a = .copy block reserved last got) (value : α) :
    Sound p (s.goto a (if p.index reserved + got.length + 1 < last then
      .copy block reserved last (got ++ [value]) else .leave block reserved (got ++ [value])))
      v fate := by
  obtain ⟨r, i, hcopies, hmore, hindex, -, -⟩ := hs.copying hpc
  have hlength : (got ++ [value]).length = got.length + 1 := by simp
  rw [hindex]
  split_ifs with hnext
  · refine hs.goto ⟨r, i, hcopies, by omega⟩ fun k ↦ ?_
    rw [hpc]
    exact Iff.rfl
  · have hend : i + (got ++ [value]).length = last := by omega
    refine hs.goto ⟨r, i, hend.symm ▸ hcopies⟩ fun k ↦ ?_
    rw [hpc]
    change p.ticket block reserved (p.index reserved) ≤ k ∧
      k < p.ticket block reserved (p.index reserved + (got ++ [value]).length) ↔ _
    rw [hindex, hend, ← hindex]
    exact Iff.rfl

/-- A thief leaves what it has copied. -/
theorem leave (hs : Sound p s v fate) {block reserved : ℕ} {got : List α}
    (hpc : s.thief a = .leave block reserved got) (history : List (α × ℕ)) :
    ∃ r i, Copies p v block reserved (i + got.length) r i ∧ Sound p ({ s with
      queue := { s.queue with
        stolen := Function.update s.queue.stolen block (s.queue.stolen block + got.length) }
      stolen := history }.goto a (.idle (some got))) (v.leave r got.length)
      (assign p fate r i (i + got.length) .stolen) := by
  obtain ⟨r, i, hcopies⟩ : Thief.Knows p v (.leave block reserved got) := hpc ▸ hs.thief a
  have hsize := Nat.le_trans hcopies.committed (View.committed_le p.entriesPerBlock v r)
  have hsome := hcopies.nonempty
  have hheld (k : ℕ) : fate k = .held a ↔ p.entry r i ≤ k ∧ k < p.entry r (i + got.length) := by
    rw [hs.held a k, hpc]
    change p.ticket block reserved (p.index reserved) ≤ k ∧
      k < p.ticket block reserved (p.index reserved + got.length) ↔ _
    rw [hcopies.block, hcopies.reserved, Params.index_cursorAt (by omega),
      Params.ticket_cursorAt hcopies.first (by omega),
      Params.ticket_cursorAt hcopies.first (by omega)]
  have hopened := hs.opened_lt hcopies.first (by omega)
    ((hheld _).mpr ⟨Nat.le_refl _, Nat.add_lt_add_left hsome _⟩)
  have hfates := hs.fates.leave hcopies.first hsize hheld
  rw [Nat.add_sub_cancel_left] at hfates
  have hself : (v.leave r got.length).left r = v.left r + got.length := Function.update_self _ _ _
  have hleft := hfates.left_le hcopies.first
  have hentered := hcopies.entered
  have hreset := hs.shows'.valid.entered_le
  have hopen := hs.shows'.valid.reset_le
  have hvalid := hs.shows'.valid.leave (r := r) (by rwa [hself] at hleft) fun hlow ↦ by
    have hclaimed := hfates.left_le_claimed hcopies.first hlow
    rwa [hself] at hclaimed
  refine ⟨r, i, hcopies, hs.thieved rfl rfl ?_ hfates ?_ trivial
    ⟨Nat.le_refl _, Nat.le_refl _, Nat.le_refl _, fun _ ↦ Nat.le_refl _⟩ (fun k ↦ ?_)
    fun b hne k ↦ ?_⟩
  · have hleave := hs.shows'.leave ⟨by omega, by omega⟩ hvalid
    rw [← hcopies.block] at hleave
    exact hleave
  · refine hs.owner.disturbed (fun k hk ↦ ?_) fun _ _ ↦ rfl
    rw [Function.update_of_ne, hk]
    rintro rfl
    rw [hself] at hleft
    omega
  · refine iff_of_false (fun h ↦ ?_) fun h ↦ h
    rw [assign] at h
    split_ifs at h with hrange
    exact hrange ((hheld k).mp h)
  · rw [assign]
    split_ifs with hrange
    · rw [(hheld k).mpr hrange]
      exact iff_of_false (fun h ↦ nomatch h) fun h ↦ hne (Fate.held.inj h).symm
    · exact Iff.rfl

end Sound

end Stackfull.Queue.Bwos
