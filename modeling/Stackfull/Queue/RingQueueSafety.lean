import Stackfull.Queue.RingQueue

/-!
# Every pushed value is handed out once, in order

`Sound` reads the counters as numbers: `head` is the number of entries handed out and `tail` the
number pushed, modulo `2 ^ w`, and the slots between them hold the values pushed there. A taker that
copies slots knows nothing while `head` moves on, but as long as `head` stands where the taker
loaded it (`Knows`), what it has copied is a prefix of what is next. An exchange that succeeds
therefore certifies the copy, if `head` has not come back to the same word by going all the way
around.
-/

set_option autoImplicit false
set_option relaxedAutoImplicit false
set_option linter.dupNamespace false

namespace Stackfull.Queue.Ring

open Stackfull.Lib

universe u v

variable {w : ℕ} {ι : Type u} {α : Type v} {p : Params w}

/-! ### Counters as words -/

theorem Params.capacity_pos (p : Params w) : 0 < p.capacity :=
  Nat.two_pow_pos _

theorem Params.capacity_dvd (p : Params w) : p.capacity ∣ 2 ^ w :=
  Nat.pow_dvd_pow 2 (Nat.le_of_lt p.fits)

theorem Params.capacity_lt (p : Params w) : p.capacity < 2 ^ w :=
  Nat.pow_lt_pow_right Nat.one_lt_two p.fits

theorem Params.entriesPerBlock_pos (p : Params w) : 0 < p.entriesPerBlock := by
  have hle : 2 ^ 1 ≤ p.capacity := Nat.pow_le_pow_right Nat.two_pos p.two_le
  unfold Params.entriesPerBlock
  omega

/-- The slot of a counter does not depend on how often the counter has gone around. -/
theorem Params.slot_ofNat (p : Params w) (k : ℕ) :
    p.slot (BitVec.ofNat w k) = k % p.capacity := by
  rw [Params.slot, BitVec.toNat_ofNat, Nat.mod_mod_of_dvd _ p.capacity_dvd]

theorem toNat_ofNat_sub {low high : ℕ} (hle : low ≤ high) (hlt : high < low + 2 ^ w) :
    (BitVec.ofNat w high - BitVec.ofNat w low).toNat = high - low := by
  rw [BitVec.toNat_sub, BitVec.toNat_ofNat, BitVec.toNat_ofNat]
  have hpos := Nat.two_pow_pos w
  have hlow := Nat.mod_lt low hpos
  have hsplit : 2 ^ w - low % 2 ^ w + high = (high - low) + (1 + low / 2 ^ w) * 2 ^ w := by
    have h := Nat.mod_add_div low (2 ^ w)
    rw [Nat.add_mul, Nat.one_mul, Nat.mul_comm (low / 2 ^ w)]
    omega
  rw [Nat.add_mod, Nat.mod_mod, ← Nat.add_mod, hsplit, Nat.add_mul_mod_self_right,
    Nat.mod_eq_of_lt (by omega)]

theorem eq_of_ofNat_eq {low high : ℕ} (hle : low ≤ high) (hlt : high < low + 2 ^ w)
    (heq : BitVec.ofNat w high = BitVec.ofNat w low) : high = low := by
  have h := toNat_ofNat_sub hle hlt
  rw [heq, BitVec.sub_self, BitVec.toNat_zero] at h
  omega

/-- A taker takes at least one entry and no more than there are. -/
theorem Params.batch_bounds (p : Params w) (block : Bool) {available : ℕ} (hpos : 0 < available) :
    0 < p.batch block available ∧ p.batch block available ≤ available := by
  have h := p.entriesPerBlock_pos
  unfold Params.batch
  split_ifs <;> omega

/-! ### What a call knows -/

/-- What the owner or a thief knows where it stands. -/
def Knows (p : Params w) (s : State w ι α) (a : Agent ι) : Pc w α → Prop
  | .idle _ => True
  | .pushHead _ _ => a = .owner
  | .pushStore _ _ _ => a = .owner ∧ s.pushed.length < s.taken + p.capacity
  | .pushTail value _ _ =>
    a = .owner ∧ s.pushed.length < s.taken + p.capacity ∧
      s.buffer (s.pushed.length % p.capacity) = value
  | .takeHead _ => True
  | .takeTail _ head => head = BitVec.ofNat w (s.loaded a) ∧ s.loaded a ≤ s.taken
  | .takeRead _ head n got =>
    head = BitVec.ofNat w (s.loaded a) ∧ s.loaded a ≤ s.taken ∧
      (s.loaded a = s.taken → got.length < n ∧ s.taken + n ≤ s.pushed.length ∧
        got <+: s.pushed.drop s.taken)
  | .takeExchange _ head got =>
    head = BitVec.ofNat w (s.loaded a) ∧ s.loaded a ≤ s.taken ∧ got ≠ [] ∧
      (s.loaded a = s.taken → got <+: s.pushed.drop s.taken)

/-- The counters, the slots and the calls are as the history says. -/
structure Sound (p : Params w) (s : State w ι α) : Prop where
  head : s.head = BitVec.ofNat w s.taken
  tail : s.tail = BitVec.ofNat w s.pushed.length
  handed : s.handed.flatten = s.pushed.take s.taken
  order : s.taken ≤ s.pushed.length
  room : s.pushed.length ≤ s.taken + p.capacity
  slots : ∀ i, s.taken ≤ i → i < s.pushed.length →
    s.pushed[i]? = some (s.buffer (i % p.capacity))
  knows : ∀ a, Knows p s a (s.pc a)

variable {s t : State w ι α} {a b : Agent ι}

/-- The entries between the counters are those pushed and not handed out. -/
theorem Sound.available (hs : Sound p s) : (s.tail - s.head).toNat = s.pushed.length - s.taken := by
  rw [hs.head, hs.tail]
  exact toNat_ofNat_sub hs.order (Nat.lt_of_le_of_lt hs.room
    (Nat.add_lt_add_left p.capacity_lt _))

theorem Sound.slot_head (hs : Sound p s) (i : ℕ) :
    p.slot (s.head + BitVec.ofNat w i) = (s.taken + i) % p.capacity := by
  rw [hs.head, ← BitVec.ofNat_add, p.slot_ofNat]

theorem Sound.ring_eq (hs : Sound p s) : s.ring p = s.pushed.drop s.taken := by
  refine List.ext_getElem? fun i ↦ ?_
  rw [List.getElem?_drop, State.ring, hs.available, List.getElem?_map]
  by_cases hi : i < s.pushed.length - s.taken
  · rw [List.getElem?_range hi, hs.slots _ (Nat.le_add_right _ _) (by omega), Option.map_some,
      hs.slot_head]
  · rw [List.getElem?_eq_none (by simpa using hi), List.getElem?_eq_none (by omega),
      Option.map_none]

/-- Where the exchange succeeds, `head` has not moved since it was loaded. -/
theorem loaded_eq_taken (hs : Sound p s) {head : BitVec w}
    (hhead : head = BitVec.ofNat w (s.loaded a))
    (hle : s.loaded a ≤ s.taken) (hnear : s.taken < s.loaded a + 2 ^ w) (heq : s.head = head) :
    s.loaded a = s.taken := by
  refine (eq_of_ofNat_eq hle hnear ?_).symm
  rw [← hs.head, heq, hhead]

theorem Sound.contract (hs : Sound p s) : Contract p s where
  once := by rw [hs.ring_eq, hs.handed, List.take_append_drop]
  room := by
    have h := hs.room
    rw [hs.available]
    omega
  fresh := by
    intro a block head got hpc heq hnear
    have hknows := hs.knows a
    rw [hpc] at hknows
    obtain ⟨hhead, hle, -, hgot⟩ := hknows
    simp only [near, hpc, decide_eq_true_eq] at hnear
    rw [hs.ring_eq]
    exact hgot (loaded_eq_taken hs hhead hle hnear heq)

/-! ### What the steps keep -/

variable [DecidableEq ι]

/-- A call goes on and nothing else changes. -/
theorem Sound.goto (hs : Sound p s) {pc : Pc w α} (hpc : Knows p s a pc) :
    Sound p (s.goto a pc) where
  __ := hs
  knows b := by
    change Knows p s b (Function.update s.pc a pc b)
    rcases eq_or_ne b a with rfl | hne
    · rwa [Function.update_self]
    · rw [Function.update_of_ne hne]
      exact hs.knows b

theorem Sound.ret (hs : Sound p s) (result : Result α) : Sound p (s.ret a result) := by
  have h : Sound p (s.goto a (.idle (some result))) := hs.goto trivial
  exact { h with }

theorem Sound.begun (hs : Sound p s) {pc : Pc w α} (hpc : Knows p s a pc) :
    Sound p (State.call.begun s a pc) :=
  { hs.goto hpc with }

theorem Sound.call (hs : Sound p s) {call : Call α} (hstep : s.call a call = some t) :
    Sound p t := by
  unfold State.call at hstep
  split at hstep
  · exact Option.some.inj hstep ▸ hs.begun rfl
  · exact Option.some.inj hstep ▸ hs.begun trivial
  · exact nomatch hstep

/-- The owner stores the next value behind the last entry. -/
theorem Sound.store (hs : Sound p s) {value : α} {rest : List α} {count : ℕ}
    (hpc : s.pc .owner = .pushStore value rest count) :
    Sound p ({ s with buffer := Function.update s.buffer (p.slot s.tail) value }.goto .owner
      (.pushTail value rest count)) := by
  have hroom : s.pushed.length < s.taken + p.capacity := by
    have h := hs.knows .owner
    rw [hpc] at h
    exact h.2
  have hslot : p.slot s.tail = s.pushed.length % p.capacity := by rw [hs.tail, p.slot_ofNat]
  refine ⟨hs.head, hs.tail, hs.handed, hs.order, hs.room, fun i hi hlt ↦ ?_, fun b ↦ ?_⟩
  · change s.taken ≤ i at hi
    change i < s.pushed.length at hlt
    change s.pushed[i]? = some (Function.update s.buffer (p.slot s.tail) value (i % p.capacity))
    rw [Function.update_of_ne, hs.slots i hi hlt]
    -- two entries fewer than `Capacity` apart do not share a slot
    rw [hslot]
    intro heq
    have hzero := Nat.sub_mod_eq_zero_of_mod_eq heq.symm
    rw [Nat.mod_eq_of_lt (by omega)] at hzero
    omega
  · change Knows p _ b (Function.update s.pc .owner _ b)
    rcases eq_or_ne b .owner with rfl | hne
    · rw [Function.update_self]
      refine ⟨rfl, hroom, ?_⟩
      change Function.update s.buffer (p.slot s.tail) value (s.pushed.length % p.capacity) = value
      rw [hslot, Function.update_self]
    · rw [Function.update_of_ne hne]
      have h := hs.knows b
      revert h
      cases s.pc b <;> intro h
      case pushTail => exact absurd h.1 hne
      all_goals exact h

/-- The owner publishes the value it has stored. -/
theorem Sound.publish (hs : Sound p s) {value : α} {rest : List α} {count : ℕ}
    (hpc : s.pc .owner = .pushTail value rest count) :
    Sound p ({ s with tail := s.tail + 1, pushed := s.pushed ++ [value] }.goto .owner
      (.pushHead rest (count + 1))) := by
  obtain ⟨-, hroom, hvalue⟩ : Knows p s .owner (.pushTail value rest count) := hpc ▸ hs.knows .owner
  have hlength : (s.pushed ++ [value]).length = s.pushed.length + 1 := by simp
  have hgrows : s.pushed.length ≤ (s.pushed ++ [value]).length := by omega
  have hprefix {got : List α} (hgot : got <+: s.pushed.drop s.taken) :
      got <+: (s.pushed ++ [value]).drop s.taken := by
    rw [List.drop_append_of_le_length hs.order]
    exact hgot.trans (List.prefix_append _ _)
  refine ⟨hs.head, ?_, ?_, ?_, ?_, fun i hi hlt ↦ ?_, fun b ↦ ?_⟩
  · change s.tail + 1 = BitVec.ofNat w (s.pushed ++ [value]).length
    rw [hlength, BitVec.ofNat_add, hs.tail]
    rfl
  · change s.handed.flatten = (s.pushed ++ [value]).take s.taken
    rw [List.take_append_of_le_length hs.order, hs.handed]
  · change s.taken ≤ (s.pushed ++ [value]).length
    have h := hs.order
    omega
  · change (s.pushed ++ [value]).length ≤ s.taken + p.capacity
    omega
  · change i < (s.pushed ++ [value]).length at hlt
    change (s.pushed ++ [value])[i]? = some (s.buffer (i % p.capacity))
    rcases Nat.lt_or_eq_of_le (Nat.le_of_lt_succ (hlength ▸ hlt)) with hold | rfl
    · rw [List.getElem?_append_left hold]
      exact hs.slots i hi hold
    · rw [List.getElem?_concat_length, hvalue]
  · change Knows p _ b (Function.update s.pc .owner _ b)
    rcases eq_or_ne b .owner with rfl | hne
    · rw [Function.update_self]
      exact rfl
    · rw [Function.update_of_ne hne]
      have h := hs.knows b
      revert h
      cases s.pc b <;> intro h
      case pushStore => exact absurd h.1 hne
      case pushTail => exact absurd h.1 hne
      case takeRead =>
        refine ⟨h.1, h.2.1, fun heq ↦ ?_⟩
        obtain ⟨hlt, hle, hgot⟩ := h.2.2 heq
        exact ⟨hlt, Nat.le_trans hle hgrows, hprefix hgot⟩
      case takeExchange => exact ⟨h.1, h.2.1, h.2.2.1, fun heq ↦ hprefix (h.2.2.2 heq)⟩
      all_goals exact h

omit [DecidableEq ι] in
/-- A call depends on its own load of `head` only. -/
theorem knows_load {loaded : Agent ι → ℕ} (hloaded : loaded b = s.loaded b) {pc : Pc w α}
    (h : Knows p s b pc) : Knows p { s with loaded := loaded } b pc := by
  cases pc <;> simp only [Knows, hloaded] at h ⊢ <;> exact h

/-- A taker loads `head`. -/
theorem Sound.load (hs : Sound p s) (block : Bool) :
    Sound p ({ s with loaded := Function.update s.loaded a s.taken }.goto a
      (.takeTail block s.head)) := by
  refine { hs with knows := fun b ↦ ?_ }
  change Knows p _ b (Function.update s.pc a _ b)
  rcases eq_or_ne b a with rfl | hne
  · rw [Function.update_self]
    change s.head = BitVec.ofNat w (Function.update s.loaded b s.taken b) ∧
      Function.update s.loaded b s.taken b ≤ s.taken
    rw [Function.update_self]
    exact ⟨hs.head, Nat.le_refl _⟩
  · rw [Function.update_of_ne hne]
    exact knows_load (Function.update_of_ne hne _ _) (hs.knows b)

omit [DecidableEq ι] in
/-- A taker copies the next slot. -/
theorem Sound.read (hs : Sound p s) {block : Bool} {head : BitVec w} {n : ℕ} {got : List α}
    (hpc : s.pc a = .takeRead block head n got) (heq : s.loaded a = s.taken) :
    got ++ [s.buffer (p.slot (head + BitVec.ofNat w got.length))] <+: s.pushed.drop s.taken := by
  obtain ⟨hhead, -, hrest⟩ : Knows p s a (.takeRead block head n got) := hpc ▸ hs.knows a
  obtain ⟨hlt, hle, hgot⟩ := hrest heq
  have hslot := hs.slot_head got.length
  rw [hs.head, ← heq, ← hhead, heq] at hslot
  have hnext : (s.pushed.drop s.taken)[got.length]? =
      some (s.buffer ((s.taken + got.length) % p.capacity)) := by
    rw [List.getElem?_drop]
    exact hs.slots _ (Nat.le_add_right _ _) (by omega)
  rw [hslot, List.prefix_iff_eq_take, List.length_append, List.length_singleton,
    List.take_add_one, hnext, ← List.prefix_iff_eq_take.mp hgot]
  rfl

/-- An exchange that finds `head` where it was loaded hands out the next entries. -/
theorem Sound.exchange (hs : Sound p s) {block : Bool} {head : BitVec w} {got : List α}
    (hpc : s.pc a = .takeExchange block head got) (heq : s.loaded a = s.taken) :
    Sound p ({ s with
      head := head + BitVec.ofNat w got.length
      handed := s.handed ++ [got] }.ret a (.taken got)) := by
  obtain ⟨hhead, -, hne, hgot⟩ : Knows p s a (.takeExchange block head got) := hpc ▸ hs.knows a
  have hgot := hgot heq
  have hlength : got.length ≤ s.pushed.length - s.taken := by
    simpa using hgot.length_le
  have hpos := List.length_pos_of_ne_nil hne
  have horder := hs.order
  have hroom := hs.room
  have htaken : (s.handed ++ [got]).flatten.length = s.taken + got.length := by
    simp [State.taken]
  refine ⟨?_, hs.tail, ?_, ?_, ?_, fun i hi hlt ↦ ?_, fun b ↦ ?_⟩
  · change head + BitVec.ofNat w got.length = BitVec.ofNat w (s.handed ++ [got]).flatten.length
    rw [htaken, BitVec.ofNat_add, hhead, heq]
  · change (s.handed ++ [got]).flatten = s.pushed.take (s.handed ++ [got]).flatten.length
    rw [htaken, List.flatten_concat, hs.handed, List.take_add,
      ← List.prefix_iff_eq_take.mp hgot]
  · change (s.handed ++ [got]).flatten.length ≤ s.pushed.length
    omega
  · change s.pushed.length ≤ (s.handed ++ [got]).flatten.length + p.capacity
    omega
  · change (s.handed ++ [got]).flatten.length ≤ i at hi
    exact hs.slots i (by omega) hlt
  · change Knows p _ b (Function.update s.pc a _ b)
    rcases eq_or_ne b a with rfl | hother
    · rw [Function.update_self]
      trivial
    · rw [Function.update_of_ne hother]
      have h := hs.knows b
      have hmoved (hle : s.loaded b ≤ s.taken) :
          s.loaded b ≤ (s.handed ++ [got]).flatten.length ∧
            s.loaded b ≠ (s.handed ++ [got]).flatten.length := by omega
      have hspace (hlt : s.pushed.length < s.taken + p.capacity) :
          s.pushed.length < (s.handed ++ [got]).flatten.length + p.capacity := by omega
      revert h
      cases s.pc b <;> intro h
      case pushStore => exact ⟨h.1, hspace h.2⟩
      case pushTail => exact ⟨h.1, hspace h.2.1, h.2.2⟩
      case takeTail => exact ⟨h.1, (hmoved h.2).1⟩
      case takeRead =>
        exact ⟨h.1, (hmoved h.2.1).1, fun hsame ↦ absurd hsame (hmoved h.2.1).2⟩
      case takeExchange =>
        exact ⟨h.1, (hmoved h.2.1).1, h.2.2.1, fun hsame ↦ absurd hsame (hmoved h.2.1).2⟩
      all_goals exact h

/-- Every step of a call keeps the reading of the counters, if the exchange is near. -/
theorem Sound.act (hs : Sound p s) {spurious : Bool}
    (hnear : near s (.act a spurious : Action ι α) = true) (hstep : s.act p a spurious = some t) :
    Sound p t := by
  have hknows := hs.knows a
  unfold State.act at hstep
  split at hstep
  case h_1 => exact nomatch hstep
  case h_2 => exact Option.some.inj hstep ▸ hs.ret _
  case h_3 value rest count hpc =>
    rw [hpc] at hknows
    split_ifs at hstep with hfull
    · exact Option.some.inj hstep ▸ hs.ret _
    · refine Option.some.inj hstep ▸ hs.goto ⟨hknows, ?_⟩
      rw [hs.available] at hfull
      omega
  case h_4 value rest count hpc =>
    rw [hpc] at hknows
    obtain rfl : a = .owner := hknows.1
    exact Option.some.inj hstep ▸ hs.store hpc
  case h_5 value rest count hpc =>
    rw [hpc] at hknows
    obtain rfl : a = .owner := hknows.1
    exact Option.some.inj hstep ▸ hs.publish hpc
  case h_6 block hpc => exact Option.some.inj hstep ▸ hs.load block
  case h_7 block head hpc =>
    rw [hpc] at hknows
    split_ifs at hstep with hempty
    · exact Option.some.inj hstep ▸ hs.ret _
    · refine Option.some.inj hstep ▸ hs.goto ⟨hknows.1, hknows.2, fun heq ↦ ?_⟩
      have havailable : (s.tail - head).toNat = s.pushed.length - s.taken := by
        rw [hknows.1, heq, ← hs.head, hs.available]
      rw [havailable] at hempty ⊢
      have hbatch := p.batch_bounds block (Nat.pos_of_ne_zero hempty)
      exact ⟨hbatch.1, by omega, List.nil_prefix⟩
  case h_8 block head n got hpc =>
    rw [hpc] at hknows
    dsimp only at hstep
    split_ifs at hstep with hmore
    · refine Option.some.inj hstep ▸ hs.goto ⟨hknows.1, hknows.2.1, fun heq ↦ ?_⟩
      refine ⟨?_, (hknows.2.2 heq).2.1, hs.read hpc heq⟩
      simpa using hmore
    · exact Option.some.inj hstep ▸
        hs.goto ⟨hknows.1, hknows.2.1, by simp, fun heq ↦ hs.read hpc heq⟩
  case h_9 block head got hpc =>
    rw [hpc] at hknows
    split_ifs at hstep with hwon
    · simp only [near, hpc, decide_eq_true_eq] at hnear
      exact Option.some.inj hstep ▸
        hs.exchange hpc (loaded_eq_taken hs hknows.1 hknows.2.1 hnear hwon.1)
    · exact Option.some.inj hstep ▸ hs.goto trivial

theorem Sound.step (hs : Sound p s) {action : Action ι α} (hnear : near s action = true)
    (hstep : s.step p action = some t) : Sound p t := by
  cases action with
  | call a call => exact hs.call hstep
  | act a spurious => exact hs.act hnear hstep

omit [DecidableEq ι] in
theorem sound_initial [Inhabited α] : Sound p (initial : State w ι α) where
  head := rfl
  tail := rfl
  handed := rfl
  order := Nat.le_refl _
  room := Nat.zero_le _
  slots := fun i _ hi ↦ absurd hi (Nat.not_lt_zero i)
  knows := fun _ ↦ trivial

/-! ### Exactly once -/

/-- In every run in which `head` moves by fewer than `2 ^ w` entries between a call's load of it and
that call's exchange, every value is handed out once and in order, and what is in the ring is the
rest. -/
theorem exactly_once [Inhabited α] {s : State w ι α}
    (hs : (system ι α p).ReachableUnder (fun s action ↦ near s action = true) s) :
    Contract p s := by
  refine Sound.contract (System.ReachableUnder.invariant (P := Sound p) ?_ ?_ hs)
  · rintro s rfl
    exact sound_initial
  · exact fun s action t hs hnear hstep ↦ hs.step hnear hstep

/-- Thief 0 copies the first entry, thief 1 takes two entries, and the exchange of thief 0 fails; it
goes on and takes the third. -/
theorem exactly_once_outpaced :
    let p : Params 4 := ⟨3, by decide, by decide⟩
    let labels : List (Action (Fin 2) ℕ) :=
      Action.call .owner (.push [7, 8, 9]) :: List.replicate 10 (Action.act .owner false) ++
      Action.call (.thief 0) (.take false) :: List.replicate 3 (Action.act (.thief 0) false) ++
      Action.call (.thief 1) (.take true) :: List.replicate 5 (Action.act (.thief 1) false) ++
      List.replicate 5 (Action.act (.thief 0) false)
    let s := ((system (Fin 2) ℕ p).runUnder near initial labels).get (by decide +kernel)
    s.handed = [[7, 8], [9]] ∧ Contract p s :=
  ⟨by decide +kernel, exactly_once (System.reachableUnder_of_run rfl (Option.some_get _).symm)⟩

/-- Fewer than `2 ^ w` calls are not enough. While thief 0 is about to exchange `head`, the owner
pushes 8 values and thief 1 makes 6 calls; these take 16 entries, `head` is back at the same word of
4 bits, and the first value is handed out again. -/
theorem handed_out_twice :
    ¬ ∀ s : State 4 (Fin 2) ℕ, (system (Fin 2) ℕ ⟨3, by decide, by decide⟩).ReachableUnder
      (fun s _ ↦ FewOverlap s) s → Contract ⟨3, by decide, by decide⟩ s := by
  intro h
  let p : Params 4 := ⟨3, by decide, by decide⟩
  let push (value : ℕ) : List (Action (Fin 2) ℕ) :=
    .call .owner (.push [value]) :: List.replicate 4 (.act .owner false)
  let steal (n : ℕ) : List (Action (Fin 2) ℕ) :=
    .call (.thief 1) (.take true) :: List.replicate (n + 3) (.act (.thief 1) false)
  let labels : List (Action (Fin 2) ℕ) :=
    (List.range 8).flatMap push ++
    Action.call (.thief 0) (.take false) :: List.replicate 3 (Action.act (.thief 0) false) ++
    steal 4 ++ [8, 9, 10, 11].flatMap push ++ steal 4 ++ [12, 13, 14, 15].flatMap push ++
    [4, 2, 1, 1].flatMap steal ++ [Action.act (.thief 0) false]
  let few (s : State 4 (Fin 2) ℕ) (_ : Action (Fin 2) ℕ) : Bool :=
    [Agent.owner, .thief 0, .thief 1].all fun a ↦ (s.pc a).isIdle || s.overlap a < 2 ^ 4
  let s := ((system (Fin 2) ℕ p).runUnder few initial labels).get (by decide +kernel)
  have hreach : (system (Fin 2) ℕ p).ReachableUnder (fun s _ ↦ FewOverlap s) s := by
    refine (System.reachableUnder_of_run rfl (Option.some_get _).symm).mono ?_
    intro s action hfew a hbusy
    have hthieves : ∀ i : Fin 2, Agent.thief i ∈ [Agent.owner, .thief 0, .thief 1] := by decide
    have hmem : a ∈ [Agent.owner, .thief 0, .thief 1] := by
      rcases a with _ | i
      · decide
      · exact hthieves i
    have h := List.all_eq_true.mp hfew a hmem
    simpa [hbusy] using h
  exact absurd (h s hreach).once (by decide +kernel)

end Stackfull.Queue.Ring
