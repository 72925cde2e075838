import Mathlib.Data.List.Basic
import Mathlib.Logic.Relation
import Mathlib.Tactic.Common
import Stackfull.Io.BufReader

/-!
# Buffered and gathered writing to a byte stream

`writeAllImpl` and `writevAll` (`Async.cpp`) and `BufWriter` (`StreamSocket.cpp`) over the writes of
a socket. The kernel answers a write with an error, or accepts some of the bytes, at least one if
there are any. A gathered write offers the vectors one behind the other, and the vectors are then
advanced in place past what was accepted.

`accepted` and `writes` are history: the bytes the kernel has accepted, and how often it was asked.
-/

set_option autoImplicit false
set_option relaxedAutoImplicit false
set_option linter.dupNamespace false

namespace Stackfull.Io

universe u v w

/-- What a call returns and what is left behind. -/
structure Written (ε : Type v) (σ : Type w) where
  result : IoResult ε
  after : σ

/-- A socket that is written to: the bytes the kernel has accepted, and how it answers the
writes. -/
structure SendSocket (β : Type u) (ε : Type v) where
  accepted : List β
  answers : ℕ → Answer ε
  writes : ℕ

variable {β : Type u} {ε : Type v}

namespace SendSocket

/-- `writeImpl`, and `writev` of what the vectors hold. -/
def write (stream : SendSocket β ε) (bytes : List β) : Written ε (SendSocket β ε) :=
  match stream.answers stream.writes with
  | .fail error => ⟨⟨0, some (.os error)⟩, { stream with writes := stream.writes + 1 }⟩
  | .deliver more =>
    ⟨⟨(bytes.take (more + 1)).length, none⟩,
      { stream with
        accepted := stream.accepted ++ bytes.take (more + 1)
        writes := stream.writes + 1 }⟩

/-- A write that fails has sent nothing. -/
theorem write_error (stream : SendSocket β ε) (bytes : List β)
    (herror : (stream.write bytes).result.error.isSome = true) :
    (stream.write bytes).result.bytes = 0 ∧
      (stream.write bytes).after.accepted = stream.accepted := by
  unfold write at herror ⊢
  cases hanswer : stream.answers stream.writes with
  | fail error => exact ⟨rfl, rfl⟩
  | deliver more =>
    rw [hanswer] at herror
    exact absurd herror Bool.false_ne_true

theorem bytes_write_le (stream : SendSocket β ε) (bytes : List β) :
    (stream.write bytes).result.bytes ≤ bytes.length := by
  unfold write
  cases stream.answers stream.writes with
  | fail error => exact Nat.zero_le _
  | deliver more => exact List.length_take_le' _ _

/-- The bytes that a write reports are those that were accepted. -/
theorem accepted_write (stream : SendSocket β ε) (bytes : List β) :
    (stream.write bytes).after.accepted =
      stream.accepted ++ bytes.take (stream.write bytes).result.bytes := by
  unfold write
  cases stream.answers stream.writes with
  | fail error => exact (List.append_nil _).symm
  | deliver more =>
    change stream.accepted ++ bytes.take (more + 1) =
      stream.accepted ++ bytes.take (bytes.take (more + 1)).length
    rw [List.length_take, ← List.take_eq_take_min]

theorem bytes_write_pos (stream : SendSocket β ε) {bytes : List β} (hbytes : 0 < bytes.length)
    (herror : ¬ (stream.write bytes).result.error.isSome = true) :
    0 < (stream.write bytes).result.bytes := by
  unfold write at herror ⊢
  cases hanswer : stream.answers stream.writes with
  | fail error =>
    rw [hanswer] at herror
    exact absurd rfl herror
  | deliver more =>
    change 0 < (bytes.take (more + 1)).length
    rw [List.length_take]
    omega

end SendSocket

/-! ### `writeAllImpl` -/

/-- The loop of `writeAllImpl`. -/
def writeAllFrom (buffer : List β) (stream : SendSocket β ε) (sent : ℕ) :
    Written ε (SendSocket β ε) :=
  if sent < buffer.length then
    let chunk := stream.write (buffer.drop sent)
    if chunk.result.error.isSome then ⟨⟨sent, chunk.result.error⟩, chunk.after⟩
    else writeAllFrom buffer chunk.after (sent + chunk.result.bytes)
  else ⟨⟨sent, none⟩, stream⟩
  termination_by buffer.length - sent
  decreasing_by
    have hpos : 0 < chunk.result.bytes :=
      stream.bytes_write_pos (by rw [List.length_drop]; omega)
        ‹¬ chunk.result.error.isSome = true›
    change buffer.length - (sent + chunk.result.bytes) < buffer.length - sent
    omega

def writeAllImpl (stream : SendSocket β ε) (buffer : List β) : Written ε (SendSocket β ε) :=
  writeAllFrom buffer stream 0

theorem writeAllFrom_spec (buffer : List β) (stream : SendSocket β ε) (sent : ℕ)
    (hsent : sent ≤ buffer.length) :
    (writeAllFrom buffer stream sent).result.bytes ≤ buffer.length ∧
      stream.accepted ++ buffer.drop sent =
        (writeAllFrom buffer stream sent).after.accepted ++
          buffer.drop (writeAllFrom buffer stream sent).result.bytes := by
  induction stream, sent using writeAllFrom.induct buffer with
  | case1 stream sent hless chunk herror =>
    unfold writeAllFrom
    rw [if_pos hless, if_pos herror, (stream.write_error _ herror).2]
    exact ⟨hsent, rfl⟩
  | case2 stream sent hless chunk herror ih =>
    unfold writeAllFrom
    rw [if_pos hless, if_neg herror]
    have hbytes : chunk.result.bytes ≤ buffer.length - sent := by
      rw [← List.length_drop]
      exact stream.bytes_write_le _
    obtain ⟨hle, heq⟩ := ih (by omega)
    refine ⟨hle, ?_⟩
    rw [← heq, stream.accepted_write, List.append_assoc, ← List.drop_drop, List.take_append_drop]
  | case3 stream sent hless =>
    unfold writeAllFrom
    rw [if_neg hless]
    exact ⟨hsent, rfl⟩

theorem writeAllImpl_spec (stream : SendSocket β ε) (buffer : List β) :
    (writeAllImpl stream buffer).result.bytes ≤ buffer.length ∧
      stream.accepted ++ buffer =
        (writeAllImpl stream buffer).after.accepted ++
          buffer.drop (writeAllImpl stream buffer).result.bytes :=
  writeAllFrom_spec buffer stream 0 (Nat.zero_le _)

/-! ### `writevAll` -/

/-- The vectors past the next `left` bytes: the inner loop of `writevAll`, and the two assignments
behind it. -/
def advance : ℕ → List (List β) → List (List β)
  | _, [] => []
  | left, vector :: vectors =>
    if vector.length ≤ left then advance (left - vector.length) vectors
    else vector.drop left :: vectors

theorem flatten_advance (left : ℕ) (vectors : List (List β)) :
    (advance left vectors).flatten = vectors.flatten.drop left := by
  induction vectors generalizing left with
  | nil => exact List.drop_nil.symm
  | cons vector vectors ih =>
    unfold advance
    split_ifs with hlength
    · rw [ih, List.flatten_cons, List.drop_append, List.drop_eq_nil_of_le hlength, List.nil_append]
    · rw [List.flatten_cons, List.flatten_cons, List.drop_append_of_le_length (by omega)]

theorem length_advance_le (left : ℕ) (vectors : List (List β)) :
    (advance left vectors).length ≤ vectors.length := by
  induction vectors generalizing left with
  | nil => exact Nat.le_refl _
  | cons vector vectors ih =>
    unfold advance
    split_ifs
    · exact Nat.le_succ_of_le (ih _)
    · exact Nat.le_refl _

/-- Vectors without any bytes are passed. -/
theorem advance_eq_nil {left : ℕ} {vectors : List (List β)} (hempty : vectors.flatten = []) :
    advance left vectors = [] := by
  induction vectors generalizing left with
  | nil => rfl
  | cons vector vectors ih =>
    rw [List.flatten_cons, List.append_eq_nil_iff] at hempty
    unfold advance
    rw [if_pos (by rw [hempty.1]; exact Nat.zero_le _)]
    exact ih hempty.2

/-- The locals of `writevAll` and the socket. -/
structure Gather (β : Type u) (ε : Type v) where
  vectors : List (List β)
  sent : ℕ
  stream : SendSocket β ε

namespace Gather

/-- The write of one pass. -/
def chunk (g : Gather β ε) : Written ε (SendSocket β ε) := g.stream.write g.vectors.flatten

/-- A pass that does not fail. -/
def pass (g : Gather β ε) : Gather β ε :=
  ⟨advance g.chunk.result.bytes g.vectors, g.sent + g.chunk.result.bytes, g.chunk.after⟩

/-- What is still to be sent, and the vectors it is spread over. -/
def size (g : Gather β ε) : ℕ := g.vectors.flatten.length + g.vectors.length

/-- A pass sends a byte or passes vectors that have none. -/
theorem size_pass_lt (g : Gather β ε) (hvectors : g.vectors ≠ [])
    (herror : ¬ g.chunk.result.error.isSome = true) : g.pass.size < g.size := by
  have hcount := List.length_pos_iff.mpr hvectors
  by_cases hempty : g.vectors.flatten = []
  · have hnil : g.pass.vectors = [] := advance_eq_nil hempty
    rw [size, hnil]
    exact Nat.lt_of_lt_of_le hcount (Nat.le_add_left _ _)
  · have hpos : 0 < g.chunk.result.bytes :=
      g.stream.bytes_write_pos (List.length_pos_iff.mpr hempty) herror
    have hbytes : g.chunk.result.bytes ≤ g.vectors.flatten.length := g.stream.bytes_write_le _
    have hflatten : g.pass.vectors.flatten = g.vectors.flatten.drop g.chunk.result.bytes :=
      flatten_advance _ _
    have hlength : g.pass.vectors.length ≤ g.vectors.length := length_advance_le _ _
    rw [size, size, hflatten, List.length_drop]
    omega

end Gather

/-- `writevAll`. -/
def writevAll (g : Gather β ε) : Written ε (Gather β ε) :=
  if g.vectors = [] then ⟨⟨g.sent, none⟩, g⟩
  else if g.chunk.result.error.isSome then
    ⟨⟨g.sent, g.chunk.result.error⟩, { g with stream := g.chunk.after }⟩
  else writevAll g.pass
  termination_by g.size
  decreasing_by exact g.size_pass_lt ‹_› ‹_›

namespace Gather

/-- From one pass of the loop to the next. -/
inductive Pass : Gather β ε → Gather β ε → Prop
  | intro (g : Gather β ε) : g.vectors ≠ [] → ¬ g.chunk.result.error.isSome = true → Pass g g.pass

/-- What was sent is counted, and what is left comes behind it. -/
structure Conserves (start g : Gather β ε) : Prop where
  sent : ∃ out, g.stream.accepted = start.stream.accepted ++ out ∧
    out ++ g.vectors.flatten = start.vectors.flatten ∧ g.sent = start.sent + out.length

theorem Conserves.refl (start : Gather β ε) : Conserves start start :=
  ⟨⟨[], (List.append_nil _).symm, rfl, rfl⟩⟩

theorem Conserves.pass {start g : Gather β ε} (h : Conserves start g) :
    Conserves start g.pass := by
  obtain ⟨out, haccepted, hbytes, hsent⟩ := h.sent
  have hcount : g.chunk.result.bytes ≤ g.vectors.flatten.length := g.stream.bytes_write_le _
  have haccept : g.pass.stream.accepted =
      g.stream.accepted ++ g.vectors.flatten.take g.chunk.result.bytes :=
    g.stream.accepted_write _
  have hflatten : g.pass.vectors.flatten = g.vectors.flatten.drop g.chunk.result.bytes :=
    flatten_advance _ _
  refine ⟨⟨out ++ g.vectors.flatten.take g.chunk.result.bytes, ?_, ?_, ?_⟩⟩
  · rw [haccept, haccepted, List.append_assoc]
  · rw [hflatten, List.append_assoc, List.take_append_drop, hbytes]
  · change g.sent + g.chunk.result.bytes = _
    rw [hsent, List.length_append, List.length_take_of_le hcount, Nat.add_assoc]

theorem conserves_of_passes {start g : Gather β ε} (h : Relation.ReflTransGen Pass start g) :
    Conserves start g := by
  induction h with
  | refl => exact Conserves.refl start
  | tail _ hpass ih =>
    cases hpass with
    | intro => exact ih.pass

/-- The loop ends behind the last vector, or at an error. -/
theorem writevAll_passes (g : Gather β ε) :
    ∃ last, Relation.ReflTransGen Pass g last ∧
      (last.vectors = [] ∧ writevAll g = ⟨⟨last.sent, none⟩, last⟩ ∨
        last.chunk.result.error.isSome = true ∧
          writevAll g =
            ⟨⟨last.sent, last.chunk.result.error⟩, { last with stream := last.chunk.after }⟩) := by
  induction g using writevAll.induct with
  | case1 g hvectors =>
    refine ⟨g, .refl, .inl ⟨hvectors, ?_⟩⟩
    unfold writevAll
    exact if_pos hvectors
  | case2 g hvectors herror =>
    refine ⟨g, .refl, .inr ⟨herror, ?_⟩⟩
    unfold writevAll
    rw [if_neg hvectors, if_pos herror]
  | case3 g hvectors herror ih =>
    obtain ⟨last, hpasses, hend⟩ := ih
    refine ⟨last, .head (.intro g hvectors herror) hpasses, ?_⟩
    have hunfold : writevAll g = writevAll g.pass := by
      conv_lhs => unfold writevAll
      rw [if_neg hvectors, if_neg herror]
    rw [hunfold]
    exact hend

/-- There is a last pass. -/
theorem exists_last (g : Gather β ε) :
    ∃ last, Relation.ReflTransGen Pass g last ∧ ∀ next, ¬ Pass last next := by
  obtain ⟨last, hpasses, ⟨hvectors, -⟩ | ⟨herror, -⟩⟩ := writevAll_passes g
  · refine ⟨last, hpasses, fun next hpass ↦ ?_⟩
    cases hpass with
    | intro hsome hnone => exact hsome hvectors
  · refine ⟨last, hpasses, fun next hpass ↦ ?_⟩
    cases hpass with
    | intro hsome hnone => exact hnone herror

/-- The bytes that are reported were accepted, the vectors that are left hold the others, and
without an error no vector is left. -/
theorem writevAll_spec (g : Gather β ε) :
    Conserves g (writevAll g).after ∧ (writevAll g).result.bytes = (writevAll g).after.sent ∧
      ((writevAll g).result.error.isSome = true ∨ (writevAll g).after.vectors = []) := by
  obtain ⟨last, hpasses, ⟨hvectors, heq⟩ | ⟨herror, heq⟩⟩ := writevAll_passes g
  · rw [heq]
    exact ⟨conserves_of_passes hpasses, rfl, .inr hvectors⟩
  · obtain ⟨out, haccepted, hbytes, hsent⟩ := (conserves_of_passes hpasses).sent
    rw [heq]
    exact ⟨⟨⟨out, (last.stream.write_error _ herror).2.trans haccepted, hbytes, hsent⟩⟩, rfl,
      .inl herror⟩

end Gather

/-! ### `BufWriter` -/

/-- `BufWriter`. -/
structure BufWriter (β : Type u) (ε : Type v) where
  stream : SendSocket β ε
  buffer : List β
  used : ℕ
  used_le : used ≤ buffer.length

namespace BufWriter

/-- A buffer that has just been made has room for nothing written yet. -/
theorem zero_le_length_replicate (capacity : ℕ) (b : β) :
    (List.replicate capacity b).length ≥ 0 :=
  Nat.zero_le _

/-- `BufWriter::BufWriter`. -/
def new [Inhabited β] (stream : SendSocket β ε) (capacity : ℕ) : BufWriter β ε where
  stream := stream
  buffer := List.replicate capacity default
  used := 0
  used_le := zero_le_length_replicate capacity default

def capacity (w : BufWriter β ε) : ℕ := w.buffer.length

/-- What is buffered. -/
def contents (w : BufWriter β ε) : List β := w.buffer.take w.used

/-- The buffer after a `memmove` of `count` bytes from `start` to its beginning. -/
def memmove (buffer : List β) (start count : ℕ) : List β :=
  (buffer.drop start).take count ++ buffer.drop count

/-- The buffer keeps its length. -/
theorem length_memmove {buffer : List β} {start count : ℕ} (h : start + count ≤ buffer.length) :
    (memmove buffer start count).length = buffer.length := by
  rw [memmove, List.length_append, List.length_take, List.length_drop, List.length_drop]
  omega

/-- The first `start` bytes of what was buffered are gone. -/
theorem take_memmove {buffer : List β} {start used : ℕ} (hstart : start ≤ used)
    (hused : used ≤ buffer.length) :
    (memmove buffer start (used - start)).take (used - start) = (buffer.take used).drop start := by
  rw [memmove, List.drop_take, List.take_left']
  rw [List.length_take, List.length_drop]
  omega

/-- What remains of the buffer when its first `start` bytes were sent. -/
def shift (w : BufWriter β ε) (stream : SendSocket β ε) (start : ℕ) (hstart : start ≤ w.used) :
    BufWriter β ε where
  stream := stream
  buffer := memmove w.buffer start (w.used - start)
  used := w.used - start
  used_le := by
    have hused := w.used_le
    rw [length_memmove (by omega)]
    omega

def write (w : BufWriter β ε) (data : List β) : Written ε (BufWriter β ε) :=
  if w.used + data.length ≤ w.capacity then
    ⟨⟨data.length, none⟩,
      { w with
        buffer := w.buffer.take w.used ++ data ++ w.buffer.drop (w.used + data.length)
        used := w.used + data.length
        used_le := by
          rw [List.length_append, List.length_append, List.length_take_of_le w.used_le]
          exact Nat.le_add_right _ _ }⟩
  else
    let sent := writevAll ⟨[w.buffer.take w.used, data], 0, w.stream⟩
    let fromBuffer := min sent.result.bytes w.used
    if sent.result.error.isSome then
      ⟨⟨if w.used < sent.result.bytes then sent.result.bytes - w.used else 0, sent.result.error⟩,
        w.shift sent.after.stream fromBuffer (Nat.min_le_right _ _)⟩
    else
      ⟨⟨data.length, none⟩,
        { w with stream := sent.after.stream, used := 0, used_le := Nat.zero_le _ }⟩

def flush (w : BufWriter β ε) : Written ε (BufWriter β ε) :=
  if w.used = 0 then ⟨⟨0, none⟩, w⟩
  else
    let sent := writeAllImpl w.stream (w.buffer.take w.used)
    have hbytes : sent.result.bytes ≤ w.used :=
      Nat.le_trans (writeAllImpl_spec _ _).1 (List.length_take_le _ _)
    ⟨sent.result, w.shift sent.after sent.result.bytes hbytes⟩

/-! ### No byte is lost or sent twice -/

/-- What went in: the bytes the kernel has accepted and those that are buffered. -/
def history (w : BufWriter β ε) : List β := w.stream.accepted ++ w.contents

theorem contents_shift (w : BufWriter β ε) (stream : SendSocket β ε) (start : ℕ)
    (hstart : start ≤ w.used) : (w.shift stream start hstart).contents = w.contents.drop start :=
  take_memmove hstart w.used_le

theorem capacity_shift (w : BufWriter β ε) (stream : SendSocket β ε) (start : ℕ)
    (hstart : start ≤ w.used) : (w.shift stream start hstart).capacity = w.capacity := by
  have hused := w.used_le
  exact length_memmove (by omega)

theorem length_contents (w : BufWriter β ε) : w.contents.length = w.used :=
  List.length_take_of_le w.used_le

/-- A call takes in some bytes behind those it took before. -/
structure Takes (w : BufWriter β ε) (bytes : List β) (after : BufWriter β ε) : Prop where
  history : after.history = w.history ++ bytes
  capacity : after.capacity = w.capacity

/-- A write that fits. -/
theorem write_of_fits {w : BufWriter β ε} {data : List β}
    (hfits : w.used + data.length ≤ w.capacity) :
    (w.write data).result.bytes = data.length ∧ Takes w data (w.write data).after := by
  have hlength := w.length_contents
  rw [write, if_pos hfits]
  refine ⟨rfl, ?_, ?_⟩
  · change w.stream.accepted ++
      List.take (w.used + data.length) (w.contents ++ data ++ _) =
        w.stream.accepted ++ w.contents ++ data
    rw [List.take_left' (by rw [List.length_append, hlength]), List.append_assoc]
  · change (w.contents ++ data ++ w.buffer.drop (w.used + data.length)).length = w.buffer.length
    rw [List.length_append, List.length_append, List.length_drop, hlength]
    exact Nat.add_sub_cancel' hfits

/-- The gathered write of a write that does not fit. -/
def gathered (w : BufWriter β ε) (data : List β) : Written ε (Gather β ε) :=
  writevAll ⟨[w.buffer.take w.used, data], 0, w.stream⟩

/-- It sends the buffer and the payload up to the byte it reports. -/
theorem gathered_spec (w : BufWriter β ε) (data : List β) :
    (w.gathered data).after.stream.accepted =
        w.stream.accepted ++ (w.contents ++ data).take (w.gathered data).result.bytes ∧
      (w.gathered data).result.bytes ≤ w.used + data.length ∧
      ((w.gathered data).result.error.isSome = true ∨
        (w.gathered data).result.bytes = w.used + data.length) := by
  obtain ⟨⟨out, haccepted, hbytes, hsent⟩, hresult, hend⟩ :=
    Gather.writevAll_spec ⟨[w.buffer.take w.used, data], 0, w.stream⟩
  have hflatten : (w.contents ++ data).length = w.used + data.length := by
    rw [List.length_append, w.length_contents]
  have hstart : List.flatten [w.buffer.take w.used, data] = w.contents ++ data := by
    rw [List.flatten_cons, List.flatten_singleton]
    rfl
  rw [hstart] at hbytes
  have hout : (w.gathered data).result.bytes = out.length :=
    hresult.trans (hsent.trans (Nat.zero_add _))
  have hcount := congrArg List.length hbytes
  rw [List.length_append, hflatten] at hcount
  rw [hout]
  refine ⟨?_, by omega, hend.imp_right fun hvectors ↦ ?_⟩
  · rw [← hbytes, List.take_left]
    exact haccepted
  · rw [hvectors, List.flatten_nil, List.length_nil, Nat.add_zero] at hcount
    exact hcount

/-- A write that does not fit and fails keeps what was not sent of the buffer. -/
theorem write_of_error {w : BufWriter β ε} {data : List β}
    (hfits : ¬ w.used + data.length ≤ w.capacity)
    (herror : (w.gathered data).result.error.isSome = true) :
    (w.write data).result.bytes ≤ data.length ∧
      Takes w (data.take (w.write data).result.bytes) (w.write data).after := by
  obtain ⟨haccepted, hle, -⟩ := w.gathered_spec data
  have hlength := w.length_contents
  have hwrite : w.write data =
      ⟨⟨if w.used < (w.gathered data).result.bytes then (w.gathered data).result.bytes - w.used
          else 0, (w.gathered data).result.error⟩,
        w.shift (w.gathered data).after.stream (min (w.gathered data).result.bytes w.used)
          (Nat.min_le_right _ _)⟩ := by
    rw [write, if_neg hfits]
    exact if_pos herror
  have hbytes : (w.write data).result.bytes = (w.gathered data).result.bytes - w.used := by
    rw [hwrite]
    dsimp only
    split_ifs with hless
    · rfl
    · exact (Nat.sub_eq_zero_of_le (Nat.le_of_not_lt hless)).symm
  have hafter := congrArg Written.after hwrite
  rw [hbytes, hafter]
  refine ⟨by omega, ?_, w.capacity_shift _ _ (Nat.min_le_right _ _)⟩
  rw [BufWriter.history, contents_shift]
  change (w.gathered data).after.stream.accepted ++ _ = _
  rw [haccepted, BufWriter.history, List.append_assoc, List.append_assoc]
  congr 1
  rw [List.take_append, hlength]
  rcases Nat.le_total (w.gathered data).result.bytes w.used with h | h
  · rw [Nat.min_eq_left h, Nat.sub_eq_zero_of_le h, List.take_zero, List.append_nil,
      List.append_nil, List.take_append_drop]
  · rw [Nat.min_eq_right h, List.take_of_length_le (by omega), List.drop_of_length_le (by omega),
      List.append_nil]

/-- A write that does not fit and does not fail sends everything. -/
theorem write_of_sent {w : BufWriter β ε} {data : List β}
    (hfits : ¬ w.used + data.length ≤ w.capacity)
    (herror : ¬ (w.gathered data).result.error.isSome = true) :
    (w.write data).result.bytes = data.length ∧ Takes w data (w.write data).after := by
  obtain ⟨haccepted, -, hall⟩ := w.gathered_spec data
  have hsent := hall.resolve_left herror
  have hwrite : w.write data = ⟨⟨data.length, none⟩,
      { w with
        stream := (w.gathered data).after.stream
        used := 0
        used_le := Nat.zero_le _ }⟩ := by
    rw [write, if_neg hfits]
    exact if_neg herror
  rw [hwrite]
  refine ⟨rfl, ?_, rfl⟩
  change (w.gathered data).after.stream.accepted ++ [] = _
  rw [haccepted, hsent, List.append_nil, history, List.append_assoc,
    List.take_of_length_le (by rw [List.length_append, w.length_contents])]

theorem write_spec (w : BufWriter β ε) (data : List β) :
    (w.write data).result.bytes ≤ data.length ∧
      Takes w (data.take (w.write data).result.bytes) (w.write data).after := by
  by_cases hfits : w.used + data.length ≤ w.capacity
  · obtain ⟨hbytes, htakes⟩ := write_of_fits hfits
    rw [hbytes, List.take_length]
    exact ⟨Nat.le_refl _, htakes⟩
  · by_cases herror : (w.gathered data).result.error.isSome = true
    · exact write_of_error hfits herror
    · obtain ⟨hbytes, htakes⟩ := write_of_sent hfits herror
      rw [hbytes, List.take_length]
      exact ⟨Nat.le_refl _, htakes⟩

theorem flush_spec (w : BufWriter β ε) : Takes w [] w.flush.after := by
  by_cases hused : w.used = 0
  · rw [flush, if_pos hused]
    exact ⟨(List.append_nil _).symm, rfl⟩
  · rw [flush, if_neg hused]
    have hbytes : (writeAllImpl w.stream w.contents).result.bytes ≤ w.used :=
      Nat.le_trans (writeAllImpl_spec _ _).1 (List.length_take_le _ _)
    refine ⟨?_, w.capacity_shift _ _ hbytes⟩
    rw [List.append_nil, history, contents_shift]
    exact (writeAllImpl_spec w.stream w.contents).2.symm

/-! ### Any calls one after another -/

/-- A call of the writer. -/
inductive Op (β : Type u)
  | write (data : List β)
  | flush

/-- The writer after a call. -/
def apply (w : BufWriter β ε) : Op β → BufWriter β ε
  | .write data => (w.write data).after
  | .flush => w.flush.after

/-- The data of a write and the number of bytes it reports as written. -/
def report (w : BufWriter β ε) : Op β → List (List β × ℕ)
  | .write data => [(data, (w.write data).result.bytes)]
  | .flush => []

/-- What the writes of calls one after another report, and the writer after them. -/
def run : List (Op β) → BufWriter β ε → List (List β × ℕ) × BufWriter β ε
  | [], w => ([], w)
  | op :: ops, w => (w.report op ++ (run ops (w.apply op)).1, (run ops (w.apply op)).2)

/-- The bytes that are reported as written. -/
def written (reports : List (List β × ℕ)) : List β :=
  reports.flatMap fun report ↦ report.1.take report.2

theorem takes_apply (w : BufWriter β ε) (op : Op β) :
    (∀ report ∈ w.report op, report.2 ≤ report.1.length) ∧
      Takes w (written (w.report op)) (w.apply op) := by
  cases op with
  | write data =>
    obtain ⟨hbytes, htakes⟩ := w.write_spec data
    refine ⟨fun report hreport ↦ ?_, ?_⟩
    · rw [List.mem_singleton.mp hreport]
      exact hbytes
    · rw [written, report, List.flatMap_singleton]
      exact htakes
  | flush => exact ⟨fun _ hreport ↦ absurd hreport List.not_mem_nil, w.flush_spec⟩

theorem takes_run (ops : List (Op β)) (w : BufWriter β ε) :
    (∀ report ∈ (run ops w).1, report.2 ≤ report.1.length) ∧
      Takes w (written (run ops w).1) (run ops w).2 := by
  induction ops generalizing w with
  | nil => exact ⟨fun _ hreport ↦ absurd hreport List.not_mem_nil, (List.append_nil _).symm, rfl⟩
  | cons op ops ih =>
    obtain ⟨hreports, htakes⟩ := w.takes_apply op
    obtain ⟨hreports', htakes'⟩ := ih (w.apply op)
    refine ⟨fun report hreport ↦ ?_, ?_, htakes'.capacity.trans htakes.capacity⟩
    · exact (List.mem_append.mp hreport).elim (hreports report) (hreports' report)
    · refine htakes'.history.trans ?_
      rw [htakes.history, List.append_assoc, written, written, written, ← List.flatMap_append]
      rfl

end BufWriter

/-- A socket nobody has written to. -/
def SendSocket.fresh (answers : ℕ → Answer ε) : SendSocket β ε where
  accepted := []
  answers := answers
  writes := 0

/-- Whatever the kernel accepts of the writes and wherever it fails them: the bytes it has accepted
followed by those that are buffered are those that the writes reported; and in `writevAll` what was
sent followed by the vectors that are left is what there was to send, at every pass and at the end,
and there is a last pass. -/
theorem buffered_writing [Inhabited β] (answers : ℕ → Answer ε) (capacity : ℕ)
    (ops : List (BufWriter.Op β)) (vectors : List (List β)) (stream : SendSocket β ε) :
    let done := BufWriter.run ops (.new (.fresh answers) capacity)
    let reports := done.1
    let w := done.2
    let start : Gather β ε := ⟨vectors, 0, stream⟩
    let Conserved := fun (sent : ℕ) (g : Gather β ε) ↦
      ∃ out, g.stream.accepted = stream.accepted ++ out ∧
        out ++ g.vectors.flatten = vectors.flatten ∧ sent = out.length
    (w.stream.accepted ++ w.contents = BufWriter.written reports ∧
        (∀ report ∈ reports, report.2 ≤ report.1.length) ∧ w.used ≤ capacity) ∧
      (∀ g, Relation.ReflTransGen Gather.Pass start g → Conserved g.sent g) ∧
      (∃ last, Relation.ReflTransGen Gather.Pass start last ∧ ∀ next, ¬ Gather.Pass last next) ∧
      Conserved (writevAll start).result.bytes (writevAll start).after ∧
      ((writevAll start).result.error = none → (writevAll start).after.vectors = []) := by
  intro done reports w start Conserved
  obtain ⟨hreports, htakes⟩ :=
    BufWriter.takes_run ops (.new (.fresh answers : SendSocket β ε) capacity)
  obtain ⟨⟨out, haccepted, hbytes, hsent⟩, hresult, hend⟩ := start.writevAll_spec
  refine ⟨⟨htakes.history.trans (List.nil_append _), hreports, ?_⟩, fun g hpasses ↦ ?_,
    start.exists_last, ?_,
    fun herror ↦ hend.resolve_left (by rw [herror]; exact Bool.false_ne_true)⟩
  · have hcapacity := htakes.capacity
    rw [BufWriter.capacity, BufWriter.capacity] at hcapacity
    exact Nat.le_trans w.used_le (Nat.le_of_eq (hcapacity.trans List.length_replicate))
  · obtain ⟨out, haccepted, hbytes, hsent⟩ := (Gather.conserves_of_passes hpasses).sent
    exact ⟨out, haccepted, hbytes, hsent.trans (Nat.zero_add _)⟩
  · exact ⟨out, haccepted, hbytes, hresult.trans (hsent.trans (Nat.zero_add _))⟩

end Stackfull.Io
