import Mathlib.Data.List.Basic
import Mathlib.Data.List.TakeWhile
import Mathlib.Tactic.Common

/-!
# Buffered reading from a byte stream

`BufReader` (`StreamSocket.h`, `StreamSocket.cpp`): `read`, `readExactly`, `readLine`, `fill` and
`consume` over the reads of a socket. A read of the socket is answered by the kernel: with an error,
a timeout among them, or with some of the bytes that are left, at least one if there are any and any
were asked for. No bytes and no error means the end of the stream.

The buffer keeps its length, and what is between `begin` and `end` is what it holds. `received` and
`reads` are history: the bytes the kernel has handed over, and how often it was asked.
-/

set_option autoImplicit false
set_option relaxedAutoImplicit false
set_option linter.dupNamespace false

namespace Stackfull.Io

universe u v w

/-- An error of the reader itself, or one of the socket. -/
inductive Errc (ε : Type v)
  | messageSize
  | os (error : ε)
  deriving DecidableEq

/-- `IoResult`. -/
structure IoResult (ε : Type v) where
  bytes : ℕ
  error : Option (Errc ε)
  deriving DecidableEq

/-- What a call returns, the bytes it has put into its output, and what is left behind. -/
structure Reply (β : Type u) (ε : Type v) (σ : Type w) where
  result : IoResult ε
  out : List β
  after : σ

/-- How the kernel answers a read: with at most so many bytes beyond the first, or with an error. -/
inductive Answer (ε : Type v)
  | deliver (more : ℕ)
  | fail (error : ε)

/-- A socket: the bytes that were received and those that were not yet, and how the kernel answers
the reads. -/
structure StreamSocket (β : Type u) (ε : Type v) where
  received : List β
  rest : List β
  answers : ℕ → Answer ε
  reads : ℕ

variable {β : Type u} {ε : Type v}

namespace StreamSocket

/-- `read` and `readUntil`. -/
def read (stream : StreamSocket β ε) (length : ℕ) : Reply β ε (StreamSocket β ε) :=
  match stream.answers stream.reads with
  | .fail error => ⟨⟨0, some (.os error)⟩, [], { stream with reads := stream.reads + 1 }⟩
  | .deliver more =>
    let got := stream.rest.take (min length (more + 1))
    ⟨⟨got.length, none⟩, got,
      { stream with
        received := stream.received ++ got
        rest := stream.rest.drop (min length (more + 1))
        reads := stream.reads + 1 }⟩

theorem bytes_read (stream : StreamSocket β ε) (length : ℕ) :
    (stream.read length).result.bytes = (stream.read length).out.length := by
  unfold read
  cases stream.answers stream.reads <;> rfl

theorem length_read_le (stream : StreamSocket β ε) (length : ℕ) :
    (stream.read length).out.length ≤ length := by
  unfold read
  cases stream.answers stream.reads with
  | fail error => exact Nat.zero_le _
  | deliver more => exact Nat.le_trans (List.length_take_le _ _) (Nat.min_le_left _ _)

end StreamSocket

/-- `BufReader`. The field `finish` is `end`. -/
structure BufReader (β : Type u) (ε : Type v) where
  stream : StreamSocket β ε
  buffer : List β
  begin : ℕ
  finish : ℕ
  capacity_pos : 0 < buffer.length
  begin_le : begin ≤ finish
  finish_le : finish ≤ buffer.length

namespace BufReader

/-- `BufReader::BufReader`. -/
def new [Inhabited β] (stream : StreamSocket β ε) (capacity : ℕ) (hcapacity : 0 < capacity) :
    BufReader β ε where
  stream := stream
  buffer := List.replicate capacity default
  begin := 0
  finish := 0
  capacity_pos := by rwa [List.length_replicate]
  begin_le := Nat.le_refl 0
  finish_le := Nat.zero_le _

def capacity (r : BufReader β ε) : ℕ := r.buffer.length

def buffered (r : BufReader β ε) : ℕ := r.finish - r.begin

/-- What `data()` points to, up to the end of the buffer. -/
def data (r : BufReader β ε) : List β := r.buffer.drop r.begin

def fill (r : BufReader β ε) : Reply β ε (BufReader β ε) :=
  if r.begin ≠ r.finish then ⟨⟨r.finish - r.begin, none⟩, [], r⟩
  else
    let got := r.stream.read r.capacity
    have hbytes : got.result.bytes = got.out.length := r.stream.bytes_read r.capacity
    have hlength : got.out.length ≤ r.buffer.length := r.stream.length_read_le r.capacity
    ⟨got.result, [],
      { stream := got.after
        buffer := got.out ++ r.buffer.drop got.out.length
        begin := 0
        finish := got.result.bytes
        capacity_pos := by
          have hpos := r.capacity_pos
          rw [List.length_append, List.length_drop]
          omega
        begin_le := Nat.zero_le _
        finish_le := by
          rw [List.length_append]
          omega }⟩

def consume (r : BufReader β ε) (count : ℕ) : BufReader β ε :=
  have hbegin := r.begin_le
  { r with
    begin := r.begin + min count (r.finish - r.begin)
    begin_le := by omega }

def read (r : BufReader β ε) (length : ℕ) : Reply β ε (BufReader β ε) :=
  if r.begin = r.finish ∧ r.capacity ≤ length then
    let got := r.stream.read length
    ⟨got.result, got.out, { r with stream := got.after }⟩
  else
    let filled := r.fill
    if filled.result.error.isSome ∨ filled.result.bytes = 0 then ⟨filled.result, [], filled.after⟩
    else
      let taken := min length filled.after.buffered
      ⟨⟨taken, none⟩, filled.after.data.take taken, filled.after.consume taken⟩

/-- The loop of `readExactly`. -/
def readExactlyFrom (length : ℕ) (r : BufReader β ε) (out : List β) (received : ℕ) :
    Reply β ε (BufReader β ε) :=
  if received < length then
    let chunk := r.read (length - received)
    if chunk.result.error.isSome then
      ⟨⟨received, chunk.result.error⟩, out ++ chunk.out, chunk.after⟩
    else if chunk.result.bytes = 0 then ⟨⟨received, none⟩, out ++ chunk.out, chunk.after⟩
    else readExactlyFrom length chunk.after (out ++ chunk.out) (received + chunk.result.bytes)
  else ⟨⟨received, none⟩, out, r⟩
  termination_by length - received
  decreasing_by
    change length - (received + chunk.result.bytes) < length - received
    omega

def readExactly (r : BufReader β ε) (length : ℕ) : Reply β ε (BufReader β ε) :=
  readExactlyFrom length r [] 0

theorem bytes_fill (r : BufReader β ε) : r.fill.result.bytes = r.fill.after.buffered := by
  unfold fill
  split_ifs <;> rfl

/-- Where `memchr` finds the byte. -/
def memchr [DecidableEq β] (data : List β) (byte : β) (window : ℕ) : Option ℕ :=
  (data.take window).findIdx? (· = byte)

variable [DecidableEq β]

/-- The loop of `readLine`. -/
def readLineFrom (delimiter : β) (limit : ℕ) (r : BufReader β ε) (line : List β) (appended : ℕ)
    (happended : appended ≤ limit) : Reply β ε (BufReader β ε) :=
  let filled := r.fill
  if filled.result.error.isSome then ⟨⟨appended, filled.result.error⟩, line, filled.after⟩
  else if hbytes : filled.result.bytes = 0 then ⟨⟨appended, none⟩, line, filled.after⟩
  else
    let room := limit - appended
    let window := min filled.after.buffered room
    match memchr filled.after.data delimiter window with
    | some found =>
      let taken := found + 1
      ⟨⟨appended + taken, none⟩, line ++ filled.after.data.take taken, filled.after.consume taken⟩
    | none =>
      let taken := window
      if appended + taken = limit then
        ⟨⟨appended + taken, some .messageSize⟩, line ++ filled.after.data.take taken,
          filled.after.consume taken⟩
      else
        readLineFrom delimiter limit (filled.after.consume taken)
          (line ++ filled.after.data.take taken) (appended + taken) (by omega)
  termination_by limit - appended
  decreasing_by
    have hfilled : filled.result.bytes = filled.after.buffered := r.bytes_fill
    change limit - (appended + taken) < limit - appended
    omega

def readLine (r : BufReader β ε) (delimiter : β) (limit : ℕ) : Reply β ε (BufReader β ε) :=
  readLineFrom delimiter limit r [] 0 (Nat.zero_le _)

/-! ### No byte is lost, repeated or reordered -/

section

omit [DecidableEq β]

variable {r after later : BufReader β ε} {out more : List β}

/-- What is buffered. -/
def contents (r : BufReader β ε) : List β := r.data.take r.buffered

/-- The bytes that are still to be handed out. -/
def remaining (r : BufReader β ε) : List β := r.contents ++ r.stream.rest

theorem length_contents (r : BufReader β ε) : r.contents.length = r.buffered := by
  have hbegin := r.begin_le
  have hfinish := r.finish_le
  rw [contents, data, buffered, List.length_take, List.length_drop]
  omega

/-- Some bytes were handed out, and the kernel may have been asked for more. -/
structure Moves (r : BufReader β ε) (out : List β) (after : BufReader β ε) : Prop where
  bytes : ∃ more, after.stream.received = r.stream.received ++ more ∧
    r.stream.rest = more ++ after.stream.rest ∧ r.contents ++ more = out ++ after.contents
  answers : after.stream.answers = r.stream.answers
  reads : r.stream.reads ≤ after.stream.reads

/-- The kernel has answered with an error in between. -/
def Fails (r after : BufReader β ε) : Prop :=
  ∃ i error, r.stream.reads ≤ i ∧ i < after.stream.reads ∧ r.stream.answers i = .fail error

namespace Moves

theorem refl (r : BufReader β ε) : Moves r [] r :=
  ⟨⟨[], (List.append_nil _).symm, rfl, List.append_nil _⟩, rfl, Nat.le_refl _⟩

theorem trans (h : Moves r out after) (h' : Moves after more later) :
    Moves r (out ++ more) later := by
  obtain ⟨first, hreceived, hrest, hbytes⟩ := h.bytes
  obtain ⟨second, hreceived', hrest', hbytes'⟩ := h'.bytes
  refine ⟨⟨first ++ second, ?_, ?_, ?_⟩, h'.answers.trans h.answers, h.reads.trans h'.reads⟩
  · rw [hreceived', hreceived, List.append_assoc]
  · rw [hrest, hrest', List.append_assoc]
  · rw [← List.append_assoc, hbytes, List.append_assoc, hbytes', List.append_assoc]

theorem remaining_eq (h : Moves r out after) : r.remaining = out ++ after.remaining := by
  obtain ⟨more, -, hrest, hbytes⟩ := h.bytes
  rw [remaining, remaining, hrest, ← List.append_assoc, hbytes, List.append_assoc]

theorem fails_left (h' : Moves after more later) (hfails : Fails r after) : Fails r later := by
  obtain ⟨i, error, hlow, hhigh, hanswer⟩ := hfails
  exact ⟨i, error, hlow, Nat.lt_of_lt_of_le hhigh h'.reads, hanswer⟩

theorem fails_right (h : Moves r out after) (hfails : Fails after later) : Fails r later := by
  obtain ⟨i, error, hlow, hhigh, hanswer⟩ := hfails
  exact ⟨i, error, Nat.le_trans h.reads hlow, hhigh, h.answers ▸ hanswer⟩

end Moves

/-! ### One call -/

theorem read_received (stream : StreamSocket β ε) (length : ℕ) :
    (stream.read length).after.received = stream.received ++ (stream.read length).out := by
  unfold StreamSocket.read
  cases stream.answers stream.reads with
  | fail error => exact (List.append_nil _).symm
  | deliver more => rfl

theorem read_rest (stream : StreamSocket β ε) (length : ℕ) :
    stream.rest = (stream.read length).out ++ (stream.read length).after.rest := by
  unfold StreamSocket.read
  cases stream.answers stream.reads with
  | fail error => rfl
  | deliver more => exact (List.take_append_drop _ _).symm

theorem read_answers (stream : StreamSocket β ε) (length : ℕ) :
    (stream.read length).after.answers = stream.answers := by
  unfold StreamSocket.read
  cases stream.answers stream.reads <;> rfl

theorem read_reads (stream : StreamSocket β ε) (length : ℕ) :
    (stream.read length).after.reads = stream.reads + 1 := by
  unfold StreamSocket.read
  cases stream.answers stream.reads <;> rfl

/-- An error comes from the kernel and brings no bytes. -/
theorem read_error (stream : StreamSocket β ε) (length : ℕ)
    (herror : (stream.read length).result.error.isSome = true) :
    (stream.read length).out = [] ∧ ∃ error, stream.answers stream.reads = .fail error ∧
      (stream.read length).result.error = some (.os error) := by
  unfold StreamSocket.read at herror ⊢
  cases hanswer : stream.answers stream.reads with
  | fail error => exact ⟨rfl, error, rfl, rfl⟩
  | deliver more =>
    rw [hanswer] at herror
    exact absurd herror Bool.false_ne_true

/-- No bytes mean the end of the stream. -/
theorem read_end (stream : StreamSocket β ε) {length : ℕ} (hlength : 0 < length)
    (herror : ¬ (stream.read length).result.error.isSome = true)
    (hbytes : (stream.read length).result.bytes = 0) : stream.rest = [] := by
  unfold StreamSocket.read at herror hbytes
  cases hanswer : stream.answers stream.reads with
  | fail error =>
    rw [hanswer] at herror
    exact absurd rfl herror
  | deliver more =>
    rw [hanswer] at hbytes
    have htake : min (min length (more + 1)) stream.rest.length = 0 :=
      List.length_take.symm.trans hbytes
    exact List.eq_nil_of_length_eq_zero (by omega)

/-- A call hands out bytes behind those that were handed out before, and counts them. -/
structure Hands (r : BufReader β ε) (before : List β) (length : ℕ)
    (reply : Reply β ε (BufReader β ε)) : Prop where
  moves : ∃ more, reply.out = before ++ more ∧ Moves r more reply.after
  bytes : reply.result.bytes = reply.out.length
  length_le : reply.out.length ≤ length

theorem contents_eq_nil (h : r.begin = r.finish) : r.contents = [] :=
  List.eq_nil_of_length_eq_zero (by rw [length_contents, buffered]; omega)

theorem fill_of_empty (r : BufReader β ε) (h : r.begin = r.finish) :
    r.fill.result = (r.stream.read r.capacity).result ∧
      r.fill.after.stream = (r.stream.read r.capacity).after ∧
      r.fill.after.contents = (r.stream.read r.capacity).out := by
  have hbytes := r.stream.bytes_read r.capacity
  rw [fill, if_neg (not_not_intro h)]
  refine ⟨rfl, rfl, ?_⟩
  change List.take ((r.stream.read r.capacity).result.bytes - 0) (List.drop 0 (_ ++ _)) = _
  rw [Nat.sub_zero, List.drop_zero, hbytes, List.take_left]

/-- The kernel is asked for a block of bytes. -/
theorem moves_of_read {n : ℕ} (hempty : r.contents = [])
    (hstream : after.stream = (r.stream.read n).after)
    (hcontents : (r.stream.read n).out = out ++ after.contents) : Moves r out after where
  bytes := by
    refine ⟨(r.stream.read n).out, ?_, ?_, ?_⟩
    · rw [hstream]
      exact read_received _ _
    · rw [hstream]
      exact read_rest _ _
    · rw [hempty]
      exact hcontents
  answers := by
    rw [hstream]
    exact read_answers _ _
  reads := by
    rw [hstream, read_reads]
    exact Nat.le_succ _

theorem moves_fill (r : BufReader β ε) : Moves r [] r.fill.after := by
  by_cases h : r.begin = r.finish
  · obtain ⟨-, hstream, hcontents⟩ := r.fill_of_empty h
    exact moves_of_read (contents_eq_nil h) hstream hcontents.symm
  · rw [fill, if_pos h]
    exact Moves.refl r

/-- An error of `fill` comes from the kernel. -/
theorem fails_fill (r : BufReader β ε) (herror : r.fill.result.error.isSome = true) :
    Fails r r.fill.after ∧ ∃ error, r.fill.result.error = some (.os error) := by
  by_cases h : r.begin = r.finish
  · obtain ⟨hresult, hstream, -⟩ := r.fill_of_empty h
    rw [hresult] at herror ⊢
    obtain ⟨-, error, hanswer, hos⟩ := read_error _ _ herror
    refine ⟨⟨r.stream.reads, error, Nat.le_refl _, ?_, hanswer⟩, error, hos⟩
    rw [hstream, read_reads]
    exact Nat.lt_succ_self _
  · rw [fill, if_pos h] at herror
    exact absurd herror Bool.false_ne_true

/-- When `fill` has nothing, nothing is left. -/
theorem remaining_fill (r : BufReader β ε) (herror : ¬ r.fill.result.error.isSome = true)
    (hbytes : r.fill.result.bytes = 0) : r.fill.after.remaining = [] := by
  have hcontents : r.fill.after.contents = [] :=
    List.eq_nil_of_length_eq_zero (by rw [length_contents, ← bytes_fill, hbytes])
  have hmoves := r.moves_fill.remaining_eq
  rw [List.nil_append] at hmoves
  rw [← hmoves]
  by_cases h : r.begin = r.finish
  · obtain ⟨hresult, -, -⟩ := r.fill_of_empty h
    rw [hresult] at herror hbytes
    rw [remaining, contents_eq_nil h, read_end _ r.capacity_pos herror hbytes]
    rfl
  · rw [fill, if_pos h] at hbytes
    have hbegin := r.begin_le
    change r.finish - r.begin = 0 at hbytes
    omega

theorem contents_consume (r : BufReader β ε) (count : ℕ) :
    (r.consume count).contents = r.contents.drop count := by
  have hmin : r.contents.drop (min count (r.finish - r.begin)) = r.contents.drop count := by
    rcases Nat.le_total count (r.finish - r.begin) with hle | hle
    · rw [Nat.min_eq_left hle]
    · have hlength : r.contents.length = r.finish - r.begin := r.length_contents
      rw [Nat.min_eq_right hle, List.drop_of_length_le (Nat.le_of_eq hlength),
        List.drop_of_length_le (by omega)]
  rw [← hmin, contents, contents, data, data, List.drop_take, List.drop_drop]
  congr 1
  change r.finish - (r.begin + min count (r.finish - r.begin)) = _
  rw [buffered]
  omega

theorem moves_consume (r : BufReader β ε) (count : ℕ) :
    Moves r (r.contents.take count) (r.consume count) where
  bytes := by
    refine ⟨[], (List.append_nil _).symm, rfl, ?_⟩
    rw [contents_consume, List.append_nil, List.take_append_drop]
  answers := rfl
  reads := Nat.le_refl _

/-- What is copied out of the buffer is its front. -/
theorem take_data (r : BufReader β ε) {taken : ℕ} (htaken : taken ≤ r.buffered) :
    r.data.take taken = r.contents.take taken := by
  rw [contents, List.take_take, Nat.min_eq_left htaken]

/-- Bytes are copied out of the buffer after it was filled. -/
theorem moves_fill_consume (r : BufReader β ε) {taken : ℕ}
    (htaken : taken ≤ r.fill.after.buffered) :
    Moves r (r.fill.after.data.take taken) (r.fill.after.consume taken) := by
  rw [take_data _ htaken]
  exact r.moves_fill.trans (r.fill.after.moves_consume taken)

theorem length_data_take (r : BufReader β ε) {taken : ℕ} (htaken : taken ≤ r.buffered) :
    (r.data.take taken).length = taken := by
  rw [take_data _ htaken, List.length_take, length_contents]
  exact Nat.min_eq_left htaken

/-! ### `read` and `readExactly` -/

variable {length : ℕ}

theorem read_of_direct (h : r.begin = r.finish ∧ r.capacity ≤ length) : r.read length =
    ⟨(r.stream.read length).result, (r.stream.read length).out,
      { r with stream := (r.stream.read length).after }⟩ :=
  if_pos h

theorem read_of_none (hdirect : ¬ (r.begin = r.finish ∧ r.capacity ≤ length))
    (hnone : r.fill.result.error.isSome = true ∨ r.fill.result.bytes = 0) :
    r.read length = ⟨r.fill.result, [], r.fill.after⟩ :=
  (if_neg hdirect).trans (if_pos hnone)

theorem read_of_some (hdirect : ¬ (r.begin = r.finish ∧ r.capacity ≤ length))
    (hsome : ¬ (r.fill.result.error.isSome = true ∨ r.fill.result.bytes = 0)) :
    r.read length = ⟨⟨min length r.fill.after.buffered, none⟩,
      r.fill.after.data.take (min length r.fill.after.buffered),
      r.fill.after.consume (min length r.fill.after.buffered)⟩ :=
  (if_neg hdirect).trans (if_neg hsome)

/-- An error of `read` comes from the kernel and brings no bytes. -/
theorem read_of_error (r : BufReader β ε) (herror : (r.read length).result.error.isSome = true) :
    (r.read length).out = [] ∧ (r.read length).result.bytes = 0 ∧
      Fails r (r.read length).after := by
  by_cases hdirect : r.begin = r.finish ∧ r.capacity ≤ length
  · rw [read_of_direct hdirect] at herror ⊢
    obtain ⟨hout, error, hanswer, -⟩ := read_error _ _ herror
    refine ⟨hout, ?_, r.stream.reads, error, Nat.le_refl _, ?_, hanswer⟩
    · exact (StreamSocket.bytes_read _ _).trans (congrArg List.length hout)
    · exact Nat.lt_of_lt_of_eq (Nat.lt_succ_self _) (read_reads _ _).symm
  · by_cases hnone : r.fill.result.error.isSome = true ∨ r.fill.result.bytes = 0
    · rw [read_of_none hdirect hnone] at herror ⊢
      refine ⟨rfl, ?_, (r.fails_fill herror).1⟩
      by_cases h : r.begin = r.finish
      · obtain ⟨hresult, -, -⟩ := r.fill_of_empty h
        rw [hresult] at herror ⊢
        rw [StreamSocket.bytes_read]
        exact congrArg List.length (read_error _ _ herror).1
      · rw [fill, if_pos h] at herror
        exact absurd herror Bool.false_ne_true
    · rw [read_of_some hdirect hnone] at herror
      exact absurd herror Bool.false_ne_true

theorem hands_read (r : BufReader β ε) (length : ℕ) : Hands r [] length (r.read length) := by
  by_cases hdirect : r.begin = r.finish ∧ r.capacity ≤ length
  · have hcontents := contents_eq_nil hdirect.1
    rw [read_of_direct hdirect]
    refine ⟨⟨_, rfl, moves_of_read hcontents rfl ?_⟩, r.stream.bytes_read length,
      r.stream.length_read_le length⟩
    exact (List.append_nil _).symm.trans (congrArg _ hcontents.symm)
  · by_cases hnone : r.fill.result.error.isSome = true ∨ r.fill.result.bytes = 0
    · have hread := read_of_none hdirect hnone
      have hbytes : (r.read length).result.bytes = 0 := by
        rcases hnone with herror | hbytes
        · refine (r.read_of_error ?_).2.1
          rwa [hread]
        · rwa [hread]
      rw [hread] at hbytes ⊢
      exact ⟨⟨[], rfl, r.moves_fill⟩, hbytes, Nat.zero_le _⟩
    · have htaken : min length r.fill.after.buffered ≤ r.fill.after.buffered :=
        Nat.min_le_right _ _
      have hlength := r.fill.after.length_data_take htaken
      rw [read_of_some hdirect hnone]
      refine ⟨⟨_, rfl, r.moves_fill_consume htaken⟩, hlength.symm, ?_⟩
      exact Nat.le_trans (Nat.le_of_eq hlength) (Nat.min_le_left _ _)

/-- When `read` has nothing, nothing is left. -/
theorem remaining_read (r : BufReader β ε) (hlength : 0 < length)
    (herror : ¬ (r.read length).result.error.isSome = true)
    (hbytes : (r.read length).result.bytes = 0) : (r.read length).after.remaining = [] := by
  by_cases hdirect : r.begin = r.finish ∧ r.capacity ≤ length
  · have hcontents := contents_eq_nil hdirect.1
    rw [read_of_direct hdirect] at herror hbytes ⊢
    have hrest := read_end _ hlength herror hbytes
    have hout : (r.stream.read length).out = [] :=
      List.eq_nil_of_length_eq_zero ((r.stream.bytes_read length).symm.trans hbytes)
    rw [read_rest r.stream length, hout, List.nil_append] at hrest
    exact List.append_eq_nil_iff.mpr ⟨hcontents, hrest⟩
  · by_cases hnone : r.fill.result.error.isSome = true ∨ r.fill.result.bytes = 0
    · rw [read_of_none hdirect hnone] at herror hbytes ⊢
      exact r.remaining_fill herror hbytes
    · have hsome := r.bytes_fill
      rw [read_of_some hdirect hnone] at hbytes
      have htaken : min length r.fill.after.buffered = 0 := hbytes
      omega

/-- A chunk behind those before it. -/
theorem Hands.append {before first : List β} {reply : Reply β ε (BufReader β ε)}
    (hmoves : Moves r first after) (h : Hands after (before ++ first) length reply) :
    Hands r before length reply := by
  obtain ⟨second, hsecond, hmoves'⟩ := h.moves
  refine ⟨⟨first ++ second, ?_, hmoves.trans hmoves'⟩, h.bytes, h.length_le⟩
  rw [hsecond, List.append_assoc]

/-- The loop of `readExactly` hands out bytes until it has enough or there are no more. -/
theorem readExactlyFrom_spec (length : ℕ) (r : BufReader β ε) (out : List β) (received : ℕ)
    (hreceived : received = out.length) (hle : received ≤ length) :
    Hands r out length (readExactlyFrom length r out received) ∧
      ((readExactlyFrom length r out received).result.error.isSome = true →
        Fails r (readExactlyFrom length r out received).after) ∧
      ((readExactlyFrom length r out received).result.error = none →
        (readExactlyFrom length r out received).result.bytes = length ∨
          (readExactlyFrom length r out received).after.remaining = []) := by
  induction r, out, received using readExactlyFrom.induct length with
  | case1 r out received hless chunk herror =>
    obtain ⟨hout, -, hfails⟩ := r.read_of_error herror
    obtain ⟨more, hmore, hmoves⟩ := (r.hands_read (length - received)).moves
    rw [hout, List.nil_append] at hmore
    rw [readExactlyFrom, if_pos hless, if_pos herror]
    dsimp only
    rw [hout, List.append_nil]
    refine ⟨⟨⟨[], (List.append_nil _).symm, hmore ▸ hmoves⟩, hreceived, hreceived ▸ hle⟩,
      fun _ ↦ hfails, fun hnone ↦ ?_⟩
    rw [hnone] at herror
    exact absurd herror Bool.false_ne_true
  | case2 r out received hless chunk herror hbytes =>
    have hchunk := r.hands_read (length - received)
    obtain ⟨more, hmore, hmoves⟩ := hchunk.moves
    have hout : (r.read (length - received)).out = [] :=
      List.eq_nil_of_length_eq_zero (hchunk.bytes.symm.trans hbytes)
    rw [hout, List.nil_append] at hmore
    rw [readExactlyFrom, if_pos hless, if_neg herror, if_pos hbytes]
    dsimp only
    rw [hout, List.append_nil]
    refine ⟨⟨⟨[], (List.append_nil _).symm, hmore ▸ hmoves⟩, hreceived, hreceived ▸ hle⟩,
      fun h ↦ absurd h Bool.false_ne_true, fun _ ↦ .inr ?_⟩
    exact r.remaining_read (by omega) herror hbytes
  | case3 r out received hless chunk herror hbytes ih =>
    have hchunk := r.hands_read (length - received)
    obtain ⟨first, hfirst, hmoves⟩ := hchunk.moves
    have hcount : chunk.result.bytes = chunk.out.length := hchunk.bytes
    have hmost : chunk.out.length ≤ length - received := hchunk.length_le
    have hlength : (out ++ chunk.out).length = out.length + chunk.out.length :=
      List.length_append
    rw [readExactlyFrom, if_pos hless, if_neg herror, if_neg hbytes]
    obtain ⟨hhands, hfails, hdone⟩ := ih (by omega) (by omega)
    obtain rfl : chunk.out = first := hfirst
    exact ⟨Hands.append hmoves hhands, fun h ↦ hmoves.fails_right (hfails h), hdone⟩
  | case4 r out received hless =>
    rw [readExactlyFrom, if_neg hless]
    refine ⟨⟨⟨[], (List.append_nil _).symm, Moves.refl r⟩, hreceived, hreceived ▸ hle⟩,
      fun h ↦ absurd h Bool.false_ne_true, fun _ ↦ .inl ?_⟩
    exact Nat.le_antisymm hle (Nat.le_of_not_lt hless)

theorem readExactly_spec (r : BufReader β ε) (length : ℕ) :
    Hands r [] length (r.readExactly length) ∧
      ((r.readExactly length).result.error.isSome = true → Fails r (r.readExactly length).after) ∧
      ((r.readExactly length).result.error = none →
        (r.readExactly length).result.bytes = length ∨
          (r.readExactly length).after.remaining = []) :=
  readExactlyFrom_spec length r [] 0 rfl (Nat.zero_le _)

end

/-! ### `readLine` -/

section

variable {delimiter : β} {limit : ℕ} {front rest : List β} {r : BufReader β ε}

/-- The next line of a stream: the shortest prefix that ends in the delimiter and has at most so
many bytes, else so many bytes, else all there is. -/
def lineOf (delimiter : β) (limit : ℕ) (bytes : List β) : List β × Option (Errc ε) :=
  if delimiter ∈ bytes.take limit then (bytes.takeWhile (· ≠ delimiter) ++ [delimiter], none)
  else if bytes ≠ [] ∧ limit ≤ bytes.length then (bytes.take limit, some .messageSize)
  else (bytes, none)

theorem lineOf_found (hfront : delimiter ∉ front) (hlength : front.length < limit) :
    lineOf delimiter limit (front ++ delimiter :: rest) =
      ((front ++ [delimiter], none) : List β × Option (Errc ε)) := by
  have htake : delimiter ∈ (front ++ delimiter :: rest).take limit := by
    rw [List.take_append, List.mem_append]
    refine .inr ?_
    obtain ⟨room, hroom⟩ : ∃ room, limit - front.length = room + 1 :=
      ⟨limit - front.length - 1, by omega⟩
    rw [hroom]
    exact List.mem_cons_self
  have hall : ∀ byte ∈ front, decide (byte ≠ delimiter) = true := fun byte hbyte ↦
    decide_eq_true fun heq ↦ hfront (heq ▸ hbyte)
  rw [lineOf, if_pos htake, List.takeWhile_append_of_pos hall, List.takeWhile_cons_of_neg (by simp),
    List.append_nil]

theorem lineOf_full (hfront : delimiter ∉ front) (hlength : front.length = limit)
    (hsome : front ++ rest ≠ []) :
    lineOf delimiter limit (front ++ rest) =
      ((front, some .messageSize) : List β × Option (Errc ε)) := by
  have htake : (front ++ rest).take limit = front := List.take_left' hlength
  have hle : limit ≤ (front ++ rest).length := by
    rw [List.length_append]
    omega
  rw [lineOf, htake, if_neg hfront, if_pos ⟨hsome, hle⟩]

theorem lineOf_end (hfront : delimiter ∉ front) (hlength : front = [] ∨ front.length < limit) :
    lineOf delimiter limit front = ((front, none) : List β × Option (Errc ε)) := by
  have hmem : delimiter ∉ front.take limit := fun h ↦ hfront (List.mem_of_mem_take h)
  have hless : ¬ (front ≠ [] ∧ limit ≤ front.length) := by
    rintro ⟨hne, hle⟩
    rcases hlength with hnil | hlt
    · exact hne hnil
    · omega
  rw [lineOf, if_neg hmem, if_neg hless]

/-- `memchr` finds the first one. -/
theorem memchr_some {data : List β} {window found : ℕ}
    (h : memchr data delimiter window = some found) :
    found < window ∧ found < data.length ∧ delimiter ∉ data.take found ∧
      data.take (found + 1) = data.take found ++ [delimiter] := by
  obtain ⟨hlength, hat, hbefore⟩ := List.findIdx?_eq_some_iff_getElem.mp h
  rw [List.length_take] at hlength
  have hdata : found < data.length := by omega
  have hbyte : data[found] = delimiter := by
    rw [List.getElem_take] at hat
    exact of_decide_eq_true hat
  refine ⟨by omega, hdata, fun hmem ↦ ?_, ?_⟩
  · obtain ⟨j, hj, heq⟩ := List.mem_iff_getElem.mp hmem
    rw [List.length_take] at hj
    rw [List.getElem_take] at heq
    refine hbefore j (by omega) ?_
    rw [List.getElem_take]
    exact decide_eq_true heq
  · rw [List.take_add_one, List.getElem?_eq_getElem hdata, hbyte]
    rfl

theorem memchr_none {data : List β} {window : ℕ} (h : memchr data delimiter window = none) :
    delimiter ∉ data.take window := fun hmem ↦
  absurd (List.findIdx?_eq_none_iff.mp h delimiter hmem) (by simp)

/-- The loop of `readLine`, when the kernel has answered with an error. -/
theorem readLineFrom_of_error {line : List β} {appended : ℕ} (happended : appended ≤ limit)
    (herror : r.fill.result.error.isSome = true) :
    readLineFrom delimiter limit r line appended happended =
      ⟨⟨appended, r.fill.result.error⟩, line, r.fill.after⟩ := by
  unfold readLineFrom
  exact if_pos herror

/-- At the end of the stream. -/
theorem readLineFrom_of_end {line : List β} {appended : ℕ} (happended : appended ≤ limit)
    (herror : ¬ r.fill.result.error.isSome = true) (hbytes : r.fill.result.bytes = 0) :
    readLineFrom delimiter limit r line appended happended =
      ⟨⟨appended, none⟩, line, r.fill.after⟩ := by
  unfold readLineFrom
  exact (if_neg herror).trans (dif_pos hbytes)

/-- With the delimiter in sight. -/
theorem readLineFrom_of_found {line : List β} {appended found : ℕ} (happended : appended ≤ limit)
    (herror : ¬ r.fill.result.error.isSome = true) (hbytes : ¬ r.fill.result.bytes = 0)
    (hfound : memchr r.fill.after.data delimiter
      (min r.fill.after.buffered (limit - appended)) = some found) :
    readLineFrom delimiter limit r line appended happended =
      ⟨⟨appended + (found + 1), none⟩, line ++ r.fill.after.data.take (found + 1),
        r.fill.after.consume (found + 1)⟩ := by
  unfold readLineFrom
  refine (if_neg herror).trans ((dif_neg hbytes).trans ?_)
  dsimp only
  rw [hfound]

/-- At the limit. -/
theorem readLineFrom_of_full {line : List β} {appended : ℕ} (happended : appended ≤ limit)
    (herror : ¬ r.fill.result.error.isSome = true) (hbytes : ¬ r.fill.result.bytes = 0)
    (hnone : memchr r.fill.after.data delimiter
      (min r.fill.after.buffered (limit - appended)) = none)
    (hlimit : appended + min r.fill.after.buffered (limit - appended) = limit) :
    readLineFrom delimiter limit r line appended happended =
      ⟨⟨appended + min r.fill.after.buffered (limit - appended), some .messageSize⟩,
        line ++ r.fill.after.data.take (min r.fill.after.buffered (limit - appended)),
        r.fill.after.consume (min r.fill.after.buffered (limit - appended))⟩ := by
  unfold readLineFrom
  refine (if_neg herror).trans ((dif_neg hbytes).trans ?_)
  dsimp only
  rw [hnone]
  exact if_pos hlimit

/-- With more to read. -/
theorem readLineFrom_of_none {line : List β} {appended : ℕ} (happended : appended ≤ limit)
    (herror : ¬ r.fill.result.error.isSome = true) (hbytes : ¬ r.fill.result.bytes = 0)
    (hnone : memchr r.fill.after.data delimiter
      (min r.fill.after.buffered (limit - appended)) = none)
    (hlimit : ¬ appended + min r.fill.after.buffered (limit - appended) = limit) :
    readLineFrom delimiter limit r line appended happended =
      readLineFrom delimiter limit
        (r.fill.after.consume (min r.fill.after.buffered (limit - appended)))
        (line ++ r.fill.after.data.take (min r.fill.after.buffered (limit - appended)))
        (appended + min r.fill.after.buffered (limit - appended)) (by omega) := by
  conv_lhs => unfold readLineFrom
  refine (if_neg herror).trans ((dif_neg hbytes).trans ?_)
  dsimp only
  rw [hnone]
  exact if_neg hlimit

theorem readLineFrom_spec (delimiter : β) (limit : ℕ) (r : BufReader β ε) (line : List β)
    (appended : ℕ) (happended : appended ≤ limit) (hline : appended = line.length) :
    Hands r line limit (readLineFrom delimiter limit r line appended happended) ∧
      (∀ error, (readLineFrom delimiter limit r line appended happended).result.error =
        some (.os error) → Fails r (readLineFrom delimiter limit r line appended happended).after) ∧
      ((∀ error, (readLineFrom delimiter limit r line appended happended).result.error ≠
          some (.os error)) → delimiter ∉ line → (line = [] ∨ line.length < limit) →
        lineOf delimiter limit (line ++ r.remaining) =
          ((readLineFrom delimiter limit r line appended happended).out,
            (readLineFrom delimiter limit r line appended happended).result.error)) := by
  induction r, line, appended, happended using readLineFrom.induct delimiter limit with
  | case1 r line appended happended filled herror =>
    obtain ⟨hfails, error, herror'⟩ := r.fails_fill herror
    rw [readLineFrom_of_error happended herror]
    exact ⟨⟨⟨[], (List.append_nil _).symm, r.moves_fill⟩, hline, hline ▸ happended⟩,
      fun _ _ ↦ hfails, fun hos ↦ absurd herror' (hos error)⟩
  | case2 r line appended happended filled herror hbytes =>
    have hmoves := r.moves_fill.remaining_eq
    rw [r.remaining_fill herror hbytes] at hmoves
    rw [readLineFrom_of_end happended herror hbytes, hmoves, List.append_nil, List.append_nil]
    exact ⟨⟨⟨[], (List.append_nil _).symm, r.moves_fill⟩, hline, hline ▸ happended⟩,
      fun _ h ↦ (nomatch h), fun _ ↦ lineOf_end⟩
  | case3 r line appended happended filled herror hbytes room window found hfound =>
    obtain ⟨hwindow, hlength, hbefore, htake⟩ := memchr_some hfound
    have htaken : found + 1 ≤ r.fill.after.buffered :=
      Nat.le_trans hwindow (Nat.min_le_left _ _)
    have hroom : found + 1 ≤ limit - appended := Nat.le_trans hwindow (Nat.min_le_right _ _)
    have hmoves := r.moves_fill_consume htaken
    have hcount := r.fill.after.length_data_take htaken
    rw [readLineFrom_of_found happended herror hbytes hfound]
    refine ⟨⟨⟨_, rfl, hmoves⟩, ?_, ?_⟩, fun _ h ↦ (nomatch h), fun _ hnot _ ↦ ?_⟩
    · rw [List.length_append, hcount, hline]
    · rw [List.length_append, hcount]
      omega
    · have hfront : delimiter ∉ line ++ r.fill.after.data.take found := fun h ↦
        (List.mem_append.mp h).elim hnot hbefore
      have hless : (line ++ r.fill.after.data.take found).length < limit := by
        rw [List.length_append, List.length_take]
        omega
      rw [hmoves.remaining_eq, htake, List.append_assoc, ← List.append_assoc line,
        ← List.append_assoc line]
      exact lineOf_found hfront hless
  | case4 r line appended happended filled herror hbytes room window hnone taken hlimit =>
    have htaken : min r.fill.after.buffered (limit - appended) ≤ r.fill.after.buffered :=
      Nat.min_le_left _ _
    have hmoves := r.moves_fill_consume htaken
    have hcount := r.fill.after.length_data_take htaken
    have hfull : appended + min r.fill.after.buffered (limit - appended) = limit := hlimit
    rw [readLineFrom_of_full happended herror hbytes hnone hlimit]
    have hlength : (line ++ r.fill.after.data.take
        (min r.fill.after.buffered (limit - appended))).length = limit := by
      rw [List.length_append, hcount, ← hline, hfull]
    refine ⟨⟨⟨_, rfl, hmoves⟩, hfull.trans hlength.symm, Nat.le_of_eq hlength⟩,
      fun _ h ↦ (nomatch h), fun _ hnot _ ↦ ?_⟩
    have hfront : delimiter ∉ line ++ r.fill.after.data.take
        (min r.fill.after.buffered (limit - appended)) := fun h ↦
      (List.mem_append.mp h).elim hnot (memchr_none hnone)
    have hsome : r.remaining ≠ [] := by
      have hfill := r.moves_fill.remaining_eq
      rw [List.nil_append] at hfill
      rw [hfill]
      intro hnil
      have hcontents := congrArg List.length (List.append_eq_nil_iff.mp hnil).1
      rw [length_contents, ← bytes_fill] at hcontents
      exact hbytes hcontents
    rw [hmoves.remaining_eq] at hsome ⊢
    rw [← List.append_assoc]
    refine lineOf_full hfront hlength fun hnil ↦ hsome ?_
    rw [List.append_assoc] at hnil
    exact (List.append_eq_nil_iff.mp hnil).2
  | case5 r line appended happended filled herror hbytes room window hnone taken hlimit ih =>
    have htaken : taken ≤ r.fill.after.buffered := Nat.min_le_left _ _
    have hmoves := r.moves_fill_consume htaken
    have hcount := r.fill.after.length_data_take htaken
    have hroom : taken ≤ limit - appended := Nat.min_le_right _ _
    have hlength : (line ++ r.fill.after.data.take taken).length = appended + taken := by
      rw [List.length_append, hcount, hline]
    rw [readLineFrom_of_none happended herror hbytes hnone hlimit]
    obtain ⟨hhands, hfails, hspec⟩ := ih hlength.symm
    refine ⟨Hands.append hmoves hhands, fun error h ↦ hmoves.fails_right (hfails error h),
      fun hos hnot _ ↦ ?_⟩
    rw [hmoves.remaining_eq, ← List.append_assoc]
    refine hspec hos (fun h ↦ (List.mem_append.mp h).elim hnot (memchr_none hnone)) (.inr ?_)
    rw [hlength]
    omega

theorem readLine_spec (r : BufReader β ε) (delimiter : β) (limit : ℕ) :
    Hands r [] limit (r.readLine delimiter limit) ∧
      (∀ error, (r.readLine delimiter limit).result.error = some (.os error) →
        Fails r (r.readLine delimiter limit).after) ∧
      ((∀ error, (r.readLine delimiter limit).result.error ≠ some (.os error)) →
        lineOf delimiter limit r.remaining =
          ((r.readLine delimiter limit).out, (r.readLine delimiter limit).result.error)) := by
  obtain ⟨hhands, hfails, hline⟩ := readLineFrom_spec delimiter limit r [] 0 (Nat.zero_le _) rfl
  exact ⟨hhands, hfails, fun hos ↦ hline hos List.not_mem_nil (.inl rfl)⟩

end

/-! ### Any calls one after another -/

/-- A call of the reader. -/
inductive Op (β : Type u)
  | read (length : ℕ)
  | readExactly (length : ℕ)
  | readLine (delimiter : β) (limit : ℕ)
  | fill
  | consume (count : ℕ)

/-- The bytes a call hands out or consumes, and the reader after it. -/
def apply (r : BufReader β ε) : Op β → List β × BufReader β ε
  | .read length => ((r.read length).out, (r.read length).after)
  | .readExactly length => ((r.readExactly length).out, (r.readExactly length).after)
  | .readLine delimiter limit =>
    ((r.readLine delimiter limit).out, (r.readLine delimiter limit).after)
  | .fill => ([], r.fill.after)
  | .consume count => (r.contents.take count, r.consume count)

/-- The bytes of calls one after another. -/
def run : List (Op β) → BufReader β ε → List β × BufReader β ε
  | [], r => ([], r)
  | op :: ops, r => ((r.apply op).1 ++ (run ops (r.apply op).2).1, (run ops (r.apply op).2).2)

omit [DecidableEq β] in
theorem Hands.moves_nil {r : BufReader β ε} {length : ℕ} {reply : Reply β ε (BufReader β ε)}
    (h : Hands r [] length reply) : Moves r reply.out reply.after := by
  obtain ⟨more, hmore, hmoves⟩ := h.moves
  exact hmore ▸ hmoves

theorem moves_apply (r : BufReader β ε) (op : Op β) : Moves r (r.apply op).1 (r.apply op).2 := by
  cases op with
  | read length => exact (r.hands_read length).moves_nil
  | readExactly length => exact (r.readExactly_spec length).1.moves_nil
  | readLine delimiter limit => exact (r.readLine_spec delimiter limit).1.moves_nil
  | fill => exact r.moves_fill
  | consume count => exact r.moves_consume count

theorem moves_run (ops : List (Op β)) (r : BufReader β ε) :
    Moves r (run ops r).1 (run ops r).2 := by
  induction ops generalizing r with
  | nil => exact Moves.refl r
  | cons op ops ih => exact (r.moves_apply op).trans (ih _)

omit [DecidableEq β] in
/-- Without an error `readExactly` hands out what comes next. -/
theorem readExactly_eq (r : BufReader β ε) (length : ℕ)
    (hquiet : ¬ Fails r (r.readExactly length).after) :
    (r.readExactly length).out = r.remaining.take length ∧
      (r.readExactly length).result = ⟨min length r.remaining.length, none⟩ := by
  obtain ⟨hhands, hfails, hdone⟩ := r.readExactly_spec length
  have herror : (r.readExactly length).result.error = none :=
    Option.not_isSome_iff_eq_none.mp (mt hfails hquiet)
  have hremaining := hhands.moves_nil.remaining_eq
  have hout : (r.readExactly length).out = r.remaining.take length := by
    rcases hdone herror with hall | hend
    · rw [hremaining, List.take_left' (hhands.bytes.symm.trans hall)]
    · rw [hend, List.append_nil] at hremaining
      rw [hremaining, List.take_of_length_le hhands.length_le]
  have hbytes : (r.readExactly length).result.bytes = min length r.remaining.length := by
    rw [hhands.bytes, hout, List.length_take]
  refine ⟨hout, ?_⟩
  rw [← hbytes, ← herror]

/-- Without an error `readLine` appends the next line. -/
theorem readLine_eq (r : BufReader β ε) (delimiter : β) (limit : ℕ)
    (hquiet : ¬ Fails r (r.readLine delimiter limit).after) :
    ((r.readLine delimiter limit).out, (r.readLine delimiter limit).result.error) =
        lineOf delimiter limit r.remaining ∧
      (r.readLine delimiter limit).result.bytes = (r.readLine delimiter limit).out.length := by
  obtain ⟨hhands, hfails, hline⟩ := r.readLine_spec delimiter limit
  exact ⟨(hline fun error h ↦ hquiet (hfails error h)).symm, hhands.bytes⟩

end BufReader

/-- A socket nobody has read from. -/
def StreamSocket.fresh (bytes : List β) (answers : ℕ → Answer ε) : StreamSocket β ε where
  received := []
  rest := bytes
  answers := answers
  reads := 0

/-- However the bytes arrive and whatever was called before, what was handed out or consumed
followed by what is buffered is what was received; and unless the kernel answers with an error,
`readExactly` and `readLine` depend on the remaining bytes only. -/
theorem buffered_reading [Inhabited β] [DecidableEq β] (bytes : List β) (answers : ℕ → Answer ε)
    (capacity : ℕ) (hcapacity : 0 < capacity) (ops : List (BufReader.Op β)) :
    let done := BufReader.run ops (.new (.fresh bytes answers) capacity hcapacity)
    let handed := done.1
    let r := done.2
    (handed ++ r.contents = r.stream.received ∧ r.stream.received ++ r.stream.rest = bytes) ∧
      (∀ length, ¬ r.Fails (r.readExactly length).after →
        (r.readExactly length).out = r.remaining.take length ∧
          (r.readExactly length).result = ⟨min length r.remaining.length, none⟩) ∧
      ∀ delimiter limit, ¬ r.Fails (r.readLine delimiter limit).after →
        ((r.readLine delimiter limit).out, (r.readLine delimiter limit).result.error) =
            BufReader.lineOf delimiter limit r.remaining ∧
          (r.readLine delimiter limit).result.bytes =
            (r.readLine delimiter limit).out.length := by
  intro done handed r
  refine ⟨?_, r.readExactly_eq, r.readLine_eq⟩
  obtain ⟨more, hreceived, hrest, hcontents⟩ :=
    (BufReader.moves_run ops (.new (.fresh bytes answers) capacity hcapacity)).bytes
  have hempty : (BufReader.new (.fresh bytes answers) capacity hcapacity).contents = [] :=
    BufReader.contents_eq_nil rfl
  rw [hempty, List.nil_append] at hcontents
  have hmore : r.stream.received = more := hreceived
  rw [hmore]
  exact ⟨hcontents.symm, hrest.symm⟩

/-- The line 1, 2, 3, 0 arrives byte by byte at a buffer of two bytes. -/
theorem buffered_reading_byteByByte :
    let r : BufReader ℕ Empty := .new (.fresh [1, 2, 3, 0, 4] fun _ ↦ .deliver 0) 2 (by decide)
    ((r.readLine 0 10).out, (r.readLine 0 10).result.error) = ([1, 2, 3, 0], none) := by
  intro r
  have hquiet : ¬ r.Fails (r.readLine 0 10).after := fun ⟨_, _, _, _, h⟩ ↦ nomatch h
  exact ((buffered_reading [1, 2, 3, 0, 4] (fun _ ↦ .deliver 0) 2 (by decide) []).2.2 0 10
    hquiet).1

end Stackfull.Io
