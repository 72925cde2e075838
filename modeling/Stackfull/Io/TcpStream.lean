import Mathlib.Data.List.Basic
import Mathlib.Tactic.Common

/-!
# Connecting over a list of addresses

`TcpStream::connect` over a list (`TcpStream.cpp`), the connect to one address that it tries after
another, and what that one is made of: `openSocket`, `startConnect`, `wrap`, the wait for
writability and `finishConnect`. A connect to an address is given by how the kernel and the poller
answer it.

A wait for which no report comes ends when the deadline has passed, with the same error that the
kernel reports for a handshake that nobody answers. The log is history: what becomes of the sockets.
-/

set_option autoImplicit false
set_option relaxedAutoImplicit false
set_option linter.dupNamespace false

namespace Stackfull.Io.TcpStream

universe u

/-- The errors that `std::errc::timed_out` equals, the one of a list without addresses, and the
others. -/
inductive Error (ε : Type u)
  | timedOut
  | addressNotAvailable
  | other (error : ε)
  deriving DecidableEq

/-- How `::connect` ends. -/
inductive Started (ε : Type u)
  | connected
  | inProgress
  | failed (error : Error ε)

/-- What comes of a wait: a report, an error of `Poller::arm`, or nothing. -/
inductive Report (ε : Type u)
  | reported
  | failed (error : Error ε)
  | silent

/-- How the connect to an address is answered, and what time it is at its end. -/
structure Answers (ε : Type u) where
  socket : Option (Error ε)
  setNonBlocking : Option (Error ε)
  start : Started ε
  registration : Option (Error ε)
  report : Report ε
  soError : Option (Error ε)
  clock : ℕ

/-- What becomes of the socket of an attempt. -/
inductive Event
  | tries (attempt : ℕ)
  | opens (attempt : ℕ)
  | registers (attempt : ℕ)
  | deregisters (attempt : ℕ)
  | closes (attempt : ℕ)
  deriving DecidableEq

/-- `TcpStreamResult`: the stream of an attempt, or an error. -/
inductive Result (ε : Type u)
  | stream (attempt : ℕ)
  | error (error : Error ε)
  deriving DecidableEq

variable {ε : Type u}

/-- `openSocket`. -/
def openSocket (i : ℕ) (address : Answers ε) : Option (Error ε) × List Event :=
  match address.socket with
  | some error => (some error, [])
  | none =>
    match address.setNonBlocking with
    | some error => (some error, [.opens i, .closes i])
    | none => (none, [.opens i])

/-- `wrap`: a stream whose registration failed does not leave the poller. -/
def wrap (i : ℕ) (address : Answers ε) : Option (Error ε) × List Event :=
  match address.registration with
  | some error => (some error, [.closes i])
  | none => (none, [.registers i])

/-- `startConnect`, with `inProgress`. -/
def startConnect (i : ℕ) (address : Answers ε) : Except (Error ε) Bool × List Event :=
  match openSocket i address with
  | (some error, log) => (.error error, log)
  | (none, log) =>
    match address.start with
    | .failed error => (.error error, log ++ [.closes i])
    | .connected =>
      match wrap i address with
      | (some error, more) => (.error error, log ++ more)
      | (none, more) => (.ok false, log ++ more)
    | .inProgress =>
      match wrap i address with
      | (some error, more) => (.error error, log ++ more)
      | (none, more) => (.ok true, log ++ more)

/-- `waitWritable` and `waitWritableUntil`, if they return. -/
def waitWritable (deadline : Option ℕ) (address : Answers ε) : Option (Option (Error ε)) :=
  match address.report with
  | .reported => some none
  | .failed error => some (some error)
  | .silent =>
    match deadline with
    | none => none
    | some deadline => if deadline ≤ address.clock then some (some .timedOut) else none

/-- `connect` to one address, if it returns. Without a deadline, `deadline` is `none`. -/
def connect (deadline : Option ℕ) (i : ℕ) (address : Answers ε) :
    Option (Result ε) × List Event :=
  match startConnect i address with
  | (.error error, log) => (some (.error error), log)
  | (.ok false, log) => (some (.stream i), log)
  | (.ok true, log) =>
    match waitWritable deadline address with
    | none => (none, log)
    | some (some error) => (some (.error error), log ++ [.deregisters i, .closes i])
    | some none =>
      match address.soError with
      | some error => (some (.error error), log ++ [.deregisters i, .closes i])
      | none => (some (.stream i), log)

/-- A result that ends the loop. -/
def Result.ends : Result ε → Bool
  | .stream _ => true
  | .error .timedOut => true
  | .error _ => false

/-- The loop of `connect` over a list. -/
def connectFrom (deadline : Option ℕ) (result : Result ε) :
    ℕ → List (Answers ε) → Option (Result ε) × List Event
  | _, [] => (some result, [])
  | i, address :: addresses =>
    match connect deadline i address with
    | (none, log) => (none, .tries i :: log)
    | (some result, log) =>
      if result.ends then (some result, .tries i :: log)
      else
        let (last, more) := connectFrom deadline result (i + 1) addresses
        (last, .tries i :: log ++ more)

/-- `connect` over a list. -/
def connectList (deadline : Option ℕ) (addresses : List (Answers ε)) :
    Option (Result ε) × List Event :=
  connectFrom deadline (.error .addressNotAvailable) 0 addresses

/-! ### What becomes of the sockets -/

/-- The attempt an event belongs to. -/
def Event.attempt : Event → ℕ
  | .tries i | .opens i | .registers i | .deregisters i | .closes i => i

/-- What an attempt logs when its socket is released: it was never there, or it was closed, after
it had left the poller. -/
def Dropped (i : ℕ) (log : List Event) : Prop :=
  log = [] ∨ log = [.opens i, .closes i] ∨
    log = [.opens i, .registers i, .deregisters i, .closes i]

/-- Before each attempt the sockets of all others are released. -/
def Clean (log : List Event) : Prop :=
  ∀ before j after, log = before ++ .tries j :: after →
    ∀ i, before.filter (·.attempt = i) = [] ∨
      ∃ dropped, Dropped i dropped ∧ before.filter (·.attempt = i) = .tries i :: dropped

variable {deadline : Option ℕ} {i j : ℕ} {address : Answers ε} {addresses : List (Answers ε)}
  {result : Result ε} {log : List Event} {event : Event}

/-- An attempt fails and releases its socket, or it has a registered one. -/
theorem connect_cases (deadline : Option ℕ) (i : ℕ) (address : Answers ε) :
    (∃ error, (connect deadline i address).1 = some (.error error) ∧
        Dropped i (connect deadline i address).2) ∨
      (connect deadline i address).2 = [.opens i, .registers i] ∧
        ((connect deadline i address).1 = none ∨
          (connect deadline i address).1 = some (.stream i)) := by
  unfold connect startConnect openSocket wrap
  cases address.socket with
  | some error => exact .inl ⟨error, rfl, .inl rfl⟩
  | none =>
    cases address.setNonBlocking with
    | some error => exact .inl ⟨error, rfl, .inr (.inl rfl)⟩
    | none =>
      cases address.start with
      | failed error => exact .inl ⟨error, rfl, .inr (.inl rfl)⟩
      | connected =>
        cases address.registration with
        | some error => exact .inl ⟨error, rfl, .inr (.inl rfl)⟩
        | none => exact .inr ⟨rfl, .inr rfl⟩
      | inProgress =>
        cases address.registration with
        | some error => exact .inl ⟨error, rfl, .inr (.inl rfl)⟩
        | none =>
          rcases waitWritable deadline address with _ | _ | error
          · exact .inr ⟨rfl, .inl rfl⟩
          · cases address.soError with
            | some error => exact .inl ⟨error, rfl, .inr (.inr rfl)⟩
            | none => exact .inr ⟨rfl, .inr rfl⟩
          · exact .inl ⟨error, rfl, .inr (.inr rfl)⟩

/-- An attempt logs its own socket. -/
theorem connect_events (hevent : event ∈ (connect deadline i address).2) :
    event.attempt = i ∧ event ≠ .tries j := by
  obtain ⟨-, -, h | h | h⟩ | ⟨h, -⟩ := connect_cases deadline i address <;> rw [h] at hevent
  · exact absurd hevent List.not_mem_nil
  all_goals
    simp only [List.mem_cons, List.not_mem_nil, or_false] at hevent
    rcases hevent with rfl | rfl | rfl | rfl <;> exact ⟨rfl, Event.noConfusion⟩

/-- The loop after an attempt that does not end it. -/
theorem connectFrom_of_goes (hresult : (connect deadline i address).1 = some result)
    (hends : result.ends = false) (first : Result ε) :
    connectFrom deadline first i (address :: addresses) =
      ((connectFrom deadline result (i + 1) addresses).1,
        .tries i :: (connect deadline i address).2 ++
          (connectFrom deadline result (i + 1) addresses).2) := by
  rw [connectFrom]
  generalize connect deadline i address = attempt at hresult
  obtain ⟨returned, log⟩ := attempt
  obtain rfl : returned = some result := hresult
  simp only [hends, Bool.false_eq_true, if_false]

/-- The loop after its last attempt. -/
theorem connectFrom_of_stops
    (hstops : ∀ result, (connect deadline i address).1 = some result → result.ends = true)
    (first : Result ε) :
    connectFrom deadline first i (address :: addresses) =
      ((connect deadline i address).1, .tries i :: (connect deadline i address).2) := by
  rw [connectFrom]
  generalize connect deadline i address = attempt at hstops
  obtain ⟨_ | result, log⟩ := attempt
  · rfl
  · simp only [hstops result rfl, if_true]

/-- An attempt either ends the loop or goes on with an error. -/
theorem connect_goes_or_stops (deadline : Option ℕ) (i : ℕ) (address : Answers ε) :
    (∃ error, (connect deadline i address).1 = some (.error error) ∧ error ≠ .timedOut ∧
        (Result.error error).ends = false ∧ Dropped i (connect deadline i address).2) ∨
      ∀ result, (connect deadline i address).1 = some result → result.ends = true := by
  obtain ⟨error, hresult, hdropped⟩ | ⟨-, hresult | hresult⟩ := connect_cases deadline i address
  · cases error with
    | timedOut =>
      right
      rintro result h
      rw [hresult] at h
      obtain rfl := Option.some.inj h
      rfl
    | addressNotAvailable => exact .inl ⟨_, hresult, by simp, rfl, hdropped⟩
    | other error => exact .inl ⟨_, hresult, by simp, rfl, hdropped⟩
  · right
    rintro result h
    rw [hresult] at h
    cases h
  · right
    rintro result h
    rw [hresult] at h
    obtain rfl := Option.some.inj h
    rfl

/-- The loop logs attempts from `i` on. -/
theorem connectFrom_events (hevent : event ∈ (connectFrom deadline result i addresses).2) :
    i ≤ event.attempt := by
  induction addresses generalizing i result with
  | nil => exact absurd hevent List.not_mem_nil
  | cons address addresses ih =>
    obtain ⟨error, hresult, -, hends, -⟩ | hstops := connect_goes_or_stops deadline i address
    · rw [connectFrom_of_goes hresult hends] at hevent
      rcases List.mem_append.mp hevent with hfirst | hmore
      · rcases List.mem_cons.mp hfirst with rfl | hlog
        · exact Nat.le_refl i
        · exact Nat.le_of_eq (connect_events (j := 0) hlog).1.symm
      · exact Nat.le_of_succ_le (ih hmore)
    · rw [connectFrom_of_stops hstops] at hevent
      rcases List.mem_cons.mp hevent with rfl | hlog
      · exact Nat.le_refl i
      · exact Nat.le_of_eq (connect_events (j := 0) hlog).1.symm

/-- Where an attempt begins, in a log that goes on behind an attempt. -/
theorem split_log {before after first more : List Event}
    (hfirst : ∀ event ∈ first, event ≠ .tries j)
    (hlog : .tries i :: first ++ more = before ++ .tries j :: after) :
    before = [] ∨
      ∃ rest, before = .tries i :: first ++ rest ∧ more = rest ++ .tries j :: after := by
  cases before with
  | nil => exact .inl rfl
  | cons event before =>
    right
    rw [List.cons_append, List.cons_append] at hlog
    obtain ⟨rfl, htail⟩ := List.cons.inj hlog
    rcases List.append_eq_append_iff.mp htail with ⟨rest, rfl, hmore⟩ | ⟨rest, rfl, hmore⟩
    · exact ⟨rest, rfl, hmore⟩
    · cases rest with
      | nil => exact ⟨[], by simp, by simpa using hmore.symm⟩
      | cons event rest =>
        rw [List.cons_append] at hmore
        obtain ⟨rfl, -⟩ := List.cons.inj hmore
        exact absurd rfl (hfirst _ (List.mem_append_right _ (List.mem_cons_self)))

theorem filter_own (hown : ∀ event ∈ log, event.attempt = i) :
    log.filter (·.attempt = i) = log :=
  List.filter_eq_self.mpr fun event hevent ↦ decide_eq_true (hown event hevent)

theorem filter_other (hother : ∀ event ∈ log, event.attempt ≠ i) :
    log.filter (·.attempt = i) = [] :=
  List.filter_eq_nil_iff.mpr fun event hevent ↦ by
    rw [decide_eq_true_iff]
    exact hother event hevent

theorem clean_connectFrom : Clean (connectFrom deadline result i addresses).2 := by
  induction addresses generalizing i result with
  | nil =>
    rintro before j after hlog
    have hempty : [] = before ++ .tries j :: after := hlog
    simp at hempty
  | cons address addresses ih =>
    obtain ⟨error, hresult, -, hends, hdropped⟩ | hstops := connect_goes_or_stops deadline i address
    · rw [connectFrom_of_goes hresult hends]
      intro before j after hlog k
      rcases split_log (fun event hevent ↦ (connect_events hevent).2) hlog with
        rfl | ⟨rest, rfl, hrest⟩
      · exact .inl rfl
      have hevents : ∀ event ∈ rest, i + 1 ≤ event.attempt := fun event hevent ↦
        connectFrom_events (hrest ▸ List.mem_append_left _ hevent)
      have hown : ∀ event ∈ .tries i :: (connect deadline i address).2, event.attempt = i := by
        intro event hevent
        rcases List.mem_cons.mp hevent with rfl | hlog
        · rfl
        · exact (connect_events (j := 0) hlog).1
      rw [List.filter_append]
      by_cases hk : k = i
      · subst hk
        right
        refine ⟨_, hdropped, ?_⟩
        rw [filter_own hown, filter_other fun event hevent ↦ Nat.ne_of_gt (hevents event hevent),
          List.append_nil]
      · rw [filter_other fun event hevent ↦ by rw [hown event hevent]; exact Ne.symm hk,
          List.nil_append]
        exact ih rest j after hrest k
    · rw [connectFrom_of_stops hstops]
      intro before j after hlog k
      change Event.tries i :: (connect deadline i address).2 = _ at hlog
      rw [← List.append_nil (Event.tries i :: (connect deadline i address).2)] at hlog
      rcases split_log (fun event hevent ↦ (connect_events hevent).2) hlog with
        rfl | ⟨rest, -, hrest⟩
      · exact .inl rfl
      · simp at hrest

/-! ### Which addresses are tried -/

/-- The connect to address `i` ends with a result. -/
def Ends (deadline : Option ℕ) (addresses : List (Answers ε)) (i : ℕ) (result : Result ε) : Prop :=
  ∃ address, addresses[i]? = some address ∧ (connect deadline i address).1 = some result

/-- The deadline has passed at the end of attempt `i`. -/
def Expired (deadline : Option ℕ) (addresses : List (Answers ε)) (i : ℕ) : Prop :=
  ∃ address limit, addresses[i]? = some address ∧ deadline = some limit ∧ limit ≤ address.clock

/-- An error of the kernel or the poller that the loop takes for the end of the deadline, before the
last address and the end of the deadline. -/
def MistakenEnd (deadline : Option ℕ) (addresses : List (Answers ε)) : Prop :=
  ∃ i, i + 1 < addresses.length ∧
    (∀ j < i, ∃ error, error ≠ .timedOut ∧ Ends deadline addresses j (.error error)) ∧
    Ends deadline addresses i (.error .timedOut) ∧ ∀ j ≤ i, ¬ Expired deadline addresses j

/-- The result is the stream of the first address that connects, or an error after all addresses
or after the deadline. -/
def Right (deadline : Option ℕ) (addresses : List (Answers ε)) (log : List Event) :
    Result ε → Prop
  | .stream i => Ends deadline addresses i (.stream i) ∧ .tries i ∈ log ∧
      ∀ j < i, .tries j ∈ log ∧ ∃ error, Ends deadline addresses j (.error error)
  | .error _ =>
    (∀ j < addresses.length, .tries j ∈ log ∧ ∃ error, Ends deadline addresses j (.error error)) ∨
      ∃ j, .tries j ∈ log ∧ Expired deadline addresses j

/-- The attempt goes on to the next address, if there is one. -/
def Passes (deadline : Option ℕ) (addresses : List (Answers ε)) (i : ℕ) : Prop :=
  ∃ error, error ≠ .timedOut ∧ Ends deadline addresses i (.error error)

/-- `m` attempts are made, the last of which ends the loop, or does not return, or is the one with
the last address. -/
structure Made (deadline : Option ℕ) (all : List (Answers ε)) (n m : ℕ)
    (done : Option (Result ε) × List Event) : Prop where
  le : n ≤ m
  tries : ∀ j, .tries j ∈ done.2 ↔ n ≤ j ∧ j < m
  passes : ∀ j, j + 1 < m → Passes deadline all j
  waits : done.1 = none → ∃ address, all[m - 1]? = some address ∧ 0 < m ∧
    (connect deadline (m - 1) address).1 = none
  returns : ∀ last, done.1 = some last →
    (m = all.length ∧ (∃ error, last = .error error) ∧ ∀ j < m, Passes deadline all j) ∨
      0 < m ∧ m ≤ all.length ∧ Ends deadline all (m - 1) last ∧ last.ends = true

theorem connectFrom_made {all : List (Answers ε)} (tried : List (Answers ε))
    (hall : all = tried ++ addresses)
    (hpasses : ∀ j < tried.length, Passes deadline all j)
    (hresult : ∃ error, result = .error error) :
    ∃ m, Made deadline all tried.length m (connectFrom deadline result tried.length addresses) := by
  induction addresses generalizing tried result with
  | nil =>
    rw [List.append_nil] at hall
    subst hall
    refine ⟨all.length, Nat.le_refl _, fun j ↦ ?_, fun j hlt ↦ hpasses j (Nat.lt_of_succ_lt hlt),
      fun h ↦ (by cases h), fun last hlast ↦ .inl ⟨rfl, ?_, hpasses⟩⟩
    · exact ⟨fun h ↦ absurd h List.not_mem_nil, fun h ↦ absurd h.2 (Nat.not_lt.mpr h.1)⟩
    · exact (Option.some.inj hlast) ▸ hresult
  | cons address addresses ih =>
    have hlength : all.length = tried.length + (addresses.length + 1) := by
      rw [hall, List.length_append, List.length_cons]
    have haddress : all[tried.length]? = some address := by
      rw [hall, List.getElem?_append_right (Nat.le_refl _), Nat.sub_self]
      rfl
    have hnot (j : ℕ) : .tries j ∉ (connect deadline tried.length address).2 := fun h ↦
      (connect_events h).2 rfl
    obtain ⟨error, hends, herror, hgoes, -⟩ | hstops :=
      connect_goes_or_stops deadline tried.length address
    · have hlonger : (tried ++ [address]).length = tried.length + 1 := List.length_append
      have hpasses' : ∀ j < (tried ++ [address]).length, Passes deadline all j := by
        intro j hj
        rw [hlonger] at hj
        rcases Nat.lt_succ_iff_lt_or_eq.mp hj with hbefore | rfl
        · exact hpasses j hbefore
        · exact ⟨error, herror, address, haddress, hends⟩
      have hall' : all = tried ++ [address] ++ addresses := by
        rw [hall, List.append_assoc]
        rfl
      obtain ⟨m, hle, htries, hmade, hwaits, hreturns⟩ := ih _ hall' hpasses' ⟨error, rfl⟩
      rw [hlonger] at hle htries hwaits hreturns
      rw [connectFrom_of_goes hends hgoes]
      refine ⟨m, Nat.le_of_succ_le hle, fun j ↦ ?_, hmade, hwaits, hreturns⟩
      rw [List.mem_append, List.mem_cons, htries, Event.tries.injEq, or_iff_left (hnot j)]
      omega
    · rw [connectFrom_of_stops hstops]
      refine ⟨tried.length + 1, Nat.le_succ _, fun j ↦ ?_,
        fun j hlt ↦ hpasses j (Nat.lt_of_succ_lt_succ hlt),
        fun hnone ↦ ⟨address, haddress, Nat.succ_pos _, hnone⟩, fun last hlast ↦
        .inr ⟨Nat.succ_pos _, by omega, ⟨address, haddress, hlast⟩, hstops last hlast⟩⟩
      rw [List.mem_cons, Event.tries.injEq, or_iff_left (hnot j)]
      omega

/-- A stream is the one of the attempt. -/
theorem Ends.attempt (h : Ends deadline addresses i (.stream j)) : j = i := by
  obtain ⟨address, -, hresult⟩ := h
  obtain ⟨error, herror, -⟩ | ⟨-, hnone | hstream⟩ := connect_cases deadline i address
  · rw [herror] at hresult
    cases hresult
  · rw [hnone] at hresult
    cases hresult
  · rw [hstream] at hresult
    exact (Result.stream.inj (Option.some.inj hresult)).symm

theorem Ends.unique {other : Result ε} (h : Ends deadline addresses i result)
    (h' : Ends deadline addresses i other) : result = other := by
  obtain ⟨address, haddress, hresult⟩ := h
  obtain ⟨address', haddress', hresult'⟩ := h'
  obtain rfl := Option.some.inj (haddress.symm.trans haddress')
  exact Option.some.inj (hresult.symm.trans hresult')

theorem Passes.fails (h : Passes deadline addresses i) :
    ∃ error, Ends deadline addresses i (.error error) :=
  h.imp fun _ hfails ↦ hfails.2

theorem Passes.not_timedOut (h : Passes deadline addresses i)
    (htimed : Ends deadline addresses i (.error .timedOut)) : False := by
  obtain ⟨error, herror, hends⟩ := h
  exact herror (Result.error.inj (hends.unique htimed))

/-- Unless there is a mistaken end, the result is right. -/
theorem Made.right {m : ℕ} {done : Option (Result ε) × List Event} {last : Result ε}
    (h : Made deadline addresses 0 m done) (hmistaken : ¬ MistakenEnd deadline addresses)
    (hlast : done.1 = some last) : Right deadline addresses done.2 last := by
  have htries : ∀ j < m, .tries j ∈ done.2 := fun j hj ↦ (h.tries j).mpr ⟨Nat.zero_le j, hj⟩
  obtain ⟨rfl, ⟨error, rfl⟩, hall⟩ | ⟨hpos, hle, hends, hstops⟩ := h.returns last hlast
  · exact .inl fun j hj ↦ ⟨htries j hj, (hall j hj).fails⟩
  · have hbefore : ∀ j < m - 1, .tries j ∈ done.2 ∧
        ∃ error, Ends deadline addresses j (.error error) := fun j hj ↦
      ⟨htries j (by omega), (h.passes j (by omega)).fails⟩
    cases last with
    | stream i =>
      obtain rfl := hends.attempt
      exact ⟨hends, htries _ (by omega), hbefore⟩
    | error error =>
      obtain rfl : error = .timedOut := by
        cases error with
        | timedOut => rfl
        | addressNotAvailable => cases hstops
        | other error => cases hstops
      rcases Nat.eq_or_lt_of_le hle with rfl | hless
      · refine .inl fun j hj ↦ ?_
        rcases Nat.lt_or_eq_of_le (Nat.le_sub_one_of_lt hj) with hfront | rfl
        · exact hbefore j hfront
        · exact ⟨htries _ hj, _, hends⟩
      · right
        by_contra hnot
        refine hmistaken ⟨m - 1, by omega, fun j hj ↦ h.passes j (by omega), hends,
          fun j hj hexpired ↦ hnot ⟨j, htries j (by omega), hexpired⟩⟩

/-- A mistaken end ends the loop, and the result is wrong. -/
theorem Made.wrong {m : ℕ} {done : Option (Result ε) × List Event}
    (h : Made deadline addresses 0 m done) (hmistaken : MistakenEnd deadline addresses) :
    ∃ last, done.1 = some last ∧ ¬ Right deadline addresses done.2 last := by
  obtain ⟨i, hi, hpasses, htimed, hexpired⟩ := hmistaken
  have hmany : ¬ i + 1 < m := fun hlt ↦ (h.passes i hlt).not_timedOut htimed
  have hfew (hpos : 0 < m) (hends : ¬ Passes deadline addresses (m - 1)) : m = i + 1 := by
    by_contra hne
    exact hends (hpasses (m - 1) (by omega))
  cases hdone : done.1 with
  | none =>
    obtain ⟨address, haddress, hpos, hnone⟩ := h.waits hdone
    have hends : ¬ ∃ result, Ends deadline addresses (m - 1) result := by
      rintro ⟨result, address', haddress', hresult⟩
      obtain rfl := Option.some.inj (haddress.symm.trans haddress')
      rw [hnone] at hresult
      cases hresult
    have hm := hfew hpos fun ⟨error, _, hfails⟩ ↦ hends ⟨_, hfails⟩
    rw [hm, Nat.add_sub_cancel] at hends
    exact absurd ⟨_, htimed⟩ hends
  | some last =>
    refine ⟨last, rfl, fun hright ↦ ?_⟩
    obtain ⟨rfl, -, hall⟩ | ⟨hpos, hle, hends, hstops⟩ := h.returns last hdone
    · exact (hall i (by omega)).not_timedOut htimed
    have hm : m = i + 1 := hfew hpos fun ⟨error, herror, hother⟩ ↦ by
      obtain rfl := hends.unique hother
      cases error with
      | timedOut => exact herror rfl
      | addressNotAvailable => cases hstops
      | other error => cases hstops
    rw [hm, Nat.add_sub_cancel] at hends
    obtain rfl := hends.unique htimed
    rcases hright with hall | ⟨j, hj, hafter⟩
    · have hnext := ((h.tries (i + 1)).mp (hall (i + 1) hi).1).2
      omega
    · have hj' := ((h.tries j).mp hj).2
      exact hexpired j (by omega) hafter

/-- `connect` over a list returns the stream of the first address that connects, or an error after
it has tried all addresses or after the deadline, unless the kernel or the poller ends an attempt
before the last with the error that stands for the end of the deadline. The sockets of failed
attempts are always released before the next attempt. -/
theorem connect_tries_every_address_iff (deadline : Option ℕ) (addresses : List (Answers ε)) :
    ((∀ last, (connectList deadline addresses).1 = some last →
          Right deadline addresses (connectList deadline addresses).2 last) ∧
        Clean (connectList deadline addresses).2) ↔
      ¬ MistakenEnd deadline addresses := by
  obtain ⟨m, hmade⟩ : ∃ m, Made deadline addresses 0 m (connectList deadline addresses) :=
    connectFrom_made [] rfl (fun j hj ↦ absurd hj (Nat.not_lt_zero j)) ⟨_, rfl⟩
  constructor
  · rintro ⟨hright, -⟩ hmistaken
    obtain ⟨last, hlast, hwrong⟩ := hmade.wrong hmistaken
    exact hwrong (hright last hlast)
  · exact fun hmistaken ↦ ⟨fun last hlast ↦ hmade.right hmistaken hlast, clean_connectFrom⟩

/-- The handshake with the first of two addresses ends with `ETIMEDOUT`. -/
def unreachableFirst : List (Answers Empty) :=
  [⟨none, none, .inProgress, none, .reported, some .timedOut, 0⟩,
    ⟨none, none, .connected, none, .silent, none, 0⟩]

theorem second_address_untried :
    ¬ ∀ (deadline : Option ℕ) (addresses : List (Answers Empty)),
      (∀ last, (connectList deadline addresses).1 = some last →
          Right deadline addresses (connectList deadline addresses).2 last) ∧
        Clean (connectList deadline addresses).2 := by
  intro h
  have hright := (h none unreachableFirst).1 (.error .timedOut) rfl
  rcases hright with hall | ⟨j, -, address, limit, -, hlimit, -⟩
  · exact absurd (hall 1 (by decide)).1 (by decide)
  · cases hlimit

end Stackfull.Io.TcpStream
