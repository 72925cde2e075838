import Mathlib.Data.List.Chain
import Mathlib.Data.List.Infix
import Mathlib.Data.List.Nodup
import Stackfull.Coro.Resume

/-!
# Control finds its way back

A context that is in the middle of a `resume()` is marked `suspended`, like one that has yielded,
so the check of the state lets a coroutine be entered again while its child runs.
`coherent_of_free` says that this is all that can go wrong: as long as no call enters a block that
stands in a call of its own, the running contexts are the threads' current ones, the resumers lead
from each of them to the thread's base without a repetition, every return goes to the call that
entered the block last, and no finished context is switched to.

The invariant `Stacked` gives for each thread the blocks that are active on it, the innermost
first. What is below them, the base of the thread, is a parameter: here it is the native context.
-/

set_option autoImplicit false
set_option relaxedAutoImplicit false
set_option linter.dupNamespace false

namespace Stackfull.Coro

open Stackfull.Lib

universe u v

variable {Θ : Type u} {κ : Type v}

/-- The frame of a call that has entered another block. -/
def Frame.isCall : Frame κ → Bool
  | .call _ _ _ => true
  | .yield => false

namespace State

/-- The context that the resumer of a context names. -/
def resumerOf (s : State Θ κ) : Context Θ κ → Option (Context Θ κ)
  | .native _ => none
  | .coroutine block => s.resumer block

/-- The resumers lead from a context to another one, and meet none twice. -/
def Leads (s : State Θ κ) (source target : Context Θ κ) : Prop :=
  ∃ path : List (Context Θ κ), path.Nodup ∧ path.head? = some source ∧
    path.getLast? = some target ∧ path.IsChain fun x y ↦ s.resumerOf x = some y

/-- What control relies on. -/
structure Coherent (s : State Θ κ) : Prop where
  current_running : ∀ thread, s.state (s.current thread) = .running
  running_current : ∀ context, s.state context = .running → ∃! thread, s.current thread = context
  leads : ∀ thread, s.Leads (s.current thread) (.native thread)
  returns : ∀ r ∈ s.returns, r.returnedTo = some r.entered
  targets : .done ∉ s.targets

/-- The block stands in a call of its own: in a `resume()`, or in the destruction of a coroutine. -/
def Calling (s : State Θ κ) (block : κ) : Prop :=
  (s.frame (.coroutine block)).any Frame.isCall = true

instance (s : State Θ κ) (block : κ) : Decidable (s.Calling block) :=
  inferInstanceAs (Decidable (_ = true))

/-- The condition on a step: no call enters a block that stands in a call of its own. -/
def Free (s : State Θ κ) : Θ × Move κ → Prop
  | (_, .resume block) | (_, .destroy block) => ¬ s.Calling block
  | _ => True

instance (s : State Θ κ) (label : Θ × Move κ) : Decidable (s.Free label) :=
  match label with
  | (_, .resume _) | (_, .destroy _) => inferInstanceAs (Decidable (¬ _))
  | (_, .make _) | (_, .yield) | (_, .finish _) => inferInstanceAs (Decidable True)

end State

/-! ### What the steps change -/

section Steps

variable [DecidableEq Θ] [DecidableEq κ] (s : State Θ κ) (t : Θ)

namespace State

theorem make_other {c : κ} {x : Context Θ κ} (h : x ≠ .coroutine c) :
    (s.make c).state x = s.state x ∧ (s.make c).frame x = s.frame x :=
  ⟨Function.update_of_ne h _ _, Function.update_of_ne h _ _⟩

theorem make_block {c d : κ} (h : d ≠ c) :
    (s.make c).resumer d = s.resumer d ∧ (s.make c).allocated d = s.allocated d :=
  ⟨Function.update_of_ne h _ _, Function.update_of_ne h _ _⟩

theorem make_self (c : κ) : (s.make c).state (.coroutine c) = .created ∧
    (s.make c).frame (.coroutine c) = none ∧ (s.make c).allocated c = true :=
  ⟨Function.update_self .., Function.update_self .., Function.update_self ..⟩

theorem enter_other {entry : Entry} {c : κ} {x : Context Θ κ} (hcaller : x ≠ s.current t)
    (h : x ≠ .coroutine c) : (s.enter t entry c).state x = s.state x ∧
      (s.enter t entry c).frame x = s.frame x :=
  ⟨(Function.update_of_ne h _ _).trans (Function.update_of_ne hcaller _ _),
    (Function.update_of_ne h _ _).trans (Function.update_of_ne hcaller _ _)⟩

theorem enter_block {entry : Entry} {c d : κ} (h : d ≠ c) :
    (s.enter t entry c).resumer d = s.resumer d ∧ (s.enter t entry c).entered d = s.entered d :=
  ⟨Function.update_of_ne h _ _, Function.update_of_ne h _ _⟩

theorem enter_self (entry : Entry) (c : κ) :
    (s.enter t entry c).state (.coroutine c) = .running ∧
      (s.enter t entry c).frame (.coroutine c) = none ∧
      (s.enter t entry c).resumer c = some (s.current t) ∧
      (s.enter t entry c).entered c = s.calls :=
  ⟨Function.update_self .., Function.update_self .., Function.update_self ..,
    Function.update_self ..⟩

theorem enter_caller (entry : Entry) {c : κ} (h : s.current t ≠ .coroutine c) :
    (s.enter t entry c).state (s.current t) = .suspended ∧
      (s.enter t entry c).frame (s.current t) = some (.call entry c s.calls) :=
  ⟨(Function.update_of_ne h _ _).trans (Function.update_self ..),
    (Function.update_of_ne h _ _).trans (Function.update_self ..)⟩

/-- Control back in a context ends its frame, and changes none of the links. -/
theorem arrive_same (x : Context Θ κ) : (s.arrive x).current = s.current ∧
    (s.arrive x).state = s.state ∧ (s.arrive x).resumer = s.resumer ∧
    (s.arrive x).entered = s.entered ∧ (s.arrive x).returns = s.returns ∧
    (s.arrive x).targets = s.targets ∧ (s.arrive x).frame = Function.update s.frame x none := by
  unfold arrive
  split <;> exact ⟨rfl, rfl, rfl, rfl, rfl, rfl, rfl⟩

/-- Only the block that a destructor has unwound is released. -/
theorem arrive_allocated {x : Context Θ κ} {d : κ}
    (h : ∀ number, s.frame x ≠ some (.call .unwind d number)) :
    (s.arrive x).allocated d = s.allocated d := by
  unfold arrive
  split
  · rfl
  · rename_i block number hframe
    have hne : d ≠ block := fun heq ↦ h number (heq ▸ hframe)
    exact Function.update_of_ne hne _ _
  · rfl

/-- What leaving a block for its resumer does. -/
structure Left (s : State Θ κ) (t : Θ) (block : κ) (fromState : CoroutineState)
    (standing : Option (Frame κ)) (target : Context Θ κ) (s' : State Θ κ) : Prop where
  current : s'.current = Function.update s.current t target
  state : s'.state = Function.update (Function.update s.state (s.current t) fromState) target .running
  frame : s'.frame = Function.update (Function.update s.frame (s.current t) standing) target none
  resumer : s'.resumer = s.resumer
  entered : s'.entered = s.entered
  returns : s'.returns = ⟨s.entered block, s.callOn target block⟩ :: s.returns
  targets : s'.targets = s.state target :: s.targets
  allocated : ∀ d, target ≠ s.current t → (∀ number, s.frame target ≠ some (.call .unwind d number)) →
    s'.allocated d = s.allocated d

theorem leave_spec (fromState : CoroutineState) (standing : Option (Frame κ)) {block : κ}
    {target : Context Θ κ} (hresumer : s.resumer block = some target) :
    ∃ s', s.leave t block fromState standing = some s' ∧
      s.Left t block fromState standing target s' := by
  rw [leave, hresumer]
  obtain ⟨hcurrent, hstate, hresumer, hentered, hreturns, htargets, hframe⟩ := arrive_same
    { s.switchTo t target fromState standing with
      returns := ⟨s.entered block, s.callOn target block⟩ :: s.returns } target
  exact ⟨_, rfl, hcurrent, hstate, hframe, hresumer, hentered, hreturns, htargets,
    fun d hne hframe ↦ arrive_allocated _ fun number heq ↦
      hframe number ((Function.update_of_ne hne _ _).symm.trans heq)⟩

end State

end Steps

/-! ### The active blocks of a thread -/

/-- What runs on a thread with this base and these active blocks. -/
def top (base : Context Θ κ) : List κ → Context Θ κ
  | [] => base
  | block :: _ => .coroutine block

/-- A block becomes active on a thread. -/
def push [DecidableEq Θ] (stack : Θ → List κ) (t : Θ) (c : κ) : Θ → List κ :=
  Function.update stack t (c :: stack t)

theorem push_self [DecidableEq Θ] (stack : Θ → List κ) (t : Θ) (c : κ) :
    push stack t c t = c :: stack t :=
  Function.update_self ..

theorem push_of_ne [DecidableEq Θ] (stack : Θ → List κ) {t t' : Θ} (c : κ) (h : t' ≠ t) :
    push stack t c t' = stack t' :=
  Function.update_of_ne h _ _

/-- It is at one new place. -/
theorem suffix_push [DecidableEq Θ] {stack : Θ → List κ} {t t' : Θ} {c : κ} {rest : List κ} :
    rest <:+ push stack t c t' ↔ (t' = t ∧ rest = c :: stack t) ∨ rest <:+ stack t' := by
  rcases eq_or_ne t' t with rfl | hne
  · rw [push_self, List.suffix_cons_iff]
    simp
  · rw [push_of_ne stack c hne]
    simp [hne]

theorem mem_push [DecidableEq Θ] {stack : Θ → List κ} {t t' : Θ} {c d : κ} :
    d ∈ push stack t c t' ↔ (t' = t ∧ d = c) ∨ d ∈ stack t' := by
  rcases eq_or_ne t' t with rfl | hne
  · rw [push_self, List.mem_cons]
    simp
  · rw [push_of_ne stack c hne]
    simp [hne]

/-- Every thread has its active blocks on top of its base. -/
structure Stacked (s : State Θ κ) (base : Θ → Context Θ κ) (stack : Θ → List κ) : Prop where
  current : ∀ t, s.current t = top (base t) (stack t)
  running : ∀ t, s.state (top (base t) (stack t)) = .running
  frameless : ∀ t, s.frame (top (base t) (stack t)) = none
  linked : ∀ t c rest, c :: rest <:+ stack t →
    s.resumer c = some (top (base t) rest) ∧ s.state (top (base t) rest) = .suspended ∧
      ∃ entry, s.frame (top (base t) rest) = some (.call entry c (s.entered c))
  allocated : ∀ t rest c, rest <:+ stack t → top (base t) rest = .coroutine c →
    s.allocated c = true
  nodup : ∀ t, (stack t).Nodup
  disjoint : ∀ t t' c, c ∈ stack t → c ∈ stack t' → t = t'
  base_inj : ∀ t t', base t = base t' → t = t'
  base_out : ∀ t t' c, base t = .coroutine c → c ∉ stack t'
  outside : ∀ x, (∀ t rest, rest <:+ stack t → top (base t) rest ≠ x) →
    s.state x ≠ .running ∧ ∀ entry callee number, s.frame x ≠ some (.call entry callee number)

/-- In a list without repetitions a suffix is known by its first element. -/
theorem suffix_unique {l rest rest' : List κ} {c : κ} (hl : l.Nodup) (hrest : c :: rest <:+ l)
    (hrest' : c :: rest' <:+ l) : rest = rest' := by
  have hshort : ∀ {r r' : List κ}, c :: r <:+ c :: r' → c :: r' <:+ l → r = r' := by
    intro r r' hsuffix hl'
    rcases List.suffix_cons_iff.mp hsuffix with heq | hin
    · exact (List.cons.inj heq).2
    · exact absurd (hin.subset List.mem_cons_self) (List.nodup_cons.mp (hl.sublist hl'.sublist)).1
  rcases List.suffix_or_suffix_of_suffix hrest hrest' with h | h
  · exact hshort h hrest'
  · exact (hshort h hrest).symm

namespace Stacked

variable {s s' : State Θ κ} {base : Θ → Context Θ κ} {stack : Θ → List κ}

/-- No two places on the stacks hold one context. -/
theorem top_inj (h : Stacked s base stack) {t t' : Θ} {rest rest' : List κ}
    (hrest : rest <:+ stack t) (hrest' : rest' <:+ stack t')
    (heq : top (base t) rest = top (base t') rest') : t = t' ∧ rest = rest' := by
  cases rest with
  | nil =>
    cases rest' with
    | nil => exact ⟨h.base_inj t t' heq, rfl⟩
    | cons c' rest' => exact absurd (hrest'.subset List.mem_cons_self) (h.base_out t t' c' heq)
  | cons c rest =>
    cases rest' with
    | nil => exact absurd (hrest.subset List.mem_cons_self) (h.base_out t' t c heq.symm)
    | cons c' rest' =>
      cases heq
      have hthread : t = t' := h.disjoint t t' c (hrest.subset List.mem_cons_self)
        (hrest'.subset List.mem_cons_self)
      subst hthread
      exact ⟨rfl, by rw [suffix_unique (h.nodup t) hrest hrest']⟩

/-- A context below the top of a stack. -/
theorem below (h : Stacked s base stack) {t : Θ} {rest : List κ} (hrest : rest <:+ stack t)
    (hne : rest ≠ stack t) : s.state (top (base t) rest) = .suspended ∧
      ∃ entry callee number, s.frame (top (base t) rest) = some (.call entry callee number) := by
  obtain ⟨front, hfront⟩ := hrest
  rcases List.eq_nil_or_concat front with rfl | ⟨front, c, rfl⟩
  · exact absurd hfront hne
  · have hsuffix : c :: rest <:+ stack t := ⟨front, by rw [← hfront]; simp⟩
    obtain ⟨-, hstate, entry, hframe⟩ := h.linked t c rest hsuffix
    exact ⟨hstate, entry, c, _, hframe⟩

/-- Every context at a place is running or suspended. -/
theorem state_of_place (h : Stacked s base stack) {t : Θ} {rest : List κ}
    (hrest : rest <:+ stack t) : s.state (top (base t) rest) = .running ∨
      s.state (top (base t) rest) = .suspended := by
  by_cases heq : rest = stack t
  · exact .inl (heq ▸ h.running t)
  · exact .inr (h.below hrest heq).1

/-- What can be entered without being in a call of its own is at no place. -/
theorem outside_of_free (h : Stacked s base stack) {c : κ} (hfree : ¬ s.Calling c)
    (hstate : s.state (.coroutine c) ≠ .running) {t : Θ} {rest : List κ} (hrest : rest <:+ stack t) :
    top (base t) rest ≠ .coroutine c := by
  intro heq
  by_cases htop : rest = stack t
  · exact hstate (by rw [← heq, htop]; exact h.running t)
  · obtain ⟨-, entry, callee, number, hframe⟩ := h.below hrest htop
    rw [heq] at hframe
    exact hfree (by rw [State.Calling, hframe]; rfl)

/-- What is neither running nor suspended is at no place. -/
theorem outside_of_state (h : Stacked s base stack) {c : κ}
    (hstate : s.state (.coroutine c) = .created ∨ s.state (.coroutine c) = .done) {t : Θ}
    {rest : List κ} (hrest : rest <:+ stack t) : top (base t) rest ≠ .coroutine c := by
  intro heq
  have hplace := h.state_of_place hrest
  rw [heq] at hplace
  rcases hstate with hstate | hstate <;> rw [hstate] at hplace <;> rcases hplace with h | h <;> cases h

/-- What is not allocated is at no place. -/
theorem outside_of_not_allocated (h : Stacked s base stack) {c : κ} (hfree : s.allocated c = false)
    {t : Θ} {rest : List κ} (hrest : rest <:+ stack t) : top (base t) rest ≠ .coroutine c := by
  intro heq
  rw [h.allocated t rest c hrest heq] at hfree
  cases hfree

/-- Only some of the fields count. -/
theorem congr (h : Stacked s base stack) (hcurrent : s'.current = s.current)
    (hstate : s'.state = s.state) (hframe : s'.frame = s.frame) (hresumer : s'.resumer = s.resumer)
    (hentered : s'.entered = s.entered)
    (hallocated : ∀ t rest c, rest <:+ stack t → top (base t) rest = .coroutine c →
      s'.allocated c = true) : Stacked s' base stack where
  current := hcurrent ▸ h.current
  running := hstate ▸ h.running
  frameless := hframe ▸ h.frameless
  linked := by
    rw [hresumer, hstate, hframe, hentered]
    exact h.linked
  allocated := hallocated
  nodup := h.nodup
  disjoint := h.disjoint
  base_inj := h.base_inj
  base_out := h.base_out
  outside := by
    rw [hstate, hframe]
    exact h.outside

variable [DecidableEq Θ] [DecidableEq κ]

omit [DecidableEq Θ] in
/-- A block at no place is released. -/
theorem release (h : Stacked s base stack) {c : κ}
    (hout : ∀ t rest, rest <:+ stack t → top (base t) rest ≠ .coroutine c) :
    Stacked (s.release c) base stack := by
  refine h.congr rfl rfl rfl rfl rfl fun t rest d hrest heq ↦ ?_
  have hne : d ≠ c := fun hsame ↦ hout t rest hrest (hsame ▸ heq)
  exact (Function.update_of_ne hne _ _).trans (h.allocated t rest d hrest heq)

/-- A block that was not allocated is made. -/
theorem make (h : Stacked s base stack) {c : κ} (hfree : s.allocated c = false) :
    Stacked (s.make c) base stack := by
  have hout : ∀ {t rest}, rest <:+ stack t → top (base t) rest ≠ .coroutine c :=
    fun hrest ↦ h.outside_of_not_allocated hfree hrest
  have hplace : ∀ {t rest}, rest <:+ stack t →
      (s.make c).state (top (base t) rest) = s.state (top (base t) rest) ∧
        (s.make c).frame (top (base t) rest) = s.frame (top (base t) rest) :=
    fun hrest ↦ s.make_other (hout hrest)
  refine ⟨h.current, fun t ↦ ?_, fun t ↦ ?_, fun t d rest hrest ↦ ?_, fun t rest d hrest heq ↦ ?_,
    h.nodup, h.disjoint, h.base_inj, h.base_out, fun x hx ↦ ?_⟩
  · exact (hplace List.suffix_rfl).1.trans (h.running t)
  · exact (hplace List.suffix_rfl).2.trans (h.frameless t)
  · have hne : d ≠ c := fun heq ↦ hout hrest (congrArg Context.coroutine heq)
    have hin := (List.suffix_cons d rest).trans hrest
    rw [(s.make_block hne).1, (hplace hin).1, (hplace hin).2]
    exact h.linked t d rest hrest
  · by_cases hsame : d = c
    · exact hsame ▸ (s.make_self c).2.2
    · exact (s.make_block hsame).2.trans (h.allocated t rest d hrest heq)
  · by_cases hsame : x = .coroutine c
    · rw [hsame, (s.make_self c).1, (s.make_self c).2.1]
      exact ⟨by decide, fun _ _ _ h ↦ by cases h⟩
    · rw [(s.make_other hsame).1, (s.make_other hsame).2]
      exact h.outside x hx

/-- A call enters a block that is at no place. -/
theorem enter (h : Stacked s base stack) (t : Θ) (entry : Entry) {c : κ}
    (hallocated : s.allocated c = true)
    (hout : ∀ t rest, rest <:+ stack t → top (base t) rest ≠ .coroutine c) :
    Stacked (s.enter t entry c) base (push stack t c) := by
  have hfresh : ∀ t', c ∉ stack t' := fun t' hmem ↦ by
    obtain ⟨front, rest, heq⟩ := List.append_of_mem hmem
    exact hout t' (c :: rest) ⟨front, heq.symm⟩ rfl
  have hcaller : s.current t ≠ .coroutine c := h.current t ▸ hout t _ List.suffix_rfl
  have hself := s.enter_self t entry c
  -- A place that is not the caller's is as it was.
  have hplace : ∀ {t' rest}, rest <:+ stack t' → (t' = t → rest ≠ stack t) →
      (s.enter t entry c).state (top (base t') rest) = s.state (top (base t') rest) ∧
        (s.enter t entry c).frame (top (base t') rest) = s.frame (top (base t') rest) := by
    intro t' rest hrest hne
    refine s.enter_other t (fun heq ↦ ?_) (hout t' rest hrest)
    rw [h.current t] at heq
    obtain ⟨rfl, heq⟩ := h.top_inj hrest List.suffix_rfl heq
    exact hne rfl heq
  refine ⟨fun t' ↦ ?_, fun t' ↦ ?_, fun t' ↦ ?_, fun t' d rest hrest ↦ ?_,
    fun t' rest d hrest heq ↦ ?_, fun t' ↦ ?_, fun t' t'' d hd hd' ↦ ?_, h.base_inj,
    fun t' t'' d hbase hd ↦ ?_, fun x hx ↦ ?_⟩
  · rcases eq_or_ne t' t with rfl | hne
    · rw [push_self]
      exact Function.update_self ..
    · rw [push_of_ne stack c hne]
      exact (Function.update_of_ne hne _ _).trans (h.current t')
  · rcases eq_or_ne t' t with rfl | hne
    · rw [push_self]
      exact hself.1
    · rw [push_of_ne stack c hne]
      exact (hplace List.suffix_rfl fun heq ↦ absurd heq hne).1.trans (h.running t')
  · rcases eq_or_ne t' t with rfl | hne
    · rw [push_self]
      exact hself.2.1
    · rw [push_of_ne stack c hne]
      exact (hplace List.suffix_rfl fun heq ↦ absurd heq hne).2.trans (h.frameless t')
  · -- The new link is from the block to its caller; the others are below.
    rcases suffix_push.mp hrest with ⟨rfl, heq⟩ | hrest
    · obtain ⟨rfl, rfl⟩ := List.cons.inj heq
      obtain ⟨hstate, hframe⟩ := s.enter_caller t' entry hcaller
      rw [h.current t'] at hstate hframe
      exact ⟨hself.2.2.1.trans (congrArg some (h.current t')), hstate, entry,
        hself.2.2.2 ▸ hframe⟩
    · have hdc : d ≠ c := fun heq ↦ hfresh t' (heq ▸ hrest.subset List.mem_cons_self)
      have hkeep := hplace ((List.suffix_cons d rest).trans hrest) fun heq hall ↦ by
        have hlen := hrest.length_le
        rw [heq, ← hall, List.length_cons] at hlen
        omega
      rw [(s.enter_block t hdc).1, (s.enter_block t hdc).2, hkeep.1, hkeep.2]
      exact h.linked t' d rest hrest
  · rcases suffix_push.mp hrest with ⟨rfl, rfl⟩ | hrest
    · cases heq
      exact hallocated
    · exact h.allocated t' rest d hrest heq
  · rcases eq_or_ne t' t with rfl | hne
    · rw [push_self]
      exact List.nodup_cons.mpr ⟨hfresh t', h.nodup t'⟩
    · rw [push_of_ne stack c hne]
      exact h.nodup t'
  · rcases mem_push.mp hd with ⟨rfl, rfl⟩ | hold <;> rcases mem_push.mp hd' with ⟨rfl, heq⟩ | hold'
    · rfl
    · exact absurd hold' (hfresh t'')
    · exact absurd (heq ▸ hold) (hfresh t')
    · exact h.disjoint t' t'' d hold hold'
  · rcases mem_push.mp hd with ⟨rfl, rfl⟩ | hold
    · exact hout t' [] (List.nil_suffix) hbase
    · exact h.base_out t' t'' d hbase hold
  · have hold : ∀ t' rest, rest <:+ stack t' → top (base t') rest ≠ x :=
      fun t' rest hrest ↦ hx t' rest (suffix_push.mpr (.inr hrest))
    have hxc : x ≠ .coroutine c := fun heq ↦
      hx t (c :: stack t) (suffix_push.mpr (.inl ⟨rfl, rfl⟩)) heq.symm
    have hxt : x ≠ s.current t := fun heq ↦
      hold t (stack t) List.suffix_rfl (by rw [heq, h.current t])
    rw [(s.enter_other t hxt hxc).1, (s.enter_other t hxt hxc).2]
    exact h.outside x hold

/-- The innermost block of a thread leaves for its resumer. -/
theorem leave (h : Stacked s base stack) {t : Θ} {c : κ} {rest : List κ}
    (hstack : stack t = c :: rest) {fromState : CoroutineState} (hfrom : fromState ≠ .running)
    {standing : Option (Frame κ)}
    (hstanding : ∀ entry callee number, standing ≠ some (.call entry callee number))
    (hleft : s.Left t c fromState standing (top (base t) rest) s') :
    Stacked s' base (Function.update stack t rest) := by
  have hsuffix : c :: rest <:+ stack t := hstack ▸ List.suffix_rfl
  have hrest : rest <:+ stack t := (List.suffix_cons c rest).trans hsuffix
  have hcurrent : s.current t = top (base t) (stack t) := h.current t
  have hne : rest ≠ stack t := fun heq ↦ by
    have hlen := congrArg List.length heq
    rw [hstack, List.length_cons] at hlen
    omega
  have htarget : top (base t) rest ≠ s.current t := fun heq ↦
    hne (h.top_inj hrest List.suffix_rfl (heq.trans hcurrent)).2
  -- The other places are as they were.
  have hplace : ∀ {t' r}, r <:+ stack t' → (t' = t → r ≠ stack t ∧ r ≠ rest) →
      s'.state (top (base t') r) = s.state (top (base t') r) ∧
        s'.frame (top (base t') r) = s.frame (top (base t') r) := by
    intro t' r hr hother
    have htop : top (base t') r ≠ s.current t := fun heq ↦ by
      obtain ⟨rfl, hsame⟩ := h.top_inj hr List.suffix_rfl (heq.trans hcurrent)
      exact (hother rfl).1 hsame
    have hbelow : top (base t') r ≠ top (base t) rest := fun heq ↦ by
      obtain ⟨rfl, hsame⟩ := h.top_inj hr hrest heq
      exact (hother rfl).2 hsame
    rw [hleft.state, hleft.frame, Function.update_of_ne hbelow, Function.update_of_ne htop,
      Function.update_of_ne hbelow, Function.update_of_ne htop]
    exact ⟨rfl, rfl⟩
  have hsub : ∀ t', Function.update stack t rest t' <:+ stack t' := fun t' ↦ by
    rcases eq_or_ne t' t with rfl | hother
    · rwa [Function.update_self]
    · rw [Function.update_of_ne hother]
  refine ⟨fun t' ↦ ?_, fun t' ↦ ?_, fun t' ↦ ?_, fun t' d r hr ↦ ?_, fun t' r d hr heq ↦ ?_,
    fun t' ↦ (h.nodup t').sublist (hsub t').sublist, fun t' t'' d hd hd' ↦ ?_, h.base_inj,
    fun t' t'' d hbase hd ↦ ?_, fun x hx ↦ ?_⟩
  · rw [hleft.current]
    rcases eq_or_ne t' t with rfl | hother
    · rw [Function.update_self, Function.update_self]
    · rw [Function.update_of_ne hother, Function.update_of_ne hother]
      exact h.current t'
  · rcases eq_or_ne t' t with rfl | hother
    · rw [Function.update_self, hleft.state, Function.update_self]
    · rw [Function.update_of_ne hother]
      exact (hplace List.suffix_rfl fun heq ↦ absurd heq hother).1.trans (h.running t')
  · rcases eq_or_ne t' t with rfl | hother
    · rw [Function.update_self, hleft.frame, Function.update_self]
    · rw [Function.update_of_ne hother]
      exact (hplace List.suffix_rfl fun heq ↦ absurd heq hother).2.trans (h.frameless t')
  · have hold := hr.trans (hsub t')
    have hkeep := hplace ((List.suffix_cons d r).trans hold) fun heq ↦ by
      subst heq
      rw [Function.update_self] at hr
      have hlen := hr.length_le
      have hfull := hrest.length_le
      rw [List.length_cons] at hlen
      exact ⟨fun hall ↦ by rw [hall] at hlen; omega, fun hall ↦ by rw [hall] at hlen; omega⟩
    rw [hleft.resumer, hleft.entered, hkeep.1, hkeep.2]
    exact h.linked t' d r hold
  · have hold := hr.trans (hsub t')
    rw [hleft.allocated d htarget fun number hframe ↦ ?_]
    · exact h.allocated t' r d hold heq
    · -- The block that a destructor unwinds is the one that is left.
      obtain ⟨-, -, entry, hcall⟩ := h.linked t c rest hsuffix
      rw [hcall] at hframe
      obtain ⟨-, rfl⟩ : entry = .unwind ∧ c = d := by
        cases hframe
        exact ⟨rfl, rfl⟩
      have hplace : top (base t') r = top (base t) (stack t) := by rw [heq, hstack, top]
      obtain ⟨rfl, hsame⟩ := h.top_inj hold List.suffix_rfl hplace
      rw [Function.update_self, hsame] at hr
      exact hne (hr.eq_of_length_le hrest.length_le).symm
  · exact h.disjoint t' t'' d ((hsub t').subset hd) ((hsub t'').subset hd')
  · exact h.base_out t' t'' d hbase ((hsub t'').subset hd)
  · have hxrest : x ≠ top (base t) rest := fun heq ↦
      hx t rest (by rw [Function.update_self]) heq.symm
    rw [hleft.state, hleft.frame, Function.update_of_ne hxrest, Function.update_of_ne hxrest]
    by_cases hxt : x = s.current t
    · rw [hxt, Function.update_self, Function.update_self]
      exact ⟨hfrom, hstanding⟩
    · rw [Function.update_of_ne hxt, Function.update_of_ne hxt]
      refine h.outside x fun t' r hr heq ↦ ?_
      rcases eq_or_ne t' t with rfl | hother
      · rw [hstack] at hr
        rcases List.suffix_cons_iff.mp hr with rfl | hr
        · exact hxt (by rw [hcurrent, hstack, ← heq])
        · exact hx t' r (by rwa [Function.update_self]) heq
      · exact hx t' r (by rwa [Function.update_of_ne hother]) heq

end Stacked

/-! ### Runs -/

namespace Stacked

theorem initial : Stacked (State.initial : State Θ κ) .native fun _ ↦ [] where
  current _ := rfl
  running _ := rfl
  frameless _ := rfl
  linked _ _ _ hrest := by cases List.suffix_nil.mp hrest
  allocated t rest c hrest heq := by
    rw [List.suffix_nil.mp hrest] at heq
    cases heq
  nodup _ := List.nodup_nil
  disjoint _ _ _ hmem := by cases hmem
  base_inj _ _ heq := Context.native.inj heq
  base_out _ _ _ heq := by cases heq
  outside x hx := by
    cases x with
    | native t => exact absurd rfl (hx t [] List.suffix_rfl)
    | coroutine c => exact ⟨fun h ↦ (by cases h), fun _ _ _ h ↦ by cases h⟩

end Stacked

section Runs

variable [DecidableEq Θ] [DecidableEq κ] {s s' : State Θ κ} {base : Θ → Context Θ κ}
  {stack : Θ → List κ}

/-- What a step can do: make a block, enter one that is at no place, leave the innermost block of
the thread for the context below it, or release a block at no place. -/
inductive Effect (s : State Θ κ) (base : Θ → Context Θ κ) (stack : Θ → List κ) (t : Θ) :
    Move κ → State Θ κ → Prop
  | made {c : κ} : s.allocated c = false → Effect s base stack t (.make c) (s.make c)
  | entered {move : Move κ} {entry : Entry} {c : κ} : move = .resume c ∨ move = .destroy c →
      s.allocated c = true → (∀ t rest, rest <:+ stack t → top (base t) rest ≠ .coroutine c) →
      s.state (.coroutine c) ≠ .done → Effect s base stack t move (s.enter t entry c)
  | left {move : Move κ} {c : κ} {rest : List κ} {fromState : CoroutineState}
      {standing : Option (Frame κ)} {s' : State Θ κ} : stack t = c :: rest →
      fromState ≠ .running → (∀ entry callee number, standing ≠ some (.call entry callee number)) →
      s.Left t c fromState standing (top (base t) rest) s' → Effect s base stack t move s'
  | released {c : κ} : (∀ t rest, rest <:+ stack t → top (base t) rest ≠ .coroutine c) →
      Effect s base stack t (.destroy c) (s.release c)

/-- The running block of a thread leaves for the context below it. -/
theorem left_of_leave (h : Stacked s base stack) {t : Θ}
    (hbase : ∀ c, base t = .coroutine c → s.resumer c = none) {c : κ}
    (hcurrent : s.current t = .coroutine c) {fromState : CoroutineState}
    {standing : Option (Frame κ)} (hleave : s.leave t c fromState standing = some s') :
    ∃ rest, stack t = c :: rest ∧ s.Left t c fromState standing (top (base t) rest) s' := by
  have htop := h.current t
  rw [hcurrent] at htop
  cases hactive : stack t with
  | nil =>
    rw [hactive, top] at htop
    rw [State.leave, hbase c htop.symm] at hleave
    cases hleave
  | cons d rest =>
    rw [hactive] at htop
    cases htop
    obtain ⟨hresumer, -⟩ := h.linked t c rest (hactive ▸ List.suffix_rfl)
    obtain ⟨s'', hsome, hleft⟩ := s.leave_spec t fromState standing hresumer
    rw [hsome] at hleave
    cases hleave
    exact ⟨rest, rfl, hleft⟩

/-- Every step that meets the condition does one of these things. -/
theorem effect_of_step (h : Stacked s base stack) {t : Θ}
    (hbase : ∀ c, base t = .coroutine c → s.resumer c = none) {move : Move κ}
    (hfree : s.Free (t, move)) (hstep : s.step (t, move) = some s') :
    Effect s base stack t move s' := by
  cases move with
  | make block =>
    obtain ⟨hnew, hstep⟩ := Option.ite_none_left_eq_some.mp hstep
    cases hstep
    exact .made ((Bool.not_eq_true _).mp hnew)
  | resume block =>
    obtain ⟨⟨hallocated, hstate⟩, hstep⟩ := Option.ite_none_right_eq_some.mp hstep
    cases hstep
    refine .entered (.inl rfl) hallocated (fun _ _ ↦ h.outside_of_free hfree ?_) ?_ <;>
      rcases hstate with h | h <;> rw [h] <;> decide
  | yield =>
    replace hstep : s.yield t = some s' := hstep
    rw [State.yield] at hstep
    split at hstep
    · obtain ⟨rest, hactive, hleft⟩ := left_of_leave h hbase ‹_› hstep
      exact .left hactive (by decide) (fun _ _ _ heq ↦ by cases heq) hleft
    · cases hstep
  | finish threw =>
    replace hstep : s.finish t threw = some s' := hstep
    rw [State.finish] at hstep
    split at hstep
    · rename_i block hcurrent
      have hparked : Stacked { s with exception := Function.update s.exception block threw } base
        stack := h.congr rfl rfl rfl rfl rfl h.allocated
      obtain ⟨rest, hactive, hleft⟩ := left_of_leave hparked hbase hcurrent hstep
      have hsame : s.Left t block .done none (top (base t) rest) s' :=
        ⟨hleft.current, hleft.state, hleft.frame, hleft.resumer, hleft.entered, hleft.returns,
          hleft.targets, hleft.allocated⟩
      exact .left hactive (by decide) (fun _ _ _ heq ↦ by cases heq) hsame
    · cases hstep
  | destroy block =>
    obtain ⟨hallocated, hstep⟩ := Option.ite_none_right_eq_some.mp hstep
    split at hstep
    · cases hstep
    · rename_i hstate
      cases hstep
      refine .entered (.inr rfl) hallocated (fun _ _ ↦ h.outside_of_free hfree ?_) ?_ <;>
        rw [hstate] <;> decide
    · cases hstep
      exact .released fun _ _ ↦ h.outside_of_state (.inl ‹_›)
    · cases hstep
      exact .released fun _ _ ↦ h.outside_of_state (.inr ‹_›)

namespace Effect

variable {t : Θ} {move : Move κ}

/-- The blocks stay stacked, and only a block that is entered becomes active. -/
theorem stacked (heffect : Effect s base stack t move s') (h : Stacked s base stack) :
    ∃ stack', Stacked s' base stack' ∧ ∀ t', ∀ c ∈ stack' t',
      c ∈ stack t' ∨ move = .resume c ∨ move = .destroy c := by
  cases heffect with
  | made hnew => exact ⟨stack, h.make hnew, fun _ _ hc ↦ .inl hc⟩
  | entered hmove hallocated hout _ =>
    refine ⟨_, h.enter t _ hallocated hout, fun t' c hc ↦ ?_⟩
    rcases mem_push.mp hc with ⟨-, rfl⟩ | hold
    · exact .inr hmove
    · exact .inl hold
  | left hactive hfrom hstanding hleft =>
    refine ⟨_, h.leave hactive hfrom hstanding hleft, fun t' c hc ↦ .inl ?_⟩
    rcases eq_or_ne t' t with rfl | hne
    · rw [Function.update_self] at hc
      exact hactive ▸ List.mem_cons_of_mem _ hc
    · rwa [Function.update_of_ne hne] at hc
  | released hout => exact ⟨stack, h.release hout, fun _ _ hc ↦ .inl hc⟩

/-- What is returned to is the call that entered the block last, and what is switched to has not
ended. -/
theorem logs (heffect : Effect s base stack t move s') (h : Stacked s base stack) :
    (∀ r ∈ s'.returns, r ∈ s.returns ∨ r.returnedTo = some r.entered) ∧
      ∀ target ∈ s'.targets, target ∈ s.targets ∨ target ≠ .done := by
  cases heffect with
  | made _ => exact ⟨fun _ hr ↦ .inl hr, fun _ ht ↦ .inl ht⟩
  | entered _ _ _ hstate =>
    refine ⟨fun _ hr ↦ .inl hr, fun target ht ↦ ?_⟩
    rcases List.mem_cons.mp ht with rfl | hold
    · exact .inr hstate
    · exact .inl hold
  | @left _ c rest _ _ _ hactive _ _ hleft =>
    obtain ⟨-, hstate, entry, hframe⟩ := h.linked t c rest (hactive ▸ List.suffix_rfl)
    refine ⟨fun r hr ↦ ?_, fun target ht ↦ ?_⟩
    · rw [hleft.returns] at hr
      rcases List.mem_cons.mp hr with rfl | hold
      · exact .inr (by simp [State.callOn, hframe])
      · exact .inl hold
    · rw [hleft.targets] at ht
      rcases List.mem_cons.mp ht with rfl | hold
      · exact .inr (by rw [hstate]; decide)
      · exact .inl hold
  | released _ => exact ⟨fun _ hr ↦ .inl hr, fun _ ht ↦ .inl ht⟩

end Effect

/-- The blocks are stacked on the native contexts, and the logs are as they should be. -/
structure Sound (s : State Θ κ) : Prop where
  stacked : ∃ stack, Stacked s .native stack
  returns : ∀ r ∈ s.returns, r.returnedTo = some r.entered
  targets : .done ∉ s.targets

theorem sound_of_reachable (h : (system Θ κ).ReachableUnder State.Free s) : Sound s := by
  refine h.invariant (fun s hinit ↦ ?_) fun s label s' hsound hfree hstep ↦ ?_
  · rw [show s = State.initial from hinit]
    exact ⟨⟨_, Stacked.initial⟩, fun _ hr ↦ (by cases hr), fun hmem ↦ by cases hmem⟩
  · obtain ⟨stack, hstack⟩ := hsound.stacked
    have heffect := effect_of_step hstack (fun c heq ↦ by cases heq) hfree hstep
    obtain ⟨stack', hstack', -⟩ := heffect.stacked hstack
    obtain ⟨hreturns, htargets⟩ := heffect.logs hstack
    exact ⟨⟨stack', hstack'⟩, fun r hr ↦ (hreturns r hr).elim (hsound.returns r) id,
      fun hdone ↦ (htargets _ hdone).elim hsound.targets fun hne ↦ hne rfl⟩

end Runs

/-! ### The way back -/

/-- The contexts of a thread, from the innermost to the base. -/
def places (base : Context Θ κ) (stack : List κ) : List (Context Θ κ) :=
  stack.map .coroutine ++ [base]

theorem head_places (base : Context Θ κ) (stack : List κ) :
    (places base stack).head? = some (top base stack) := by
  cases stack <;> rfl

namespace Stacked

variable {s : State Θ κ} {base : Θ → Context Θ κ} {stack : Θ → List κ}

/-- Each of them is the resumer of the one before. -/
theorem isChain_places (h : Stacked s base stack) {t : Θ} {rest : List κ}
    (hrest : rest <:+ stack t) :
    (places (base t) rest).IsChain fun x y ↦ s.resumerOf x = some y := by
  induction rest with
  | nil => exact List.isChain_singleton _
  | cons c rest ih =>
    have hchain := ih ((List.suffix_cons c rest).trans hrest)
    refine List.isChain_cons.mpr ⟨fun y hy ↦ ?_, hchain⟩
    replace hy : y ∈ (places (base t) rest).head? := hy
    rw [head_places] at hy
    cases hy
    exact (h.linked t c rest hrest).1

/-- The resumers lead from the innermost block down to the base, and repeat none. -/
theorem leads (h : Stacked s base stack) (t : Θ) : s.Leads (s.current t) (base t) := by
  refine ⟨places (base t) (stack t), ?_, ?_, ?_, h.isChain_places List.suffix_rfl⟩
  · refine List.nodup_append.mpr ⟨(h.nodup t).map fun _ _ ↦ Context.coroutine.inj,
      List.nodup_singleton _, fun x hx y hy heq ↦ ?_⟩
    obtain ⟨c, hc, rfl⟩ := List.mem_map.mp hx
    exact h.base_out t t c ((List.mem_singleton.mp hy).symm.trans heq.symm) hc
  · rw [head_places, h.current t]
  · rw [places, List.getLast?_concat]

/-- What stands in a call of its own is below the top of a stack: it is an ancestor of what runs
there. -/
theorem calling_iff (h : Stacked s base stack) (c : κ) : s.Calling c ↔
    ∃ t rest, rest <:+ stack t ∧ rest ≠ stack t ∧ top (base t) rest = .coroutine c := by
  constructor
  · intro hcalling
    have hframe : ∃ entry callee number,
        s.frame (.coroutine c) = some (.call entry callee number) := by
      obtain ⟨frame, hframe, hcall⟩ := (Option.any_eq_true _ _).mp hcalling
      cases frame with
      | call entry callee number => exact ⟨entry, callee, number, hframe⟩
      | yield => cases hcall
    obtain ⟨entry, callee, number, hframe⟩ := hframe
    by_contra hnone
    refine (h.outside (.coroutine c) fun t rest hrest heq ↦ hnone ⟨t, rest, hrest, ?_, heq⟩).2
      entry callee number hframe
    rintro rfl
    have hnoframe := h.frameless t
    rw [heq, hframe] at hnoframe
    cases hnoframe
  · rintro ⟨t, rest, hrest, hne, heq⟩
    obtain ⟨-, entry, callee, number, hframe⟩ := h.below hrest hne
    rw [State.Calling, ← heq, hframe]
    rfl

/-- A running context is the current one of one thread. -/
theorem current_of_running (h : Stacked s base stack) {x : Context Θ κ}
    (hrunning : s.state x = .running) : ∃! t, s.current t = x := by
  by_contra hnot
  have hplace : ∃ t rest, rest <:+ stack t ∧ top (base t) rest = x := by
    by_contra hnone
    refine (h.outside x fun t rest hrest heq ↦ hnone ⟨t, rest, hrest, heq⟩).1 hrunning
  obtain ⟨t, rest, hrest, rfl⟩ := hplace
  have htop : rest = stack t := by
    by_contra hne
    rw [(h.below hrest hne).1] at hrunning
    cases hrunning
  refine hnot ⟨t, by rw [htop]; exact h.current t, fun t' ht' ↦ ?_⟩
  exact (h.top_inj List.suffix_rfl hrest ((h.current t').symm.trans ht')).1

end Stacked

/-- **As long as no call enters a block that stands in a call of its own, control finds its way
back.** -/
theorem coherent_of_free [DecidableEq Θ] [DecidableEq κ] {s : State Θ κ}
    (h : (system Θ κ).ReachableUnder State.Free s) : s.Coherent := by
  have hsound := sound_of_reachable h
  obtain ⟨stack, hstack⟩ := hsound.stacked
  refine ⟨fun t ↦ ?_, fun _ ↦ hstack.current_of_running, hstack.leads, hsound.returns,
    hsound.targets⟩
  rw [hstack.current t]
  exact hstack.running t

/-- A coroutine resumes a second one; both yield, and another thread resumes the second one. -/
theorem coherent_of_free_here : ∃ s : State Bool Bool,
    (system Bool Bool).ReachableUnder State.Free s ∧ s.current true = .coroutine true ∧ s.Coherent := by
  let labels : List (Bool × Move Bool) := [(false, .make false), (false, .resume false),
    (false, .make true), (false, .resume true), (false, .yield), (false, .yield),
    (true, .resume true)]
  let s := ((system Bool Bool).runUnder (fun s label ↦ decide (s.Free label)) .initial labels).get
    (by decide +kernel)
  have hreach : (system Bool Bool).ReachableUnder State.Free s :=
    (System.reachableUnder_of_run (s := State.initial) rfl (Option.some_get _).symm).mono
      fun _ _ ↦ of_decide_eq_true
  exact ⟨s, hreach, by decide +kernel, coherent_of_free hreach⟩

/-- A coroutine resumes a second one, and that one resumes the first, which is marked suspended.
Each is now the other's resumer. The first one ends, and when the second one ends it switches to
it. -/
theorem ancestor_resumed : ∃ s : State Unit Bool, (system Unit Bool).Reachable s ∧
    .done ∈ s.targets ∧ ¬ s.Coherent := by
  let moves : List (Move Bool) := [.make false, .make true, .resume false, .resume true,
    .resume false, .finish false, .finish false]
  let s := ((system Unit Bool).run .initial (moves.map fun move ↦ ((), move))).get
    (by decide +kernel)
  have hreach : (system Unit Bool).Reachable s :=
    System.reachable_of_run (s := State.initial) rfl (Option.some_get _).symm
  have hdone : .done ∈ s.targets := by decide +kernel
  exact ⟨s, hreach, hdone, fun h ↦ h.targets hdone⟩

end Stackfull.Coro
