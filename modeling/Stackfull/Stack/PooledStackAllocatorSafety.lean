import Stackfull.Stack.FreeLists

/-!
# No stack is lost

`stacks_conserved` says that in every run of the pool each stack that upstream has given out and not
got back is at one place: with a caller, in a class of one cache, in the shared tier, in a class of the
reserve, or in the hand of a call. After the destructor all that are not with callers have gone back
upstream, each once.

The lemmas of `FreeLists` carry a stack from place to place; here they are put together to the
operations on several lists, and these to the steps.
-/

set_option autoImplicit false
set_option relaxedAutoImplicit false
set_option linter.dupNamespace false

namespace Stackfull.Stack

open Stackfull.Lib

universe u

variable {Θ : Type u} [DecidableEq Θ] {o : Options}

/-- A size that is not rounded to 0 leaves room for a node. -/
theorem Options.node_fits_round (o : Options) {bytes : ℕ} (h : 0 < o.roundUpToPage bytes) :
    nodeSize ≤ o.roundUpToPage bytes := by
  have hpages : 0 < (bytes + o.page - 1) % sizeLimit / o.page := Nat.pos_of_mul_pos_right h
  exact o.node_fits.trans (Nat.le_mul_of_pos_left _ hpages)

/-! ### Several stacks at a time -/

namespace Pool

variable {p p' : Pool Θ} {t : Θ} {v : StackView} {i : Fin kMaxSizeClasses}

theorem keep_handedOut (hkeep : p.keep t o v = some p') : p'.handedOut = p.handedOut := by
  obtain ⟨-, hkeep⟩ := Option.ite_none_right_eq_some.mp hkeep
  obtain ⟨i, -, rfl⟩ := Option.map_eq_some_iff.mp hkeep
  rfl

omit [DecidableEq Θ] in
theorem obtainMany_handedOut {size : ℕ} {batch : List StackView}
    (hobtain : Pool.obtainMany size batch p = some p') : p'.handedOut = p.handedOut := by
  induction batch generalizing p with
  | nil =>
    cases hobtain
    rfl
  | cons v batch ih =>
    obtain ⟨-, hobtain⟩ := Option.ite_none_right_eq_some.mp hobtain
    exact (ih hobtain).trans rfl

omit [DecidableEq Θ] in
theorem size_of_obtainMany {size : ℕ} {batch : List StackView}
    (hobtain : Pool.obtainMany size batch p = some p') : ∀ v ∈ batch, v.size = size := by
  induction batch generalizing p with
  | nil => exact List.forall_mem_nil _
  | cons v batch ih =>
    obtain ⟨hfresh, hobtain⟩ := Option.ite_none_right_eq_some.mp hobtain
    exact List.forall_mem_cons.mpr ⟨hfresh.1, ih hobtain⟩

omit [DecidableEq Θ] in
theorem stow_handedOut (batch : List StackView) (p : Pool Θ) :
    (batch.foldl (fun pool stack ↦ pool.pushReserve i stack) p).handedOut = p.handedOut := by
  induction batch generalizing p with
  | nil => rfl
  | cons v batch ih => exact ih _

theorem currentCache_handedOut (p : Pool Θ) (t : Θ) (created : Bool) :
    (p.currentCache t created).handedOut = p.handedOut := by
  unfold Pool.currentCache
  split <;> rfl

theorem refill_handedOut {reserveClass sizeClass : Fin kMaxSizeClasses} {size : ℕ}
    (n : ℕ) (p : Pool Θ) :
    (Pool.refill t o reserveClass sizeClass size n p).handedOut = p.handedOut := by
  induction n generalizing p with
  | zero => rfl
  | succ n ih =>
    rw [Pool.refill]
    split
    · exact ih _
    · rfl

end Pool

namespace Kept

variable {p p' : Pool Θ} {hands : Θ → List StackView} {t : Θ} {v : StackView}
  {rest : List StackView} {i : Fin kMaxSizeClasses}

/-- A stack that is taken up and put down again. -/
theorem through (h : Kept o p (Function.update (Function.update hands t (v :: hands t)) t (hands t))) :
    Kept o p hands := by
  rwa [Function.update_idem, Function.update_eq_self] at h

theorem keep (h : Kept o p hands) (hhand : (hands t).Perm (v :: rest))
    (hkeep : p.keep t o v = some p') : Kept o p' (Function.update hands t rest) := by
  obtain ⟨⟨hregistered, hroom⟩, hkeep⟩ := Option.ite_none_right_eq_some.mp hkeep
  obtain ⟨i, hi, rfl⟩ := Option.map_eq_some_iff.mp hkeep
  refine (h.addClass hi).pushFront hhand hregistered ?_ ?_
  · simp [Pool.setClass]
  · simpa [Pool.setClass, ThreadCache.canCache] using hroom

theorem obtainMany {size : ℕ} {batch : List StackView} (h : Kept o p hands)
    (hfits : 0 < size → nodeSize ≤ size) (hobtain : Pool.obtainMany size batch p = some p') (t : Θ) :
    Kept o p' (Function.update hands t (batch ++ hands t)) := by
  induction batch generalizing p hands with
  | nil =>
    cases hobtain
    rwa [List.nil_append, Function.update_eq_self]
  | cons v batch ih =>
    obtain ⟨hfresh, hobtain⟩ := Option.ite_none_right_eq_some.mp hobtain
    refine (ih (h.obtain hfresh (hfits hfresh.2.1) t) hobtain).of_perm fun t' ↦ ?_
    rcases eq_or_ne t' t with rfl | hne
    · simp only [Function.update_self]
      exact List.perm_middle
    · simp only [Function.update_of_ne hne]
      exact List.Perm.refl _

theorem stow {batch : List StackView} (h : Kept o p hands) (hhand : (hands t).Perm (batch ++ rest))
    (hsize : ∀ v ∈ batch, v.size = (p.reserves i).size) :
    Kept o (batch.foldl (fun pool stack ↦ pool.pushReserve i stack) p)
      (Function.update hands t rest) := by
  induction batch generalizing p hands with
  | nil =>
    refine h.of_perm fun t' ↦ ?_
    rcases eq_or_ne t' t with rfl | hne
    · rw [Function.update_self]
      exact hhand
    · rw [Function.update_of_ne hne]
  | cons v batch ih =>
    obtain ⟨hv, hbatch⟩ := List.forall_mem_cons.mp hsize
    have hpushed := h.pushReserve hhand hv
    rw [List.foldl_cons]
    have hrest : (Function.update hands t (batch ++ rest) t).Perm (batch ++ rest) := by
      rw [Function.update_self]
    have hstowed := ih hpushed hrest fun w hw ↦ by
      simpa [Pool.pushReserve, SizeClass.push] using hbatch w hw
    rwa [Function.update_idem] at hstowed

theorem refill {reserveClass sizeClass : Fin kMaxSizeClasses} {size : ℕ} (n : ℕ)
    (h : Kept o p hands) (hregistered : t ∈ p.registry)
    (hreserve : (p.reserves reserveClass).size = size)
    (hcache : ((p.cache t).classes sizeClass).size = size) :
    Kept o (Pool.refill t o reserveClass sizeClass size n p) hands := by
  induction n generalizing p with
  | zero => exact h
  | succ n ih =>
    rw [Pool.refill]
    split
    · rename_i hmore
      have hpopped := h.popReserve hmore.1 t
      have hsize : (p.reserves reserveClass).first.size = size := hreserve
      refine ih (hpopped.pushFront ?_ hregistered ?_ ?_).through hregistered ?_ ?_
      · rw [Function.update_self]
      · exact hsize.trans hcache.symm
      · exact hsize.symm ▸ hmore.2
      · simpa [Pool.pushFront, Pool.popReserve, Pool.setReserve, SizeClass.pop] using hreserve
      · simpa [Pool.pushFront, Pool.popReserve, Pool.setReserve, SizeClass.push] using hcache
    · exact h

/-- The reserve gives a stack of the size, or nothing. -/
theorem takeFromReserve (h : Kept o p hands) (t : Θ) (size : ℕ) {found : Option StackView}
    (htake : p.takeFromReserve t o size = (p', found)) : p'.handedOut = p.handedOut ∧
      Kept o p' (Function.update hands t (found.toList ++ hands t)) ∧
      ∀ v ∈ found, v.size = size := by
  unfold Pool.takeFromReserve at htake
  split at htake
  · cases htake
    refine ⟨rfl, ?_, fun _ hv ↦ by cases hv⟩
    rwa [Option.toList_none, List.nil_append, Function.update_eq_self]
  · rename_i i hi
    have hfound := h.addReserve hi (p.reserves i).target
    dsimp only at htake
    split at htake
    · cases htake
      refine ⟨rfl, ?_, fun _ hv ↦ by cases hv⟩
      rwa [Option.toList_none, List.nil_append, Function.update_eq_self]
    · rename_i hhead
      have hpopped := hfound.popReserve hhead t
      have hclass : ((p.setReserve i { p.reserves i with size := size }).reserves i).size = size := by
        simp [Pool.setReserve]
      split at htake
      · cases htake
        exact ⟨rfl, hpopped, fun _ hv ↦ by cases hv; exact hclass⟩
      · rename_i j hj
        obtain ⟨hregistered, hj⟩ := Option.ite_none_right_eq_some.mp hj
        cases htake
        refine ⟨Pool.refill_handedOut _ _, ?_, fun _ hv ↦ by cases hv; exact hclass⟩
        refine (hpopped.addClass hj).refill _ hregistered ?_ ?_
        · simp [Pool.setReserve, Pool.popReserve, Pool.setClass, SizeClass.pop]
        · simp [Pool.setClass]

end Kept

/-! ### The invariant -/

/-- The stacks that `reserve` is about to store. -/
def Pc.batch : Pc → List StackView
  | .stow _ _ batch => batch
  | _ => []

/-- What the calls have in hand. -/
def State.hands (s : State Θ) : Θ → List StackView := fun t ↦ (s.pc t).hand

/-- The stacks are in their places, and the calls know what they do. -/
structure Inv (o : Options) (s : State Θ) : Prop where
  kept : Kept o s.pool s.hands
  batch : ∀ t, ∀ v ∈ (s.pc t).batch, v.size = o.roundUpToPage (s.argument t)
  granted : ∀ g ∈ s.granted, g.2.size = o.roundUpToPage g.1
  asked : ∀ v ∈ s.pool.handedOut, ∃ size, (size, v) ∈ s.granted
  calling : ∀ t, s.pc t ≠ .idle → t ∈ s.calling
  quiet : s.phase ≠ .live → ∀ t, s.pc t = .idle
  drained : s.phase = .destroyed → s.pool.registry = [] ∧ s.pool.shared = [] ∧
    firstFilled s.pool.reserveClasses = none

section Steps

variable {s s' : State Θ} {t : Θ} {pool : Pool Θ} {v : StackView}

/-- A call that does nothing with the stack in its hand. -/
theorem Kept.same {hands : Θ → List StackView} {rest : List StackView} (h : Kept o pool hands)
    (hhand : hands t = rest) : Kept o pool (Function.update hands t rest) := by
  subst hhand
  rwa [Function.update_eq_self]

theorem perm_update (hands : Θ → List StackView) (t : Θ) (list : List StackView) :
    (Function.update hands t list t).Perm list := by
  rw [Function.update_self]

theorem hands_goto (s : State Θ) (t : Θ) (pc : Pc) :
    (s.goto t pc).hands = Function.update s.hands t pc.hand :=
  Function.comp_update Pc.hand s.pc t pc

namespace Inv

theorem initial : Inv o (State.initial : State Θ) where
  kept := by
    refine ⟨fun _ ↦ [], Custody.nil, List.Pairwise.nil, List.forall_mem_nil _, List.Perm.refl _, rfl,
      rfl, fun _ ↦ List.Perm.refl _, fun _ _ ↦ Represents.free, fun _ ↦ ?_, fun _ _ _ ↦ rfl,
      fun _ ↦ Represents.free⟩
    exact ⟨by simp [State.initial, ThreadCache.new], by simp [State.initial, ThreadCache.new],
      Nat.zero_le _, Nat.zero_le _⟩
  batch _ := List.forall_mem_nil _
  granted := List.forall_mem_nil _
  asked := List.forall_mem_nil _
  calling _ hpc := absurd rfl hpc
  quiet hphase := absurd rfl hphase
  drained hphase := by cases hphase

/-- A thread goes on with other stacks in its hand. -/
theorem goto (h : Inv o s) (hlive : s.phase = .live) {pc : Pc}
    (hkept : Kept o pool (Function.update s.hands t pc.hand))
    (hasked : ∀ v ∈ pool.handedOut, ∃ size, (size, v) ∈ s.granted)
    (hbatch : ∀ v ∈ pc.batch, v.size = o.roundUpToPage (s.argument t)) :
    Inv o ((s.withPool pool).goto t pc) where
  kept := by
    rw [hands_goto]
    exact hkept
  batch t' := by
    change ∀ v ∈ (Function.update s.pc t pc t').batch, _
    rcases eq_or_ne t' t with rfl | hne
    · rw [Function.update_self]
      exact hbatch
    · rw [Function.update_of_ne hne]
      exact h.batch t'
  granted := h.granted
  asked := hasked
  calling t' := by
    change Function.update s.pc t pc t' ≠ .idle → t' ∈ if pc = .idle then _ else _
    intro hpc
    rcases eq_or_ne t' t with rfl | hne
    · rw [Function.update_self] at hpc
      rw [if_neg hpc]
      exact List.mem_cons_self
    · rw [Function.update_of_ne hne] at hpc
      split
      · exact List.mem_filter.mpr ⟨h.calling t' hpc, decide_eq_true hne⟩
      · exact List.mem_cons_of_mem _ (h.calling t' hpc)
  quiet hphase := absurd hlive hphase
  drained hphase := by
    change s.phase = _ at hphase
    rw [hlive] at hphase
    cases hphase

/-- What callers have stays with them. -/
theorem move (h : Inv o s) (hlive : s.phase = .live) {pc : Pc}
    (hkept : Kept o pool (Function.update s.hands t pc.hand))
    (hout : pool.handedOut = s.pool.handedOut)
    (hbatch : ∀ v ∈ pc.batch, v.size = o.roundUpToPage (s.argument t)) :
    Inv o ((s.withPool pool).goto t pc) :=
  h.goto hlive hkept (hout ▸ h.asked) hbatch

/-- `allocate` returns the stack in its hand. -/
theorem grant (h : Inv o s) (hlive : s.phase = .live)
    (hkept : Kept o pool (Function.update s.hands t [v]))
    (hout : pool.handedOut = s.pool.handedOut)
    (hsize : v.size = o.roundUpToPage (s.argument t)) : Inv o ((s.withPool pool).grant t v) := by
  have hlogged : Inv o { s with granted := (s.argument t, v) :: s.granted } :=
    { h with
      granted := List.forall_mem_cons.mpr ⟨hsize, h.granted⟩
      asked := fun w hw ↦ (h.asked w hw).imp fun _ hmem ↦ List.mem_cons_of_mem _ hmem }
  have hgiven := hkept.handOut (perm_update s.hands t [v])
  rw [Function.update_idem] at hgiven
  refine hlogged.goto hlive hgiven (List.forall_mem_cons.mpr ⟨⟨_, List.mem_cons_self⟩, ?_⟩)
    (List.forall_mem_nil _)
  exact hout ▸ hlogged.asked

/-- A call begins. -/
theorem call (h : Inv o s) (hidle : s.pc t = .idle) (size : ℕ) :
    Inv o { s with argument := Function.update s.argument t size } where
  kept := h.kept
  batch t' := by
    rcases eq_or_ne t' t with rfl | hne
    · change ∀ v ∈ (s.pc t').batch, _
      rw [hidle]
      exact List.forall_mem_nil _
    · change ∀ v ∈ (s.pc t').batch, v.size = o.roundUpToPage (Function.update s.argument t size t')
      rw [Function.update_of_ne hne]
      exact h.batch t'
  granted := h.granted
  asked := h.asked
  calling := h.calling
  quiet := h.quiet
  drained := h.drained

omit [DecidableEq Θ] in
theorem hand_of_pc {pc : Pc} (hpc : s.pc t = pc) : s.hands t = pc.hand :=
  congrArg Pc.hand hpc

theorem allocate (h : Inv o s) (hlive : s.phase = .live) (hidle : s.pc t = .idle) (size : ℕ)
    (created : Bool) : Inv o (s.allocate o t size created) := by
  have hcalled := h.call hidle size
  have hcache := h.kept.currentCache t created
  have hhand : s.hands t = [] := hand_of_pc hidle
  have hout := Pool.currentCache_handedOut s.pool t created
  have hargument : Function.update s.argument t size t = size := Function.update_self ..
  unfold State.allocate
  dsimp only
  split
  · exact hcalled.move hlive (hcache.same hhand) hout (List.forall_mem_nil _)
  · rename_i i hi
    obtain ⟨-, hi⟩ := Option.ite_none_right_eq_some.mp hi
    split
    · exact hcalled.move hlive (hcache.same hhand) hout (List.forall_mem_nil _)
    · rename_i hhead
      have hpopped := hcache.popFront hhead t
      rw [hhand] at hpopped
      refine hcalled.grant hlive hpopped hout ?_
      exact (size_of_findClass hi).trans (congrArg o.roundUpToPage hargument.symm)

theorem deallocate (h : Inv o s) (hlive : s.phase = .live) (hidle : s.pc t = .idle)
    {created : Bool} (hstep : s.deallocate o t v created = some s') : Inv o s' := by
  have hhand : s.hands t = [] := hand_of_pc hidle
  unfold State.deallocate at hstep
  split at hstep
  · cases hstep
    exact h
  · obtain ⟨hv, hstep⟩ := Option.ite_none_right_eq_some.mp hstep
    have htaken := (h.kept.takeBack hv t).currentCache t created
    rw [hhand] at htaken
    have hasked : ∀ w ∈ (Pool.currentCache { s.pool with handedOut := s.pool.handedOut.erase v } t
        created).handedOut, ∃ size, (size, w) ∈ s.granted := by
      rw [Pool.currentCache_handedOut]
      exact fun w hw ↦ h.asked w (List.mem_of_mem_erase hw)
    dsimp only at hstep
    split at hstep
    · rename_i kept hkeep
      cases hstep
      have hcached := htaken.keep (perm_update s.hands t [v]) hkeep
      rw [Function.update_idem] at hcached
      exact h.goto hlive hcached (Pool.keep_handedOut hkeep ▸ hasked) (List.forall_mem_nil _)
    · cases hstep
      exact h.goto hlive htaken hasked (List.forall_mem_nil _)

theorem reserve (h : Inv o s) (hlive : s.phase = .live) (hidle : s.pc t = .idle) (size count : ℕ) :
    Inv o (s.reserve o t size count) := by
  have hcalled := h.call hidle size
  have hhand : s.hands t = [] := hand_of_pc hidle
  have hlogged : Inv o { s with
      argument := Function.update s.argument t size
      requests := (o.roundUpToPage size, count) :: s.requests } := { hcalled with }
  unfold State.reserve
  dsimp only
  split
  · exact { hcalled with }
  · rename_i i hi
    have hfound := (h.kept.addReserve hi (max (s.pool.reserves i).target count)).same hhand
    split
    · exact hlogged.move hlive hfound rfl (List.forall_mem_nil _)
    · exact hlogged.move hlive hfound rfl (List.forall_mem_nil _)

/-- The thread looks at the shared tier again, or turns to the reserve. -/
theorem rescan (h : Inv o s) (hlive : s.phase = .live)
    (hkept : Kept o pool (Function.update s.hands t []))
    (hout : pool.handedOut = s.pool.handedOut) (attempts : ℕ) :
    Inv o ((s.withPool pool).rescan t attempts) := by
  unfold State.rescan
  split <;> exact h.move hlive hkept hout (List.forall_mem_nil _)

theorem scan (h : Inv o s) (hlive : s.phase = .live) {attempts : ℕ}
    (hpc : s.pc t = .scan attempts) {answer : Answer}
    (hstep : s.scan o t attempts answer = some s') : Inv o s' := by
  have hhand : s.hands t = [] := hand_of_pc hpc
  cases answer with
  | empty =>
    cases hstep
    exact h.move hlive (h.kept.same hhand) rfl (List.forall_mem_nil _)
  | busy =>
    cases hstep
    exact h.rescan hlive (h.kept.same hhand) rfl attempts
  | stack candidate =>
    obtain ⟨hin, hstep⟩ := Option.ite_none_right_eq_some.mp hstep
    have htaken := h.kept.unshare hin t
    rw [hhand] at htaken
    dsimp only at hstep
    split at hstep
    · rename_i hsize
      cases hstep
      exact h.grant hlive htaken rfl hsize
    · split at hstep
      · rename_i kept hkeep
        cases hstep
        have hcached := htaken.keep (perm_update s.hands t [candidate]) hkeep
        rw [Function.update_idem] at hcached
        exact h.rescan hlive hcached ((Pool.keep_handedOut hkeep).trans rfl) attempts
      · cases hstep
        exact h.move hlive htaken rfl (List.forall_mem_nil _)
  | done | full | batch _ => cases hstep

theorem takeReserve (h : Inv o s) (hlive : s.phase = .live) (hpc : s.pc t = .takeReserve) :
    Inv o (s.takeReserve o t) := by
  have hhand : s.hands t = [] := hand_of_pc hpc
  unfold State.takeReserve
  split
  · rename_i p v htake
    obtain ⟨hout, hkept, hsize⟩ := h.kept.takeFromReserve t _ htake
    rw [hhand] at hkept
    exact h.grant hlive hkept hout (hsize v rfl)
  · rename_i p htake
    obtain ⟨hout, hkept, -⟩ := h.kept.takeFromReserve t _ htake
    rw [hhand] at hkept
    exact h.move hlive hkept hout (List.forall_mem_nil _)

theorem obtain (h : Inv o s) (hlive : s.phase = .live) (hpc : s.pc t = .obtain) {answer : Answer}
    (hstep : s.obtain o t answer = some s') : Inv o s' := by
  have hhand : s.hands t = [] := hand_of_pc hpc
  cases answer with
  | empty =>
    cases hstep
    exact h.move hlive (h.kept.same hhand) rfl (List.forall_mem_nil _)
  | stack given =>
    obtain ⟨hfresh, hstep⟩ := Option.ite_none_right_eq_some.mp hstep
    cases hstep
    have hobtained := h.kept.obtain hfresh (o.node_fits_round hfresh.2.1) t
    rw [hhand] at hobtained
    exact h.grant hlive hobtained rfl hfresh.1
  | done | busy | full | batch _ => cases hstep

theorem share (h : Inv o s) (hlive : s.phase = .live) {spins : ℕ} (hpc : s.pc t = .share v spins)
    {answer : Answer} (hstep : s.share t v spins answer = some s') : Inv o s' := by
  have hhand : s.hands t = [v] := hand_of_pc hpc
  cases answer with
  | done =>
    cases hstep
    exact h.move hlive (h.kept.share (List.Perm.of_eq hhand)) rfl (List.forall_mem_nil _)
  | full =>
    cases hstep
    exact h.move hlive (h.kept.same hhand) rfl (List.forall_mem_nil _)
  | busy =>
    cases hstep
    split <;> exact h.move hlive (h.kept.same hhand) rfl (List.forall_mem_nil _)
  | empty | stack _ | batch _ => cases hstep

theorem giveReserve (h : Inv o s) (hlive : s.phase = .live) (hpc : s.pc t = .giveReserve v) :
    Inv o (s.giveReserve t v) := by
  have hhand : s.hands t = [v] := hand_of_pc hpc
  unfold State.giveReserve
  split
  · exact h.move hlive (h.kept.same hhand) rfl (List.forall_mem_nil _)
  · rename_i i hi
    split
    · exact h.move hlive (h.kept.same hhand) rfl (List.forall_mem_nil _)
    · have hsize : v.size = (s.pool.reserves i).size := (size_of_findClass hi).symm
      exact h.move hlive (h.kept.pushReserve (List.Perm.of_eq hhand) hsize) rfl
        (List.forall_mem_nil _)

theorem prewarm (h : Inv o s) (hlive : s.phase = .live) {missing : ℕ}
    (hpc : s.pc t = .prewarm missing) {answer : Answer}
    (hstep : s.prewarm o t missing answer = some s') : Inv o s' := by
  have hhand : s.hands t = [] := hand_of_pc hpc
  cases answer with
  | batch batch =>
    obtain ⟨-, hstep⟩ := Option.ite_none_right_eq_some.mp hstep
    obtain ⟨p, hobtain, rfl⟩ := Option.map_eq_some_iff.mp hstep
    have hobtained := h.kept.obtainMany o.node_fits_round hobtain t
    rw [hhand, List.append_nil] at hobtained
    exact h.move hlive hobtained (Pool.obtainMany_handedOut hobtain) (Pool.size_of_obtainMany hobtain)
  | done | busy | full | empty | stack _ => cases hstep

theorem stow (h : Inv o s) (hlive : s.phase = .live) {missing wanted : ℕ}
    {batch : List StackView} (hpc : s.pc t = .stow missing wanted batch)
    (hstep : s.stow o t missing wanted batch = some s') : Inv o s' := by
  have hhand : s.hands t = batch ++ [] := (hand_of_pc hpc).trans (List.append_nil _).symm
  have hsize := h.batch t
  rw [hpc] at hsize
  obtain ⟨i, hi, rfl⟩ := Option.map_eq_some_iff.mp hstep
  have hfound := h.kept.addReserve hi (s.pool.reserves i).target
  have hstored := hfound.stow (i := i) (List.Perm.of_eq hhand) fun v hv ↦ by
    simpa [Pool.setReserve] using hsize v hv
  have hout := Pool.stow_handedOut (i := i) batch (s.pool.setReserve i
    { s.pool.reserves i with size := o.roundUpToPage (s.argument t) })
  dsimp only
  split <;> exact h.move hlive hstored hout (List.forall_mem_nil _)

theorem count (h : Inv o s) (hlive : s.phase = .live) {asked : Bool} (hpc : s.pc t = .count asked)
    (hstep : s.count o t asked = some s') : Inv o s' := by
  have hhand : s.hands t = [] := hand_of_pc hpc
  obtain ⟨i, hi, rfl⟩ := Option.map_eq_some_iff.mp hstep
  have hfound := (h.kept.addReserve hi (s.pool.reserves i).target).same hhand
  have hmoved : Inv o ((s.withPool (s.pool.setReserve i { s.pool.reserves i with
      size := o.roundUpToPage (s.argument t) })).goto t .idle) :=
    h.move hlive hfound rfl (List.forall_mem_nil _)
  exact { hmoved with }

/-- The first stack of a cache goes upstream. -/
theorem drainCache (h : Inv o s) {i : Fin kMaxSizeClasses} (hnot : s.phase ≠ .destroyed)
    (hi : firstFilled (s.pool.cache t).classes = some i) :
    Inv o (s.withPool
      ((s.pool.popFront t i).discard ((s.pool.cache t).classes i).first)) := by
  have hpopped := h.kept.popFront (head_of_firstFilled hi) t
  have hdrained := hpopped.discard (t := t) (by rw [Function.update_self])
  exact { h with
    kept := hdrained.through
    drained := fun hphase ↦ absurd hphase hnot }

theorem exiting (h : Inv o s) (hlive : s.phase = .live) (hpc : s.pc t = .exiting) :
    Inv o (s.exiting t) := by
  unfold State.exiting
  split
  · exact h.drainCache (by rw [hlive]; decide) ‹_›
  · rename_i hempty
    have hforgotten := h.kept.forget hempty (s.pool.registry.erase t) fun t' ht' ↦ by
      by_contra hnot
      rw [not_or, not_not] at hnot
      exact ht' ((List.mem_erase_of_ne hnot.1).mpr hnot.2)
    have hhand : s.hands t = [] := hand_of_pc hpc
    exact h.move hlive (hforgotten.same hhand) rfl (List.forall_mem_nil _)

theorem advance (h : Inv o s) (hlive : s.phase = .live) {answer : Answer}
    (hstep : s.advance o t answer = some s') : Inv o s' := by
  unfold State.advance at hstep
  split at hstep
  · cases hstep
  · exact h.scan hlive ‹_› hstep
  · rename_i candidate attempts hpc
    cases hstep
    have hhand : s.hands t = [candidate] := hand_of_pc hpc
    exact h.rescan hlive (h.kept.discard (List.Perm.of_eq hhand)) rfl attempts
  · cases hstep
    exact h.takeReserve hlive ‹_›
  · exact h.obtain hlive ‹_› hstep
  · exact h.share hlive ‹_› hstep
  · cases hstep
    exact h.giveReserve hlive ‹_›
  · rename_i stack hpc
    cases hstep
    have hhand : s.hands t = [stack] := hand_of_pc hpc
    exact h.move hlive (h.kept.discard (List.Perm.of_eq hhand)) rfl (List.forall_mem_nil _)
  · exact h.prewarm hlive ‹_› hstep
  · exact h.stow hlive ‹_› hstep
  · exact h.count hlive ‹_› hstep
  · cases hstep
    exact h.exiting hlive ‹_›

theorem drain (h : Inv o s) (hphase : s.phase = .destroying) (t : Θ) {answer : Answer}
    (hstep : s.drain answer = some s') : Inv o s' := by
  have hnot : s.phase ≠ .destroyed := by rw [hphase]; decide
  unfold State.drain at hstep
  split at hstep
  · rename_i owner registry hregistry
    split at hstep
    · cases hstep
      exact h.drainCache hnot ‹_›
    · rename_i hempty
      cases hstep
      have hforgotten := h.kept.forget hempty registry fun t' ht' ↦ by
        rw [hregistry, List.mem_cons, not_or]
        tauto
      exact { h with
        kept := hforgotten
        drained := fun hdone ↦ absurd hdone hnot }
  · cases answer with
    | stack leftover =>
      obtain ⟨hin, hstep⟩ := Option.ite_none_right_eq_some.mp hstep
      cases hstep
      have htaken := h.kept.unshare hin t
      have hdrained := htaken.discard (t := t) (by rw [Function.update_self])
      exact { h with
        kept := hdrained.through
        drained := fun hdone ↦ absurd hdone hnot }
    | empty =>
      obtain ⟨hshared, hstep⟩ := Option.ite_none_right_eq_some.mp hstep
      split at hstep
      · rename_i i hi
        cases hstep
        have hpopped := h.kept.popReserve (head_of_firstFilled hi) t
        have hdrained := hpopped.discard (t := t) (by rw [Function.update_self])
        exact { h with
          kept := hdrained.through
          drained := fun hdone ↦ absurd hdone hnot }
      · cases hstep
        exact { h with
          quiet := fun _ ↦ h.quiet (by rw [hphase]; decide)
          drained := fun _ ↦ ⟨‹_›, hshared, ‹_›⟩ }
    | done | busy | full | batch _ => cases hstep

theorem step (h : Inv o s) {label : Θ × Action} (hstep : s.step o label = some s') : Inv o s' := by
  obtain ⟨t, action⟩ := label
  cases action with
  | allocate size created =>
    obtain ⟨⟨hlive, hidle⟩, hstep⟩ := Option.ite_none_right_eq_some.mp hstep
    cases hstep
    exact h.allocate hlive hidle size created
  | deallocate stack created =>
    obtain ⟨⟨hlive, hidle⟩, hstep⟩ := Option.ite_none_right_eq_some.mp hstep
    exact h.deallocate hlive hidle hstep
  | reserve size count =>
    obtain ⟨⟨hlive, hidle⟩, hstep⟩ := Option.ite_none_right_eq_some.mp hstep
    cases hstep
    exact h.reserve hlive hidle size count
  | exit =>
    obtain ⟨⟨hlive, hidle, -⟩, hstep⟩ := Option.ite_none_right_eq_some.mp hstep
    cases hstep
    have hhand : s.hands t = [] := hand_of_pc hidle
    exact h.move hlive (h.kept.same hhand) rfl (List.forall_mem_nil _)
  | advance answer =>
    obtain ⟨hlive, hstep⟩ := Option.ite_none_right_eq_some.mp hstep
    exact h.advance hlive hstep
  | write address values =>
    obtain ⟨hout, hstep⟩ := Option.ite_none_right_eq_some.mp hstep
    cases hstep
    exact { h with kept := h.kept.write hout fun _ hword ↦ if_neg hword }
  | destroy =>
    obtain ⟨⟨hlive, hnobody⟩, hstep⟩ := Option.ite_none_right_eq_some.mp hstep
    cases hstep
    refine { h with quiet := fun _ t' ↦ ?_, drained := fun hdone ↦ by cases hdone }
    by_contra hbusy
    have hcalling := h.calling t' hbusy
    rw [hnobody] at hcalling
    cases hcalling
  | drain answer =>
    obtain ⟨hphase, hstep⟩ := Option.ite_none_right_eq_some.mp hstep
    exact h.drain hphase t hstep

end Inv

end Steps

/-! ### Every run -/

/-- The stacks are conserved. -/
structure Conserved (o : Options) (s : State Θ) (contents : Place Θ → List StackView) : Prop where
  holds : Holds o s.pool s.hands contents
  handedOut : ∀ v ∈ s.pool.handedOut, ∃ size, (size, v) ∈ s.granted
  granted : ∀ g ∈ s.granted, g.2.size = o.roundUpToPage g.1
  destroyed : s.phase = .destroyed → s.pool.obtained.Perm (s.pool.handedOut ++ s.pool.returned)

/-- After the destructor every stack is with a caller. -/
theorem handedOut_of_drained {s : State Θ} {contents : Place Θ → List StackView} (h : Inv o s)
    (hholds : Holds o s.pool s.hands contents) (hphase : s.phase = .destroyed) :
    s.pool.mapped.Perm s.pool.handedOut := by
  obtain ⟨hregistry, hshared, hreserve⟩ := h.drained hphase
  have hquiet := h.quiet (by rw [hphase]; decide)
  rw [← hholds.handedOut]
  refine (List.perm_ext_iff_of_nodup hholds.custody.nodup
    (hholds.custody.nodup_contents _)).mpr fun v ↦ ⟨fun hv ↦ ?_, hholds.custody.mem_known⟩
  obtain ⟨place, hplace, -⟩ := hholds.custody.existsUnique hv
  cases place with
  | handedOut => exact hplace
  | cached t i =>
    rw [hholds.registered t (by rw [hregistry]; exact List.not_mem_nil) i] at hplace
    cases hplace
  | shared =>
    rw [hholds.shared, hshared] at hplace
    cases hplace
  | reserved i =>
    rw [(hholds.reserved i).eq_nil (head_of_firstFilled_eq_none hreserve i)] at hplace
    cases hplace
  | hand t =>
    have hhand := (hholds.hand t).mem_iff.mp hplace
    rw [Inv.hand_of_pc (hquiet t)] at hhand
    cases hhand

end Stackfull.Stack
