import Stackfull.Fcontext.Calls
import Stackfull.Lib.Refinement

/-!
# The assembly does what the switches mean

A simulation of `Threads` by `Contexts`. A thread in a routine works on the stacks of the contexts
that it holds: its own, and the one that it switches to or makes. Stacks do not overlap, so the run
of the routine is headed where it would end if nobody else moved (`Underway`), and the frames of
the contexts that stand somewhere hold their points (`Related`). An instruction keeps this
(`Related.execute`), and so do calls and the program. Where a routine ends, the contexts take one
step (`Related.complete`).
-/

set_option autoImplicit false
set_option relaxedAutoImplicit false
set_option linter.dupNamespace false

namespace Stackfull.Fcontext

open Stackfull.Lib

universe u v

namespace Threads

variable {Θ : Type u} {κ : Type v} {L : Layout} {stack : κ → Set (BitVec 64)}
  {s s' : Threads Θ κ} {t : Contexts Θ κ} {thread other : Θ} {p q : Pending κ}

/-! ### Routines under way -/

/-- How the run of a routine that is under way will end. -/
def Ends (L : Layout) (s : Threads Θ κ) (p : Pending κ) (y : Cpu × Bytes 64) : Prop :=
  match p.operation with
  | .switch onTop target => ∃ k, s.stage target = .suspended k ∧ p.site.rdi = k.fctx ∧
    (onTop → k.inCall) ∧ Switched L onTop k p.site p.returnAddress y
  | .make context => s.stage context = .absent ∧ p.site.rdx ≠ L.trampoline ∧
    Made L p.site p.returnAddress y

/-- A routine that is under way. -/
structure Underway (L : Layout) (stack : κ → Set (BitVec 64)) (s : Threads Θ κ) (thread : Θ)
    (p : Pending κ) : Prop where
  claim : s.claim p.operation.target = some thread
  own : p.own ⊆ stack (s.current thread)
  other : p.other ⊆ stack p.operation.target
  returnAddress : p.returnAddress ≠ L.trampoline
  ends : ∃ y, (machine L).Heading p.owns (s.code thread) (s.cpu thread, s.memory) y ∧ s.Ends L p y

/-- Where a routine ends depends on the context that it is about. -/
theorem Ends.of_stage {y : Cpu × Bytes 64} (h : s.Ends L p y)
    (hstage : s'.stage p.operation.target = s.stage p.operation.target) : s'.Ends L p y := by
  obtain ⟨operation, site, returnAddress⟩ := p
  cases operation with
  | switch onTop target =>
    obtain ⟨k, hk, hrest⟩ := h
    exact ⟨k, hstage.trans hk, hrest⟩
  | make context => exact ⟨hstage.trans h.1, h.2⟩

/-- The end of a routine is in the bytes that it owns. -/
theorem Ends.congr {c : Cpu} {m m' : Bytes 64} (h : s.Ends L p (c, m))
    (heq : Set.EqOn m m' p.owns) : s.Ends L p (c, m') := by
  obtain ⟨operation, site, returnAddress⟩ := p
  cases operation with
  | switch onTop target =>
    obtain ⟨k, hk, hrdi, honTop, hleft, harrives⟩ := h
    have hother : Set.EqOn m m' (span k.fctx 0x48) :=
      heq.mono ((congrArg (span · 0x48) hrdi).symm.subset.trans Set.subset_union_right)
    refine ⟨k, hk, hrdi, honTop, hleft.congr (heq.mono Set.subset_union_left), ?_⟩
    refine harrives.imp_left fun ⟨hrip, hview, hcaller⟩ ↦ ⟨hrip, hview, fun caller h ↦ ?_⟩
    exact (word_congr hother (by decide)).symm.trans (hcaller caller h)
  | make context =>
    obtain ⟨habsent, hrdx, hview, hentry, hframe⟩ := h
    have hother : Set.EqOn m m' (span (frameBelow (site.rdi &&& -16)) 0x48) :=
      heq.mono Set.subset_union_right
    have hsame := frameAt_congr (hother.mono (span_mono (by decide : 0x40 ≤ 0x48)))
    refine ⟨habsent, hrdx, hview, (word_congr hother (by decide)).symm.trans hentry, ?_⟩
    simp only at hframe ⊢
    rw [← hsame]
    exact hframe

/-- A step elsewhere does not concern the routine. -/
theorem Underway.keep (h : s.Underway L stack thread p) (hcode : s'.code thread = s.code thread)
    (hcpu : s'.cpu thread = s.cpu thread) (hcurrent : s'.current thread = s.current thread)
    (hclaim : s'.claim p.operation.target = s.claim p.operation.target)
    (hstage : s'.stage p.operation.target = s.stage p.operation.target)
    (hmemory : Set.EqOn s.memory s'.memory p.owns) : s'.Underway L stack thread p := by
  obtain ⟨y, hheading, hends⟩ := h.ends
  refine ⟨hclaim.trans h.claim, hcurrent ▸ h.own, h.other, h.returnAddress, y, ?_,
    hends.of_stage hstage⟩
  rw [hcode, hcpu]
  exact hheading.interfere hmemory

/-- A routine that begins. -/
theorem Underway.of_run {code : List Instr} {c : Cpu} {m : Bytes 64}
    (hclaim : s.claim p.operation.target = some thread) (hown : p.own ⊆ stack (s.current thread))
    (hother : p.other ⊆ stack p.operation.target) (hret : p.returnAddress ≠ L.trampoline)
    (hcode : s.code thread = code) (hcpu : s.cpu thread = c) (hmemory : s.memory = m)
    (hconfined : (machine L).Confined p.owns code (c, m))
    (hends : s.Ends L p ((machine L).run code (c, m))) : s.Underway L stack thread p := by
  subst hcode hcpu hmemory
  exact ⟨hclaim, hown, hother, hret, _, hconfined.heading, hends⟩

/-- A routine that has no instruction left has ended. -/
theorem Underway.ends_of_nil (h : s.Underway L stack thread p) (hcode : s.code thread = []) :
    s.Ends L p (s.cpu thread, s.memory) := by
  obtain ⟨⟨c, m⟩, hheading, hends⟩ := h.ends
  rw [hcode] at hheading
  obtain rfl : s.cpu thread = c := hheading.regs
  exact hends.congr hheading.cells.symm

/-! ### The relation -/

/-- The contexts are those of the threads between routines, and what is known of the memory is
right wherever no routine is at work. -/
structure Related (L : Layout) (stack : κ → Set (BitVec 64)) (s : Threads Θ κ)
    (t : Contexts Θ κ) : Prop where
  current : t.current = s.current
  stage : t.stage = s.stage
  idle : ∀ thread, s.pending thread = none →
    s.code thread = [] ∧ t.view thread = (s.cpu thread).view
  runs : ∀ thread, s.stage (s.current thread) = .running thread
  claimed : ∀ c thread, s.claim c = some thread → ∀ other, s.stage c ≠ .running other
  site : ∀ thread p, s.pending thread = some p → t.view thread = p.site
  underway : ∀ thread p, s.pending thread = some p → s.Underway L stack thread p
  suspended : ∀ c k, s.stage c = .suspended k →
    k.Proper L ∧ span k.fctx 0x48 ⊆ stack c ∧ ∀ x ∈ span k.fctx 0x48, t.memory x = none
  frames : ∀ c k, s.stage c = .suspended k → s.claim c = none → Holds L s.memory k
  memory : t.memory.RightOn s.memory s.busyᶜ

/-- The stacks of the contexts that a thread holds. -/
def zone (stack : κ → Set (BitVec 64)) (s : Threads Θ κ) (thread : Θ) : Set (BitVec 64) :=
  {x | ∃ c, (c = s.current thread ∨ s.claim c = some thread) ∧ x ∈ stack c}

theorem Underway.owns_subset (h : s.Underway L stack thread p) : p.owns ⊆ s.zone stack thread :=
  Set.union_subset (fun _ hx ↦ ⟨_, .inl rfl, h.own hx⟩) fun _ hx ↦ ⟨_, .inr h.claim, h.other hx⟩

section Zones

variable (hstack : Pairwise (Function.onFun Disjoint stack)) (hr : Related L stack s t)

include hr

/-- The context that a thread runs is not one that another holds. -/
theorem Related.ne_current (hne : thread ≠ other) {c : κ}
    (hc : c = s.current thread ∨ s.claim c = some thread) : c ≠ s.current other := by
  rintro rfl
  have hruns := hr.runs other
  rcases hc with heq | hc
  · rw [heq, hr.runs thread] at hruns
    exact hne (Stage.running.inj hruns)
  · exact hr.claimed _ _ hc _ hruns

include hstack

/-- Threads hold different contexts. -/
theorem Related.disjoint_zone (hne : thread ≠ other) :
    Disjoint (s.zone stack thread) (s.zone stack other) := by
  rw [Set.disjoint_left]
  rintro x ⟨c, hc, hx⟩ ⟨d, hd, hx'⟩
  have hcd : c ≠ d := by
    rintro rfl
    rcases hd with rfl | hd
    · exact hr.ne_current hne hc rfl
    · rcases hc with rfl | hc
      · exact hr.ne_current hne.symm (.inr hd) rfl
      · exact hne (Option.some.inj (hc.symm.trans hd))
  exact Set.disjoint_left.mp (hstack hcd) hx hx'

/-- Nobody holds a context that stands somewhere and is not claimed. -/
theorem Related.disjoint_frame {c : κ} {k : Point} (hc : s.stage c = .suspended k)
    (hclaim : s.claim c = none) : Disjoint (s.zone stack thread) (span k.fctx 0x48) := by
  rw [Set.disjoint_left]
  rintro x ⟨d, hd, hx⟩ hx'
  have hdc : d ≠ c := by
    rintro rfl
    rcases hd with rfl | hd
    · cases (hr.runs thread).symm.trans hc
    · cases hclaim.symm.trans hd
  exact Set.disjoint_left.mp (hstack hdc) hx ((hr.suspended c k hc).2.1 hx')

/-- A thread that writes to the stacks of its own contexts leaves the routines of the others. -/
theorem Related.eqOn_owns (hmemory : Set.EqOn s'.memory s.memory (s.zone stack thread)ᶜ)
    (hne : other ≠ thread) (hq : s.Underway L stack other q) :
    Set.EqOn s.memory s'.memory q.owns := fun _ hx ↦
  (hmemory fun hin ↦
    Set.disjoint_left.mp (hr.disjoint_zone hstack hne) (hq.owns_subset hx) hin).symm

/-- And it leaves the frames. -/
theorem Related.holds_of_eqOn (hmemory : Set.EqOn s'.memory s.memory (s.zone stack thread)ᶜ)
    {c : κ} {k : Point} (hc : s.stage c = .suspended k) (hclaim : s.claim c = none) :
    Holds L s'.memory k :=
  (hr.frames c k hc hclaim).congr fun _ hx ↦ (hmemory fun hin ↦
    Set.disjoint_left.mp (hr.disjoint_frame hstack hc hclaim) hin hx).symm

end Zones

variable [DecidableEq Θ] [DecidableEq κ]

/-! ### Instructions -/

section Instructions

variable {i : Instr} {rest : List Instr}

omit [DecidableEq κ] in
/-- **An instruction of a routine.** -/
theorem Related.execute (hstack : Pairwise (Function.onFun Disjoint stack))
    (hr : Related L stack s t) (hp : s.pending thread = some p)
    (hcode : s.code thread = i :: rest) : Related L stack (s.execute L thread i rest) t := by
  have hunder := hr.underway thread p hp
  obtain ⟨y, hheading, hends⟩ := hunder.ends
  rw [hcode] at hheading
  have hmemory : Set.EqOn (s.execute L thread i rest).memory s.memory (s.zone stack thread)ᶜ :=
    fun x hx ↦ hheading.frame fun hin ↦ hx (hunder.owns_subset hin)
  refine ⟨hr.current, hr.stage, fun other hother ↦ ?_, hr.runs, hr.claimed, hr.site,
    fun other q hq ↦ ?_, hr.suspended,
    fun c k hc hclaim ↦ hr.holds_of_eqOn hstack hmemory hc hclaim, fun x hx b hb ↦ ?_⟩
  · have hne : other ≠ thread := by
      rintro rfl
      cases hp.symm.trans hother
    simpa only [Threads.execute, Function.update_of_ne hne] using hr.idle other hother
  · rcases eq_or_ne other thread with rfl | hne
    · cases hp.symm.trans hq
      refine ⟨hunder.claim, hunder.own, hunder.other, hunder.returnAddress, y, ?_, hends⟩
      simp only [Threads.execute, Function.update_self]
      exact hheading.step
    · exact (hr.underway other q hq).keep (Function.update_of_ne hne ..)
        (Function.update_of_ne hne ..) rfl rfl rfl
        (hr.eqOn_owns hstack hmemory hne (hr.underway other q hq))
  · have hout : x ∉ p.owns := fun hin ↦ hx ⟨thread, p, hp, hin⟩
    exact (hheading.frame hout).trans (hr.memory x hx b hb)

omit [DecidableEq κ] in
/-- **A jump to a context that has not begun goes on in the trampoline.** -/
theorem Related.trampoline (hstack : Pairwise (Function.onFun Disjoint stack))
    (hr : Related L stack s t) (hp : s.pending thread = some p) (hcode : s.code thread = [])
    (hrip : (s.cpu thread).rip = L.trampoline) :
    Related L stack { s with code := Function.update s.code thread trampoline } t := by
  have hunder := hr.underway thread p hp
  have hends := hunder.ends_of_nil hcode
  refine ⟨hr.current, hr.stage, fun other hother ↦ ?_, hr.runs, hr.claimed, hr.site,
    fun other q hq ↦ ?_, hr.suspended, hr.frames, hr.memory⟩
  · have hne : other ≠ thread := by
      rintro rfl
      cases hp.symm.trans hother
    simpa only [Function.update_of_ne hne] using hr.idle other hother
  · rcases eq_or_ne other thread with rfl | hne
    · cases hp.symm.trans hq
      obtain ⟨operation, site, returnAddress⟩ := p
      cases operation with
      | make context =>
        have hview := hends.2.2.view
        exact absurd ((congrArg View.rip hview).symm.trans hrip) hunder.returnAddress
      | switch onTop target =>
        obtain ⟨k, hk, hrdi, honTop, hleft, harrives⟩ := hends
        rcases harrives with ⟨hne, -⟩ | ⟨saved, top, rfl, rfl, hview⟩
        · exact absurd hrip hne
        obtain ⟨hproper, hframe, -⟩ := hr.suspended target _ hk
        have hrsp : (s.cpu other).regs .rsp = top := congrArg View.rsp hview
        have hne : s.current other ≠ target := by
          rintro rfl
          cases (hr.runs other).symm.trans hk
        refine .of_run hunder.claim hunder.own hunder.other hunder.returnAddress
          (Function.update_self ..) rfl rfl (confined_trampoline.mono ?_)
          ⟨_, hk, hrdi, honTop, Switched.trampoline hview hleft ?_ hproper⟩
        · rw [hrsp]
          have hfctx : span (frameBelow top) 0x48 = span site.rdi 0x48 :=
            congrArg (span · 0x48) hrdi.symm
          exact ((slot_subset top).trans hfctx.subset).trans Set.subset_union_right
        · exact (hstack hne).mono hunder.own hframe
    · exact (hr.underway other q hq).keep (Function.update_of_ne hne ..) rfl rfl rfl rfl
        fun _ _ ↦ rfl

end Instructions

/-! ### Calls -/

/-- A routine that is called within the contract ends as it should. -/
theorem Related.underway_call (hstack : Pairwise (Function.onFun Disjoint stack))
    (hr : Related L stack s t) {operation : Operation κ} {returnAddress : BitVec 64}
    (hcontract : s.Contract L stack (.call thread operation returnAddress)) :
    s.claim operation.target = none ∧ (∀ other, s.stage operation.target ≠ .running other) ∧
      (s.call thread operation returnAddress).Underway L stack thread
        ⟨operation, (s.cpu thread).view, returnAddress⟩ := by
  cases operation with
  | switch onTop target =>
    obtain ⟨k, hk, hclaim, hrdi, hroom, hret, honTop⟩ := hcontract
    obtain ⟨hproper, hframe, -⟩ := hr.suspended target k hk
    have hne : s.current thread ≠ target := by
      rintro rfl
      cases (hr.runs thread).symm.trans hk
    have hother : span ((s.cpu thread).regs .rdi) 0x48 ⊆ stack target := by rwa [hrdi]
    refine ⟨hclaim, fun other hother ↦ ?_, ?_⟩
    · cases hk.symm.trans hother
    · exact .of_run (Function.update_self ..) hroom hother hret (Function.update_self ..)
        (Function.update_self ..) rfl (confined_switch onTop target)
        ⟨k, hk, hrdi, fun h ↦ (honTop h).1, switched_of_run (hr.frames target k hk hclaim) hproper
          hrdi ((hstack hne).mono hroom hframe) honTop⟩
  | make context =>
    obtain ⟨habsent, hclaim, hother, hroom, hret, hrdx⟩ := hcontract
    have hne : s.current thread ≠ context := by
      rintro rfl
      cases (hr.runs thread).symm.trans habsent
    refine ⟨hclaim, fun other hother ↦ ?_, ?_⟩
    · cases habsent.symm.trans hother
    · exact .of_run (Function.update_self ..) hroom hother hret (Function.update_self ..)
        (Function.update_self ..) rfl (confined_make_call context)
        ⟨habsent, hrdx, made_of_run ((hstack hne).mono hroom hother)⟩

omit [DecidableEq Θ] [DecidableEq κ] in
/-- The return address is pushed where the routine works. -/
theorem slot_subset_own (p : Pending κ) : span (p.site.rsp - 8) 8 ⊆ p.own := by
  obtain ⟨operation, site, returnAddress⟩ := p
  cases operation with
  | switch => exact slot_subset site.rsp
  | make => exact subset_rfl

/-- **A call of a routine.** -/
theorem Related.call (hstack : Pairwise (Function.onFun Disjoint stack))
    (hr : Related L stack s t) (hidle : s.pending thread = none) {operation : Operation κ}
    {returnAddress : BitVec 64}
    (hcontract : s.Contract L stack (.call thread operation returnAddress)) :
    Related L stack (s.call thread operation returnAddress) t := by
  obtain ⟨hclaim, htarget, hunder⟩ := hr.underway_call hstack hcontract
  have hwrite : Set.EqOn (s.call thread operation returnAddress).memory s.memory
      (span ((s.cpu thread).regs .rsp - 8) 8)ᶜ := Bytes.write_eqOn
  have hslot := slot_subset_own ⟨operation, (s.cpu thread).view, returnAddress⟩
  have hmemory : Set.EqOn (s.call thread operation returnAddress).memory s.memory
      (s.zone stack thread)ᶜ :=
    fun x hx ↦ hwrite fun hin ↦ hx ⟨_, .inl rfl, hunder.own (hslot hin)⟩
  have hpending : (s.call thread operation returnAddress).pending thread =
      some ⟨operation, (s.cpu thread).view, returnAddress⟩ := Function.update_self ..
  refine ⟨hr.current, hr.stage, fun other hother ↦ ?_, hr.runs, fun c other hc ↦ ?_,
    fun other q hq ↦ ?_, fun other q hq ↦ ?_, hr.suspended, fun c k hc hnone ↦ ?_,
    fun x hx b hb ↦ ?_⟩
  · have hne : other ≠ thread := by
      rintro rfl
      cases hpending.symm.trans hother
    simp only [Threads.call, Function.update_of_ne hne] at hother ⊢
    exact hr.idle other hother
  · rcases eq_or_ne c operation.target with rfl | hne
    · exact htarget
    · simp only [Threads.call, Function.update_of_ne hne] at hc
      exact hr.claimed c other hc
  · rcases eq_or_ne other thread with rfl | hne
    · cases hpending.symm.trans hq
      exact (hr.idle other hidle).2
    · simp only [Threads.call, Function.update_of_ne hne] at hq
      exact hr.site other q hq
  · rcases eq_or_ne other thread with rfl | hne
    · cases hpending.symm.trans hq
      exact hunder
    · simp only [Threads.call, Function.update_of_ne hne] at hq
      have hq := hr.underway other q hq
      have htarget : q.operation.target ≠ operation.target := fun heq ↦ by
        have hclaimed := hq.claim
        rw [heq, hclaim] at hclaimed
        cases hclaimed
      exact hq.keep (Function.update_of_ne hne ..) (Function.update_of_ne hne ..) rfl
        (Function.update_of_ne htarget ..) rfl (hr.eqOn_owns hstack hmemory hne hq)
  · have hne : c ≠ operation.target := by
      rintro rfl
      simp only [Threads.call, Function.update_self] at hnone
      cases hnone
    simp only [Threads.call, Function.update_of_ne hne] at hnone
    exact hr.holds_of_eqOn hstack hmemory hc hnone
  · have hbusy : x ∉ s.busy := by
      rintro ⟨other, q, hq, hin⟩
      have hne : other ≠ thread := by
        rintro rfl
        cases hidle.symm.trans hq
      exact hx ⟨other, q, (Function.update_of_ne hne ..).trans hq, hin⟩
    refine (hwrite fun hin ↦ hx ⟨thread, _, hpending, .inl (hslot hin)⟩).trans ?_
    exact hr.memory x hbusy b hb

/-! ### The end of a call -/

section Completion

variable {onTop : Bool} {target context : κ} {site : View} {returnAddress : BitVec 64}

/-- A switch forgets the frame that it leaves, and knows the return address of what it calls. -/
theorem memory_switch_of_notMem {k : Point} {x : BitVec 64} (hx : x ∉ span (k.rsp - 8) 8) :
    (t.switch thread onTop target k returnAddress).memory x =
      t.memory.forget (frameBelow (t.view thread).rsp) 0x48 x := by
  cases hcalled : k.calledFrom onTop with
  | none => simp only [Contexts.switch, hcalled]
  | some caller =>
    simp only [Contexts.switch, hcalled]
    exact PartialBytes.write_of_notMem hx

/-- What a switch leaves known of the memory is right. -/
theorem Related.memory_switch (hr : Related L stack s t)
    (hp : s.pending thread = some ⟨.switch onTop target, site, returnAddress⟩) {k : Point}
    (hk : s.stage target = .suspended k) (hrdi : site.rdi = k.fctx)
    (hcaller : ∀ caller ∈ k.calledFrom onTop, word s.memory k.fctx 0x40 = caller) {x : BitVec 64}
    (hx : x ∉ (s.complete thread).busy) {b : BitVec 8}
    (hb : b ∈ (t.switch thread onTop target k returnAddress).memory x) : s.memory x = b := by
  by_cases hslot : x ∈ span (k.rsp - 8) 8
  · have hframe : x ∈ span k.fctx 0x48 := slot_subset k.rsp hslot
    have hown : t.memory.forget (frameBelow (t.view thread).rsp) 0x48 x = none := by
      rw [PartialBytes.forget]
      split_ifs
      · rfl
      · exact (hr.suspended target k hk).2.2 x hframe
    cases hcalled : k.calledFrom onTop with
    | none =>
      simp only [Contexts.switch, hcalled] at hb
      cases hown.symm.trans hb
    | some caller =>
      simp only [Contexts.switch, hcalled] at hb
      rw [PartialBytes.write_of_mem (m := s.memory) hslot, ← hcaller caller hcalled, Point.fctx,
        word_slot, Bytes.write_ofNat_read (by decide) (by decide)] at hb
      exact Option.some.inj hb
  rw [memory_switch_of_notMem hslot, hr.site thread _ hp] at hb
  by_cases hown : x ∈ span (frameBelow site.rsp) 0x48
  · cases (PartialBytes.forget_of_mem hown).symm.trans hb
  rw [PartialBytes.forget_of_notMem hown] at hb
  by_cases hframe : x ∈ span k.fctx 0x48
  · cases ((hr.suspended target k hk).2.2 x hframe).symm.trans hb
  refine hr.memory x ?_ b hb
  rintro ⟨other, q, hq, hin⟩
  rcases eq_or_ne other thread with rfl | hne
  · cases hp.symm.trans hq
    exact hin.elim hown fun hin ↦ hframe (hrdi ▸ hin)
  · refine hx ⟨other, q, ?_, hin⟩
    simp only [complete, hp, Function.update_of_ne hne]
    exact hq

/-- **A switch ends.** -/
theorem Related.complete_switch (hstack : Pairwise (Function.onFun Disjoint stack))
    (hr : Related L stack s t)
    (hp : s.pending thread = some ⟨.switch onTop target, site, returnAddress⟩)
    (hcode : s.code thread = []) (hrip : (s.cpu thread).rip ≠ L.trampoline) :
    ∃ k, s.stage target = .suspended k ∧ site.rdi = k.fctx ∧ (onTop → k.inCall) ∧
      Related L stack (s.complete thread) (t.switch thread onTop target k returnAddress) := by
  have hunder := hr.underway thread _ hp
  obtain ⟨k, hk, hrdi, honTop, hleft, harrives⟩ := hunder.ends_of_nil hcode
  obtain ⟨-, hview, hcaller⟩ | ⟨saved, top, rfl, rfl, hview⟩ := harrives
  swap
  · exact absurd (congrArg View.rip hview) hrip
  have hsite := hr.site thread _ hp
  have hne : target ≠ s.current thread := by
    rintro rfl
    cases (hr.runs thread).symm.trans hk
  have hcomplete : s.complete thread = { s with
      pending := Function.update s.pending thread none
      current := Function.update s.current thread target
      stage := Function.update (Function.update s.stage (s.current thread)
        (.suspended (.returns site.saved site.rsp returnAddress))) target (.running thread)
      claim := Function.update s.claim target none } := by
    rw [complete, hp]
  refine ⟨k, hk, hrdi, honTop, ?_⟩
  have hmemory := fun x hx b hb ↦ hr.memory_switch hp hk hrdi hcaller (x := x) hx (b := b) hb
  rw [hcomplete] at hmemory ⊢
  have hheld {other : Θ} (hother : other ≠ thread) {c : κ}
      (hc : c = s.current other ∨ s.claim c = some other) : c ≠ target ∧ c ≠ s.current thread := by
    refine ⟨?_, hr.ne_current hother hc⟩
    rintro rfl
    rcases hc with heq | hc
    · exact hr.ne_current hother.symm (.inr hunder.claim) heq
    · exact hother (Option.some.inj (hc.symm.trans hunder.claim))
  refine ⟨?_, ?_, fun other hother ↦ ?_,
    fun other ↦ ?_, fun c other hc ↦ ?_, fun other q hq ↦ ?_, fun other q hq ↦ ?_,
    fun c k' hc ↦ ?_, fun c k' hc hnone ↦ ?_, hmemory⟩
  · simp only [Contexts.switch, hr.current]
  · simp only [Contexts.switch, hr.current, hr.stage, hsite]
  · rcases eq_or_ne other thread with rfl | hother'
    · refine ⟨hcode, ?_⟩
      simp only [Contexts.switch, Function.update_self, hsite]
      exact hview.symm
    · simp only [Function.update_of_ne hother'] at hother
      simp only [Contexts.switch, Function.update_of_ne hother']
      exact hr.idle other hother
  · rcases eq_or_ne other thread with rfl | hother
    · simp only [Function.update_self]
    · obtain ⟨htarget, hcurrent⟩ := hheld hother (.inl rfl)
      simp only [Function.update_of_ne hother, Function.update_of_ne htarget,
        Function.update_of_ne hcurrent]
      exact hr.runs other
  · rcases eq_or_ne c target with rfl | htarget
    · simp only [Function.update_self] at hc
      cases hc
    · simp only [Function.update_of_ne htarget] at hc ⊢
      have hcurrent : c ≠ s.current thread := by
        rintro rfl
        exact hr.claimed _ _ hc _ (hr.runs thread)
      rw [Function.update_of_ne hcurrent]
      exact hr.claimed c other hc
  · rcases eq_or_ne other thread with rfl | hother
    · simp only [Function.update_self] at hq
      cases hq
    · simp only [Function.update_of_ne hother] at hq
      simp only [Contexts.switch, Function.update_of_ne hother]
      exact hr.site other q hq
  · rcases eq_or_ne other thread with rfl | hother
    · simp only [Function.update_self] at hq
      cases hq
    · simp only [Function.update_of_ne hother] at hq
      have hq := hr.underway other q hq
      obtain ⟨htarget, hcurrent⟩ := hheld hother (.inr hq.claim)
      refine hq.keep rfl rfl (Function.update_of_ne hother ..) (Function.update_of_ne htarget ..) ?_
        fun _ _ ↦ rfl
      simp only [Function.update_of_ne htarget, Function.update_of_ne hcurrent]
  · have hslot {x : BitVec 64} (hct : c ≠ target) (hx : x ∈ stack c) : x ∉ span (k.rsp - 8) 8 :=
      fun hin ↦ Set.disjoint_left.mp (hstack hct) hx
        ((hr.suspended target k hk).2.1 (slot_subset k.rsp hin))
    rcases eq_or_ne c target with rfl | htarget
    · simp only [Function.update_self] at hc
      cases hc
    rcases eq_or_ne c (s.current thread) with rfl | hcurrent
    · simp only [Function.update_of_ne htarget, Function.update_self] at hc
      cases hc
      refine ⟨hunder.returnAddress, hunder.own, fun x hx ↦ ?_⟩
      rw [memory_switch_of_notMem (hslot htarget (hunder.own hx)), hsite]
      exact PartialBytes.forget_of_mem hx
    · simp only [Function.update_of_ne htarget, Function.update_of_ne hcurrent] at hc
      obtain ⟨hproper, hframe, hblank⟩ := hr.suspended c k' hc
      refine ⟨hproper, hframe, fun x hx ↦ ?_⟩
      rw [memory_switch_of_notMem (hslot htarget (hframe hx)), PartialBytes.forget, hblank x hx,
        ite_self]
  · rcases eq_or_ne c target with rfl | htarget
    · simp only [Function.update_self] at hc
      cases hc
    simp only [Function.update_of_ne htarget] at hc hnone
    rcases eq_or_ne c (s.current thread) with rfl | hcurrent
    · rw [Function.update_self] at hc
      cases hc
      exact hleft
    · rw [Function.update_of_ne hcurrent] at hc
      exact hr.frames c k' hc hnone

/-- **A context is made.** -/
theorem Related.complete_make (hr : Related L stack s t)
    (hp : s.pending thread = some ⟨.make context, site, returnAddress⟩)
    (hcode : s.code thread = []) : ∃ left, s.stage context = .absent ∧
      Related L stack (s.complete thread) (t.make L thread context returnAddress left) := by
  have hunder := hr.underway thread _ hp
  obtain ⟨habsent, hrdx, hview, hentry, hframe⟩ := hunder.ends_of_nil hcode
  have hsite := hr.site thread _ hp
  have hcomplete : s.complete thread = { s with
      pending := Function.update s.pending thread none
      stage := Function.update s.stage context (.suspended (.starts
        (frameAt s.memory (frameBelow (site.rdi &&& -16))) (site.rdi &&& -16)))
      claim := Function.update s.claim context none } := by
    rw [complete, hp]
  rw [hcomplete]
  have hrunning {c : κ} {other : Θ} (hc : s.stage c = .running other) : c ≠ context := by
    rintro rfl
    cases habsent.symm.trans hc
  refine ⟨frameAt s.memory (frameBelow (site.rdi &&& -16)), habsent, hr.current, ?_,
    fun other hother ↦ ?_, fun other ↦ ?_, fun c other hc ↦ ?_, fun other q hq ↦ ?_,
    fun other q hq ↦ ?_, fun c k hc ↦ ?_, fun c k hc hnone ↦ ?_, fun x hx b hb ↦ ?_⟩
  · simp only [Contexts.make, hr.stage, hsite]
    rw [← hframe]
  · rcases eq_or_ne other thread with rfl | hne
    · refine ⟨hcode, ?_⟩
      simp only [Contexts.make, Function.update_self, hsite]
      exact hview.symm
    · simp only [Function.update_of_ne hne] at hother
      simp only [Contexts.make, Function.update_of_ne hne]
      exact hr.idle other hother
  · simp only [Function.update_of_ne (hrunning (hr.runs other))]
    exact hr.runs other
  · rcases eq_or_ne c context with rfl | hne
    · simp only [Function.update_self] at hc
      cases hc
    · simp only [Function.update_of_ne hne] at hc ⊢
      exact hr.claimed c other hc
  · rcases eq_or_ne other thread with rfl | hne
    · simp only [Function.update_self] at hq
      cases hq
    · simp only [Function.update_of_ne hne] at hq
      simp only [Contexts.make, Function.update_of_ne hne]
      exact hr.site other q hq
  · rcases eq_or_ne other thread with rfl | hne
    · simp only [Function.update_self] at hq
      cases hq
    · simp only [Function.update_of_ne hne] at hq
      have hq := hr.underway other q hq
      have htarget : q.operation.target ≠ context := by
        intro heq
        have hclaim := hq.claim
        rw [heq] at hclaim
        exact hne (Option.some.inj (hclaim.symm.trans hunder.claim))
      exact hq.keep rfl rfl rfl (Function.update_of_ne htarget ..)
        (Function.update_of_ne htarget ..) fun _ _ ↦ rfl
  · rcases eq_or_ne c context with rfl | hne
    · simp only [Function.update_self] at hc
      cases hc
      refine ⟨?_, hunder.other, fun x hx ↦ ?_⟩
      · exact fun heq ↦ hrdx ((congrArg Saved.rbx hframe).symm.trans heq)
      · simp only [Contexts.make, hsite]
        exact PartialBytes.forget_of_mem hx
    · simp only [Function.update_of_ne hne] at hc
      obtain ⟨hproper, hin, hblank⟩ := hr.suspended c k hc
      refine ⟨hproper, hin, fun x hx ↦ ?_⟩
      simp only [Contexts.make, PartialBytes.forget, hblank x hx, ite_self]
  · rcases eq_or_ne c context with rfl | hne
    · simp only [Function.update_self] at hc
      cases hc
      exact ⟨rfl, hentry⟩
    · simp only [Function.update_of_ne hne] at hc hnone
      exact hr.frames c k hc hnone
  · simp only [Contexts.make, hsite] at hb
    by_cases hother : x ∈ span (frameBelow (site.rdi &&& -16)) 0x48
    · cases (PartialBytes.forget_of_mem hother).symm.trans hb
    rw [PartialBytes.forget_of_notMem hother] at hb
    by_cases hown : x ∈ span (site.rsp - 8) 8
    · cases (PartialBytes.forget_of_mem hown).symm.trans hb
    rw [PartialBytes.forget_of_notMem hown] at hb
    refine hr.memory x ?_ b hb
    rintro ⟨other, q, hq, hin⟩
    rcases eq_or_ne other thread with rfl | hne
    · cases hp.symm.trans hq
      exact hin.elim hown hother
    · exact hx ⟨other, q, (Function.update_of_ne hne ..).trans hq, hin⟩

end Completion

/-! ### The program -/

omit [DecidableEq κ] in
/-- The program computes. -/
theorem Related.compute (hr : Related L stack s t) (hidle : s.pending thread = none) (c : Cpu) :
    Related L stack { s with cpu := Function.update s.cpu thread c }
      { t with view := Function.update t.view thread c.view } := by
  refine ⟨hr.current, hr.stage, fun other hother ↦ ?_, hr.runs, hr.claimed, fun other q hq ↦ ?_,
    fun other q hq ↦ ?_, hr.suspended, hr.frames, hr.memory⟩
  · rcases eq_or_ne other thread with rfl | hne
    · simp only [Function.update_self, and_true]
      exact (hr.idle other hother).1
    · simp only [Function.update_of_ne hne]
      exact hr.idle other hother
  · have hne : other ≠ thread := by
      rintro rfl
      cases hidle.symm.trans hq
    exact (Function.update_of_ne hne ..).trans (hr.site other q hq)
  · have hne : other ≠ thread := by
      rintro rfl
      cases hidle.symm.trans hq
    exact (hr.underway other q hq).keep rfl (Function.update_of_ne hne ..) rfl rfl rfl
      fun _ _ ↦ rfl

omit [DecidableEq Θ] [DecidableEq κ] in
/-- The program stores a byte, where no frame is. -/
theorem Related.store (hr : Related L stack s t) {address : BitVec 64}
    (hguarded : address ∉ s.guarded) (byte : BitVec 8) :
    Related L stack { s with memory := Function.update s.memory address byte }
      { t with memory := Function.update t.memory address (some byte) } := by
  have hsame {S : Set (BitVec 64)} (hS : address ∉ S) :
      Set.EqOn s.memory (Function.update s.memory address byte) S := fun x hx ↦
    (Function.update_of_ne (ne_of_mem_of_not_mem hx hS) ..).symm
  have hframe {c : κ} {k : Point} (hc : s.stage c = .suspended k) :
      address ∉ span k.fctx 0x48 := fun hin ↦ hguarded (.inr ⟨c, k, hc, hin⟩)
  refine ⟨hr.current, hr.stage, hr.idle, hr.runs, hr.claimed, hr.site, fun other q hq ↦ ?_,
    fun c k hc ↦ ?_, fun c k hc hnone ↦ (hr.frames c k hc hnone).congr (hsame (hframe hc)),
    fun x hx b hb ↦ ?_⟩
  · exact (hr.underway other q hq).keep rfl rfl rfl rfl rfl
      (hsame fun hin ↦ hguarded (.inl ⟨other, q, hq, hin⟩))
  · obtain ⟨hproper, hin, hblank⟩ := hr.suspended c k hc
    refine ⟨hproper, hin, fun x hx ↦ ?_⟩
    exact (Function.update_of_ne (ne_of_mem_of_not_mem hx (hframe hc)) ..).trans (hblank x hx)
  · simp only at hb ⊢
    rcases eq_or_ne x address with rfl | hne
    · rw [Function.update_self] at hb ⊢
      exact Option.some.inj hb
    · rw [Function.update_of_ne hne] at hb ⊢
      exact hr.memory x hx b hb

/-! ### Runs -/

/-- The contexts of the program, with every routine that is under way still at work. -/
def Refines (L : Layout) (stack : κ → Set (BitVec 64)) (s : Threads Θ κ) (t : Contexts Θ κ) :
    Prop :=
  Related L stack s t ∧ ∀ thread, s.pending thread ≠ none → s.code thread ≠ []

omit [DecidableEq Θ] [DecidableEq κ] in
theorem refines_initial (h : s.Initial) :
    ∃ t, Contexts.Initial t ∧ Refines L stack s t := by
  obtain ⟨hthreads, hcontexts⟩ := h
  refine ⟨⟨fun thread ↦ (s.cpu thread).view, fun _ ↦ none, s.current, s.stage⟩,
    ⟨fun thread ↦ (hthreads thread).2.2, fun c k ↦ (hcontexts c).2 k, fun _ ↦ rfl⟩,
    ⟨rfl, rfl, fun thread _ ↦ ⟨(hthreads thread).1, rfl⟩, fun thread ↦ (hthreads thread).2.2,
      fun c thread hc ↦ ?_, fun thread p hp ↦ ?_, fun thread p hp ↦ ?_, fun c k hc ↦ ?_,
      fun c k hc ↦ ?_, fun _ _ _ hb ↦ ?_⟩, fun thread hp ↦ absurd (hthreads thread).2.1 hp⟩
  · cases (hcontexts c).1.symm.trans hc
  · cases (hthreads thread).2.1.symm.trans hp
  · cases (hthreads thread).2.1.symm.trans hp
  · exact absurd hc ((hcontexts c).2 k)
  · exact absurd hc ((hcontexts c).2 k)
  · cases hb

omit [DecidableEq Θ] [DecidableEq κ] in
/-- A thread that is in no routine runs the program. -/
theorem Refines.pending_eq_none (h : Refines L stack s t) (hcode : s.code thread = []) :
    s.pending thread = none := by
  by_contra hp
  exact h.2 thread hp hcode

omit [DecidableEq κ] in
theorem routine_ne_nil (operation : Operation κ) : operation.routine ≠ [] := by
  rcases operation with ⟨_ | _, target⟩ | context <;> exact List.cons_ne_nil _ _

@[simp] theorem complete_code (thread : Θ) : (s.complete thread).code = s.code := by
  rw [complete]
  split <;> rfl

@[simp] theorem complete_cpu (thread : Θ) : (s.complete thread).cpu = s.cpu := by
  rw [complete]
  split <;> rfl

theorem complete_pending (hp : s.pending thread = some p) :
    (s.complete thread).pending = Function.update s.pending thread none := by
  rw [complete]
  split
  · rfl
  · rfl
  next hnone => cases hp.symm.trans hnone

/-- **The step of the contexts that a routine has taken when it ends.** -/
theorem Related.complete (hstack : Pairwise (Function.onFun Disjoint stack))
    (hr : Related L stack s t) (hp : s.pending thread = some p) (hcode : s.code thread = [])
    (hrip : (s.cpu thread).rip ≠ L.trampoline) : ∃ left t',
      t.step L (.call thread p.operation p.returnAddress left) = some t' ∧
        Related L stack (s.complete thread) t' := by
  obtain ⟨operation, site, returnAddress⟩ := p
  cases operation with
  | switch onTop target =>
    obtain ⟨k, hk, hrdi, honTop, hrelated⟩ := hr.complete_switch hstack hp hcode hrip
    refine ⟨site.saved, _, ?_, hrelated⟩
    simp only [Contexts.step, hr.stage, hk, hr.site thread _ hp]
    exact if_pos ⟨hrdi, honTop⟩
  | make context =>
    obtain ⟨left, habsent, hrelated⟩ := hr.complete_make hp hcode
    refine ⟨left, _, ?_, hrelated⟩
    simp only [Contexts.step, hr.stage, habsent]

/-- **An instruction.** -/
theorem Refines.instruction (hstack : Pairwise (Function.onFun Disjoint stack))
    (h : Refines L stack s t) (hstep : s.instruction L thread = some s') :
    (s.event L (.instruction thread) = none ∧ Refines L stack s' t) ∨ ∃ b t',
      t.step L b = some t' ∧ t.event L b = s.event L (.instruction thread) ∧
        Refines L stack s' t' := by
  have hevent : s.event L (.instruction thread) = if s'.code thread = [] then
      some (.sees thread (s'.current thread) (s'.cpu thread).view) else none := by
    simp only [event, hstep]
  rw [hevent]
  cases hcode : s.code thread with
  | nil =>
    simp only [Threads.instruction, hcode] at hstep
    cases hstep
  | cons i rest =>
    obtain ⟨p, hp⟩ : ∃ p, s.pending thread = some p := by
      refine Option.ne_none_iff_exists'.mp fun hnone ↦ ?_
      cases hcode.symm.trans (h.1.idle thread hnone).1
    have hexec := h.1.execute hstack hp hcode
    have hothers (code : List Instr) {other : Θ} (hother : s.pending other ≠ none)
        (hcode : other = thread → code ≠ []) : (s.execute L thread i code).code other ≠ [] := by
      rcases eq_or_ne other thread with rfl | hne
      · simpa only [Threads.execute, Function.update_self] using hcode rfl
      · simpa only [Threads.execute, Function.update_of_ne hne] using h.2 other hother
    have hnext (code : List Instr) : (s.execute L thread i code).code thread = code :=
      Function.update_self ..
    have hcpu : (s.execute L thread i []).cpu thread = (exec L i (s.cpu thread, s.memory)).1 :=
      Function.update_self ..
    simp only [Threads.instruction, hcode, ← hcpu] at hstep
    split_ifs at hstep with hrest hrip
    · subst hrest
      obtain rfl := Option.some.inj hstep
      have hcode' : trampoline ≠ [] := List.cons_ne_nil _ _
      have hsame : s.execute L thread i trampoline = { s.execute L thread i [] with
          code := Function.update (s.execute L thread i []).code thread trampoline } := by
        simp only [Threads.execute, Function.update_idem]
      refine .inl ⟨?_, ?_, fun other hother ↦ hothers _ hother fun _ ↦ hcode'⟩
      · rw [hnext, if_neg hcode']
      · rw [hsame]
        exact hexec.trampoline hstack hp (hnext []) hrip
    · subst hrest
      obtain rfl := Option.some.inj hstep
      obtain ⟨left, t', hcall, hrelated⟩ := hexec.complete hstack hp (hnext []) hrip
      have hpending := complete_pending (s := s.execute L thread i []) hp
      have hnone : ((s.execute L thread i []).complete thread).pending thread = none := by
        rw [hpending, Function.update_self]
      refine .inr ⟨_, t', hcall, ?_, hrelated, fun other hother ↦ ?_⟩
      · simp only [Contexts.event, hcall, Option.map_some, complete_code, hnext, if_true,
          hrelated.current, (hrelated.idle thread hnone).2]
      · have hne : other ≠ thread := by
          rintro rfl
          exact hother hnone
        rw [hpending, Function.update_of_ne hne] at hother
        rw [complete_code]
        exact hothers [] hother fun heq ↦ absurd heq hne
    · obtain rfl := Option.some.inj hstep
      refine .inl ⟨?_, hexec, fun other hother ↦ hothers rest hother fun _ ↦ hrest⟩
      rw [hnext, if_neg hrest]

/-- **Every step is one of the contexts, or is not seen.** -/
theorem Refines.step (hstack : Pairwise (Function.onFun Disjoint stack))
    (h : Refines L stack s t) {a : Action Θ κ} (hcontract : s.Contract L stack a)
    (hstep : s.step L a = some s') :
    (s.event L a = none ∧ Refines L stack s' t) ∨
      ∃ b t', t.step L b = some t' ∧ t.event L b = s.event L a ∧ Refines L stack s' t' := by
  cases a with
  | compute thread c =>
    simp only [Threads.step] at hstep
    split_ifs at hstep with hcode
    obtain rfl := Option.some.inj hstep
    exact .inr ⟨.compute thread c.view, _, rfl, rfl,
      h.1.compute (h.pending_eq_none hcode) c, h.2⟩
  | load thread address byte =>
    simp only [Threads.step] at hstep
    split_ifs at hstep with hload
    obtain rfl := Option.some.inj hstep
    refine .inr ⟨.load thread address byte, t, if_pos fun known hknown ↦ ?_, rfl, h⟩
    exact (h.1.memory address (fun hin ↦ hcontract (.inl hin)) known hknown).symm.trans hload.2
  | store thread address byte =>
    simp only [Threads.step] at hstep
    split_ifs at hstep with hcode
    obtain rfl := Option.some.inj hstep
    exact .inr ⟨.store thread address byte, _, rfl, rfl, h.1.store hcontract byte, h.2⟩
  | call thread operation returnAddress =>
    simp only [Threads.step] at hstep
    split_ifs at hstep with hcode
    obtain rfl := Option.some.inj hstep
    refine .inl ⟨rfl, h.1.call hstack (h.pending_eq_none hcode) hcontract, fun other hother ↦ ?_⟩
    rcases eq_or_ne other thread with rfl | hne
    · simp only [Threads.call, Function.update_self]
      exact routine_ne_nil operation
    · simp only [Threads.call, Function.update_of_ne hne] at hother ⊢
      exact h.2 other hother
  | instruction thread => exact h.instruction hstack hstep

/-- **What is seen of the instructions is what the switches mean**: whatever the order in which the
threads execute them, a program that keeps to the contract sees what it could see if every switch
were one step. -/
theorem produces_contexts (hstack : Pairwise (Function.onFun Disjoint stack))
    {events : List (Event Θ κ)}
    (h : (system Θ κ L).Produces (fun s a ↦ s.Contract L stack a) (fun s a ↦ s.event L a) events
      s) :
    ∃ t, (Contexts.system Θ κ L).Produces (fun _ _ ↦ True) (fun t b ↦ t.event L b) events t ∧
      Refines L stack s t := by
  have hsimulation : System.Simulation (system Θ κ L) (fun s a ↦ s.Contract L stack a)
      (fun s a ↦ s.event L a) (Contexts.system Θ κ L) (fun _ _ ↦ True) (fun t b ↦ t.event L b)
      (Refines L stack) :=
    ⟨fun _ hinit ↦ refines_initial hinit, fun _ _ _ _ hr hcontract hstep ↦
      (hr.step hstack hcontract hstep).imp_right fun ⟨b, t', hb⟩ ↦ ⟨b, t', trivial, hb⟩⟩
  exact hsimulation.produces h

/-! ### A run -/

/-- Where the code of a small program is. -/
def sampleLayout : Layout := ⟨0x100, 0x200⟩

/-- The stacks of its two contexts. -/
def sampleStack : Bool → Set (BitVec 64)
  | false => span 0x1000 0x1000
  | true => span 0x3000 0x1000

theorem disjoint_sampleStack : Pairwise (Function.onFun Disjoint sampleStack) := by
  have h : Disjoint (sampleStack false) (sampleStack true) :=
    disjoint_span_add (a := 0) (i := 0x1000) (j := 0x3000) (by decide) (by decide)
  intro c d hne
  cases c <;> cases d
  · exact absurd rfl hne
  · exact h
  · exact h.symm
  · exact absurd rfl hne

/-- It is about to make a context for the function at 768. -/
def sampleCpu : Cpu where
  regs
    | .rsp => 0x2000
    | .rdi => 0x4008
    | .rdx => 0x300
    | .rbx => 7
    | _ => 0
  mxcsr := 0x1f80
  fpucw := 0x37f
  rip := 0

def sample : Threads Unit Bool where
  cpu _ := sampleCpu
  memory _ := 0
  code _ := []
  pending _ := none
  current _ := false
  stage
    | false => .running ()
    | true => .absent
  claim _ := none

theorem sample_initial : sample.Initial := by
  refine ⟨fun _ ↦ ⟨rfl, rfl, rfl⟩, fun c ↦ ⟨rfl, fun k hk ↦ ?_⟩⟩
  cases c <;> cases hk

/-- The routine runs, and the program takes its result. -/
def sampleMake : List (Action Unit Bool) :=
  List.replicate 11 (Action.instruction ()) ++ [Action.compute () { sampleCpu with
    regs := Function.update (Function.update sampleCpu.regs .rdi 0x3fb8) .rsi 42 }]

/-- A jump passes the trampoline. -/
def sampleJump : List (Action Unit Bool) := List.replicate 26 (.instruction ())

def sampleMade : Option (Threads Unit Bool) :=
  (system Unit Bool sampleLayout).run (sample.call () (.make true) 0x500) sampleMake

theorem sampleMade_isSome : sampleMade.isSome = true := by decide +kernel

/-- The new context stands before its function. -/
theorem sampleMade_stage : (sampleMade.get sampleMade_isSome).stage true =
    .suspended (.starts ⟨0x1f80, 0x37f, 0, 0, 0, 0, 0x300, 0x200⟩ 0x4000) := by
  decide +kernel

def sampleJumped : Option (Threads Unit Bool) :=
  (system Unit Bool sampleLayout).run
    ((sampleMade.get sampleMade_isSome).call () (.switch false true) 0x600) sampleJump

theorem sampleJumped_isSome : sampleJumped.isSome = true := by decide +kernel

theorem produces_contexts_sample : ∃ t, (Contexts.system Unit Bool sampleLayout).Produces
    (fun _ _ ↦ True) (fun t b ↦ t.event sampleLayout b)
    [.sees () false ⟨⟨0x1f80, 0x37f, 0, 0, 0, 0, 7, 0⟩, 0x2000, 0x500, 0x3fb8, 0x300, 0x4008, 0⟩,
      .sees () true ⟨⟨0x1f80, 0x37f, 0, 0, 0, 0, 0x300, 0x200⟩, 0x3ff8, 0x300, 0x1fb8, 42, 0x1fb8,
        42⟩] t ∧
    Refines sampleLayout sampleStack (sampleJumped.get sampleJumped_isSome) t := by
  refine produces_contexts disjoint_sampleStack ?_
  have hmake : sample.Contract sampleLayout sampleStack (.call () (.make true) 0x500) :=
    ⟨rfl, rfl, span_add_subset (a := 0x3000) (i := 0xfb8) (by decide),
      span_add_subset (a := 0x1000) (i := 0xff8) (by decide), by decide, by decide⟩
  have hjump : (sampleMade.get sampleMade_isSome).Contract sampleLayout sampleStack
      (.call () (.switch false true) 0x600) :=
    ⟨_, sampleMade_stage, by decide +kernel, by decide +kernel,
      span_add_subset (a := 0x1000) (i := 0xfb8) (by decide), by decide, fun h ↦ by cases h⟩
  have hfirst : ∀ a ∈ sampleMake, ∀ s : Threads Unit Bool,
      s.Contract sampleLayout sampleStack a := by
    intro a ha s
    rcases List.mem_append.mp ha with ha | ha
    · rw [List.eq_of_mem_replicate ha]
      trivial
    · rw [List.mem_singleton.mp ha]
      trivial
  have hsecond : ∀ a ∈ sampleJump, ∀ s : Threads Unit Bool,
      s.Contract sampleLayout sampleStack a := by
    intro a ha s
    rw [List.eq_of_mem_replicate ha]
    trivial
  have hstart : (system Unit Bool sampleLayout).Produces
      (fun s a ↦ s.Contract sampleLayout sampleStack a) (fun s a ↦ s.event sampleLayout a) []
      sample := .init sample_initial
  have hmade := (hstart.step hmake rfl).runAlways hfirst (Option.some_get sampleMade_isSome).symm
  have hjumped := (hmade.step hjump rfl).runAlways hsecond
    (Option.some_get sampleJumped_isSome).symm
  convert hjumped using 1
  decide +kernel

end Threads

end Stackfull.Fcontext
