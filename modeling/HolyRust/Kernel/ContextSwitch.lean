import HolyRust.Kernel.Multitask

/-!
# Context switches over whole runs

A run interleaves thread code with PendSV activations.  For every task that is
suspended the system remembers, as a ghost, the context it was preempted with.
Resuming a task with that context is what the handler is for.
-/

namespace HolyRust
namespace Kernel

open Foundation
open Isa

/-- What a task must find again: r4-r6, r7-r11 and its stack pointer. -/
structure Context where
  r4 : Word
  r5 : Word
  r6 : Word
  high : List Word
  psp : Word
deriving DecidableEq

def contextOf (c : Cpu) : Context where
  r4 := c.regs .r4
  r5 := c.regs .r5
  r6 := c.regs .r6
  high := highRegs.map c.regs
  psp := c.psp

/-- The processor in thread mode, and the contexts of preempted tasks. -/
structure System where
  cpu : Cpu
  preempted : Nat -> Option Context

/-- One PendSV activation.  A switch records the context of the outgoing task
and forgets that of the incoming one. -/
def pendSV (l : TaskLayout) (s : System) : Option System :=
  match activate (pendSVHandler l) pendSVFuel s.cpu with
  | none => none
  | some cpu =>
      let before := l.currentTask s.cpu.mem
      let after := l.currentTask cpu.mem
      some
        { cpu := cpu
          preempted := fun k =>
            if before = after then s.preempted k
            else if BitVec.ofNat 32 k = before then some (contextOf s.cpu)
            else if BitVec.ofNat 32 k = after then none
            else s.preempted k }

/-!
## Runs
-/

/-- Sixteen words from the saved stack pointer of task `j` are in its stack. -/
def FrameFits (l : TaskLayout) (mem : Mem) (j : Nat) : Prop :=
  l.stackBase j ≤ (l.sp mem j).toNat ∧ (l.sp mem j).toNat + 64 ≤ l.stackTop j

/-- The running task has room for both frames of an activation. -/
def HasRoom (l : TaskLayout) (c : Cpu) : Prop :=
  forall k, k < numTcbs -> l.currentTask c.mem = BitVec.ofNat 32 k ->
    l.stackBase k + 64 ≤ c.psp.toNat ∧ c.psp.toNat ≤ l.stackTop k

/-- What the code of the running task may do: anything to its registers and its
own stack, start or restart other tasks on their own stacks, change states and
counters.  It keeps `CURRENT_TASK` and the frames of preempted tasks. -/
structure ThreadStep (l : TaskLayout) (s s' : System) : Prop where
  current : l.currentTask s'.cpu.mem = l.currentTask s.cpu.mem
  room : HasRoom l s'.cpu
  ready : forall j, j < numTcbs -> BitVec.ofNat 32 j ≠ l.currentTask s.cpu.mem ->
    l.state s'.cpu.mem j = 1#32 -> FrameFits l s'.cpu.mem j
  frames : forall j, j < numTcbs -> BitVec.ofNat 32 j ≠ l.currentTask s.cpu.mem ->
    s'.preempted j = none ∨
      (s'.preempted j = s.preempted j ∧ l.sp s'.cpu.mem j = l.sp s.cpu.mem j ∧
        s'.cpu.mem.readWords (l.sp s.cpu.mem j) 8 =
          s.cpu.mem.readWords (l.sp s.cpu.mem j) 8)

/-- `CURRENT_TASK` is 0, all tasks are Dead and none has been preempted. -/
structure Initial (l : TaskLayout) (s : System) : Prop where
  current : l.currentTask s.cpu.mem = BitVec.ofNat 32 0
  room : HasRoom l s.cpu
  dead : forall j, j < numTcbs -> l.state s.cpu.mem j = 0#32
  fresh : forall j, s.preempted j = none

/-- A run to a system state, with the states around its PendSV activations. -/
inductive Run (l : TaskLayout) : System -> List (System × System) -> Prop where
  | initial (s : System) : Initial l s -> Run l s []
  | thread (s s' : System) (acts : List (System × System)) :
      Run l s acts -> ThreadStep l s s' -> Run l s' acts
  | pendSV (s s' : System) (acts : List (System × System)) :
      Run l s acts -> pendSV l s = some s' -> Run l s' ((s, s') :: acts)

/-- What context preservation asks of one activation. -/
structure Preserves (l : TaskLayout) (s s' : System) : Prop where
  resumed : forall j, j < numTcbs -> BitVec.ofNat 32 j ≠ l.currentTask s.cpu.mem ->
    l.currentTask s'.cpu.mem = BitVec.ofNat 32 j ->
    forall ctx, s.preempted j = some ctx -> contextOf s'.cpu = ctx
  stayed : (forall j, j < numTcbs -> BitVec.ofNat 32 j ≠ l.currentTask s.cpu.mem ->
      l.state s.cpu.mem j ≠ 1#32) ->
    contextOf s'.cpu = contextOf s.cpu

/-- The last control block a full scan looks at. -/
def lastScanned (current : Word) : Nat :=
  if current = 4#32 then 3 else 4

/-- The registers to be preserved already hold what the handler leaves in them. -/
def Undisturbed (l : TaskLayout) (s : System) : Prop :=
  match nextReady l s.cpu.mem (l.currentTask s.cpu.mem) numTcbs 0 with
  | some j => forall ctx, s.preempted j = some ctx ->
      ctx.r4 = 16#32 ∧ ctx.r5 = 2#32 ∧ ctx.r6 = l.counter s.cpu.mem j + 1#32
  | none => s.cpu.regs .r4 = 16#32 ∧
      s.cpu.regs .r5 = l.state s.cpu.mem (lastScanned (l.currentTask s.cpu.mem)) ∧
      s.cpu.regs .r6 = 5#32

/-!
## The invariant
-/

/-- What the stack of a preempted task holds. -/
structure HoldsContext (l : TaskLayout) (mem : Mem) (j : Nat) (ctx : Context) : Prop where
  fits : FrameFits l mem j
  psp : ctx.psp = l.sp mem j + 64#32
  frame : exists x y, mem.readWords (l.sp mem j) 8 = 16#32 :: x :: y :: ctx.high

structure SwitchInv (l : TaskLayout) (k : Nat) (s : System) : Prop where
  lt : k < numTcbs
  current : l.currentTask s.cpu.mem = BitVec.ofNat 32 k
  room : l.stackBase k + 64 ≤ s.cpu.psp.toNat ∧ s.cpu.psp.toNat ≤ l.stackTop k
  ready : forall j, j < numTcbs -> j ≠ k -> l.state s.cpu.mem j = 1#32 ->
    FrameFits l s.cpu.mem j
  preempted : forall j, j < numTcbs -> j ≠ k -> forall ctx, s.preempted j = some ctx ->
    HoldsContext l s.cpu.mem j ctx

/-!
## Addresses
-/

theorem ofNat_eq_iff {i j : Nat} (hi : i < numTcbs) (hj : j < numTcbs) :
    BitVec.ofNat 32 i = BitVec.ofNat 32 j ↔ i = j := by
  unfold numTcbs at hi hj
  constructor
  · intro h
    have hnat := congrArg BitVec.toNat h
    rw [BitVec.toNat_ofNat, BitVec.toNat_ofNat, Nat.mod_eq_of_lt (by lia),
      Nat.mod_eq_of_lt (by lia)] at hnat
    exact hnat
  · intro h
    rw [h]

theorem field_toNat (l : TaskLayout) {i : Nat} {offset : Word} (hi : i < numTcbs)
    (hoffset : offset.toNat ≤ 12) :
    (l.field (BitVec.ofNat 32 i) offset).toNat =
      l.tcbs.toNat + 16 * i + offset.toNat := by
  have hfits := l.tcbs_fits
  have hshift : (BitVec.ofNat 32 i <<< 4).toNat = 16 * i := by
    unfold numTcbs at hi
    rw [BitVec.toNat_shiftLeft, BitVec.toNat_ofNat, Nat.shiftLeft_eq]
    lia
  unfold numTcbs at hi hfits
  unfold TaskLayout.field
  rw [BitVec.toNat_add, BitVec.toNat_add, hshift]
  lia

theorem current_toNat (l : TaskLayout) : (l.current + 0#32).toNat = l.current.toNat := by
  rw [BitVec.add_zero]

/-- Writes inside stack `k` are not seen outside it. -/
theorem read32_stack_write (l : TaskLayout) {mem : Mem} {a b : Word} {ws : List Word}
    (k : Nat) (hlo : l.stackBase k ≤ a.toNat)
    (hhi : a.toNat + 4 * ws.length ≤ l.stackTop k) (hfits : b.toNat + 4 ≤ 2 ^ 32)
    (hb : b.toNat + 4 ≤ l.stackBase k ∨ l.stackTop k ≤ b.toNat) :
    (mem.writeWords a ws).read32 b = mem.read32 b := by
  have hstack := l.stack_fits k
  exact Memory.read32_writeWords_outside (by decide) mem (by lia) hfits (by lia)

theorem field_fits (l : TaskLayout) {i : Nat} {offset : Word} (hi : i < numTcbs)
    (hoffset : offset.toNat ≤ 12) :
    (l.field (BitVec.ofNat 32 i) offset).toNat + 4 ≤ 2 ^ 32 := by
  have hfits := l.tcbs_fits
  have hfield := field_toNat l hi hoffset
  unfold numTcbs at hi hfits
  lia

theorem field_outside_stack (l : TaskLayout) {i : Nat} {offset : Word} (k : Nat)
    (hi : i < numTcbs) (hoffset : offset.toNat ≤ 12) :
    (l.field (BitVec.ofNat 32 i) offset).toNat + 4 ≤ l.stackBase k ∨
      l.stackTop k ≤ (l.field (BitVec.ofNat 32 i) offset).toNat := by
  have hapart := l.stack_apart_tcbs k
  have hfield := field_toNat l hi hoffset
  unfold numTcbs at hi hapart
  lia

theorem apart_field (l : TaskLayout) {i j : Nat} {a b : Word} (hi : i < numTcbs)
    (hj : j < numTcbs) (ha : a.toNat ≤ 12) (hb : b.toNat ≤ 12)
    (h : 16 * i + a.toNat + 4 ≤ 16 * j + b.toNat ∨ 16 * j + b.toNat + 4 ≤ 16 * i + a.toNat) :
    Memory.Apart (l.field (BitVec.ofNat 32 i) a) (l.field (BitVec.ofNat 32 j) b) := by
  apply Memory.apart_of_toNat (field_fits l hi ha) (field_fits l hj hb)
  rw [field_toNat l hi ha, field_toNat l hj hb]
  lia

theorem apart_current_field (l : TaskLayout) {i : Nat} {offset : Word}
    (hi : i < numTcbs) (hoffset : offset.toNat ≤ 12) :
    Memory.Apart (l.current + 0#32) (l.field (BitVec.ofNat 32 i) offset) := by
  have hcurrent := l.current_fits
  have hapart := l.current_apart
  apply Memory.apart_of_toNat (by rw [current_toNat]; exact hcurrent)
    (field_fits l hi hoffset)
  rw [field_toNat l hi hoffset, current_toNat]
  unfold numTcbs at hi hapart
  lia

theorem apart_field_stack (l : TaskLayout) {i : Nat} {offset b : Word} (k : Nat)
    (hi : i < numTcbs) (hoffset : offset.toNat ≤ 12) (hlo : l.stackBase k ≤ b.toNat)
    (hhi : b.toNat + 4 ≤ l.stackTop k) :
    Memory.Apart (l.field (BitVec.ofNat 32 i) offset) b := by
  have hstack := l.stack_fits k
  have houtside := field_outside_stack l k hi hoffset
  exact Memory.apart_of_toNat (field_fits l hi hoffset) (by lia) (by lia)

theorem apart_current_stack (l : TaskLayout) {b : Word} (k : Nat)
    (hlo : l.stackBase k ≤ b.toNat) (hhi : b.toNat + 4 ≤ l.stackTop k) :
    Memory.Apart (l.current + 0#32) b := by
  have hcurrent := l.current_fits
  have hstack := l.stack_fits k
  have hapart := l.stack_apart_current k
  apply Memory.apart_of_toNat (by rw [current_toNat]; exact hcurrent) (by lia)
  rw [current_toNat]
  lia

theorem toNat_sub_of_le {a : Word} {n : Nat} (h : n ≤ a.toNat) :
    (a - BitVec.ofNat 32 n).toNat = a.toNat - n := by
  have ha := a.isLt
  rw [BitVec.toNat_sub, BitVec.toNat_ofNat]
  lia

/-!
## Exception entry and return
-/

theorem loadRegs_regs {rs : List Reg} {xs : List Word} {c : Cpu} {r : Reg}
    (h : ¬ r ∈ rs) : (loadRegs rs xs c).regs r = c.regs r := by
  induction rs generalizing xs c with
  | nil => rfl
  | cons r' rs ih =>
      rw [List.mem_cons, not_or] at h
      cases xs with
      | nil => rfl
      | cons x xs =>
          rw [loadRegs, ih h.right, Cpu.set_regs, if_neg h.left]

theorem loadRegs_mem (rs : List Reg) (xs : List Word) (c : Cpu) :
    (loadRegs rs xs c).mem = c.mem := by
  induction rs generalizing xs c with
  | nil => rfl
  | cons r rs ih =>
      cases xs with
      | nil => rfl
      | cons x xs => rw [loadRegs, ih, Cpu.set_mem]

/-- The hardware restores none of the registers that software has to keep. -/
theorem contextOf_exceptionReturn (c : Cpu) :
    contextOf (exceptionReturn c) = { contextOf c with psp := c.psp + 32#32 } := by
  have hregs : forall r, ¬ r ∈ stackedRegs -> (exceptionReturn c).regs r = c.regs r := by
    intro r h
    exact @loadRegs_regs _ (c.mem.readWords c.psp 6) c _ h
  have hhigh : highRegs.map (exceptionReturn c).regs = highRegs.map c.regs := by
    unfold highRegs
    rw [List.map_congr_left]
    intro r hr
    apply hregs
    simp only [List.mem_cons, List.not_mem_nil, or_false] at hr
    rcases hr with rfl | rfl | rfl | rfl | rfl <;> decide
  unfold contextOf
  rw [hregs .r4 (by decide), hregs .r5 (by decide), hregs .r6 (by decide), hhigh]
  rfl

theorem exceptionReturn_mem (c : Cpu) : (exceptionReturn c).mem = c.mem :=
  loadRegs_mem _ _ _

theorem contextOf_exceptionEntry (c : Cpu) :
    contextOf (exceptionEntry c) = { contextOf c with psp := c.psp - 32#32 } := by
  simp [contextOf, exceptionEntry, highRegs]

/-- Entry writes inside the stack of the running task. -/
theorem exceptionEntry_read32 {l : TaskLayout} {c : Cpu} {k : Nat} {b : Word}
    (hroom : l.stackBase k + 64 ≤ c.psp.toNat ∧ c.psp.toNat ≤ l.stackTop k)
    (hfits : b.toNat + 4 ≤ 2 ^ 32)
    (hb : b.toNat + 4 ≤ l.stackBase k ∨ l.stackTop k ≤ b.toNat) :
    (exceptionEntry c).mem.read32 b = c.mem.read32 b := by
  have hsub := toNat_sub_of_le (a := c.psp) (n := 32) (by lia)
  apply read32_stack_write l k
  · lia
  · simp only [stackedRegs, List.map_cons, List.map_nil, List.length_append,
      List.length_cons, List.length_nil]
    lia
  · exact hfits
  · exact hb

/-!
## Memory after a switch
-/

/-- Memory when task `j` is entered. -/
def finalMem (l : TaskLayout) (c : Cpu) (j : Nat) : Mem :=
  ((switchMem l c j).write32 (l.field (BitVec.ofNat 32 j) 8#32) 2#32).write32
    (l.field (BitVec.ofNat 32 j) 12#32) (switchCount l c j)

/-- A switch from `k` to `j`, seen from the handler's first instruction. -/
structure Switching (l : TaskLayout) (c : Cpu) (k j : Nat) : Prop where
  lt : k < numTcbs
  lt' : j < numTcbs
  ne : j ≠ k
  current : l.currentTask c.mem = BitVec.ofNat 32 k
  room : l.stackBase k + 32 ≤ c.psp.toNat ∧ c.psp.toNat ≤ l.stackTop k

namespace Switching

variable {l : TaskLayout} {c : Cpu} {k j : Nat}

theorem frame_toNat (h : Switching l c k j) :
    (c.psp - 32#32).toNat = c.psp.toNat - 32 := by
  have hroom := h.room
  exact toNat_sub_of_le (by lia)

theorem switchMem_read32 (h : Switching l c k j) {b : Word} (hfits : b.toNat + 4 ≤ 2 ^ 32)
    (hstack : b.toNat + 4 ≤ l.stackBase k ∨ l.stackTop k ≤ b.toNat)
    (hsp : Memory.Apart (l.field (BitVec.ofNat 32 k) 0#32) b)
    (hstate : Memory.Apart (l.field (BitVec.ofNat 32 k) 8#32) b)
    (hcurrent : Memory.Apart (l.current + 0#32) b) :
    (switchMem l c j).read32 b = c.mem.read32 b := by
  have hframe := h.frame_toNat
  have hroom := h.room
  unfold switchMem
  rw [h.current, Memory.read32_write32_of_apart _ _ hcurrent,
    Memory.read32_write32_of_apart _ _ hstate, Memory.read32_write32_of_apart _ _ hsp]
  apply read32_stack_write l k _ _ hfits hstack
  · lia
  · simp only [highRegs, List.map_cons, List.map_nil, List.length_cons, List.length_nil]
    lia

theorem finalMem_read32 {b : Word}
    (hstate : Memory.Apart (l.field (BitVec.ofNat 32 j) 8#32) b)
    (hcounter : Memory.Apart (l.field (BitVec.ofNat 32 j) 12#32) b) :
    (finalMem l c j).read32 b = (switchMem l c j).read32 b := by
  unfold finalMem
  rw [Memory.read32_write32_of_apart _ _ hcounter, Memory.read32_write32_of_apart _ _ hstate]

/-- Fields the switch does not write. -/
theorem switchMem_field (h : Switching l c k j) {i : Nat} {offset : Word} (hi : i < numTcbs)
    (hoffset : offset.toNat ≤ 12) (hne : i ≠ k) :
    (switchMem l c j).read32 (l.field (BitVec.ofNat 32 i) offset) =
      c.mem.read32 (l.field (BitVec.ofNat 32 i) offset) := by
  apply h.switchMem_read32 (field_fits l hi hoffset) (field_outside_stack l k hi hoffset)
  · exact apart_field l h.lt hi (by decide) hoffset (by
      rw [show (0#32).toNat = 0 from rfl]
      lia)
  · exact apart_field l h.lt hi (by decide) hoffset (by
      rw [show (8#32).toNat = 8 from rfl]
      lia)
  · exact apart_current_field l hi hoffset

/-- Words on the stacks of other tasks. -/
theorem switchMem_stack (h : Switching l c k j) {i : Nat} {b : Word} (hne : i ≠ k)
    (hlo : l.stackBase i ≤ b.toNat) (hhi : b.toNat + 4 ≤ l.stackTop i) :
    (switchMem l c j).read32 b = c.mem.read32 b := by
  have hstack := l.stack_fits i
  have hstacks := l.stacks_apart i k hne
  exact h.switchMem_read32 (by lia) (by lia)
    (apart_field_stack l i h.lt (by decide) hlo hhi)
    (apart_field_stack l i h.lt (by decide) hlo hhi)
    (apart_current_stack l i hlo hhi)

theorem finalMem_stack (h : Switching l c k j) {i : Nat} {b : Word}
    (hlo : l.stackBase i ≤ b.toNat) (hhi : b.toNat + 4 ≤ l.stackTop i) :
    (finalMem l c j).read32 b = (switchMem l c j).read32 b :=
  finalMem_read32 (apart_field_stack l i h.lt' (by decide) hlo hhi)
    (apart_field_stack l i h.lt' (by decide) hlo hhi)

theorem switchMem_sp (h : Switching l c k j) {i : Nat} (hi : i < numTcbs) (hne : i ≠ k) :
    l.sp (switchMem l c j) i = l.sp c.mem i :=
  h.switchMem_field hi (by decide) hne

theorem finalMem_sp (h : Switching l c k j) {i : Nat} (hi : i < numTcbs) :
    l.sp (finalMem l c j) i = l.sp (switchMem l c j) i := by
  apply finalMem_read32
  · exact apart_field l h.lt' hi (by decide) (by decide) (by
      rw [show (0#32).toNat = 0 from rfl, show (8#32).toNat = 8 from rfl]
      lia)
  · exact apart_field l h.lt' hi (by decide) (by decide) (by
      rw [show (0#32).toNat = 0 from rfl, show (12#32).toNat = 12 from rfl]
      lia)

/-- The outgoing task points at its new frame. -/
theorem finalMem_sp_self (h : Switching l c k j) :
    l.sp (finalMem l c j) k = c.psp - 32#32 := by
  rw [h.finalMem_sp h.lt]
  unfold TaskLayout.sp switchMem
  rw [h.current, Memory.read32_write32_of_apart _ _
      (apart_current_field l h.lt (by decide)),
    Memory.read32_write32_of_apart _ _ (apart_field l h.lt h.lt (by decide) (by decide) (by
      rw [show (0#32).toNat = 0 from rfl, show (8#32).toNat = 8 from rfl]
      lia)),
    Memory.read32_write32 _ _ _ (by decide)]

theorem finalMem_current (h : Switching l c k j) :
    l.currentTask (finalMem l c j) = BitVec.ofNat 32 j := by
  unfold TaskLayout.currentTask
  rw [finalMem_read32 (apart_current_field l h.lt' (by decide)).symm
    (apart_current_field l h.lt' (by decide)).symm]
  unfold switchMem
  rw [Memory.read32_write32 _ _ _ (by decide)]

theorem finalMem_state (h : Switching l c k j) {i : Nat} (hi : i < numTcbs) (hk : i ≠ k)
    (hj : i ≠ j) :
    l.state (finalMem l c j) i = l.state c.mem i := by
  unfold TaskLayout.state
  rw [finalMem_read32, h.switchMem_field hi (by decide) hk]
  · exact apart_field l h.lt' hi (by decide) (by decide) (by lia)
  · exact apart_field l h.lt' hi (by decide) (by decide) (by
      rw [show (8#32).toNat = 8 from rfl, show (12#32).toNat = 12 from rfl]
      lia)

theorem switchCount_eq (h : Switching l c k j) :
    switchCount l c j = l.counter c.mem j + 1#32 := by
  unfold switchCount TaskLayout.counter
  rw [Memory.read32_write32_of_apart _ _ (apart_field l h.lt' h.lt' (by decide) (by decide)
      (by
        rw [show (8#32).toNat = 8 from rfl, show (12#32).toNat = 12 from rfl]
        lia)),
    h.switchMem_field h.lt' (by decide) h.ne]

/-- Frames of other tasks survive the switch. -/
theorem finalMem_frame (h : Switching l c k j) {i : Nat} (hne : i ≠ k) {a : Word}
    (hlo : l.stackBase i ≤ a.toNat) (hhi : a.toNat + 32 ≤ l.stackTop i) :
    (finalMem l c j).readWords a 8 = c.mem.readWords a 8 := by
  have hstack := l.stack_fits i
  apply Memory.readWords_congr (by decide) (by lia)
  intro b hb hb'
  rw [h.finalMem_stack (i := i) (by lia) (by lia),
    h.switchMem_stack hne (by lia) (by lia)]

theorem switchMem_frame (h : Switching l c k j) {i : Nat} (hne : i ≠ k) {a : Word}
    (hlo : l.stackBase i ≤ a.toNat) (hhi : a.toNat + 32 ≤ l.stackTop i) :
    (switchMem l c j).readWords a 8 = c.mem.readWords a 8 := by
  have hstack := l.stack_fits i
  apply Memory.readWords_congr (by decide) (by lia)
  intro b hb hb'
  exact h.switchMem_stack hne (by lia) (by lia)

/-- The frame of the outgoing task: r7-r11, under what the scan left in r4-r6. -/
theorem finalMem_frame_self (h : Switching l c k j) :
    (finalMem l c j).readWords (c.psp - 32#32) 8 =
      16#32 :: 1#32 :: BitVec.ofNat 32 j :: highRegs.map c.regs := by
  have hstack := l.stack_fits k
  have hframe := h.frame_toNat
  have hroom := h.room
  rw [@Memory.readWords_congr _ _ (c.mem.writeWords (c.psp - 32#32)
    (16#32 :: 1#32 :: BitVec.ofNat 32 j :: highRegs.map c.regs)) (by decide) _ _ (by lia)]
  · exact Memory.readWords_writeWords (by decide) _ (by
      simp only [highRegs, List.map_cons, List.map_nil, List.length_cons, List.length_nil]
      lia)
  · intro b hb hb'
    have hlo : l.stackBase k ≤ b.toNat := by lia
    have hhi : b.toNat + 4 ≤ l.stackTop k := by lia
    rw [h.finalMem_stack hlo hhi]
    unfold switchMem
    rw [h.current, Memory.read32_write32_of_apart _ _ (apart_current_stack l k hlo hhi),
      Memory.read32_write32_of_apart _ _ (apart_field_stack l k h.lt (by decide) hlo hhi),
      Memory.read32_write32_of_apart _ _ (apart_field_stack l k h.lt (by decide) hlo hhi)]

end Switching

/-!
## The scan, from outside
-/

theorem nextReady_some {l : TaskLayout} {mem : Mem} {current : Word} {n i j : Nat}
    (h : nextReady l mem current n i = some j) :
    i ≤ j ∧ j < i + n ∧ BitVec.ofNat 32 j ≠ current ∧ l.state mem j = 1#32 := by
  induction n generalizing i with
  | zero => cases h
  | succ n ih =>
      simp only [nextReady] at h
      by_cases hcur : BitVec.ofNat 32 i = current
      · rw [if_pos hcur] at h
        have hrest := ih h
        exact ⟨by lia, by lia, hrest.right.right⟩
      · rw [if_neg hcur] at h
        by_cases hready : l.state mem i = 1#32
        · rw [if_pos hready] at h
          cases h
          exact ⟨by lia, by lia, hcur, hready⟩
        · rw [if_neg hready] at h
          have hrest := ih h
          exact ⟨by lia, by lia, hrest.right.right⟩

theorem nextReady_none {l : TaskLayout} {mem : Mem} {current : Word} {n i : Nat} :
    nextReady l mem current n i = none ↔
      forall j, i ≤ j -> j < i + n -> BitVec.ofNat 32 j ≠ current ->
        l.state mem j ≠ 1#32 := by
  induction n generalizing i with
  | zero =>
      simp only [nextReady, true_iff]
      intro j hlo hhi
      lia
  | succ n ih =>
      have hsplit : (forall j, i ≤ j -> j < i + (n + 1) -> BitVec.ofNat 32 j ≠ current ->
          l.state mem j ≠ 1#32) ↔
          (BitVec.ofNat 32 i ≠ current -> l.state mem i ≠ 1#32) ∧
          forall j, i + 1 ≤ j -> j < i + 1 + n -> BitVec.ofNat 32 j ≠ current ->
            l.state mem j ≠ 1#32 := by
        constructor
        · intro h
          exact ⟨h i (by lia) (by lia), fun j hlo hhi => h j (by lia) (by lia)⟩
        · intro h j hlo hhi
          by_cases heq : j = i
          · rw [heq]
            exact h.left
          · exact h.right j (by lia) (by lia)
      rw [hsplit, ← ih]
      simp only [nextReady]
      by_cases hcur : BitVec.ofNat 32 i = current
      · simp [hcur]
      · by_cases hready : l.state mem i = 1#32
        · simp [hcur, hready]
        · simp [hcur, hready]

theorem nextReady_congr {l : TaskLayout} {mem mem' : Mem} {current : Word} {n i : Nat}
    (h : forall j, i ≤ j -> j < i + n -> l.state mem j = l.state mem' j) :
    nextReady l mem current n i = nextReady l mem' current n i := by
  induction n generalizing i with
  | zero => rfl
  | succ n ih =>
      simp only [nextReady]
      rw [ih (fun j hlo hhi => h j (by lia) (by lia)), h i (by lia) (by lia)]

theorem scanResidue_eq (l : TaskLayout) (mem : Mem) {k : Nat} (hk : k < numTcbs)
    (p : Word × Word) :
    scanResidue l mem (BitVec.ofNat 32 k) numTcbs 0 p =
      (16#32, l.state mem (lastScanned (BitVec.ofNat 32 k))) := by
  have hcases : k = 0 ∨ k = 1 ∨ k = 2 ∨ k = 3 ∨ k = 4 := by
    unfold numTcbs at hk
    lia
  rcases hcases with rfl | rfl | rfl | rfl | rfl <;>
    simp [scanResidue, numTcbs, lastScanned]

theorem lastScanned_lt (current : Word) : lastScanned current < numTcbs := by
  unfold lastScanned numTcbs
  by_cases h : current = 4#32
  · simp [h]
  · simp [h]

/-!
## One activation
-/

/-- Entry changes no control block. -/
theorem exceptionEntry_field {l : TaskLayout} {c : Cpu} {k i : Nat} {offset : Word}
    (hroom : l.stackBase k + 64 ≤ c.psp.toNat ∧ c.psp.toNat ≤ l.stackTop k)
    (hi : i < numTcbs) (hoffset : offset.toNat ≤ 12) :
    (exceptionEntry c).mem.read32 (l.field (BitVec.ofNat 32 i) offset) =
      c.mem.read32 (l.field (BitVec.ofNat 32 i) offset) :=
  exceptionEntry_read32 hroom (field_fits l hi hoffset) (field_outside_stack l k hi hoffset)

theorem exceptionEntry_current {l : TaskLayout} {c : Cpu} {k : Nat}
    (hroom : l.stackBase k + 64 ≤ c.psp.toNat ∧ c.psp.toNat ≤ l.stackTop k) :
    l.currentTask (exceptionEntry c).mem = l.currentTask c.mem := by
  have hcurrent := l.current_fits
  have hapart := l.stack_apart_current k
  apply exceptionEntry_read32 hroom
  · rw [current_toNat]
    exact hcurrent
  · rw [current_toNat]
    lia

theorem exceptionEntry_frame {l : TaskLayout} {c : Cpu} {k i : Nat} {a : Word}
    (hroom : l.stackBase k + 64 ≤ c.psp.toNat ∧ c.psp.toNat ≤ l.stackTop k)
    (hne : i ≠ k) (hlo : l.stackBase i ≤ a.toNat) (hhi : a.toNat + 32 ≤ l.stackTop i) :
    (exceptionEntry c).mem.readWords a 8 = c.mem.readWords a 8 := by
  have hstack := l.stack_fits i
  have hstacks := l.stacks_apart i k hne
  apply Memory.readWords_congr (by decide) (by lia)
  intro b hb hb'
  exact exceptionEntry_read32 hroom (by lia) (by lia)

theorem exceptionEntry_nextReady {l : TaskLayout} {c : Cpu} {k : Nat}
    (hroom : l.stackBase k + 64 ≤ c.psp.toNat ∧ c.psp.toNat ≤ l.stackTop k) :
    nextReady l (exceptionEntry c).mem (l.currentTask (exceptionEntry c).mem) numTcbs 0 =
      nextReady l c.mem (l.currentTask c.mem) numTcbs 0 := by
  rw [exceptionEntry_current hroom]
  apply nextReady_congr
  intro j _ hj
  exact exceptionEntry_field hroom (by lia) (by decide)

theorem frameFits_congr {l : TaskLayout} {mem mem' : Mem} {j : Nat}
    (hsp : l.sp mem' j = l.sp mem j) (h : FrameFits l mem j) : FrameFits l mem' j := by
  unfold FrameFits
  rw [hsp]
  exact h

theorem holdsContext_congr {l : TaskLayout} {mem mem' : Mem} {j : Nat} {ctx : Context}
    (hsp : l.sp mem' j = l.sp mem j)
    (hframe : mem'.readWords (l.sp mem j) 8 = mem.readWords (l.sp mem j) 8)
    (h : HoldsContext l mem j ctx) : HoldsContext l mem' j ctx where
  fits := frameFits_congr hsp h.fits
  psp := by
    rw [hsp]
    exact h.psp
  frame := by
    rw [hsp, hframe]
    exact h.frame

theorem entry_high (c : Cpu) :
    highRegs.map (exceptionEntry c).regs = highRegs.map c.regs :=
  congrArg Context.high (contextOf_exceptionEntry c)

section Stayed

variable {l : TaskLayout} {k : Nat} {s : System}

/-- The context that an activation without a switch returns to. -/
theorem contextOf_stayed (hinv : SwitchInv l k s) {c : Cpu}
    (hpsp : c.psp = (exceptionEntry s.cpu).psp)
    (hhigh : highRegs.map c.regs = highRegs.map (exceptionEntry s.cpu).regs)
    (hresidue : (c.regs .r4, c.regs .r5) = scanResidue l (exceptionEntry s.cpu).mem
      (l.currentTask (exceptionEntry s.cpu).mem) numTcbs 0
      ((exceptionEntry s.cpu).regs .r4, (exceptionEntry s.cpu).regs .r5))
    (hr6 : c.regs .r6 = 5#32) :
    contextOf (exceptionReturn c) = { contextOf s.cpu with
      r4 := 16#32
      r5 := l.state s.cpu.mem (lastScanned (l.currentTask s.cpu.mem))
      r6 := 5#32 } := by
  rw [exceptionEntry_current hinv.room, hinv.current, scanResidue_eq l _ hinv.lt,
    Prod.mk.injEq] at hresidue
  have hstate : l.state (exceptionEntry s.cpu).mem
      (lastScanned (BitVec.ofNat 32 k)) =
      l.state s.cpu.mem (lastScanned (BitVec.ofNat 32 k)) :=
    exceptionEntry_field hinv.room (lastScanned_lt _) (by decide)
  have hpspEq : c.psp + 32#32 = s.cpu.psp := by
    rw [hpsp]
    exact BitVec.sub_add_cancel _ _
  rw [contextOf_exceptionReturn, hpspEq]
  unfold contextOf
  rw [hresidue.left, hresidue.right, hr6, hhigh, entry_high, hstate, hinv.current]

/-- The frame of the exception entry is in the stack of the running task only. -/
theorem switchInv_stayed (hinv : SwitchInv l k s) {s' : System}
    (hmem : s'.cpu.mem = (exceptionEntry s.cpu).mem) (hpsp : s'.cpu.psp = s.cpu.psp)
    (hpreempted : s'.preempted = s.preempted) : SwitchInv l k s' where
  lt := hinv.lt
  current := by rw [hmem, exceptionEntry_current hinv.room, hinv.current]
  room := by
    rw [hpsp]
    exact hinv.room
  ready := by
    intro j hj hne hready
    have hready' : l.state s.cpu.mem j = 1#32 := by
      rw [← hready, hmem]
      exact (exceptionEntry_field hinv.room hj (by decide)).symm
    refine frameFits_congr ?_ (hinv.ready j hj hne hready')
    rw [hmem]
    exact exceptionEntry_field hinv.room hj (by decide)
  preempted := by
    intro j hj hne ctx hctx
    rw [hpreempted] at hctx
    have hholds := hinv.preempted j hj hne ctx hctx
    have hfits := hholds.fits
    unfold FrameFits at hfits
    rw [hmem]
    exact holdsContext_congr (exceptionEntry_field hinv.room hj (by decide))
      (exceptionEntry_frame hinv.room hne hfits.left (by lia)) hholds

/-- No other task is Ready: the interrupted task goes on, with r4-r6 overwritten. -/
theorem pendSV_stay (hinv : SwitchInv l k s)
    (h : nextReady l s.cpu.mem (l.currentTask s.cpu.mem) numTcbs 0 = none) :
    exists s', pendSV l s = some s' ∧ SwitchInv l k s' ∧
      contextOf s'.cpu = { contextOf s.cpu with
        r4 := 16#32
        r5 := l.state s.cpu.mem (lastScanned (l.currentTask s.cpu.mem))
        r6 := 5#32 } := by
  rcases run_pendSV_none l (exceptionEntry s.cpu)
    (by rw [exceptionEntry_nextReady hinv.room, h])
    with ⟨c, hrun, hmem, hpsp, hhigh, hresidue, hr6⟩
  have hactivate : activate (pendSVHandler l) pendSVFuel s.cpu = some (exceptionReturn c) :=
    activate_of_run hrun
  have hfinal : (exceptionReturn c).mem = (exceptionEntry s.cpu).mem := by
    rw [exceptionReturn_mem, hmem]
  have hcontext := contextOf_stayed hinv hpsp hhigh hresidue hr6
  refine ⟨_, by unfold pendSV; rw [hactivate], ?_, hcontext⟩
  refine switchInv_stayed hinv hfinal (congrArg Context.psp hcontext) ?_
  funext j
  rw [hfinal, exceptionEntry_current hinv.room]
  exact if_pos rfl

end Stayed

theorem exceptionEntry_psp {l : TaskLayout} {k : Nat} {s : System} (hinv : SwitchInv l k s) :
    (exceptionEntry s.cpu).psp.toNat = s.cpu.psp.toNat - 32 := by
  have hroom := hinv.room
  exact toNat_sub_of_le (by lia)

/-- The task that the scan finds is another one, and the running one has room. -/
theorem switching_of_nextReady {l : TaskLayout} {k j : Nat} {s : System} (hinv : SwitchInv l k s)
    (h : nextReady l s.cpu.mem (l.currentTask s.cpu.mem) numTcbs 0 = some j) :
    Switching l (exceptionEntry s.cpu) k j := by
  have hroom := hinv.room
  have hentry := exceptionEntry_psp hinv
  obtain ⟨_, hj, hne, _⟩ := nextReady_some h
  rw [Nat.zero_add] at hj
  exact
    { lt := hinv.lt
      lt' := hj
      ne := by
        rintro rfl
        exact hne hinv.current.symm
      current := by rw [exceptionEntry_current hroom, hinv.current]
      room := by rw [hentry]; lia }

section Switched

variable {l : TaskLayout} {k j : Nat} {s : System}

/-- The switch leaves the saved stack pointers of the other tasks. -/
theorem switched_sp (hinv : SwitchInv l k s) (hswitch : Switching l (exceptionEntry s.cpu) k j)
    {i : Nat} (hi : i < numTcbs) (hik : i ≠ k) :
    l.sp (finalMem l (exceptionEntry s.cpu) j) i = l.sp s.cpu.mem i := by
  rw [hswitch.finalMem_sp hi, hswitch.switchMem_sp hi hik]
  exact exceptionEntry_field hinv.room hi (by decide)

/-- The stack of the task switched away from holds its context, but for r4-r6. -/
theorem holdsContext_switchedAway (hinv : SwitchInv l k s)
    (hswitch : Switching l (exceptionEntry s.cpu) k j) :
    HoldsContext l (finalMem l (exceptionEntry s.cpu) j) k (contextOf s.cpu) := by
  have hroom := hinv.room
  have hentry := exceptionEntry_psp hinv
  have hself := hswitch.finalMem_sp_self
  constructor
  · unfold FrameFits
    rw [hself, hswitch.frame_toNat, hentry]
    lia
  · rw [hself]
    show s.cpu.psp = s.cpu.psp - 32#32 - 32#32 + 64#32
    rw [BitVec.sub_sub]
    exact (BitVec.sub_add_cancel _ _).symm
  · rw [hself, hswitch.finalMem_frame_self, entry_high]
    exact ⟨_, _, rfl⟩

/-- The stacks of the other tasks keep what they hold. -/
theorem holdsContext_switched (hinv : SwitchInv l k s)
    (hswitch : Switching l (exceptionEntry s.cpu) k j) {i : Nat} (hi : i < numTcbs)
    (hik : i ≠ k) {ctx : Context} (h : HoldsContext l s.cpu.mem i ctx) :
    HoldsContext l (finalMem l (exceptionEntry s.cpu) j) i ctx := by
  have hfits := h.fits
  unfold FrameFits at hfits
  refine holdsContext_congr (switched_sp hinv hswitch hi hik) ?_ h
  rw [hswitch.finalMem_frame hik hfits.left (by lia),
    exceptionEntry_frame hinv.room hik hfits.left (by lia)]

/-- A task that is Ready after the switch has a frame: it was Ready before, or it
is the one switched away from. -/
theorem frameFits_switched (hinv : SwitchInv l k s)
    (hswitch : Switching l (exceptionEntry s.cpu) k j) {i : Nat} (hi : i < numTcbs)
    (hij : i ≠ j) (hready : l.state (finalMem l (exceptionEntry s.cpu) j) i = 1#32) :
    FrameFits l (finalMem l (exceptionEntry s.cpu) j) i := by
  by_cases hik : i = k
  · subst hik
    exact (holdsContext_switchedAway hinv hswitch).fits
  · rw [hswitch.finalMem_state hi hik hij] at hready
    have hstate : l.state s.cpu.mem i = 1#32 := by
      rw [← hready]
      exact (exceptionEntry_field hinv.room hi (by decide)).symm
    exact frameFits_congr (switched_sp hinv hswitch hi hik) (hinv.ready i hi hik hstate)

/-- The frame that the switch pops is the one the task was preempted with. -/
theorem switched_frame (hinv : SwitchInv l k s)
    (hswitch : Switching l (exceptionEntry s.cpu) k j) (hfits : FrameFits l s.cpu.mem j) :
    (switchMem l (exceptionEntry s.cpu) j).readWords (l.sp s.cpu.mem j) 8 =
      s.cpu.mem.readWords (l.sp s.cpu.mem j) 8 := by
  have hjk := hswitch.ne
  unfold FrameFits at hfits
  rw [hswitch.switchMem_frame hjk hfits.left (by lia),
    exceptionEntry_frame hinv.room hjk hfits.left (by lia)]

theorem switchedTo_sp (hinv : SwitchInv l k s)
    (hswitch : Switching l (exceptionEntry s.cpu) k j) :
    l.sp (switchMem l (exceptionEntry s.cpu) j) j = l.sp s.cpu.mem j := by
  rw [hswitch.switchMem_sp hswitch.lt' hswitch.ne]
  exact exceptionEntry_field hinv.room hswitch.lt' (by decide)

/-- The stack pointer that the switch returns with. -/
theorem switched_psp (hinv : SwitchInv l k s) (hswitch : Switching l (exceptionEntry s.cpu) k j)
    {c : Cpu} (hpsp : c.psp = l.sp (switchMem l (exceptionEntry s.cpu) j) j + 32#32) :
    c.psp + 32#32 = l.sp s.cpu.mem j + 64#32 := by
  rw [hpsp, switchedTo_sp hinv hswitch, BitVec.add_assoc]
  rfl

/-- The context that the switch returns to, if task `j` had been preempted. -/
theorem contextOf_switched (hinv : SwitchInv l k s)
    (hswitch : Switching l (exceptionEntry s.cpu) k j) {c : Cpu}
    (hpsp : c.psp = l.sp (switchMem l (exceptionEntry s.cpu) j) j + 32#32)
    (hr5 : c.regs .r5 = 2#32) (hr6 : c.regs .r6 = switchCount l (exceptionEntry s.cpu) j)
    {x y : Word} (hframe : (switchMem l (exceptionEntry s.cpu) j).readWords
      (l.sp (switchMem l (exceptionEntry s.cpu) j) j) 8 =
        c.regs .r4 :: x :: y :: highRegs.map c.regs)
    {ctx : Context} (hholds : HoldsContext l s.cpu.mem j ctx) :
    contextOf (exceptionReturn c) = { ctx with
      r4 := 16#32
      r5 := 2#32
      r6 := l.counter s.cpu.mem j + 1#32 } := by
  rcases hholds.frame with ⟨x', y', hframe'⟩
  rw [switchedTo_sp hinv hswitch, switched_frame hinv hswitch hholds.fits, hframe'] at hframe
  injection hframe with hr4 hrest
  injection hrest with _ hrest
  injection hrest with _ hhigh
  have hcounter : l.counter (exceptionEntry s.cpu).mem j = l.counter s.cpu.mem j :=
    exceptionEntry_field hinv.room hswitch.lt' (by decide)
  rw [contextOf_exceptionReturn, switched_psp hinv hswitch hpsp, ← hholds.psp]
  unfold contextOf
  rw [← hr4, hr5, hr6, ← hhigh, hswitch.switchCount_eq, hcounter]

/-- Task `j` is Ready: it is entered with r5 and r6 overwritten, and with an r4
that the scan had overwritten when it was preempted. -/
theorem pendSV_switch (hinv : SwitchInv l k s)
    (h : nextReady l s.cpu.mem (l.currentTask s.cpu.mem) numTcbs 0 = some j) :
    exists s', pendSV l s = some s' ∧ SwitchInv l j s' ∧ j ≠ k ∧
      l.currentTask s'.cpu.mem = BitVec.ofNat 32 j ∧
      forall ctx, s.preempted j = some ctx -> contextOf s'.cpu = { ctx with
        r4 := 16#32
        r5 := 2#32
        r6 := l.counter s.cpu.mem j + 1#32 } := by
  rcases nextReady_some h with ⟨_, _, hne, hready⟩
  have hswitch := switching_of_nextReady hinv h
  have hj := hswitch.lt'
  have hjk := hswitch.ne
  rcases run_pendSV_some l (exceptionEntry s.cpu)
    (by rw [exceptionEntry_nextReady hinv.room, h]) with
    ⟨c, hrun, hmem, hpsp, hr5, hr6, x, y, hframe⟩
  have hfinal : (exceptionReturn c).mem = finalMem l (exceptionEntry s.cpu) j := by
    rw [exceptionReturn_mem, hmem]
    rfl
  have hcurrent : l.currentTask (exceptionReturn c).mem = BitVec.ofNat 32 j := by
    rw [hfinal, hswitch.finalMem_current]
  have hbefore : l.currentTask s.cpu.mem ≠ l.currentTask (exceptionReturn c).mem := by
    rw [hcurrent]
    exact hne.symm
  refine ⟨_, by unfold pendSV; rw [activate_of_run hrun], ⟨hj, hcurrent, ?_, ?_, ?_⟩, hjk,
    hcurrent, ?_⟩
  · have hstack := l.stack_fits j
    have hfits := hinv.ready j hj hjk hready
    unfold FrameFits at hfits
    show l.stackBase j + 64 ≤ (c.psp + 32#32).toNat ∧ (c.psp + 32#32).toNat ≤ l.stackTop j
    rw [switched_psp hinv hswitch hpsp, BitVec.toNat_add, show (64#32).toNat = 64 from rfl,
      Nat.mod_eq_of_lt (by lia)]
    lia
  · intro i hi hij hreadyi
    show FrameFits l (exceptionReturn c).mem i
    have hreadyi' : l.state (exceptionReturn c).mem i = 1#32 := hreadyi
    rw [hfinal] at hreadyi' ⊢
    exact frameFits_switched hinv hswitch hi hij hreadyi'
  · intro i hi hij ctx hctx
    simp only [if_neg hbefore] at hctx
    simp only [hinv.current, hcurrent, ofNat_eq_iff hi hinv.lt, ofNat_eq_iff hi hj,
      if_neg hij] at hctx
    show HoldsContext l (exceptionReturn c).mem i ctx
    rw [hfinal]
    by_cases hik : i = k
    · subst hik
      rw [if_pos rfl] at hctx
      cases hctx
      exact holdsContext_switchedAway hinv hswitch
    · rw [if_neg hik] at hctx
      exact holdsContext_switched hinv hswitch hi hik (hinv.preempted i hi hik ctx hctx)
  · intro ctx hctx
    exact contextOf_switched hinv hswitch hpsp hr5 hr6 hframe (hinv.preempted j hj hjk ctx hctx)

end Switched

/-!
## Whole runs
-/

theorem switchInv_initial {l : TaskLayout} {s : System} (h : Initial l s) :
    SwitchInv l 0 s where
  lt := by decide
  current := h.current
  room := h.room 0 (by decide) h.current
  ready := by
    intro j hj _ hready
    rw [h.dead j hj] at hready
    cases hready
  preempted := by
    intro j _ _ ctx hctx
    rw [h.fresh j] at hctx
    cases hctx

theorem switchInv_thread {l : TaskLayout} {k : Nat} {s s' : System}
    (hinv : SwitchInv l k s) (h : ThreadStep l s s') : SwitchInv l k s' := by
  have hcurrent : l.currentTask s'.cpu.mem = BitVec.ofNat 32 k :=
    h.current.trans hinv.current
  have hother : forall j, j < numTcbs -> j ≠ k ->
      BitVec.ofNat 32 j ≠ l.currentTask s.cpu.mem := by
    intro j hj hne heq
    rw [hinv.current, ofNat_eq_iff hj hinv.lt] at heq
    exact hne heq
  refine ⟨hinv.lt, hcurrent, h.room k hinv.lt hcurrent, ?_, ?_⟩
  · intro j hj hne hready
    exact h.ready j hj (hother j hj hne) hready
  · intro j hj hne ctx hctx
    rcases h.frames j hj (hother j hj hne) with hnone | ⟨hsame, hsp, hframe⟩
    · rw [hnone] at hctx
      cases hctx
    · rw [hsame] at hctx
      exact holdsContext_congr hsp hframe (hinv.preempted j hj hne ctx hctx)

theorem switchInv_pendSV {l : TaskLayout} {k : Nat} {s : System} (hinv : SwitchInv l k s) :
    exists s' k', pendSV l s = some s' ∧ SwitchInv l k' s' := by
  cases hready : nextReady l s.cpu.mem (l.currentTask s.cpu.mem) numTcbs 0 with
  | none =>
      rcases pendSV_stay hinv hready with ⟨s', hstep, hinv', _⟩
      exact ⟨s', k, hstep, hinv'⟩
  | some j =>
      rcases pendSV_switch hinv hready with ⟨s', hstep, hinv', _⟩
      exact ⟨s', j, hstep, hinv'⟩

theorem switchInv_run {l : TaskLayout} {s : System} {acts : List (System × System)}
    (h : Run l s acts) : exists k, SwitchInv l k s := by
  induction h with
  | initial s hinit => exact ⟨0, switchInv_initial hinit⟩
  | thread s s' acts _ hstep ih =>
      rcases ih with ⟨k, hinv⟩
      exact ⟨k, switchInv_thread hinv hstep⟩
  | pendSV s s' acts _ hstep ih =>
      rcases ih with ⟨k, hinv⟩
      rcases switchInv_pendSV hinv with ⟨s'', k', hstep', hinv'⟩
      rw [hstep] at hstep'
      cases hstep'
      exact ⟨k', hinv'⟩

theorem nextReady_none_of_stayed {l : TaskLayout} {s : System}
    (h : forall j, j < numTcbs -> BitVec.ofNat 32 j ≠ l.currentTask s.cpu.mem ->
      l.state s.cpu.mem j ≠ 1#32) :
    nextReady l s.cpu.mem (l.currentTask s.cpu.mem) numTcbs 0 = none :=
  nextReady_none.mpr (fun j _ hj => h j (by lia))

/-- One activation preserves contexts exactly when it finds its own values in r4-r6. -/
theorem preserves_iff_of_switchInv {l : TaskLayout} {k : Nat} {s s' : System}
    (hinv : SwitchInv l k s) (hstep : pendSV l s = some s') :
    Preserves l s s' ↔ Undisturbed l s := by
  unfold Undisturbed
  cases hready : nextReady l s.cpu.mem (l.currentTask s.cpu.mem) numTcbs 0 with
  | none =>
      rcases pendSV_stay hinv hready with ⟨s'', hstep', hinv', hcontext⟩
      rw [hstep] at hstep'
      cases hstep'
      have hstayed := nextReady_none.mp hready
      constructor
      · intro h
        have hsame := h.stayed (fun j hj => hstayed j (by lia) (by lia))
        rw [hcontext] at hsame
        exact ⟨(congrArg Context.r4 hsame).symm, (congrArg Context.r5 hsame).symm,
          (congrArg Context.r6 hsame).symm⟩
      · rintro ⟨hr4, hr5, hr6⟩
        constructor
        · intro j _ hne hcurrent
          rw [hinv'.current, ← hinv.current] at hcurrent
          exact absurd hcurrent.symm hne
        · intro _
          rw [hcontext]
          unfold contextOf
          rw [hr4, hr5, hr6]
  | some j =>
      rcases pendSV_switch hinv hready with ⟨s'', hstep', hinv', hjk, hcurrent, hcontext⟩
      rw [hstep] at hstep'
      cases hstep'
      rcases nextReady_some hready with ⟨_, hj, hne, _⟩
      rw [Nat.zero_add] at hj
      constructor
      · intro h ctx hctx
        have hsame := h.resumed j hj hne hcurrent ctx hctx
        rw [hcontext ctx hctx] at hsame
        exact ⟨(congrArg Context.r4 hsame).symm, (congrArg Context.r5 hsame).symm,
          (congrArg Context.r6 hsame).symm⟩
      · intro h
        constructor
        · intro i hi _ hcurrent' ctx hctx
          rw [hcurrent, ofNat_eq_iff hj hi] at hcurrent'
          subst hcurrent'
          rcases h ctx hctx with ⟨hr4, hr5, hr6⟩
          rw [hcontext ctx hctx, ← hr4, ← hr5, ← hr6]
        · intro hstayed
          rw [nextReady_none_of_stayed hstayed] at hready
          cases hready

/-- Throughout any run the handler returns, and each of its activations preserves
contexts exactly when it is undisturbed. -/
theorem run_preserves_iff (l : TaskLayout) (s : System) (acts : List (System × System))
    (h : Run l s acts) :
    (exists s', pendSV l s = some s') ∧
      forall act, act ∈ acts -> (Preserves l act.1 act.2 ↔ Undisturbed l act.1) := by
  constructor
  · rcases switchInv_run h with ⟨k, hinv⟩
    rcases switchInv_pendSV hinv with ⟨s', _, hstep, _⟩
    exact ⟨s', hstep⟩
  · induction h with
    | initial s hinit => simp
    | thread s s' acts _ _ ih => exact ih
    | pendSV s s' acts hrun hstep ih =>
        intro act hact
        rcases List.mem_cons.mp hact with rfl | hact
        · rcases switchInv_run hrun with ⟨k, hinv⟩
          exact preserves_iff_of_switchInv hinv hstep
        · exact ih act hact

/-- Five stacks of 512 bytes above the task table. -/
def exampleLayout : TaskLayout where
  tcbs := 0x20003100#32
  current := 0x20003160#32
  stackBase := fun k => if k < numTcbs then 0x2000E000 + 512 * k else 0
  stackTop := fun k => if k < numTcbs then 0x2000E200 + 512 * k else 0
  tcbs_fits := by decide
  current_fits := by decide
  stack_fits := by
    intro k
    unfold numTcbs
    lia
  current_apart := by decide
  stack_apart_tcbs := by
    intro k
    rw [show (0x20003100#32).toNat = 0x20003100 from rfl]
    unfold numTcbs
    lia
  stack_apart_current := by
    intro k
    rw [show (0x20003160#32).toNat = 0x20003160 from rfl]
    unfold numTcbs
    lia
  stacks_apart := by
    intro j k hne
    lia

/-- Only the first task, all registers zero. -/
def exampleSystem : System where
  cpu :=
    { regs := fun _ => 0#32
      psp := 0x2000E200#32
      pc := 0#32
      xpsr := 0#32
      n := false
      z := false
      v := false
      mem := fun _ => 0#8 }
  preempted := fun _ => none

theorem initial_exampleSystem : Initial exampleLayout exampleSystem where
  current := by decide +kernel
  room := by
    intro k hk hcurrent
    have hzero : exampleLayout.currentTask exampleSystem.cpu.mem = BitVec.ofNat 32 0 := by
      decide +kernel
    rw [hzero, ofNat_eq_iff (by decide) hk] at hcurrent
    subst hcurrent
    decide
  dead := by decide +kernel
  fresh := fun _ => rfl

theorem pendSV_exampleSystem :
    exists s', pendSV exampleLayout exampleSystem = some s' ∧
      Run exampleLayout s' [(exampleSystem, s')] := by
  rcases switchInv_pendSV (switchInv_initial initial_exampleSystem) with ⟨s', _, hstep, _⟩
  exact ⟨s', hstep, .pendSV _ _ _ (.initial _ initial_exampleSystem) hstep⟩

/-- The stack pointer and the state that `spawn_jit_task` writes for task `j`. -/
def exampleSpawn (j : Nat) (mem : Mem) : Mem :=
  (mem.write32 (exampleLayout.field (BitVec.ofNat 32 j) 0#32)
    (BitVec.ofNat 32 (exampleLayout.stackTop j - 64))).write32
    (exampleLayout.field (BitVec.ofNat 32 j) 8#32) 1#32

/-- The first task has spawned the tasks `js`. -/
def exampleSpawned (js : List Nat) : System :=
  { exampleSystem with
    cpu := { exampleSystem.cpu with mem := js.foldr exampleSpawn exampleSystem.cpu.mem } }

theorem hasRoom_exampleSpawned {js : List Nat}
    (h : exampleLayout.currentTask (exampleSpawned js).cpu.mem = BitVec.ofNat 32 0) :
    HasRoom exampleLayout (exampleSpawned js).cpu := by
  intro k hk hcurrent
  rw [h, ofNat_eq_iff (by decide) hk] at hcurrent
  subst hcurrent
  exact (by decide : exampleLayout.stackBase 0 + 64 ≤ exampleSystem.cpu.psp.toNat ∧
    exampleSystem.cpu.psp.toNat ≤ exampleLayout.stackTop 0)

theorem threadStep_exampleSpawned {js : List Nat}
    (hcurrent : exampleLayout.currentTask (exampleSpawned js).cpu.mem = BitVec.ofNat 32 0)
    (hready : forall j, j < numTcbs -> exampleLayout.state (exampleSpawned js).cpu.mem j = 1#32 ->
      FrameFits exampleLayout (exampleSpawned js).cpu.mem j) :
    ThreadStep exampleLayout exampleSystem (exampleSpawned js) where
  current := hcurrent.trans initial_exampleSystem.current.symm
  room := hasRoom_exampleSpawned hcurrent
  ready := fun j hj _ hstate => hready j hj hstate
  frames := fun _ _ _ => Or.inl rfl

/-- Task 1 is spawned and switched to, and back to the first task. -/
theorem run_preserves_iff_switches :
    exists s1 s2, Run exampleLayout s2 [(s1, s2), (exampleSpawned [1], s1)] ∧
      exampleLayout.currentTask s1.cpu.mem = 1#32 ∧
      exampleLayout.currentTask s2.cpu.mem = 0#32 ∧
      (exists s3, pendSV exampleLayout s2 = some s3) ∧
      forall act, act ∈ [(s1, s2), (exampleSpawned [1], s1)] ->
        (Preserves exampleLayout act.1 act.2 ↔ Undisturbed exampleLayout act.1) := by
  have hspawn : ThreadStep exampleLayout exampleSystem (exampleSpawned [1]) := by
    apply threadStep_exampleSpawned
    · decide +kernel
    · unfold FrameFits
      decide +kernel
  have hswitches : (pendSV exampleLayout (exampleSpawned [1])).map (fun s1 =>
      (exampleLayout.currentTask s1.cpu.mem,
        (pendSV exampleLayout s1).map fun s2 => exampleLayout.currentTask s2.cpu.mem)) =
      some (1#32, some 0#32) := by
    decide +kernel
  rcases Option.map_eq_some_iff.mp hswitches with ⟨s1, hfirst, hmoved⟩
  rcases Option.map_eq_some_iff.mp (congrArg Prod.snd hmoved) with ⟨s2, hsecond, hback⟩
  have hrun : Run exampleLayout s2 [(s1, s2), (exampleSpawned [1], s1)] :=
    .pendSV _ _ _ (.pendSV _ _ _ (.thread _ _ _ (.initial _ initial_exampleSystem) hspawn) hfirst)
      hsecond
  exact ⟨s1, s2, hrun, congrArg Prod.fst hmoved, hback,
    run_preserves_iff exampleLayout s2 _ hrun⟩

/-- With no other task to run, r4 comes back as 16. -/
theorem not_preserves_single :
    exists s', Run exampleLayout s' [(exampleSystem, s')] ∧
      ¬ Preserves exampleLayout exampleSystem s' := by
  rcases pendSV_exampleSystem with ⟨s', hstep, hrun⟩
  refine ⟨s', hrun, ?_⟩
  rw [preserves_iff_of_switchInv (switchInv_initial initial_exampleSystem) hstep]
  have hready : nextReady exampleLayout exampleSystem.cpu.mem
      (exampleLayout.currentTask exampleSystem.cpu.mem) numTcbs 0 = none := by
    decide +kernel
  unfold Undisturbed
  rw [hready]
  rintro ⟨hr4, _⟩
  cases hr4

end Kernel
end HolyRust
