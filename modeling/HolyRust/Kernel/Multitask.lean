import HolyRust.Isa.Armv7m
import HolyRust.Platform

/-!
# PendSV handler

The task table has five control blocks of sixteen bytes (`sp`, `pc`, `state`,
`counter`).  `PendSV_Handler` scans it for a Ready task other than the current
one, saves r4-r11 on the process stack and restores them from the stack of the
task it found.  The scan runs in r4, r5 and r6, before these are saved.
-/

namespace HolyRust
namespace Kernel

open Foundation
open Isa

/-- `NUM_TASKS + 1` control blocks. -/
def numTcbs : Nat := 5

/-- Link addresses of `TCBS` and `CURRENT_TASK`, and one stack per task. -/
structure TaskLayout where
  tcbs : Word
  current : Word
  stackBase : Nat -> Nat
  stackTop : Nat -> Nat
  tcbs_fits : tcbs.toNat + 16 * numTcbs ≤ 2 ^ 32
  current_fits : current.toNat + 4 ≤ 2 ^ 32
  stack_fits : forall k, stackTop k < 2 ^ 32
  current_apart : current.toNat + 4 ≤ tcbs.toNat ∨ tcbs.toNat + 16 * numTcbs ≤ current.toNat
  stack_apart_tcbs : forall k,
    stackTop k ≤ tcbs.toNat ∨ tcbs.toNat + 16 * numTcbs ≤ stackBase k
  stack_apart_current : forall k,
    stackTop k ≤ current.toNat ∨ current.toNat + 4 ≤ stackBase k
  stacks_apart : forall j k, j ≠ k -> stackTop j ≤ stackBase k ∨ stackTop k ≤ stackBase j

namespace TaskLayout

/-- Address of the field at `offset` of control block `i`. -/
def field (l : TaskLayout) (i offset : Word) : Word :=
  l.tcbs + (i <<< 4) + offset

/-- `TCBS[i].sp`. -/
def sp (l : TaskLayout) (mem : Mem) (i : Nat) : Word :=
  mem.read32 (l.field (BitVec.ofNat 32 i) 0#32)

/-- `TCBS[i].state`; 1 is `Ready`, 2 is `Running`. -/
def state (l : TaskLayout) (mem : Mem) (i : Nat) : Word :=
  mem.read32 (l.field (BitVec.ofNat 32 i) 8#32)

/-- `TCBS[i].counter`. -/
def counter (l : TaskLayout) (mem : Mem) (i : Nat) : Word :=
  mem.read32 (l.field (BitVec.ofNat 32 i) 12#32)

/-- `CURRENT_TASK`. -/
def currentTask (l : TaskLayout) (mem : Mem) : Word :=
  mem.read32 (l.current + 0#32)

end TaskLayout

/-- The registers `PendSV_Handler` saves. -/
def savedRegs : List Reg := [.r4, .r5, .r6, .r7, .r8, .r9, .r10, .r11]

/-- The handler; label 8 is position 3, label 9 position 12 and label 1 position 16. -/
def pendSVHandler (l : TaskLayout) : List Instr :=
  [.ldrConst .r1 l.current,
    .ldr .r2 .r1 0#32,
    .movs .r6 0#32,
    .cmp .r6 .r2,
    .beq 12,
    .ldrConst .r3 l.tcbs,
    .movs .r4 16#32,
    .lsls .r5 .r6 4,
    .adds .r3 .r3 .r5,
    .ldr .r5 .r3 8#32,
    .cmpImm .r5 1#32,
    .beq 16,
    .addsImm .r6 .r6 1#32,
    .cmpImm .r6 5#32,
    .blt 3,
    .bx .lr,
    .mrsPsp .r0,
    .stmdb .r0 savedRegs,
    .ldrConst .r3 l.tcbs,
    .movs .r4 16#32,
    .lsls .r5 .r2 4,
    .adds .r3 .r3 .r5,
    .str .r0 .r3 0#32,
    .movs .r5 1#32,
    .str .r5 .r3 8#32,
    .ldrConst .r1 l.current,
    .str .r6 .r1 0#32,
    .ldrConst .r3 l.tcbs,
    .movs .r4 16#32,
    .lsls .r5 .r6 4,
    .adds .r3 .r3 .r5,
    .ldr .r0 .r3 0#32,
    .ldmia .r0 savedRegs,
    .msrPsp .r0,
    .movs .r5 2#32,
    .str .r5 .r3 8#32,
    .ldr .r6 .r3 12#32,
    .addsImm .r6 .r6 1#32,
    .str .r6 .r3 12#32,
    .ldrConst .r0 excReturn,
    .bx .r0]

/-- More instructions than any activation takes. -/
def pendSVFuel : Nat := 128

/-!
## The scan
-/

/-- First of the `n` control blocks from `i` on that is Ready and not `current`. -/
def nextReady (l : TaskLayout) (mem : Mem) (current : Word) : Nat -> Nat -> Option Nat
  | 0, _ => none
  | n + 1, i =>
      if BitVec.ofNat 32 i = current then nextReady l mem current n (i + 1)
      else if l.state mem i = 1#32 then some i
      else nextReady l mem current n (i + 1)

/-- What a scan that finds nothing leaves in r4 and r5. -/
def scanResidue (l : TaskLayout) (mem : Mem) (current : Word) :
    Nat -> Nat -> Word × Word -> Word × Word
  | 0, _, p => p
  | n + 1, i, p =>
      if BitVec.ofNat 32 i = current then scanResidue l mem current n (i + 1) p
      else scanResidue l mem current n (i + 1) (16#32, l.state mem i)

/-- The scan leaves everything but r3-r6 and the flags alone. -/
structure Scanned (c c' : Cpu) : Prop where
  regs : forall r, r ≠ .r3 -> r ≠ .r4 -> r ≠ .r5 -> r ≠ .r6 -> c'.regs r = c.regs r
  psp : c'.psp = c.psp
  mem : c'.mem = c.mem

theorem Scanned.trans {c c' c'' : Cpu} (h : Scanned c c') (h' : Scanned c' c'') :
    Scanned c c'' where
  regs := fun r h3 h4 h5 h6 => (h'.regs r h3 h4 h5 h6).trans (h.regs r h3 h4 h5 h6)
  psp := h'.psp.trans h.psp
  mem := h'.mem.trans h.mem

theorem sub_beq_zero (x y : Word) : (x - y == 0#32) = decide (x = y) := by
  by_cases h : x = y
  · simp [h]
  · have hne : x - y ≠ 0#32 := by
      intro hzero
      exact h (sub_eq_zero.mp hzero)
    simp [h, hne]

/-- The signed comparison of `cmp r6, #5`, for the values the scan counts through. -/
theorem blt_five : forall i, i < numTcbs ->
    ((BitVec.ofNat 32 i + 1#32 - 5#32).msb !=
      ((BitVec.ofNat 32 i + 1#32).msb != (5#32).msb &&
        (BitVec.ofNat 32 i + 1#32 - 5#32).msb != (BitVec.ofNat 32 i + 1#32).msb)) =
      decide (i + 1 < numTcbs) := by
  decide +kernel

/-- Label 9: count up, and go round again below five. -/
theorem steps_advance {l : TaskLayout} {c : Cpu} {i : Nat} (hi : i < numTcbs)
    (hr6 : c.regs .r6 = BitVec.ofNat 32 i) :
    exists c', Steps (pendSVHandler l) 3 12 c (if i + 1 < numTcbs then 3 else 15) c' ∧
      Scanned c c' ∧ c'.regs .r4 = c.regs .r4 ∧ c'.regs .r5 = c.regs .r5 ∧
      c'.regs .r6 = BitVec.ofNat 32 (i + 1) := by
  have hcount : Steps (pendSVHandler l) 2 12 c 14
      (execBlock [.addsImm .r6 .r6 1#32, .cmpImm .r6 5#32] c) := steps_block c rfl rfl
  have hbranch := steps_blt (c := execBlock [.addsImm .r6 .r6 1#32, .cmpImm .r6 5#32] c)
    (show (pendSVHandler l)[14]? = some (.blt 3) from rfl)
  have hflags : ((execBlock [.addsImm .r6 .r6 1#32, .cmpImm .r6 5#32] c).n !=
      (execBlock [.addsImm .r6 .r6 1#32, .cmpImm .r6 5#32] c).v) =
      decide (i + 1 < numTcbs) := by
    rw [← blt_five i hi, ← hr6]
    simp [execBlock, effect, exec, Cpu.compare]
  rw [hflags] at hbranch
  simp only [decide_eq_true_eq] at hbranch
  refine ⟨_, hcount.trans hbranch, ⟨?_, ?_, ?_⟩, ?_, ?_, ?_⟩
  · intro r h3 h4 h5 h6
    simp [execBlock, effect, exec, h6]
  · simp [execBlock, effect, exec]
  · simp [execBlock, effect, exec]
  · simp [execBlock, effect, exec]
  · simp [execBlock, effect, exec]
  · simp [execBlock, effect, exec, hr6, BitVec.ofNat_add]

/-- Label 8: compare with the current task. -/
theorem steps_compare (l : TaskLayout) (c : Cpu) :
    Steps (pendSVHandler l) 2 3 c (if c.regs .r6 = c.regs .r2 then 12 else 5)
      (c.compare (c.regs .r6) (c.regs .r2)) := by
  have hcmp : Steps (pendSVHandler l) 1 3 c 4 (execBlock [.cmp .r6 .r2] c) :=
    steps_block c rfl rfl
  have hbranch := steps_beq (c := execBlock [.cmp .r6 .r2] c)
    (show (pendSVHandler l)[4]? = some (.beq 12) from rfl)
  have hz : (execBlock [.cmp .r6 .r2] c).z = decide (c.regs .r6 = c.regs .r2) :=
    sub_beq_zero _ _
  rw [hz] at hbranch
  simp only [decide_eq_true_eq] at hbranch
  exact hcmp.trans hbranch

/-- Label 8 at the current task: skip it. -/
theorem steps_skip {l : TaskLayout} {c : Cpu} (h : c.regs .r6 = c.regs .r2) :
    exists c', Steps (pendSVHandler l) 2 3 c 12 c' ∧
      Scanned c c' ∧ c'.regs = c.regs := by
  have hcompare := steps_compare l c
  rw [if_pos h] at hcompare
  exact ⟨_, hcompare, ⟨fun r _ _ _ _ => rfl, rfl, rfl⟩, rfl⟩

/-- Compare the state in r5 with Ready. -/
theorem steps_ready (l : TaskLayout) (c : Cpu) :
    Steps (pendSVHandler l) 2 10 c (if c.regs .r5 = 1#32 then 16 else 12)
      (c.compare (c.regs .r5) 1#32) := by
  have hcmp : Steps (pendSVHandler l) 1 10 c 11 (execBlock [.cmpImm .r5 1#32] c) :=
    steps_block c rfl rfl
  have hbranch := steps_beq (c := execBlock [.cmpImm .r5 1#32] c)
    (show (pendSVHandler l)[11]? = some (.beq 16) from rfl)
  have hz : (execBlock [.cmpImm .r5 1#32] c).z = decide (c.regs .r5 = 1#32) :=
    sub_beq_zero _ _
  rw [hz] at hbranch
  simp only [decide_eq_true_eq] at hbranch
  exact hcmp.trans hbranch

/-- Look up the state of control block r6: r4 and r5 are overwritten. -/
theorem steps_lookup (l : TaskLayout) (c : Cpu) :
    exists c', Steps (pendSVHandler l) 5 5 c 10 c' ∧ Scanned c c' ∧
      c'.regs .r4 = 16#32 ∧ c'.regs .r5 = c.mem.read32 (l.field (c.regs .r6) 8#32) ∧
      c'.regs .r6 = c.regs .r6 := by
  have hblock : Steps (pendSVHandler l) 5 5 c 10
      (execBlock [.ldrConst .r3 l.tcbs, .movs .r4 16#32, .lsls .r5 .r6 4,
        .adds .r3 .r3 .r5, .ldr .r5 .r3 8#32] c) := steps_block c rfl rfl
  refine ⟨_, hblock, ⟨?_, ?_, ?_⟩, ?_, ?_, ?_⟩
  · intro r h3 h4 h5 h6
    simp [execBlock, effect, exec, h3, h4, h5]
  · simp [execBlock, effect, exec]
  · simp [execBlock, effect, exec]
  · simp [execBlock, effect, exec]
  · simp [execBlock, effect, exec, TaskLayout.field]
  · simp [execBlock, effect, exec]

/-- Label 8 at another task: look its state up and branch on it. -/
theorem steps_examine {l : TaskLayout} {c : Cpu} {i : Nat}
    (hr6 : c.regs .r6 = BitVec.ofNat 32 i) (h : c.regs .r6 ≠ c.regs .r2) :
    exists c', Steps (pendSVHandler l) 9 3 c
        (if l.state c.mem i = 1#32 then 16 else 12) c' ∧
      Scanned c c' ∧ c'.regs .r4 = 16#32 ∧ c'.regs .r5 = l.state c.mem i ∧
      c'.regs .r6 = c.regs .r6 := by
  have hcompare := steps_compare l c
  rw [if_neg h] at hcompare
  rcases steps_lookup l (c.compare (c.regs .r6) (c.regs .r2)) with
    ⟨c1, hlookup, hscan, hr4, hr5, hr6'⟩
  rw [Cpu.compare_regs, Cpu.compare_mem, hr6] at hr5
  have hready := steps_ready l c1
  rw [hr5] at hready
  exact ⟨_, (hcompare.trans hlookup).trans hready,
    ⟨hscan.regs, hscan.psp, hscan.mem⟩, hr4, hr5, hr6'⟩

/-- Within `bound` steps the scan from task `i` on stops at the first Ready task, or runs
to the end; `residue` is what r4 and r5 hold if it looks at none. -/
def ScanEnds (l : TaskLayout) (c : Cpu) (n i : Nat) (residue : Word × Word) (bound : Nat) :
    Prop :=
  exists k c', k ≤ bound ∧ Scanned c c' ∧
    match nextReady l c.mem (c.regs .r2) n i with
    | some j => Steps (pendSVHandler l) k 3 c 16 c' ∧ c'.regs .r4 = 16#32 ∧
        c'.regs .r5 = 1#32 ∧ c'.regs .r6 = BitVec.ofNat 32 j
    | none => Steps (pendSVHandler l) k 3 c 15 c' ∧
        (c'.regs .r4, c'.regs .r5) = scanResidue l c.mem (c.regs .r2) n i residue ∧
        c'.regs .r6 = 5#32

/-- A scan that begins where `k` steps lead ends where one from their start does. -/
theorem ScanEnds.prepend {l : TaskLayout} {c c' : Cpu} {n i k bound : Nat} {residue : Word × Word}
    (h : ScanEnds l c' n i residue bound) (hscan : Scanned c c')
    (hsteps : Steps (pendSVHandler l) k 3 c 3 c') : ScanEnds l c n i residue (bound + k) := by
  obtain ⟨k', c'', hk', hscan', hcase⟩ := h
  have hr2 : c'.regs .r2 = c.regs .r2 := by
    apply hscan.regs <;> decide
  refine ⟨k' + k, c'', by lia, hscan.trans hscan', ?_⟩
  rw [hscan.mem, hr2] at hcase
  cases hready : nextReady l c.mem (c.regs .r2) n i with
  | some j =>
      rw [hready] at hcase
      exact ⟨hsteps.trans hcase.left, hcase.right⟩
  | none =>
      rw [hready] at hcase
      exact ⟨hsteps.trans hcase.left, hcase.right⟩

/-- Task `i` is passed over: label 12 goes on with the next one, or leaves the loop. -/
theorem scanEnds_advance {l : TaskLayout} {n i k : Nat} {c c' : Cpu} (hn : i + (n + 1) = numTcbs)
    (hr6 : c.regs .r6 = BitVec.ofNat 32 i) (hk : k ≤ 9) (hscan : Scanned c c')
    (hsteps : Steps (pendSVHandler l) k 3 c 12 c') (hsame : c'.regs .r6 = c.regs .r6)
    (hrest : forall c2 : Cpu, 0 < n -> c2.regs .r6 = BitVec.ofNat 32 (i + 1) ->
      ScanEnds l c2 n (i + 1) (c2.regs .r4, c2.regs .r5) (12 * n)) :
    ScanEnds l c n (i + 1) (c'.regs .r4, c'.regs .r5) (12 * (n + 1)) := by
  rcases steps_advance (l := l) (c := c') (i := i) (by lia) (hsame.trans hr6) with
    ⟨c2, hsteps2, hscan2, hr42, hr52, hr62⟩
  have hscan12 := hscan.trans hscan2
  cases n with
  | zero =>
      rw [if_neg (by lia)] at hsteps2
      refine ⟨3 + k, c2, by lia, hscan12, hsteps.trans hsteps2, ?_, ?_⟩
      · rw [scanResidue, hr42, hr52]
      · rw [hr62, hn]
        rfl
  | succ n =>
      rw [if_pos (by lia)] at hsteps2
      have hends := (hrest c2 (by lia) hr62).prepend hscan12 (hsteps.trans hsteps2)
      rw [hr42, hr52] at hends
      obtain ⟨k', c'', hk', hend⟩ := hends
      exact ⟨k', c'', by lia, hend⟩

/-- A whole scan. -/
theorem steps_scan (l : TaskLayout) {n i : Nat} {c : Cpu} (hpos : 0 < n)
    (hn : i + n = numTcbs) (hr6 : c.regs .r6 = BitVec.ofNat 32 i) :
    ScanEnds l c n i (c.regs .r4, c.regs .r5) (12 * n) := by
  induction n generalizing i c with
  | zero => lia
  | succ n ih =>
      have hrest : forall c2 : Cpu, 0 < n -> c2.regs .r6 = BitVec.ofNat 32 (i + 1) ->
          ScanEnds l c2 n (i + 1) (c2.regs .r4, c2.regs .r5) (12 * n) :=
        fun c2 hpos2 hr62 => ih hpos2 (by lia) hr62
      unfold ScanEnds
      simp only [nextReady, scanResidue, ← hr6]
      by_cases hcur : c.regs .r6 = c.regs .r2
      · rcases steps_skip (l := l) hcur with ⟨c1, hsteps1, hscan1, hregs⟩
        have hends := scanEnds_advance hn hr6 (by lia) hscan1 hsteps1 (by rw [hregs]) hrest
        rw [hregs] at hends
        rw [if_pos hcur, if_pos hcur]
        exact hends
      · rcases steps_examine (l := l) hr6 hcur with
          ⟨c1, hsteps1, hscan1, hr41, hr51, hr61⟩
        rw [if_neg hcur, if_neg hcur]
        by_cases hready : l.state c.mem i = 1#32
        · rw [if_pos hready] at hsteps1 ⊢
          exact ⟨9, c1, by lia, hscan1, hsteps1, hr41, hr51.trans hready, hr61.trans hr6⟩
        · rw [if_neg hready] at hsteps1 ⊢
          have hends := scanEnds_advance hn hr6 (by lia) hscan1 hsteps1 hr61 hrest
          rw [hr41, hr51] at hends
          exact hends

/-!
## The switch
-/

/-- Memory after the current task has been saved and `CURRENT_TASK` moved on. -/
def savedMem (l : TaskLayout) (c : Cpu) : Mem :=
  (((c.mem.writeWords (c.psp - 32#32) (savedRegs.map c.regs)).write32
    (l.field (c.regs .r2) 0#32) (c.psp - 32#32)).write32
    (l.field (c.regs .r2) 8#32) 1#32).write32 (l.current + 0#32) (c.regs .r6)

theorem steps_save (l : TaskLayout) (c : Cpu) :
    exists c', Steps (pendSVHandler l) 11 16 c 27 c' ∧
      c'.mem = savedMem l c ∧ c'.regs .r6 = c.regs .r6 := by
  have hblock : Steps (pendSVHandler l) 11 16 c 27
      (execBlock [.mrsPsp .r0, .stmdb .r0 savedRegs, .ldrConst .r3 l.tcbs,
        .movs .r4 16#32, .lsls .r5 .r2 4, .adds .r3 .r3 .r5, .str .r0 .r3 0#32,
        .movs .r5 1#32, .str .r5 .r3 8#32, .ldrConst .r1 l.current,
        .str .r6 .r1 0#32] c) := steps_block c rfl rfl
  refine ⟨_, hblock, ?_, ?_⟩
  · simp [execBlock, effect, exec, savedRegs, savedMem, TaskLayout.field]
  · simp [execBlock, effect, exec]

/-- The stack pointer of the task in r6. -/
def resumedSp (l : TaskLayout) (c : Cpu) : Word :=
  c.mem.read32 (l.field (c.regs .r6) 0#32)

/-- The counter of the task in r6, one up. -/
def resumedCount (l : TaskLayout) (c : Cpu) : Word :=
  (c.mem.write32 (l.field (c.regs .r6) 8#32) 2#32).read32
    (l.field (c.regs .r6) 12#32) + 1#32

/-- Memory after the task in r6 has been marked Running and counted. -/
def resumedMem (l : TaskLayout) (c : Cpu) : Mem :=
  (c.mem.write32 (l.field (c.regs .r6) 8#32) 2#32).write32
    (l.field (c.regs .r6) 12#32) (resumedCount l c)

/-- The handler from the lookup of the next task to its return value. -/
def restoreBlock (l : TaskLayout) : List Instr :=
  [.ldrConst .r3 l.tcbs, .movs .r4 16#32, .lsls .r5 .r6 4, .adds .r3 .r3 .r5,
    .ldr .r0 .r3 0#32, .ldmia .r0 savedRegs, .msrPsp .r0, .movs .r5 2#32,
    .str .r5 .r3 8#32, .ldr .r6 .r3 12#32, .addsImm .r6 .r6 1#32, .str .r6 .r3 12#32,
    .ldrConst .r0 excReturn]

/-- r4 and r7-r11 come from the saved frame, r5 and r6 from the code after it. -/
theorem run_restore (l : TaskLayout) (c : Cpu) :
    exists c', (forall fuel, run (pendSVHandler l) (fuel + 14) 27 c = some (excReturn, c')) ∧
      c'.mem = resumedMem l c ∧ c'.psp = resumedSp l c + 32#32 ∧
      c'.regs .r5 = 2#32 ∧ c'.regs .r6 = resumedCount l c ∧
      exists x y, c.mem.readWords (resumedSp l c) 8 =
        [c'.regs .r4, x, y, c'.regs .r7, c'.regs .r8, c'.regs .r9, c'.regs .r10,
          c'.regs .r11] := by
  have hblock : Steps (pendSVHandler l) 13 27 c 40 (execBlock (restoreBlock l) c) :=
    steps_block c rfl rfl
  refine ⟨execBlock (restoreBlock l) c, ?_, ?_, ?_, ?_, ?_,
    c.mem.read32 (resumedSp l c + 4#32), c.mem.read32 (resumedSp l c + 4#32 + 4#32), ?_⟩
  · intro fuel
    have hr0 : (execBlock (restoreBlock l) c).regs .r0 = excReturn := by
      simp [restoreBlock, execBlock, effect, exec]
    rw [show fuel + 14 = fuel + 1 + 13 by lia, hblock, run,
      show (pendSVHandler l)[40]? = some (.bx .r0) from rfl]
    simp only [exec, hr0]
  · simp [restoreBlock, execBlock, effect, exec, savedRegs, loadRegs, Memory.readWords,
      resumedMem, resumedCount, TaskLayout.field]
  · simp [restoreBlock, execBlock, effect, exec, savedRegs, loadRegs, Memory.readWords,
      resumedSp, TaskLayout.field]
  · simp [restoreBlock, execBlock, effect, exec]
  · simp [restoreBlock, execBlock, effect, exec, savedRegs, loadRegs, Memory.readWords,
      resumedCount, TaskLayout.field]
  · simp [restoreBlock, execBlock, effect, exec, savedRegs, loadRegs, Memory.readWords,
      resumedSp, TaskLayout.field]

/-!
## Whole activations
-/

/-- The handler up to the head of the scan. -/
theorem steps_enter (l : TaskLayout) (c : Cpu) :
    exists c', Steps (pendSVHandler l) 3 0 c 3 c' ∧
      c'.regs .r2 = l.currentTask c.mem ∧ c'.regs .r6 = BitVec.ofNat 32 0 ∧
      (forall r, r ≠ .r1 -> r ≠ .r2 -> r ≠ .r6 -> c'.regs r = c.regs r) ∧
      c'.psp = c.psp ∧ c'.mem = c.mem := by
  have hblock : Steps (pendSVHandler l) 3 0 c 3
      (execBlock [.ldrConst .r1 l.current, .ldr .r2 .r1 0#32, .movs .r6 0#32] c) :=
    steps_block c rfl rfl
  refine ⟨_, hblock, ?_, ?_, ?_, ?_, ?_⟩
  · simp [execBlock, effect, exec, TaskLayout.currentTask]
  · simp [execBlock, effect, exec]
  · intro r h1 h2 h6
    simp [execBlock, effect, exec, h1, h2, h6]
  · simp [execBlock, effect, exec]
  · simp [execBlock, effect, exec]

/-- r7-r11, which neither the scan nor the switch uses for itself. -/
def highRegs : List Reg := [.r7, .r8, .r9, .r10, .r11]

theorem map_highRegs_congr {c c' : Cpu}
    (h : forall r, r ≠ .r1 -> r ≠ .r2 -> r ≠ .r3 -> r ≠ .r4 -> r ≠ .r5 -> r ≠ .r6 ->
      c'.regs r = c.regs r) :
    highRegs.map c'.regs = highRegs.map c.regs := by
  apply List.map_congr_left
  intro r hr
  simp only [highRegs, List.mem_cons, List.not_mem_nil, or_false] at hr
  rcases hr with rfl | rfl | rfl | rfl | rfl <;> exact h _ (by decide) (by decide)
    (by decide) (by decide) (by decide) (by decide)

/-- No other task is Ready: the handler returns with r4-r6 overwritten. -/
theorem run_pendSV_none (l : TaskLayout) (c : Cpu)
    (h : nextReady l c.mem (l.currentTask c.mem) numTcbs 0 = none) :
    exists c', run (pendSVHandler l) pendSVFuel 0 c = some (c.regs .lr, c') ∧
      c'.mem = c.mem ∧ c'.psp = c.psp ∧ highRegs.map c'.regs = highRegs.map c.regs ∧
      (c'.regs .r4, c'.regs .r5) = scanResidue l c.mem (l.currentTask c.mem) numTcbs 0
        (c.regs .r4, c.regs .r5) ∧
      c'.regs .r6 = 5#32 := by
  rcases steps_enter l c with ⟨c1, henter, hr2, hr6, hregs, hpsp, hmem⟩
  rcases steps_scan l (n := numTcbs) (by decide) rfl hr6 with ⟨k, c2, hk, hscan, hcase⟩
  rw [hmem, hr2, h] at hcase
  rcases hcase with ⟨hsteps, hresidue, hr62⟩
  have hlr : c2.regs .lr = c.regs .lr := by
    rw [hscan.regs .lr (by decide) (by decide) (by decide) (by decide),
      hregs .lr (by decide) (by decide) (by decide)]
  refine ⟨c2, ?_, hscan.mem.trans hmem, hscan.psp.trans hpsp, ?_, ?_, hr62⟩
  · have hfuel : pendSVFuel = 128 - k - 3 - 1 + 1 + (k + 3) := by
      unfold numTcbs at hk
      unfold pendSVFuel
      lia
    rw [hfuel, henter.trans hsteps, run,
      show (pendSVHandler l)[15]? = some (.bx .lr) from rfl]
    simp only [exec, hlr]
  · apply map_highRegs_congr
    intro r h1 h2 h3 h4 h5 h6
    rw [hscan.regs r h3 h4 h5 h6, hregs r h1 h2 h6]
  · rw [hresidue, hregs .r4 (by decide) (by decide) (by decide),
      hregs .r5 (by decide) (by decide) (by decide)]

/-- Memory when task `j` has been found and the current task saved. -/
def switchMem (l : TaskLayout) (c : Cpu) (j : Nat) : Mem :=
  (((c.mem.writeWords (c.psp - 32#32)
    (16#32 :: 1#32 :: BitVec.ofNat 32 j :: highRegs.map c.regs)).write32
    (l.field (l.currentTask c.mem) 0#32) (c.psp - 32#32)).write32
    (l.field (l.currentTask c.mem) 8#32) 1#32).write32 (l.current + 0#32)
    (BitVec.ofNat 32 j)

/-- The counter of task `j` when it is resumed. -/
def switchCount (l : TaskLayout) (c : Cpu) (j : Nat) : Word :=
  ((switchMem l c j).write32 (l.field (BitVec.ofNat 32 j) 8#32) 2#32).read32
    (l.field (BitVec.ofNat 32 j) 12#32) + 1#32

/-- Task `j` is Ready: the handler switches to it. -/
theorem run_pendSV_some (l : TaskLayout) (c : Cpu) {j : Nat}
    (h : nextReady l c.mem (l.currentTask c.mem) numTcbs 0 = some j) :
    exists c', run (pendSVHandler l) pendSVFuel 0 c = some (excReturn, c') ∧
      c'.mem = ((switchMem l c j).write32 (l.field (BitVec.ofNat 32 j) 8#32) 2#32).write32
        (l.field (BitVec.ofNat 32 j) 12#32) (switchCount l c j) ∧
      c'.psp = l.sp (switchMem l c j) j + 32#32 ∧
      c'.regs .r5 = 2#32 ∧ c'.regs .r6 = switchCount l c j ∧
      exists x y, (switchMem l c j).readWords (l.sp (switchMem l c j) j) 8 =
        c'.regs .r4 :: x :: y :: highRegs.map c'.regs := by
  rcases steps_enter l c with ⟨c1, henter, hr2, hr6, hregs, hpsp, hmem⟩
  rcases steps_scan l (n := numTcbs) (by decide) rfl hr6 with ⟨k, c2, hk, hscan, hcase⟩
  rw [hmem, hr2, h] at hcase
  rcases hcase with ⟨hsteps, hr42, hr52, hr62⟩
  have hr22 : c2.regs .r2 = l.currentTask c.mem := by
    rw [hscan.regs .r2 (by decide) (by decide) (by decide) (by decide), hr2]
  have hhigh : highRegs.map c2.regs = highRegs.map c.regs := by
    apply map_highRegs_congr
    intro r h1 h2 h3 h4 h5 h6
    rw [hscan.regs r h3 h4 h5 h6, hregs r h1 h2 h6]
  have hsavedRegs : savedRegs.map c2.regs =
      16#32 :: 1#32 :: BitVec.ofNat 32 j :: highRegs.map c.regs := by
    rw [← hr42, ← hr52, ← hr62, ← hhigh]
    rfl
  rcases steps_save l c2 with ⟨c3, hsave, hmem3, hr63⟩
  have hmem3' : c3.mem = switchMem l c j := by
    rw [hmem3, savedMem, hsavedRegs, hr22, hr62, hscan.psp, hscan.mem, hpsp, hmem]
    rfl
  rcases run_restore l c3 with ⟨c4, hrestore, hmem4, hpsp4, hr54, hr64, hframe⟩
  simp only [resumedMem, resumedSp, resumedCount, hr63, hr62, hmem3'] at *
  refine ⟨c4, ?_, hmem4, hpsp4, hr54, hr64, hframe⟩
  have hfuel : pendSVFuel = 128 - k - 3 - 11 - 14 + 14 + (11 + (k + 3)) := by
    unfold numTcbs at hk
    unfold pendSVFuel
    lia
  rw [hfuel, (henter.trans hsteps).trans hsave, hrestore]

end Kernel
end HolyRust
