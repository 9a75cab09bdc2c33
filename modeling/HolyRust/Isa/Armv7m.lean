import HolyRust.Foundation.Memory

/-!
# ARMv7-M handler code

The part of ARMv7-M that exception handlers are written in: moves, word loads
and stores, multiple-register transfers, compares and branches.  Flags are the
three that the branches read.  Exception entry stacks eight registers on the
process stack, an exception return unstacks them.
-/

namespace HolyRust
namespace Isa

open Foundation

/-- The core registers a handler names. -/
inductive Reg where
  | r0 | r1 | r2 | r3 | r4 | r5 | r6 | r7 | r8 | r9 | r10 | r11 | r12 | lr
deriving DecidableEq, Repr

/-- Register file, process stack pointer, flags and memory.  `pc` and `xpsr` are
those of the interrupted thread. -/
structure Cpu where
  regs : Reg -> BitVec 32
  psp : BitVec 32
  pc : BitVec 32
  xpsr : BitVec 32
  n : Bool
  z : Bool
  v : Bool
  mem : Memory 32

namespace Cpu

def set (c : Cpu) (r : Reg) (x : BitVec 32) : Cpu :=
  { c with regs := fun r' => if r' = r then x else c.regs r' }

/-- N and Z from a result. -/
def flagsOf (c : Cpu) (x : BitVec 32) : Cpu :=
  { c with n := x.msb, z := x == 0#32 }

/-- All three flags of the subtraction `x - y`. -/
def compare (c : Cpu) (x y : BitVec 32) : Cpu :=
  { c with
    n := (x - y).msb
    z := x - y == 0#32
    v := x.msb != y.msb && (x - y).msb != x.msb }

/-- The flags of the sum `x + y`. -/
def flagsOfSum (c : Cpu) (x y : BitVec 32) : Cpu :=
  { c with
    n := (x + y).msb
    z := x + y == 0#32
    v := x.msb == y.msb && (x + y).msb != x.msb }

@[simp] theorem set_regs (c : Cpu) (r r' : Reg) (x : BitVec 32) :
    (c.set r x).regs r' = if r' = r then x else c.regs r' := rfl

@[simp] theorem set_psp (c : Cpu) (r : Reg) (x : BitVec 32) :
    (c.set r x).psp = c.psp := rfl

@[simp] theorem set_mem (c : Cpu) (r : Reg) (x : BitVec 32) :
    (c.set r x).mem = c.mem := rfl

@[simp] theorem flagsOf_regs (c : Cpu) (x : BitVec 32) : (c.flagsOf x).regs = c.regs := rfl

@[simp] theorem flagsOf_psp (c : Cpu) (x : BitVec 32) : (c.flagsOf x).psp = c.psp := rfl

@[simp] theorem flagsOf_mem (c : Cpu) (x : BitVec 32) : (c.flagsOf x).mem = c.mem := rfl

@[simp] theorem flagsOfSum_regs (c : Cpu) (x y : BitVec 32) :
    (c.flagsOfSum x y).regs = c.regs := rfl

@[simp] theorem flagsOfSum_psp (c : Cpu) (x y : BitVec 32) :
    (c.flagsOfSum x y).psp = c.psp := rfl

@[simp] theorem flagsOfSum_mem (c : Cpu) (x y : BitVec 32) :
    (c.flagsOfSum x y).mem = c.mem := rfl

@[simp] theorem compare_regs (c : Cpu) (x y : BitVec 32) : (c.compare x y).regs = c.regs := rfl

@[simp] theorem compare_psp (c : Cpu) (x y : BitVec 32) : (c.compare x y).psp = c.psp := rfl

@[simp] theorem compare_mem (c : Cpu) (x y : BitVec 32) : (c.compare x y).mem = c.mem := rfl

end Cpu

/-!
## Instructions

Branch targets are positions in the handler's instruction list.
-/

inductive Instr where
  | ldrConst (d : Reg) (x : BitVec 32)
  | ldr (d n : Reg) (offset : BitVec 32)
  | str (d n : Reg) (offset : BitVec 32)
  | movs (d : Reg) (x : BitVec 32)
  | lsls (d m : Reg) (amount : Nat)
  | adds (d n m : Reg)
  | addsImm (d n : Reg) (x : BitVec 32)
  | cmp (n m : Reg)
  | cmpImm (n : Reg) (x : BitVec 32)
  | mrsPsp (d : Reg)
  | msrPsp (n : Reg)
  | stmdb (n : Reg) (rs : List Reg)
  | ldmia (n : Reg) (rs : List Reg)
  | beq (target : Nat)
  | blt (target : Nat)
  | bx (n : Reg)
deriving DecidableEq, Repr

/-- Assign registers from left to right. -/
def loadRegs : List Reg -> List (BitVec 32) -> Cpu -> Cpu
  | r :: rs, x :: xs, c => loadRegs rs xs (c.set r x)
  | _, _, c => c

/-- Where control is after one instruction. -/
inductive Next where
  | fall (c : Cpu)
  | jump (target : Nat) (c : Cpu)
  | leave (address : BitVec 32) (c : Cpu)

def exec : Instr -> Cpu -> Next
  | .ldrConst d x, c => .fall (c.set d x)
  | .ldr d n offset, c => .fall (c.set d (c.mem.read32 (c.regs n + offset)))
  | .str d n offset, c =>
      .fall { c with mem := c.mem.write32 (c.regs n + offset) (c.regs d) }
  | .movs d x, c => .fall ((c.flagsOf x).set d x)
  | .lsls d m amount, c =>
      .fall ((c.flagsOf (c.regs m <<< amount)).set d (c.regs m <<< amount))
  | .adds d n m, c => .fall ((c.flagsOfSum (c.regs n) (c.regs m)).set d (c.regs n + c.regs m))
  | .addsImm d n x, c => .fall ((c.flagsOfSum (c.regs n) x).set d (c.regs n + x))
  | .cmp n m, c => .fall (c.compare (c.regs n) (c.regs m))
  | .cmpImm n x, c => .fall (c.compare (c.regs n) x)
  | .mrsPsp d, c => .fall (c.set d c.psp)
  | .msrPsp n, c => .fall { c with psp := c.regs n }
  | .stmdb n rs, c =>
      let start := c.regs n - BitVec.ofNat 32 (4 * rs.length)
      .fall ({ c with mem := c.mem.writeWords start (rs.map c.regs) }.set n start)
  | .ldmia n rs, c =>
      let xs := c.mem.readWords (c.regs n) rs.length
      .fall (loadRegs rs xs (c.set n (c.regs n + BitVec.ofNat 32 (4 * rs.length))))
  | .beq target, c => if c.z then .jump target c else .fall c
  | .blt target, c => if c.n != c.v then .jump target c else .fall c
  | .bx n, c => .leave (c.regs n) c

/-- Run from position `pos`; `none` when the fuel ends or control falls off the code. -/
def run (code : List Instr) : Nat -> Nat -> Cpu -> Option (BitVec 32 × Cpu)
  | 0, _, _ => none
  | fuel + 1, pos, c =>
      match code[pos]? with
      | none => none
      | some i =>
          match exec i c with
          | .fall c' => run code fuel (pos + 1) c'
          | .jump target c' => run code fuel target c'
          | .leave address c' => some (address, c')

/-- Any run from `(pos, c)` reaches `(pos', c')` after exactly `k` instructions. -/
def Steps (code : List Instr) (k pos : Nat) (c : Cpu) (pos' : Nat) (c' : Cpu) : Prop :=
  forall fuel, run code (fuel + k) pos c = run code fuel pos' c'

theorem Steps.trans {code : List Instr} {k k' pos pos' pos'' : Nat} {c c' c'' : Cpu}
    (h : Steps code k pos c pos' c') (h' : Steps code k' pos' c' pos'' c'') :
    Steps code (k' + k) pos c pos'' c'' := by
  intro fuel
  rw [← Nat.add_assoc, h, h']

/-- Instructions that neither branch nor leave. -/
def Instr.linear : Instr -> Bool
  | .beq _ => false
  | .blt _ => false
  | .bx _ => false
  | _ => true

/-- The registers and memory after an instruction, wherever control goes. -/
def effect (i : Instr) (c : Cpu) : Cpu :=
  match exec i c with
  | .fall c' => c'
  | .jump _ c' => c'
  | .leave _ c' => c'

def execBlock : List Instr -> Cpu -> Cpu
  | [], c => c
  | i :: is, c => execBlock is (effect i c)

theorem exec_of_linear {i : Instr} (h : i.linear = true) (c : Cpu) :
    exec i c = .fall (effect i c) := by
  cases i <;> first | rfl | cases h

/-- The `n` instructions from `pos` on, when none of them is a branch. -/
theorem steps_block {code : List Instr} {n pos : Nat} (c : Cpu)
    (hlen : ((code.drop pos).take n).length = n)
    (h : ((code.drop pos).take n).all Instr.linear = true) :
    Steps code n pos c (pos + n) (execBlock ((code.drop pos).take n) c) := by
  induction n generalizing pos c with
  | zero =>
      intro fuel
      simp [execBlock]
  | succ n ih =>
      cases hdrop : code.drop pos with
      | nil => simp [hdrop] at hlen
      | cons i rest =>
          have hi : code[pos]? = some i := by
            rw [← List.head?_drop, hdrop]
            rfl
          have hrest : code.drop (pos + 1) = rest := by
            rw [← List.tail_drop, hdrop]
            rfl
          rw [hdrop, List.take_succ_cons, List.all_cons, Bool.and_eq_true] at h
          rw [hdrop, List.take_succ_cons, List.length_cons] at hlen
          have hfirst : Steps code 1 pos c (pos + 1) (effect i c) := by
            intro fuel
            rw [run, hi]
            simp only [exec_of_linear h.left]
          rw [← hrest] at h hlen
          have htail := @ih (pos + 1) (effect i c) (by lia) h.right
          rw [hrest] at htail
          rw [List.take_succ_cons, execBlock, show pos + (n + 1) = pos + 1 + n by lia]
          exact hfirst.trans htail

theorem steps_beq {code : List Instr} {pos target : Nat} {c : Cpu}
    (hcode : code[pos]? = some (.beq target)) :
    Steps code 1 pos c (if c.z then target else pos + 1) c := by
  intro fuel
  rw [run, hcode]
  cases hz : c.z <;> simp [exec, hz]

theorem steps_blt {code : List Instr} {pos target : Nat} {c : Cpu}
    (hcode : code[pos]? = some (.blt target)) :
    Steps code 1 pos c (if c.n != c.v then target else pos + 1) c := by
  intro fuel
  rw [run, hcode]
  cases hn : c.n <;> cases hv : c.v <;> simp [exec, hn, hv]

/-!
## Exceptions
-/

/-- `EXC_RETURN` to thread mode on the process stack. -/
def excReturn : BitVec 32 := 0xFFFFFFFD#32

/-- The registers the hardware stacks, in memory order. -/
def stackedRegs : List Reg := [.r0, .r1, .r2, .r3, .r12, .lr]

def exceptionEntry (c : Cpu) : Cpu :=
  { (c.set .lr excReturn) with
    mem := c.mem.writeWords (c.psp - 32#32) (stackedRegs.map c.regs ++ [c.pc, c.xpsr])
    psp := c.psp - 32#32 }

def exceptionReturn (c : Cpu) : Cpu :=
  { loadRegs stackedRegs (c.mem.readWords c.psp 6) c with
    pc := c.mem.read32 (c.psp + 24#32)
    xpsr := c.mem.read32 (c.psp + 28#32)
    psp := c.psp + 32#32 }

/-- One handler activation, from thread mode back to thread mode. -/
def activate (code : List Instr) (fuel : Nat) (c : Cpu) : Option Cpu :=
  match run code fuel 0 (exceptionEntry c) with
  | some (address, c') => if address = excReturn then some (exceptionReturn c') else none
  | none => none

/-- A handler that branches to `EXC_RETURN` is left by an exception return. -/
theorem activate_of_run {code : List Instr} {fuel : Nat} {c c' : Cpu}
    (h : run code fuel 0 (exceptionEntry c) = some (excReturn, c')) :
    activate code fuel c = some (exceptionReturn c') := by
  unfold activate
  rw [h]
  exact if_pos rfl

end Isa
end HolyRust
