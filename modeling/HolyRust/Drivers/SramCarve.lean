import HolyRust.Drivers.Pstore
import Mathlib.Order.CompletePartialOrder
import Mathlib.Order.Interval.Set.Disjoint

/-!
# The carve of SRAM

The symbols that `memory-layout.x` computes from the `sram` region, with its
link-time assertions as fields.  The initial stack pointer in the vector table
is `_stack_top`, and the program store is the 4 KiB right below it.
-/

namespace HolyRust
namespace Drivers

open Compilation

/-- The `sram` region of a memory map. -/
structure SramRegion where
  origin : Nat
  length : Nat

namespace SramRegion

variable (r : SramRegion)

def stackTop : Nat := r.origin + r.length

def pstoreTop : Nat := r.stackTop

def pstoreBase : Nat := r.stackTop - 4096

def taskStacksTop : Nat := r.pstoreBase

def taskStacksBase : Nat := r.taskStacksTop - 2048

def heapPoolBase : Nat := r.taskStacksBase - 8192

/-- `_task_stack_0` to `_task_stack_3`: the ceiling of each stack. -/
def taskStack (i : Nat) : Nat := r.taskStacksTop - i * 512

end SramRegion

/-- A region and an `__ebss` that pass the assertions. -/
structure CarvedSram extends SramRegion where
  ebss : Nat
  pstore_fits : 8192 ≤ length
  carve_fits : 16384 ≤ length
  /-- The linker subtracts and compares unsigned 64-bit values. -/
  slack : 4096 ≤ (toSramRegion.heapPoolBase + 2 ^ 64 - ebss) % 2 ^ 64

namespace CarvedSram

variable (l : CarvedSram)

/-!
## Regions
-/

/-- The bytes in use at main-stack depth `d`. -/
def stackBytes (d : Nat) : Set Nat := Set.Ico (l.stackTop - d) l.stackTop

def pstoreWindow : Set Nat := Set.Ico l.pstoreBase l.pstoreTop

def taskStackBytes (i : Nat) : Set Nat := Set.Ico (l.taskStack i - 512) (l.taskStack i)

def heapPool : Set Nat := Set.Ico l.heapPoolBase l.taskStacksBase

structure Separated (d : Nat) : Prop where
  pstore : Disjoint (l.stackBytes d) l.pstoreWindow
  tasks : forall i, i < 4 -> Disjoint (l.stackBytes d) (l.taskStackBytes i)
  heap : Disjoint (l.stackBytes d) l.heapPool

/-- Up to 4 KiB deep, the main stack lies inside the program store. -/
theorem stackBytes_subset_pstoreWindow {d : Nat} (hd : d ≤ 4096) :
    l.stackBytes d ⊆ l.pstoreWindow := by
  intro b hb
  obtain ⟨hlo, hhi⟩ := hb
  constructor
  · unfold SramRegion.pstoreBase
    lia
  · exact hhi

/-- The regions below the program store are out of its reach. -/
theorem stackBytes_above {d b : Nat} (hd : d ≤ 4096) (hb : b ∈ l.stackBytes d) :
    l.pstoreBase ≤ b :=
  (l.stackBytes_subset_pstoreWindow hd hb).left

theorem stackBytes_disjoint_taskStackBytes {d i : Nat} (hd : d ≤ 4096) :
    Disjoint (l.stackBytes d) (l.taskStackBytes i) := by
  rw [Set.disjoint_left]
  intro b hb htask
  have habove := l.stackBytes_above hd hb
  have hceiling : l.taskStack i ≤ l.pstoreBase := Nat.sub_le _ _
  have hbelow : b < l.taskStack i := htask.right
  exact Nat.not_lt.mpr habove (Nat.lt_of_lt_of_le hbelow hceiling)

theorem stackBytes_disjoint_heapPool {d : Nat} (hd : d ≤ 4096) :
    Disjoint (l.stackBytes d) l.heapPool := by
  rw [Set.disjoint_left]
  intro b hb hheap
  have habove := l.stackBytes_above hd hb
  have hceiling : l.taskStacksBase ≤ l.pstoreBase := Nat.sub_le _ _
  have hbelow : b < l.taskStacksBase := hheap.right
  exact Nat.not_lt.mpr habove (Nat.lt_of_lt_of_le hbelow hceiling)

theorem stackBytes_nonempty {d : Nat} (hd : 0 < d) : (l.stackBytes d).Nonempty := by
  have hlength := l.pstore_fits
  refine ⟨l.stackTop - 1, ?_, ?_⟩
  · unfold SramRegion.stackTop
    lia
  · unfold SramRegion.stackTop
    lia

/-- At no depth are the stack and the program store apart. -/
theorem not_separated {d : Nat} (hpos : 0 < d) (hd : d ≤ 4096) : ¬l.Separated d := by
  intro hsep
  obtain ⟨b, hb⟩ := l.stackBytes_nonempty hpos
  have hpstore := l.stackBytes_subset_pstoreWindow hd hb
  exact Set.disjoint_left.mp hsep.pstore hb hpstore

end CarvedSram

/-!
## The ARM memory map
-/

/-- `sram` in `memory.x`. -/
def armRegion : SramRegion where
  origin := 0x20003000
  length := 52 * 1024

/-- The window that `pstore.rs` uses. -/
theorem armRegion_pstore :
    armRegion.pstoreBase = pstoreBase ∧ armRegion.pstoreTop = pstoreTop := by
  decide

/-- A `.bss` that ends 4 KiB or more below the heap pool. -/
def armSram (ebss : Nat) (h : ebss + 4096 ≤ 0x2000C800) : CarvedSram where
  toSramRegion := armRegion
  ebss := ebss
  pstore_fits := by decide
  carve_fits := by decide
  slack := by
    have hbase : armRegion.heapPoolBase = 0x2000C800 := by decide
    rw [hbase]
    lia

theorem mem_stackBytes_armSram {ebss d b : Nat} {h : ebss + 4096 ≤ 0x2000C800} :
    b ∈ (armSram ebss h).stackBytes d ↔ pstoreTop - d ≤ b ∧ b < pstoreTop := by
  rw [← armRegion_pstore.right]
  exact Set.mem_Ico

/-- At this depth the stack ends above the used part of every slot. -/
theorem save_keeps_shallow_stack {ebss d idx : Nat} {h : ebss + 4096 ≤ 0x2000C800}
    {name : List Byte} {words : List Word} {mem mem' : Mem} (hidx : idx < maxPrograms)
    (hlen : words.length ≤ fnBodyWords) (hd : d ≤ 2005)
    (hsave : save idx name words mem = .ok mem') :
    forall b, b ∈ (armSram ebss h).stackBytes d ->
      mem' (BitVec.ofNat 32 b) = mem (BitVec.ofNat 32 b) := by
  intro b hb
  obtain ⟨hlo, hhi⟩ := mem_stackBytes_armSram.mp hb
  have htop : pstoreTop = 0x20010000 := rfl
  have hbase : pstoreBase = 0x2000F000 := rfl
  have hmax : maxPrograms = 8 := rfl
  have hbody : fnBodyWords = 32 := rfl
  have hstart : slotStart idx ≤ pstoreBase + 277 * 7 := by
    unfold slotStart
    lia
  exact save_outside hsave hidx (by lia) (by lia)

theorem not_separated_firstWord : ¬(armSram 0x20004000 (by decide)).Separated 4 :=
  CarvedSram.not_separated _ (by decide) (by decide)

/-- A frame 2 KiB deep: a save into the last slot changes one of its bytes. -/
theorem not_separated_lastSlot :
    ¬(armSram 0x20004000 (by decide)).Separated 2048 ∧
      exists mem', save 7 (ascii "f") (List.replicate 32 1#32) (fun _ => 0#8) = .ok mem' ∧
        0x2000F827 ∈ (armSram 0x20004000 (by decide)).stackBytes 2048 ∧
        mem' (BitVec.ofNat 32 0x2000F827) ≠ 0#8 := by
  constructor
  · intro hsep
    have hstack : 0x2000F827 ∈ (armSram 0x20004000 (by decide)).stackBytes 2048 :=
      mem_stackBytes_armSram.mpr (by decide)
    have hstore := CarvedSram.stackBytes_subset_pstoreWindow _ (Nat.le_of_ble_eq_true rfl) hstack
    exact Set.disjoint_left.mp hsep.pstore hstack hstore
  · refine ⟨_, rfl, mem_stackBytes_armSram.mpr (by decide), ?_⟩
    decide +kernel

end Drivers
end HolyRust
