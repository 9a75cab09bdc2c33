import HolyRust.Kernel.RoundRobin

/-!
# Suspended tasks

A task is suspended by a frame of the hardware and, below it, one of the handler.  A spawn
writes the first by hand, at the top of the task's stack.  The activation that selects the
task returns through the frame: to the instruction where the task was preempted, or to the
body of a task that never ran, whatever runs in between.
-/

namespace HolyRust
namespace Kernel

open Foundation
open Isa

/-- `NUM_TASKS`. -/
def numTasks : Nat := 4

/-- Code addresses of `task_body_1` and `task_body_2`. -/
structure TaskBodies where
  body1 : Word
  body2 : Word

/-- `task_stack_top`: an index without a stack gets the first one. -/
def taskStackTop (l : TaskLayout) : Nat -> Word
  | 1 => BitVec.ofNat 32 (l.stackTop 1)
  | 2 => BitVec.ofNat 32 (l.stackTop 2)
  | 3 => BitVec.ofNat 32 (l.stackTop 3)
  | _ => BitVec.ofNat 32 (l.stackTop 1)

/-- The body of a task, by its index. -/
def bodyOf (bodies : TaskBodies) (idx : Nat) : Word :=
  if idx = 0 then bodies.body1 else bodies.body2

/-- The stores of a spawn to the stack, in order. -/
def launchStores (sp body : Word) : List (Word × Word) :=
  [(sp - 4#32, 0x01000000#32), (sp - 8#32, body ||| 1#32), (sp - 12#32, 0#32),
    (sp - 16#32, 0#32), (sp - 20#32, 0#32), (sp - 24#32, 0#32), (sp - 28#32, 0#32),
    (sp - 32#32, 0#32)]

/-- The stores of a spawn to the control block of task `j`. -/
def blockStores (l : TaskLayout) (j : Nat) (sp body : Word) : List (Word × Word) :=
  [(l.field (BitVec.ofNat 32 j) 0#32, sp - 64#32), (l.field (BitVec.ofNat 32 j) 4#32, body),
    (l.field (BitVec.ofNat 32 j) 8#32, 1#32)]

def storeAll (mem : Mem) (stores : List (Word × Word)) : Mem :=
  stores.foldl (fun mem store => mem.write32 store.1 store.2) mem

/-- What `spawn_counter_task` and `spawn_jit_task` have in common, which is all of it. -/
def spawnTask (l : TaskLayout) (bodies : TaskBodies) (idx : Nat) (mem : Mem) : Bool × Mem :=
  if numTasks - 1 ≤ idx then (false, mem)
  else
    let sp := taskStackTop l (idx + 1)
    (true, storeAll mem (launchStores sp (bodyOf bodies idx) ++
      blockStores l (idx + 1) sp (bodyOf bodies idx)))

def spawnCounterTask (l : TaskLayout) (bodies : TaskBodies) (idx : Nat) (mem : Mem) :
    Bool × Mem :=
  spawnTask l bodies idx mem

/-- The runner of the slot's stream is not there yet; the counter loops stand in for it. -/
def spawnJitTask (l : TaskLayout) (bodies : TaskBodies) (idx : Nat) (mem : Mem) : Bool × Mem :=
  spawnTask l bodies idx mem

/-!
## Stores
-/

theorem read32_storeAll_of_apart {stores : List (Word × Word)} {b : Word}
    (h : forall store, store ∈ stores -> Memory.Apart store.1 b) (mem : Mem) :
    (storeAll mem stores).read32 b = mem.read32 b := by
  induction stores generalizing mem with
  | nil => rfl
  | cons store stores ih =>
      show (storeAll (mem.write32 store.1 store.2) stores).read32 b = _
      rw [ih (fun other hother => h other (List.mem_cons_of_mem _ hother)),
        Memory.read32_write32_of_apart _ _ (h store List.mem_cons_self)]

/-- A store that no later one overlaps is what is read back. -/
theorem read32_storeAll {stores : List (Word × Word)} {store : Word × Word}
    (hpairs : stores.Pairwise fun s t => Memory.Apart t.1 s.1) (hmem : store ∈ stores)
    (mem : Mem) : (storeAll mem stores).read32 store.1 = store.2 := by
  induction stores generalizing mem with
  | nil => cases hmem
  | cons first stores ih =>
      rw [List.pairwise_cons] at hpairs
      rcases List.mem_cons.mp hmem with rfl | hlater
      · show (storeAll (mem.write32 store.1 store.2) stores).read32 store.1 = _
        rw [read32_storeAll_of_apart hpairs.left, Memory.read32_write32 _ _ _ (by decide)]
      · exact ih hpairs.right hlater _

section Launch

variable {l : TaskLayout} {j : Nat} {body : Word}

/-- The stack of task `j` has room for the two frames of a switch. -/
def Roomy (l : TaskLayout) (j : Nat) : Prop := l.stackBase j + 64 ≤ l.stackTop j

theorem taskStackTop_toNat (l : TaskLayout) (idx : Nat) (h : idx < numTasks - 1) :
    taskStackTop l (idx + 1) = BitVec.ofNat 32 (l.stackTop (idx + 1)) := by
  have hcases : idx = 0 ∨ idx = 1 ∨ idx = 2 := by
    unfold numTasks at h
    lia
  rcases hcases with rfl | rfl | rfl <;> rfl

theorem toNat_below_top (hroomy : Roomy l j) {n : Nat} (hn : n ≤ 64) :
    (BitVec.ofNat 32 (l.stackTop j) - BitVec.ofNat 32 n).toNat = l.stackTop j - n := by
  have hstack := l.stack_fits j
  unfold Roomy at hroomy
  have htop : (BitVec.ofNat 32 (l.stackTop j)).toNat = l.stackTop j := by
    rw [BitVec.toNat_ofNat, Nat.mod_eq_of_lt hstack]
  rw [toNat_sub_of_le (by lia), htop]

/-- All stores of a spawn. -/
def spawnStores (l : TaskLayout) (j : Nat) (body : Word) : List (Word × Word) :=
  launchStores (BitVec.ofNat 32 (l.stackTop j)) body ++
    blockStores l j (BitVec.ofNat 32 (l.stackTop j)) body

/-- How far below the top the words of the frame are. -/
def launchOffsets : List Nat := [4, 8, 12, 16, 20, 24, 28, 32]

theorem launchOffsets_bounds {n : Nat} (h : n ∈ launchOffsets) : 4 ≤ n ∧ n ≤ 32 := by
  revert n
  decide

theorem exists_offset_of_mem_launchStores {sp : Word} {store : Word × Word}
    (h : store ∈ launchStores sp body) :
    exists n, n ∈ launchOffsets ∧ store.1 = sp - BitVec.ofNat 32 n := by
  have hfst : store.1 ∈ launchOffsets.map fun n => sp - BitVec.ofNat 32 n :=
    List.mem_map_of_mem h
  obtain ⟨n, hn, heq⟩ := List.mem_map.mp hfst
  exact ⟨n, hn, heq.symm⟩

theorem exists_offset_of_mem_blockStores {sp : Word} {store : Word × Word}
    (h : store ∈ blockStores l j sp body) :
    exists offset : Word, offset.toNat ≤ 8 ∧ store.1 = l.field (BitVec.ofNat 32 j) offset := by
  simp only [blockStores, List.mem_cons, List.not_mem_nil, or_false] at h
  rcases h with rfl | rfl | rfl
  · exact ⟨0#32, by decide, rfl⟩
  · exact ⟨4#32, by decide, rfl⟩
  · exact ⟨8#32, by decide, rfl⟩

theorem launchStores_apart (hroomy : Roomy l j) :
    (launchStores (BitVec.ofNat 32 (l.stackTop j)) body).Pairwise fun s t =>
      Memory.Apart t.1 s.1 := by
  have hoffsets : launchOffsets.Pairwise fun m n => m + 4 ≤ n := by decide
  have hapart : (launchOffsets.map fun n => BitVec.ofNat 32 (l.stackTop j) -
      BitVec.ofNat 32 n).Pairwise fun a b => Memory.Apart b a := by
    rw [List.pairwise_map]
    refine hoffsets.imp_of_mem fun {m n} hm hn hmn => ?_
    have hbounds := launchOffsets_bounds hm
    have hbounds' := launchOffsets_bounds hn
    have hstack := l.stack_fits j
    have hroom : l.stackBase j + 64 ≤ l.stackTop j := hroomy
    apply Memory.apart_of_toNat
    all_goals
      rw [toNat_below_top hroomy (by lia)]
      try rw [toNat_below_top hroomy (by lia)]
      lia
  exact (List.pairwise_map (f := Prod.fst) (l := launchStores _ body)).mp hapart

theorem blockStores_apart (hj : j < numTcbs) (sp body : Word) :
    (blockStores l j sp body).Pairwise fun s t => Memory.Apart t.1 s.1 := by
  have hfields : ([0#32, 4#32, 8#32] : List Word).Pairwise fun a b =>
      a.toNat + 4 ≤ b.toNat ∧ a.toNat ≤ 12 ∧ b.toNat ≤ 12 := by decide
  have hapart : (([0#32, 4#32, 8#32] : List Word).map fun offset =>
      l.field (BitVec.ofNat 32 j) offset).Pairwise fun a b => Memory.Apart b a := by
    rw [List.pairwise_map]
    refine hfields.imp fun {a b} h => ?_
    exact apart_field l hj hj h.right.right h.right.left (by lia)
  exact (List.pairwise_map (f := Prod.fst) (l := blockStores l j sp body)).mp hapart

/-- No two stores of a spawn overlap. -/
theorem spawnStores_apart (hj : j < numTcbs) (hroomy : Roomy l j) :
    (spawnStores l j body).Pairwise fun s t => Memory.Apart t.1 s.1 := by
  unfold spawnStores
  rw [List.pairwise_append]
  refine ⟨launchStores_apart hroomy, blockStores_apart hj _ _, fun s hs t ht => ?_⟩
  obtain ⟨n, hn, hs⟩ := exists_offset_of_mem_launchStores hs
  obtain ⟨offset, hoffset, ht⟩ := exists_offset_of_mem_blockStores ht
  have hbounds := launchOffsets_bounds hn
  have hroom : l.stackBase j + 64 ≤ l.stackTop j := hroomy
  have htop := toNat_below_top hroomy (n := n) (by lia)
  rw [hs, ht]
  exact apart_field_stack l j hj (by lia) (by lia) (by lia)

/-- A spawn changes words of the task's own stack and control block, only. -/
theorem read32_spawn (hroomy : Roomy l j) {b : Word} (hfits : b.toNat + 4 ≤ 2 ^ 32)
    (hstack : b.toNat + 4 ≤ l.stackBase j ∨ l.stackTop j ≤ b.toNat)
    (hfield : forall offset : Word, offset.toNat ≤ 8 ->
      Memory.Apart (l.field (BitVec.ofNat 32 j) offset) b) (mem : Mem) :
    (storeAll mem (spawnStores l j body)).read32 b = mem.read32 b := by
  apply read32_storeAll_of_apart
  intro store hstore
  rcases List.mem_append.mp hstore with hframe | hblock
  · obtain ⟨n, hn, hstore⟩ := exists_offset_of_mem_launchStores hframe
    have hbounds := launchOffsets_bounds hn
    have hroom : l.stackBase j + 64 ≤ l.stackTop j := hroomy
    have htop := toNat_below_top hroomy (n := n) (by lia)
    have hstackFits := l.stack_fits j
    rw [hstore]
    exact Memory.apart_of_toNat (by lia) hfits (by lia)
  · obtain ⟨offset, hoffset, hstore⟩ := exists_offset_of_mem_blockStores hblock
    rw [hstore]
    exact hfield offset hoffset

/-!
## Frames
-/

end Launch

/-- What the hardware stacks, and the stack pointer it leaves behind when it unstacks. -/
@[ext] structure Frame where
  stacked : List Word
  pc : Word
  xpsr : Word
  psp : Word
  length_stacked : stacked.length = 6

namespace Frame

def words (f : Frame) : List Word := f.stacked ++ [f.pc, f.xpsr]

def ofCpu (c : Cpu) : Frame where
  stacked := stackedRegs.map c.regs
  pc := c.pc
  xpsr := c.xpsr
  psp := c.psp
  length_stacked := rfl

/-- The start of `body` in Thumb state, with cleared registers, on an empty stack. -/
def entry (l : TaskLayout) (j : Nat) (body : Word) : Frame where
  stacked := List.replicate 6 0#32
  pc := body ||| 1#32
  xpsr := 0x01000000#32
  psp := BitVec.ofNat 32 (l.stackTop j)
  length_stacked := rfl

end Frame

/-- Task `j` is suspended by `f`: the frame is in its stack, above that of the handler. -/
structure HoldsFrame (l : TaskLayout) (mem : Mem) (j : Nat) (f : Frame) : Prop where
  bounds : l.stackBase j + 64 ≤ f.psp.toNat ∧ f.psp.toNat ≤ l.stackTop j
  sp : l.sp mem j = f.psp - 64#32
  frame : mem.readWords (f.psp - 32#32) 8 = f.words

section Frames

variable {l : TaskLayout} {j : Nat} {f : Frame}

theorem holdsFrame_congr {mem mem' : Mem} (hsp : l.sp mem' j = l.sp mem j)
    (hframe : mem'.readWords (f.psp - 32#32) 8 = mem.readWords (f.psp - 32#32) 8)
    (h : HoldsFrame l mem j f) : HoldsFrame l mem' j f where
  bounds := h.bounds
  sp := hsp.trans h.sp
  frame := hframe.trans h.frame

/-- Where the words of the frame are. -/
theorem HoldsFrame.within {mem : Mem} (h : HoldsFrame l mem j f) :
    l.stackBase j ≤ (f.psp - 32#32).toNat ∧ (f.psp - 32#32).toNat + 32 ≤ l.stackTop j := by
  have hbounds := h.bounds
  have hsub := toNat_sub_of_le (a := f.psp) (n := 32) (by lia)
  lia

theorem frameFits_of_holdsFrame {mem : Mem} (h : HoldsFrame l mem j f) : FrameFits l mem j := by
  have hbounds := h.bounds
  have hsub := toNat_sub_of_le (a := f.psp) (n := 64) (by lia)
  unfold FrameFits
  rw [h.sp, hsub]
  lia

/-- Loading the stacked registers from their words. -/
theorem map_stackedRegs_loadRegs {ws : List Word} (hlength : ws.length = 6) (c : Cpu) :
    stackedRegs.map (loadRegs stackedRegs ws c).regs = ws := by
  match ws, hlength with
  | [a, b, d, e, g, h], _ => rfl

/-- An exception return takes the processor to the frame it finds. -/
theorem ofCpu_exceptionReturn {c : Cpu} (hframe : c.mem.readWords c.psp 8 = f.words)
    (hpsp : c.psp = f.psp - 32#32) : Frame.ofCpu (exceptionReturn c) = f := by
  have hsplit : c.mem.readWords c.psp 8 = c.mem.readWords c.psp 6 ++
      [c.mem.read32 (c.psp + 24#32), c.mem.read32 (c.psp + 28#32)] := by
    simp [Memory.readWords, BitVec.add_assoc]
  obtain ⟨hstacked, hrest⟩ := List.append_inj (hsplit.symm.trans hframe)
    ((Memory.length_readWords _ _ _).trans f.length_stacked.symm)
  injection hrest with hpc hrest
  injection hrest with hxpsr _
  have hregs : stackedRegs.map (exceptionReturn c).regs = f.stacked := by
    show stackedRegs.map (loadRegs stackedRegs (c.mem.readWords c.psp 6) c).regs = f.stacked
    rw [hstacked, map_stackedRegs_loadRegs f.length_stacked]
  have hback : c.psp + 32#32 = f.psp := by
    rw [hpsp]
    exact BitVec.sub_add_cancel _ _
  exact Frame.ext hregs hpc hxpsr hback

end Frames

section Launch

variable {l : TaskLayout} {j : Nat} {body : Word}

/-- The words of a frame, read upwards. -/
theorem readWords_below (mem : Mem) (top : Word) :
    mem.readWords (top - 32#32) 8 =
      [32#32, 28#32, 24#32, 20#32, 16#32, 12#32, 8#32, 4#32].map fun n =>
        mem.read32 (top - n) := by
  have hnext : forall n : Word, top - (n + 4#32) + 4#32 = top - n := by
    intro n
    bv_omega
  simp only [Memory.readWords, List.map_cons, List.map_nil]
  rw [show top - 32#32 + 4#32 = top - 28#32 from hnext 28#32,
    show top - 28#32 + 4#32 = top - 24#32 from hnext 24#32,
    show top - 24#32 + 4#32 = top - 20#32 from hnext 20#32,
    show top - 20#32 + 4#32 = top - 16#32 from hnext 16#32,
    show top - 16#32 + 4#32 = top - 12#32 from hnext 12#32,
    show top - 12#32 + 4#32 = top - 8#32 from hnext 8#32,
    show top - 8#32 + 4#32 = top - 4#32 from hnext 4#32]

/-- The stores of a spawn make up the frame that enters the body. -/
theorem holdsFrame_spawn (hj : j < numTcbs) (hroomy : Roomy l j) (mem : Mem) :
    HoldsFrame l (storeAll mem (spawnStores l j body)) j (.entry l j body) := by
  have hread : forall store, store ∈ spawnStores l j body ->
      (storeAll mem (spawnStores l j body)).read32 store.1 = store.2 :=
    fun store hstore => read32_storeAll (spawnStores_apart hj hroomy) hstore mem
  have hframe : forall a v, (a, v) ∈ launchStores (BitVec.ofNat 32 (l.stackTop j)) body ->
      (storeAll mem (spawnStores l j body)).read32 a = v :=
    fun a v hstore => hread (a, v) (List.mem_append_left _ hstore)
  constructor
  · have htop : (BitVec.ofNat 32 (l.stackTop j)).toNat = l.stackTop j := by
      rw [BitVec.toNat_ofNat, Nat.mod_eq_of_lt (l.stack_fits j)]
    show l.stackBase j + 64 ≤ (BitVec.ofNat 32 (l.stackTop j)).toNat ∧
      (BitVec.ofNat 32 (l.stackTop j)).toNat ≤ l.stackTop j
    rw [htop]
    exact ⟨hroomy, Nat.le_refl _⟩
  · exact hread (_, _) (List.mem_append_right _ List.mem_cons_self)
  · show (storeAll mem (spawnStores l j body)).readWords
      (BitVec.ofNat 32 (l.stackTop j) - 32#32) 8 = _
    rw [readWords_below]
    simp only [List.map_cons, List.map_nil]
    rw [hframe _ 0#32 (by simp [launchStores]), hframe _ 0#32 (by simp [launchStores]),
      hframe _ 0#32 (by simp [launchStores]), hframe _ 0#32 (by simp [launchStores]),
      hframe _ 0#32 (by simp [launchStores]), hframe _ 0#32 (by simp [launchStores]),
      hframe _ (body ||| 1#32) (by simp [launchStores]),
      hframe _ 0x01000000#32 (by simp [launchStores])]
    rfl

end Launch

/-!
## Runs
-/

/-- A system, and the frames by which its tasks are suspended. -/
structure Suspension where
  system : System
  frames : Nat -> Option Frame

namespace Suspension

def mem (S : Suspension) : Mem := S.system.cpu.mem

/-- The running code spawns task `idx + 1`; what that was preempted with is gone. -/
def spawn (l : TaskLayout) (bodies : TaskBodies) (idx : Nat) (S : Suspension) : Suspension :=
  if numTasks - 1 ≤ idx then S
  else
    { system :=
        { cpu := { S.system.cpu with mem := (spawnTask l bodies idx S.mem).2 }
          preempted := fun k => if k = idx + 1 then none else S.system.preempted k }
      frames := fun k =>
        if k = idx + 1 then some (.entry l k (bodyOf bodies idx)) else S.frames k }

/-- An activation that switches suspends one task and resumes another. -/
def switched (l : TaskLayout) (S : Suspension) (s : System) : Suspension where
  system := s
  frames := fun k =>
    if l.currentTask S.mem = l.currentTask s.cpu.mem then S.frames k
    else if l.currentTask S.mem = BitVec.ofNat 32 k then some (.ofCpu S.system.cpu)
    else if l.currentTask s.cpu.mem = BitVec.ofNat 32 k then none
    else S.frames k

end Suspension

/-- Code that leaves the frames of suspended tasks alone. -/
def SparesFrames (l : TaskLayout) (S : Suspension) (s : System) : Prop :=
  forall j f, S.frames j = some f -> HoldsFrame l S.mem j f -> HoldsFrame l s.cpu.mem j f

/-- Spawns, other code, and activations, in any order. -/
inductive SuspensionRun (l : TaskLayout) (bodies : TaskBodies) : Suspension -> Prop where
  | initial (s : System) : Initial l s -> SuspensionRun l bodies ⟨s, fun _ => none⟩
  | spawn (S : Suspension) (idx : Nat) :
      SuspensionRun l bodies S -> SuspensionRun l bodies (S.spawn l bodies idx)
  | thread (S : Suspension) (s : System) :
      SuspensionRun l bodies S -> ThreadStep l S.system s -> SparesFrames l S s ->
        SuspensionRun l bodies { S with system := s }
  | pendSV (S : Suspension) (s : System) :
      SuspensionRun l bodies S -> pendSV l S.system = some s ->
        SuspensionRun l bodies (S.switched l s)

structure SuspensionInv (l : TaskLayout) (k : Nat) (S : Suspension) : Prop where
  switch : SwitchInv l k S.system
  frames : forall j, j < numTcbs -> j ≠ k -> forall f, S.frames j = some f ->
    HoldsFrame l S.mem j f

section Spawning

variable {l : TaskLayout} {bodies : TaskBodies} {k idx : Nat} {S : Suspension}

theorem spawn_eq (hidx : idx < numTasks - 1) (S : Suspension) :
    S.spawn l bodies idx =
      { system :=
          { cpu := { S.system.cpu with
              mem := storeAll S.mem (spawnStores l (idx + 1) (bodyOf bodies idx)) }
            preempted := fun k => if k = idx + 1 then none else S.system.preempted k }
        frames := fun k =>
          if k = idx + 1 then some (.entry l k (bodyOf bodies idx)) else S.frames k } := by
  have hspawned : (spawnTask l bodies idx S.mem).2 =
      storeAll S.mem (spawnStores l (idx + 1) (bodyOf bodies idx)) := by
    unfold spawnTask
    rw [if_neg (by lia), taskStackTop_toNat l idx hidx]
    rfl
  unfold Suspension.spawn
  rw [if_neg (by lia), hspawned]

theorem idx_lt_numTcbs (hidx : idx < numTasks - 1) : idx + 1 < numTcbs := by
  unfold numTasks at hidx
  unfold numTcbs
  lia

/-- The control blocks of the other tasks. -/
theorem spawn_field (hroomy : Roomy l (idx + 1)) (hidx : idx < numTasks - 1) {i : Nat}
    {offset body : Word} (hi : i < numTcbs) (hne : i ≠ idx + 1) (hoffset : offset.toNat ≤ 12)
    (mem : Mem) :
    (storeAll mem (spawnStores l (idx + 1) body)).read32 (l.field (BitVec.ofNat 32 i) offset) =
      mem.read32 (l.field (BitVec.ofNat 32 i) offset) := by
  apply read32_spawn hroomy (field_fits l hi hoffset) (field_outside_stack l _ hi hoffset)
  intro other hother
  exact apart_field l (idx_lt_numTcbs hidx) hi (by lia) hoffset (by lia)

theorem spawn_current (hroomy : Roomy l (idx + 1)) (hidx : idx < numTasks - 1) (body : Word)
    (mem : Mem) :
    l.currentTask (storeAll mem (spawnStores l (idx + 1) body)) = l.currentTask mem := by
  have hcurrent := l.current_fits
  have hapart := l.stack_apart_current (idx + 1)
  apply read32_spawn hroomy
  · rw [current_toNat]
    exact hcurrent
  · rw [current_toNat]
    lia
  · intro other hother
    exact (apart_current_field l (idx_lt_numTcbs hidx) (by lia)).symm

/-- Frames on the stacks of the other tasks. -/
theorem spawn_frame (hroomy : Roomy l (idx + 1)) (hidx : idx < numTasks - 1) {i : Nat}
    {a body : Word} (hne : i ≠ idx + 1) (hlo : l.stackBase i ≤ a.toNat)
    (hhi : a.toNat + 32 ≤ l.stackTop i) (mem : Mem) :
    (storeAll mem (spawnStores l (idx + 1) body)).readWords a 8 = mem.readWords a 8 := by
  have hstack := l.stack_fits i
  have hstacks := l.stacks_apart i (idx + 1) hne
  apply Memory.readWords_congr (by decide) (by lia)
  intro b hb hb'
  apply read32_spawn hroomy (by lia) (by lia)
  intro other hother
  exact apart_field_stack l i (idx_lt_numTcbs hidx) (by lia) (by lia) (by lia)

/-- A spawn is something that the code of a running task may do. -/
theorem threadStep_spawn (hinv : SwitchInv l k S.system) (hidx : idx < numTasks - 1)
    (hroomy : Roomy l (idx + 1)) : ThreadStep l S.system (S.spawn l bodies idx).system := by
  rw [spawn_eq hidx]
  have hcurrent := spawn_current hroomy hidx (bodyOf bodies idx) S.mem
  have hother : forall i, BitVec.ofNat 32 i ≠ l.currentTask S.mem -> i ≠ k := by
    rintro i hne rfl
    exact hne hinv.current.symm
  constructor
  · exact hcurrent
  · intro i hi hnow
    have heq : l.currentTask S.mem = BitVec.ofNat 32 i := hcurrent.symm.trans hnow
    rw [show l.currentTask S.mem = BitVec.ofNat 32 k from hinv.current,
      ofNat_eq_iff hinv.lt hi] at heq
    rw [← heq]
    exact hinv.room
  · intro i hi hne hready
    by_cases hij : i = idx + 1
    · rw [hij]
      exact frameFits_of_holdsFrame
        (holdsFrame_spawn (idx_lt_numTcbs hidx) hroomy S.mem)
    · have hstate : l.state S.mem i = 1#32 :=
        (spawn_field hroomy hidx hi hij (by decide) S.mem).symm.trans hready
      exact frameFits_congr (spawn_field hroomy hidx hi hij (by decide) S.mem)
        (hinv.ready i hi (hother i hne) hstate)
  · intro i hi hne
    by_cases hij : i = idx + 1
    · exact Or.inl (if_pos hij)
    · have hpreempted : (if i = idx + 1 then none else S.system.preempted i) =
          S.system.preempted i := if_neg hij
      cases hctx : S.system.preempted i with
      | none => exact Or.inl (hpreempted.trans hctx)
      | some ctx =>
          have hfits := (hinv.preempted i hi (hother i hne) ctx hctx).fits
          unfold FrameFits at hfits
          refine Or.inr ⟨hpreempted.trans hctx, ?_, ?_⟩
          · exact spawn_field hroomy hidx hi hij (by decide) S.mem
          · exact spawn_frame hroomy hidx hij hfits.left (by lia) S.mem

theorem suspensionInv_spawn (h : SuspensionInv l k S)
    (hroomy : forall j, j < numTasks - 1 -> Roomy l (j + 1)) (idx : Nat) :
    SuspensionInv l k (S.spawn l bodies idx) := by
  by_cases hidx : idx < numTasks - 1
  · have hroom := hroomy idx hidx
    refine ⟨switchInv_thread h.switch (threadStep_spawn h.switch hidx hroom), ?_⟩
    rw [spawn_eq hidx]
    intro j hj hjk f hf
    by_cases hji : j = idx + 1
    · subst hji
      have hentry : some (Frame.entry l (idx + 1) (bodyOf bodies idx)) = some f :=
        (if_pos rfl).symm.trans hf
      cases hentry
      exact holdsFrame_spawn hj hroom S.mem
    · have hold : S.frames j = some f := (if_neg hji).symm.trans hf
      have hholds := h.frames j hj hjk f hold
      exact holdsFrame_congr (spawn_field hroom hidx hj hji (by decide) S.mem)
        (spawn_frame hroom hidx hji hholds.within.left hholds.within.right S.mem) hholds
  · unfold Suspension.spawn
    rw [if_pos (by lia)]
    exact h

end Spawning

/-!
## Activations
-/

section Activations

variable {l : TaskLayout} {bodies : TaskBodies} {k j : Nat} {f : Frame} {s s' : System}
  {S : Suspension}

/-- What an activation returns through: the frame of the interrupted task, or the one above
the saved registers of the task that it selects. -/
theorem pendSV_returns (hinv : SwitchInv l k s) (h : pendSV l s = some s') :
    exists c, s'.cpu = exceptionReturn c ∧ c.mem = s'.cpu.mem ∧
      match nextReady l s.cpu.mem (BitVec.ofNat 32 k) numTcbs 0 with
      | none => l.currentTask s'.cpu.mem = BitVec.ofNat 32 k ∧
          s'.cpu.mem = (exceptionEntry s.cpu).mem ∧ c.psp = s.cpu.psp - 32#32
      | some j => Switching l (exceptionEntry s.cpu) k j ∧
          l.currentTask s'.cpu.mem = BitVec.ofNat 32 j ∧
          s'.cpu.mem = finalMem l (exceptionEntry s.cpu) j ∧
          c.psp = l.sp s.cpu.mem j + 32#32 := by
  have hstates := pendSV_states hinv h
  obtain ⟨cpu, hactivate, hcpu⟩ := pendSV_mem h
  have hscan := exceptionEntry_nextReady hinv.room
  rw [← hinv.current] at hstates ⊢
  cases hready : nextReady l s.cpu.mem (l.currentTask s.cpu.mem) numTcbs 0 with
  | none =>
      obtain ⟨c, hrun, hmem, hpsp, _⟩ := run_pendSV_none l (exceptionEntry s.cpu)
        (hscan.trans hready)
      have hreturn := Option.some.inj ((activate_of_run hrun).symm.trans hactivate)
      have hback : c.mem = s'.cpu.mem := by rw [hcpu, ← hreturn, exceptionReturn_mem]
      rw [hready] at hstates
      exact ⟨c, by rw [hcpu, hreturn], hback, hstates.left, hback.symm.trans hmem, hpsp⟩
  | some j =>
      obtain ⟨c, hrun, hmem, hpsp, _⟩ := run_pendSV_some l (exceptionEntry s.cpu)
        (hscan.trans hready)
      have hreturn := Option.some.inj ((activate_of_run hrun).symm.trans hactivate)
      have hswitch := switching_of_nextReady hinv hready
      have hback : c.mem = s'.cpu.mem := by rw [hcpu, ← hreturn, exceptionReturn_mem]
      rw [hready] at hstates
      refine ⟨c, by rw [hcpu, hreturn], hback, hswitch, hstates.left, hback.symm.trans hmem, ?_⟩
      rw [hpsp, switchedTo_sp hinv hswitch]

/-- The hardware stacks the frame of the interrupted task below its stack pointer. -/
theorem entry_frame (hinv : SwitchInv l k s) :
    (exceptionEntry s.cpu).mem.readWords (s.cpu.psp - 32#32) 8 = (Frame.ofCpu s.cpu).words := by
  have hroom := hinv.room
  have hstack := l.stack_fits k
  have hsub := toNat_sub_of_le (a := s.cpu.psp) (n := 32) (by lia)
  have hlength : (stackedRegs.map s.cpu.regs ++ [s.cpu.pc, s.cpu.xpsr]).length = 8 := rfl
  exact Memory.readWords_writeWords (by decide) _ (by lia)

theorem holdsFrame_entry (hinv : SwitchInv l k s) (hj : j < numTcbs) (hjk : j ≠ k)
    (h : HoldsFrame l s.cpu.mem j f) : HoldsFrame l (exceptionEntry s.cpu).mem j f :=
  holdsFrame_congr (exceptionEntry_field hinv.room hj (by decide))
    (exceptionEntry_frame hinv.room hjk h.within.left h.within.right) h

/-- A switch leaves the frames of the tasks that it does not interrupt. -/
theorem holdsFrame_switched {m : Nat} (hinv : SwitchInv l k s)
    (hswitch : Switching l (exceptionEntry s.cpu) k m) (hj : j < numTcbs) (hjk : j ≠ k)
    (h : HoldsFrame l s.cpu.mem j f) :
    HoldsFrame l (finalMem l (exceptionEntry s.cpu) m) j f := by
  refine holdsFrame_congr ?_ ?_ (holdsFrame_entry hinv hj hjk h)
  · rw [hswitch.finalMem_sp hj, hswitch.switchMem_sp hj hjk]
  · exact hswitch.finalMem_frame hjk h.within.left h.within.right

/-- The handler saves its registers below the frame of the hardware. -/
theorem holdsFrame_switchedAway {m : Nat} (hinv : SwitchInv l k s)
    (hswitch : Switching l (exceptionEntry s.cpu) k m) :
    HoldsFrame l (finalMem l (exceptionEntry s.cpu) m) k (.ofCpu s.cpu) := by
  have hroom := hinv.room
  have hstack := l.stack_fits k
  have hentry := exceptionEntry_psp hinv
  have hframe := hswitch.frame_toNat
  refine ⟨hroom, ?_, ?_⟩
  · rw [hswitch.finalMem_sp_self]
    show s.cpu.psp - 32#32 - 32#32 = s.cpu.psp - 64#32
    rw [BitVec.sub_sub]
    rfl
  · rw [← entry_frame hinv]
    show (finalMem l (exceptionEntry s.cpu) m).readWords (exceptionEntry s.cpu).psp 8 = _
    apply Memory.readWords_congr (by decide) (by lia)
    intro b hb hb'
    have hlo : l.stackBase k ≤ b.toNat := by lia
    have hhi : b.toNat + 4 ≤ l.stackTop k := by lia
    rw [hswitch.finalMem_stack hlo hhi]
    unfold switchMem
    rw [hswitch.current, Memory.read32_write32_of_apart _ _ (apart_current_stack l k hlo hhi),
      Memory.read32_write32_of_apart _ _
        (apart_field_stack l k hswitch.lt (by decide) hlo hhi),
      Memory.read32_write32_of_apart _ _
        (apart_field_stack l k hswitch.lt (by decide) hlo hhi)]
    apply Memory.read32_writeWords_outside (by decide)
    · simp only [highRegs, List.map_cons, List.map_nil, List.length_cons, List.length_nil]
      lia
    · lia
    · simp only [highRegs, List.map_cons, List.map_nil, List.length_cons, List.length_nil]
      lia

theorem suspensionInv_pendSV (h : SuspensionInv l k S) (hstep : pendSV l S.system = some s) :
    exists k', SuspensionInv l k' (S.switched l s) := by
  obtain ⟨s', k', hstep', hinv'⟩ := switchInv_pendSV h.switch
  cases hstep.symm.trans hstep'
  obtain ⟨c, _, _, hreturns⟩ := pendSV_returns h.switch hstep
  have hbefore : l.currentTask S.mem = BitVec.ofNat 32 k := h.switch.current
  refine ⟨k', hinv', fun j hj hjk' f hf => ?_⟩
  have hafter : l.currentTask s.cpu.mem ≠ BitVec.ofNat 32 j := by
    rw [hinv'.current]
    exact fun heq => hjk' ((ofNat_eq_iff hinv'.lt hj).mp heq).symm
  show HoldsFrame l s.cpu.mem j f
  simp only [Suspension.switched, hbefore, if_neg hafter] at hf
  cases hready : nextReady l S.system.cpu.mem (BitVec.ofNat 32 k) numTcbs 0 with
  | none =>
      rw [hready] at hreturns
      rw [if_pos hreturns.left.symm] at hf
      have hjk : j ≠ k := by
        rintro rfl
        exact hafter hreturns.left
      rw [hreturns.right.left]
      exact holdsFrame_entry h.switch hj hjk (h.frames j hj hjk f hf)
  | some m =>
      rw [hready] at hreturns
      obtain ⟨hswitch, hcurrent, hmem, _⟩ := hreturns
      have hmoved : BitVec.ofNat 32 k ≠ l.currentTask s.cpu.mem := by
        rw [hcurrent]
        exact fun heq => hswitch.ne ((ofNat_eq_iff hswitch.lt hswitch.lt').mp heq).symm
      rw [if_neg hmoved] at hf
      rw [hmem]
      by_cases hjk : j = k
      · subst hjk
        rw [if_pos rfl] at hf
        cases hf
        exact holdsFrame_switchedAway h.switch hswitch
      · rw [if_neg fun heq => hjk ((ofNat_eq_iff h.switch.lt hj).mp heq).symm] at hf
        exact holdsFrame_switched h.switch hswitch hj hjk (h.frames j hj hjk f hf)

theorem suspensionInv_thread (h : SuspensionInv l k S) (hstep : ThreadStep l S.system s)
    (hspares : SparesFrames l S s) : SuspensionInv l k { S with system := s } where
  switch := switchInv_thread h.switch hstep
  frames j hj hjk f hf := hspares j f hf (h.frames j hj hjk f hf)

theorem suspensionInv_run (hroomy : forall j, j < numTasks - 1 -> Roomy l (j + 1))
    (h : SuspensionRun l bodies S) : exists k, SuspensionInv l k S := by
  induction h with
  | initial s hinit =>
      exact ⟨0, switchInv_initial hinit, fun _ _ _ _ hnone => by cases hnone⟩
  | spawn S idx _ ih =>
      obtain ⟨k, hinv⟩ := ih
      exact ⟨k, suspensionInv_spawn hinv hroomy idx⟩
  | thread S s _ hstep hspares ih =>
      obtain ⟨k, hinv⟩ := ih
      exact ⟨k, suspensionInv_thread hinv hstep hspares⟩
  | pendSV S s _ hstep ih =>
      obtain ⟨k, hinv⟩ := ih
      exact suspensionInv_pendSV hinv hstep

/-- Without a switch the activation returns to where it came from. -/
theorem frame_stayed (hinv : SwitchInv l k s) (hstep : pendSV l s = some s')
    (hready : nextReady l s.cpu.mem (BitVec.ofNat 32 k) numTcbs 0 = none) :
    Frame.ofCpu s'.cpu = .ofCpu s.cpu := by
  obtain ⟨c, hcpu, hback, hreturns⟩ := pendSV_returns hinv hstep
  rw [hready] at hreturns
  obtain ⟨_, hmem, hpsp⟩ := hreturns
  rw [hcpu]
  apply ofCpu_exceptionReturn _ hpsp
  rw [hpsp, hback, hmem]
  exact entry_frame hinv

/-- With one it returns to the frame of the task that is selected. -/
theorem frame_selected (hinv : SuspensionInv l k S) (hstep : pendSV l S.system = some s) {m : Nat}
    (hready : nextReady l S.mem (BitVec.ofNat 32 k) numTcbs 0 = some m)
    (hf : S.frames m = some f) : Frame.ofCpu s.cpu = f := by
  obtain ⟨c, hcpu, hback, hreturns⟩ := pendSV_returns hinv.switch hstep
  rw [show nextReady l S.system.cpu.mem _ _ _ = _ from hready] at hreturns
  obtain ⟨hswitch, _, hmem, hpsp⟩ := hreturns
  have hholds := hinv.frames m hswitch.lt' hswitch.ne f hf
  have hsp : c.psp = f.psp - 32#32 := by
    rw [hpsp, show l.sp S.system.cpu.mem m = _ from hholds.sp]
    bv_omega
  rw [hcpu]
  apply ofCpu_exceptionReturn _ hsp
  rw [hsp, hback, hmem]
  exact (holdsFrame_switched hinv.switch hswitch hswitch.lt' hswitch.ne hholds).frame

/-- In every run each activation returns to a frame: without a switch to that of the
interrupted task, with one to that by which the task it selects was suspended, be it where
the task was preempted or the start of its body. -/
theorem activations_return (hroomy : forall j, j < numTasks - 1 -> Roomy l (j + 1))
    (hrun : SuspensionRun l bodies S) (hstep : pendSV l S.system = some s) :
    (l.currentTask s.cpu.mem = l.currentTask S.mem ->
      Frame.ofCpu s.cpu = .ofCpu S.system.cpu) ∧
    forall j f, j < numTcbs -> S.frames j = some f ->
      l.currentTask S.mem ≠ BitVec.ofNat 32 j -> l.currentTask s.cpu.mem = BitVec.ofNat 32 j ->
      Frame.ofCpu s.cpu = f := by
  obtain ⟨k, hinv⟩ := suspensionInv_run hroomy hrun
  obtain ⟨_, _, _, hreturns⟩ := pendSV_returns hinv.switch hstep
  have hbefore : l.currentTask S.mem = BitVec.ofNat 32 k := hinv.switch.current
  rw [hbefore]
  cases hready : nextReady l S.system.cpu.mem (BitVec.ofNat 32 k) numTcbs 0 with
  | none =>
      rw [hready] at hreturns
      constructor
      · exact fun _ => frame_stayed hinv.switch hstep hready
      · intro j f _ _ hother hselected
        rw [hreturns.left] at hselected
        exact absurd hselected hother
  | some m =>
      rw [hready] at hreturns
      obtain ⟨hswitch, hcurrent, _, _⟩ := hreturns
      rw [hcurrent]
      constructor
      · intro hstayed
        rw [ofNat_eq_iff hswitch.lt' hswitch.lt] at hstayed
        exact absurd hstayed hswitch.ne
      · intro j f hj hf _ hselected
        rw [ofNat_eq_iff hswitch.lt' hj] at hselected
        subst hselected
        exact frame_selected hinv hstep hready hf

end Activations

def exampleBodies : TaskBodies where
  body1 := 0x08002000#32
  body2 := 0x08002010#32

/-- The first task has spawned task 1. -/
def exampleSuspension : Suspension :=
  Suspension.spawn exampleLayout exampleBodies 0 ⟨exampleSystem, fun _ => none⟩

theorem roomy_exampleLayout : forall j, j < numTasks - 1 -> Roomy exampleLayout (j + 1) := by
  unfold Roomy
  decide

/-- Task 1 starts with its body. -/
theorem activations_return_spawned :
    exists s, SuspensionRun exampleLayout exampleBodies exampleSuspension ∧
      pendSV exampleLayout exampleSuspension.system = some s ∧
      exampleLayout.currentTask s.cpu.mem = BitVec.ofNat 32 1 ∧
      Frame.ofCpu s.cpu = .entry exampleLayout 1 0x08002000#32 := by
  have hrun : SuspensionRun exampleLayout exampleBodies exampleSuspension :=
    .spawn _ 0 (.initial exampleSystem initial_exampleSystem)
  obtain ⟨k, hinv⟩ := suspensionInv_run roomy_exampleLayout hrun
  have hscan : nextReady exampleLayout exampleSuspension.system.cpu.mem
      (exampleLayout.currentTask exampleSuspension.system.cpu.mem) numTcbs 0 = some 1 := by
    decide +kernel
  have hother : exampleLayout.currentTask exampleSuspension.mem ≠ BitVec.ofNat 32 1 := by
    decide +kernel
  obtain ⟨s, hstep, _, _, hcurrent, _⟩ := pendSV_switch hinv.switch hscan
  exact ⟨s, hrun, hstep, hcurrent,
    (activations_return roomy_exampleLayout hrun hstep).right 1 _ (by decide) rfl hother hcurrent⟩

end Kernel
end HolyRust
