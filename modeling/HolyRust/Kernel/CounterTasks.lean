import HolyRust.Kernel.SpawnedTasks

/-!
# Counter tasks

A counter task counts in its own control block, where the handler counts how often the task
is resumed.  The task loads, adds and stores; it can be preempted after each instruction.
What the handler has counted between the load and the store is lost, and nothing else.
-/

namespace HolyRust
namespace Kernel

open Foundation
open Isa

/-!
## The code of a task
-/

/-- `task_body_1` and `task_body_2` up to the branch back to the load. -/
def taskBody (l : TaskLayout) (offset : Word) : List Instr :=
  [.ldrConst .r0 l.tcbs, .ldr .r1 .r0 offset, .addsImm .r1 .r1 1#32, .str .r1 .r0 offset]

def taskBody1 (l : TaskLayout) : List Instr := taskBody l 28#32

def taskBody2 (l : TaskLayout) : List Instr := taskBody l 44#32

/-- The code of a task, by its index, as in `bodyOf`. -/
def bodyCode (l : TaskLayout) (idx : Nat) : List Instr :=
  if idx = 0 then taskBody1 l else taskBody2 l

/-- The halfword of instruction `pos`; bit 0 of a code address only stands for Thumb state. -/
def codeHalfword (body : Word) (pos : Nat) : BitVec 31 :=
  body.extractLsb' 1 31 + BitVec.ofNat 31 pos

/-- The program counter is at instruction `pos`. -/
def AtInstr (body : Word) (pos : Nat) (pc : Word) : Prop :=
  pos ≤ 4 ∧ pc.extractLsb' 1 31 = codeHalfword body pos

def nextPos (pos : Nat) : Nat :=
  if pos = 4 then 1 else pos + 1

/-- One instruction of the code; the fifth is the branch. -/
def bodyStep (code : List Instr) (body : Word) (pos : Nat) (c : Cpu) : Cpu :=
  match code[pos]? with
  | some i => { effect i c with pc := codeHalfword body (nextPos pos) ++ 0#1 }
  | none => { c with pc := codeHalfword body (nextPos pos) ++ 0#1 }

/-!
## Runs
-/

/-- How often the task has stored and has been resumed; of the latter, how many are lost
and how many have come since the task last loaded or stored. -/
structure Tally where
  stores : Nat
  resumes : Nat
  lost : Nat
  sinceAccess : Nat
deriving DecidableEq, Repr

namespace Tally

def zero : Tally := ⟨0, 0, 0, 0⟩

/-- The load and the store are instructions 1 and 3. -/
def stepped (pos : Nat) (t : Tally) : Tally :=
  if pos = 1 then { t with sinceAccess := 0 }
  else if pos = 3 then
    { t with stores := t.stores + 1, lost := t.lost + t.sinceAccess, sinceAccess := 0 }
  else t

def resumed (t : Tally) : Tally :=
  { t with resumes := t.resumes + 1, sinceAccess := t.sinceAccess + 1 }

end Tally

section Runs

variable (l : TaskLayout) (bodies : TaskBodies) (idx : Nat)

/-- The current task is the one with index `idx`, task `idx + 1`. -/
def IsCurrent (mem : Mem) : Prop :=
  l.currentTask mem = BitVec.ofNat 32 (idx + 1)

instance (mem : Mem) : Decidable (IsCurrent l idx mem) :=
  inferInstanceAs (Decidable (_ = _))

/-- What other code has to leave alone, next to the frames: state and counter of the task. -/
def LeavesTask (S : Suspension) (s : System) : Prop :=
  l.state s.cpu.mem (idx + 1) = l.state S.mem (idx + 1) ∧
    l.counter s.cpu.mem (idx + 1) = l.counter S.mem (idx + 1)

/-- Runs in which the task executes its body and nothing but spawns and activations
touches it otherwise, with the counts of what happened; the counter was `start`. -/
inductive CounterRun (start : Word) : Suspension -> Tally -> Prop where
  | initial (s : System) : Initial l s -> l.counter s.cpu.mem (idx + 1) = start ->
      CounterRun start ⟨s, fun _ => none⟩ .zero
  | spawn (S : Suspension) (t : Tally) (i : Nat) : CounterRun start S t ->
      ¬ IsCurrent l idx S.mem -> CounterRun start (S.spawn l bodies i) t
  | other (S : Suspension) (s : System) (t : Tally) : CounterRun start S t ->
      ¬ IsCurrent l idx S.mem -> ThreadStep l S.system s -> SparesFrames l S s ->
        LeavesTask l idx S s -> CounterRun start { S with system := s } t
  | body (S : Suspension) (t : Tally) (pos : Nat) : CounterRun start S t ->
      IsCurrent l idx S.mem -> AtInstr (bodyOf bodies idx) pos S.system.cpu.pc ->
        CounterRun start
          { S with system :=
            { S.system with
              cpu := bodyStep (bodyCode l idx) (bodyOf bodies idx) pos S.system.cpu } }
          (t.stepped pos)
  | pendSV (S : Suspension) (s : System) (t : Tally) : CounterRun start S t ->
      pendSV l S.system = some s ->
        CounterRun start (S.switched l s)
          (if ¬ IsCurrent l idx S.mem ∧ IsCurrent l idx s.cpu.mem then t.resumed else t)

end Runs

/-!
## Where the task is
-/

/-- The registers of the code in a frame. -/
def Frame.r0 (f : Frame) : Word := f.stacked.getD 0 0#32

def Frame.r1 (f : Frame) : Word := f.stacked.getD 1 0#32

/-- The task is at an instruction of its body.  What it has loaded is the counter without
the resumptions since. -/
structure InBody (l : TaskLayout) (body : Word) (count : Word) (t : Tally) (pos : Nat)
    (f : Frame) : Prop where
  pc : AtInstr body pos f.pc
  base : 1 ≤ pos -> f.r0 = l.tcbs
  loaded : pos = 2 -> f.r1 + BitVec.ofNat 32 t.sinceAccess = count
  added : pos = 3 -> f.r1 + BitVec.ofNat 32 t.sinceAccess = count + 1#32

structure CounterInv (l : TaskLayout) (bodies : TaskBodies) (idx : Nat) (start : Word) (k : Nat)
    (S : Suspension) (t : Tally) : Prop where
  suspension : SuspensionInv l k S
  value : l.counter S.mem (idx + 1) + BitVec.ofNat 32 t.lost =
    start + BitVec.ofNat 32 (t.stores + t.resumes)
  lost : t.lost + t.sinceAccess ≤ t.resumes
  running : k = idx + 1 ->
    exists pos, InBody l (bodyOf bodies idx) (l.counter S.mem (idx + 1)) t pos
      (.ofCpu S.system.cpu)
  suspended : k ≠ idx + 1 ->
    (S.frames (idx + 1) = none ∧ l.state S.mem (idx + 1) ≠ 1#32) ∨
      exists f pos, S.frames (idx + 1) = some f ∧
        InBody l (bodyOf bodies idx) (l.counter S.mem (idx + 1)) t pos f

/-!
## Code addresses
-/

theorem atInstr_append {body : Word} {pos : Nat} (hpos : pos ≤ 4) :
    AtInstr body pos (codeHalfword body pos ++ 0#1) := by
  refine ⟨hpos, BitVec.eq_of_getLsbD_eq ?_⟩
  intro i hi
  rw [BitVec.getLsbD_extractLsb', BitVec.getLsbD_append]
  grind

/-- The address that a spawn stacks. -/
theorem atInstr_entry (body : Word) : AtInstr body 0 (body ||| 1#32) := by
  refine ⟨Nat.zero_le _, ?_⟩
  unfold codeHalfword
  rw [BitVec.add_zero]
  apply BitVec.eq_of_getLsbD_eq
  intro i hi
  rw [BitVec.getLsbD_extractLsb', BitVec.getLsbD_extractLsb', BitVec.getLsbD_or,
    BitVec.getLsbD_one]
  grind

theorem AtInstr.unique {body pc : Word} {pos pos' : Nat} (h : AtInstr body pos pc)
    (h' : AtInstr body pos' pc) : pos = pos' := by
  obtain ⟨hpos, hpc⟩ := h
  obtain ⟨hpos', hpc'⟩ := h'
  have hsum := (BitVec.add_right_inj _).mp (hpc.symm.trans hpc')
  have hnat := congrArg BitVec.toNat hsum
  rw [BitVec.toNat_ofNat, BitVec.toNat_ofNat, Nat.mod_eq_of_lt (by lia),
    Nat.mod_eq_of_lt (by lia)] at hnat
  exact hnat

/-!
## Counters in memory
-/

section Memory

variable {l : TaskLayout} {bodies : TaskBodies} {c : Cpu} {i j k : Nat}

theorem counter_spawn (hroomy : Roomy l j) (hj : j < numTcbs) (hi : i < numTcbs) (body : Word)
    (mem : Mem) : l.counter (storeAll mem (spawnStores l j body)) i = l.counter mem i := by
  apply read32_spawn hroomy (field_fits l hi (by decide)) (field_outside_stack l j hi (by decide))
  intro offset hoffset
  refine apart_field l hj hi (by lia) (by decide) ?_
  rw [show (12#32).toNat = 12 from rfl]
  lia

theorem Switching.switchMem_counter (h : Switching l c k j) (hi : i < numTcbs) :
    (switchMem l c j).read32 (l.field (BitVec.ofNat 32 i) 12#32) = l.counter c.mem i := by
  apply h.switchMem_read32 (field_fits l hi (by decide)) (field_outside_stack l k hi (by decide))
  · refine apart_field l h.lt hi (by decide) (by decide) ?_
    rw [show (0#32).toNat = 0 from rfl, show (12#32).toNat = 12 from rfl]
    lia
  · refine apart_field l h.lt hi (by decide) (by decide) ?_
    rw [show (8#32).toNat = 8 from rfl, show (12#32).toNat = 12 from rfl]
    lia
  · exact apart_current_field l hi (by decide)

theorem Switching.finalMem_counter (h : Switching l c k j) (hi : i < numTcbs) :
    l.counter (finalMem l c j) i =
      if i = j then l.counter c.mem i + 1#32 else l.counter c.mem i := by
  by_cases hij : i = j
  · subst hij
    rw [if_pos rfl, ← h.switchCount_eq]
    exact Memory.read32_write32 _ _ _ (by decide)
  · rw [if_neg hij, ← h.switchMem_counter hi]
    apply finalMem_read32
    · refine apart_field l h.lt' hi (by decide) (by decide) ?_
      rw [show (8#32).toNat = 8 from rfl, show (12#32).toNat = 12 from rfl]
      lia
    · refine apart_field l h.lt' hi (by decide) (by decide) ?_
      lia

/-- The handler counts the resumption of the task that it selects. -/
theorem pendSV_counts {s s' : System} (hinv : SwitchInv l k s) (h : pendSV l s = some s')
    (hi : i < numTcbs) :
    l.counter s'.cpu.mem i =
      match nextReady l s.cpu.mem (BitVec.ofNat 32 k) numTcbs 0 with
      | none => l.counter s.cpu.mem i
      | some m => if i = m then l.counter s.cpu.mem i + 1#32 else l.counter s.cpu.mem i := by
  obtain ⟨_, _, _, hreturns⟩ := pendSV_returns hinv h
  have hentry : l.counter (exceptionEntry s.cpu).mem i = l.counter s.cpu.mem i :=
    exceptionEntry_field hinv.room hi (by decide)
  cases hready : nextReady l s.cpu.mem (BitVec.ofNat 32 k) numTcbs 0 with
  | none =>
      rw [hready] at hreturns
      rw [hreturns.right.left]
      exact hentry
  | some m =>
      rw [hready] at hreturns
      obtain ⟨hswitch, _, hmem, _⟩ := hreturns
      rw [hmem, hswitch.finalMem_counter hi, hentry]

end Memory

/-!
## The store of a task
-/

/-- The counter of task `j` is the only word that has changed. -/
def CountsOnly (l : TaskLayout) (j : Nat) (mem mem' : Mem) : Prop :=
  mem' = mem ∨ exists v, mem' = mem.write32 (l.field (BitVec.ofNat 32 j) 12#32) v

section Store

variable {l : TaskLayout} {j k : Nat} {mem mem' : Mem} {s : System}

theorem CountsOnly.read32 (h : CountsOnly l j mem mem') {b : Word}
    (hapart : Memory.Apart (l.field (BitVec.ofNat 32 j) 12#32) b) :
    mem'.read32 b = mem.read32 b := by
  rcases h with rfl | ⟨v, rfl⟩
  · rfl
  · exact Memory.read32_write32_of_apart _ _ hapart

theorem CountsOnly.field (h : CountsOnly l j mem mem') (hj : j < numTcbs) {i : Nat}
    (hi : i < numTcbs) {offset : Word} (hoffset : offset.toNat ≤ 8) :
    mem'.read32 (l.field (BitVec.ofNat 32 i) offset) =
      mem.read32 (l.field (BitVec.ofNat 32 i) offset) := by
  apply h.read32
  refine apart_field l hj hi (by decide) (by lia) ?_
  rw [show (12#32).toNat = 12 from rfl]
  lia

theorem CountsOnly.currentTask (h : CountsOnly l j mem mem') (hj : j < numTcbs) :
    l.currentTask mem' = l.currentTask mem :=
  h.read32 (apart_current_field l hj (by decide)).symm

theorem CountsOnly.frame (h : CountsOnly l j mem mem') (hj : j < numTcbs) {i : Nat} {a : Word}
    (hlo : l.stackBase i ≤ a.toNat) (hhi : a.toNat + 32 ≤ l.stackTop i) :
    mem'.readWords a 8 = mem.readWords a 8 := by
  have hstack := l.stack_fits i
  apply Memory.readWords_congr (by decide) (by lia)
  intro b hb hb'
  exact h.read32 (apart_field_stack l i hj (by decide) (by lia) (by lia))

theorem threadStep_of_countsOnly (hinv : SwitchInv l k s) (hj : j < numTcbs) {c : Cpu}
    (hpsp : c.psp = s.cpu.psp) (h : CountsOnly l j s.cpu.mem c.mem) :
    ThreadStep l s { s with cpu := c } where
  current := h.currentTask hj
  room := by
    intro i hi hnow
    have heq : l.currentTask s.cpu.mem = BitVec.ofNat 32 i := (h.currentTask hj).symm.trans hnow
    rw [hinv.current, ofNat_eq_iff hinv.lt hi] at heq
    show l.stackBase i + 64 ≤ c.psp.toNat ∧ c.psp.toNat ≤ l.stackTop i
    rw [← heq, hpsp]
    exact hinv.room
  ready := by
    intro i hi hne hready
    have hik : i ≠ k := by
      rintro rfl
      exact hne hinv.current.symm
    exact frameFits_congr (h.field hj hi (by decide))
      (hinv.ready i hi hik ((h.field hj hi (by decide)).symm.trans hready))
  frames := by
    intro i hi hne
    have hik : i ≠ k := by
      rintro rfl
      exact hne hinv.current.symm
    cases hctx : s.preempted i with
    | none => exact Or.inl rfl
    | some ctx =>
        have hfits := (hinv.preempted i hi hik ctx hctx).fits
        unfold FrameFits at hfits
        refine Or.inr ⟨rfl, h.field hj hi (by decide), ?_⟩
        exact h.frame hj hfits.left (by lia)

theorem suspensionInv_of_countsOnly {S : Suspension} (hinv : SuspensionInv l k S)
    (hj : j < numTcbs) {c : Cpu} (hpsp : c.psp = S.system.cpu.psp)
    (h : CountsOnly l j S.mem c.mem) :
    SuspensionInv l k { S with system := { S.system with cpu := c } } where
  switch := switchInv_thread hinv.switch (threadStep_of_countsOnly hinv.switch hj hpsp h)
  frames i hi hik f hf := by
    have hholds := hinv.frames i hi hik f hf
    have hwithin := hholds.within
    exact holdsFrame_congr (h.field hj hi (by decide)) (h.frame hj hwithin.left hwithin.right)
      hholds

end Store

/-!
## Steps
-/

section Steps

variable {l : TaskLayout} {bodies : TaskBodies} {idx k : Nat} {start : Word} {S : Suspension}
  {s : System} {t : Tally}

theorem CounterInv.isCurrent_iff (h : CounterInv l bodies idx start k S t) (hidx : idx < 2) :
    IsCurrent l idx S.mem ↔ k = idx + 1 := by
  have hcurrent : l.currentTask S.mem = BitVec.ofNat 32 k := h.suspension.switch.current
  unfold IsCurrent
  rw [hcurrent, ofNat_eq_iff h.suspension.switch.lt (by unfold numTcbs; lia)]

theorem counterInv_initial (hinit : Initial l s) (hidx : idx < 2)
    (hstart : l.counter s.cpu.mem (idx + 1) = start) :
    CounterInv l bodies idx start 0 ⟨s, fun _ => none⟩ .zero where
  suspension := ⟨switchInv_initial hinit, fun _ _ _ _ hnone => by cases hnone⟩
  value := by
    rw [← hstart]
    rfl
  lost := Nat.le_refl _
  running h := by cases h
  suspended _ := by
    refine Or.inl ⟨rfl, ?_⟩
    show l.state s.cpu.mem (idx + 1) ≠ 1#32
    rw [hinit.dead (idx + 1) (by unfold numTcbs; lia)]
    decide

theorem counterInv_spawn (h : CounterInv l bodies idx start k S t) (hidx : idx < 2)
    (hroomy : forall j, j < numTasks - 1 -> Roomy l (j + 1)) (hk : k ≠ idx + 1) (i : Nat) :
    CounterInv l bodies idx start k (S.spawn l bodies i) t := by
  have hsuspension : SuspensionInv l k (S.spawn l bodies i) :=
    suspensionInv_spawn h.suspension hroomy i
  by_cases hi : i < numTasks - 1
  · have htask : idx + 1 < numTcbs := by
      unfold numTcbs
      lia
    have hcounter : l.counter (S.spawn l bodies i).mem (idx + 1) = l.counter S.mem (idx + 1) := by
      rw [spawn_eq hi]
      exact counter_spawn (hroomy i hi) (idx_lt_numTcbs hi) htask _ S.mem
    refine ⟨hsuspension, ?_, h.lost, fun heq => absurd heq hk, fun _ => ?_⟩
    · rw [hcounter]
      exact h.value
    · rw [hcounter, spawn_eq hi]
      by_cases hself : idx = i
      · -- Whatever the task was doing, it starts again at its entry.
        subst hself
        refine Or.inr ⟨.entry l (idx + 1) (bodyOf bodies idx), 0, if_pos rfl, ?_⟩
        exact ⟨atInstr_entry _, fun hpos => absurd hpos (by decide), fun heq => (by cases heq),
          fun heq => (by cases heq)⟩
      · have hne : idx + 1 ≠ i + 1 := by lia
        simp only [if_neg hne]
        cases h.suspended hk with
        | inl hdead =>
            refine Or.inl ⟨hdead.left, ?_⟩
            have hstate : l.state (storeAll S.mem (spawnStores l (i + 1) (bodyOf bodies i)))
                (idx + 1) = l.state S.mem (idx + 1) :=
              spawn_field (hroomy i hi) hi htask hne (by decide) S.mem
            exact fun hready => hdead.right (hstate.symm.trans hready)
        | inr hframe => exact Or.inr hframe
  · unfold Suspension.spawn
    rw [if_pos (by lia)]
    exact h

theorem counterInv_other (h : CounterInv l bodies idx start k S t) (hk : k ≠ idx + 1)
    (hstep : ThreadStep l S.system s) (hspares : SparesFrames l S s)
    (hleaves : LeavesTask l idx S s) :
    CounterInv l bodies idx start k { S with system := s } t where
  suspension := suspensionInv_thread h.suspension hstep hspares
  value := by
    show l.counter s.cpu.mem (idx + 1) + _ = _
    rw [hleaves.right]
    exact h.value
  lost := h.lost
  running heq := absurd heq hk
  suspended _ := by
    show (_ ∧ l.state s.cpu.mem (idx + 1) ≠ _) ∨ exists f pos, _ ∧
      InBody l _ (l.counter s.cpu.mem (idx + 1)) t pos f
    rw [hleaves.left, hleaves.right]
    exact h.suspended hk

/-- A resumption between the load and the store takes the loaded value further from the
counter. -/
theorem InBody.resumed {body count : Word} {pos : Nat} {f : Frame}
    (h : InBody l body count t pos f) : InBody l body (count + 1#32) t.resumed pos f where
  pc := h.pc
  base := h.base
  loaded hpos := by
    rw [← h.loaded hpos]
    show f.r1 + BitVec.ofNat 32 (t.sinceAccess + 1) = _
    rw [BitVec.ofNat_add, BitVec.add_assoc]
  added hpos := by
    rw [← h.added hpos]
    show f.r1 + BitVec.ofNat 32 (t.sinceAccess + 1) = _
    rw [BitVec.ofNat_add, BitVec.add_assoc]

/-!
### The body
-/

/-- Both bodies count in the control block of their task. -/
theorem bodyCode_eq (l : TaskLayout) (hidx : idx < 2) :
    bodyCode l idx = taskBody l (BitVec.ofNat 32 (16 * (idx + 1) + 12)) := by
  have hcases : idx = 0 ∨ idx = 1 := by lia
  rcases hcases with rfl | rfl <;> rfl

theorem counter_address (l : TaskLayout) (hidx : idx < 2) :
    l.tcbs + BitVec.ofNat 32 (16 * (idx + 1) + 12) =
      l.field (BitVec.ofNat 32 (idx + 1)) 12#32 := by
  have hcases : idx = 0 ∨ idx = 1 := by lia
  unfold TaskLayout.field
  rw [BitVec.add_assoc]
  rcases hcases with rfl | rfl <;> rfl

theorem counterInv_body {pos : Nat} (h : CounterInv l bodies idx start k S t) (hidx : idx < 2)
    (hk : k = idx + 1) (hpc : AtInstr (bodyOf bodies idx) pos S.system.cpu.pc) :
    CounterInv l bodies idx start k
      { S with system :=
        { S.system with
          cpu := bodyStep (bodyCode l idx) (bodyOf bodies idx) pos S.system.cpu } }
      (t.stepped pos) := by
  obtain ⟨pos', hbody⟩ := h.running hk
  cases hpc.unique hbody.pc
  have htask : idx + 1 < numTcbs := by
    unfold numTcbs
    lia
  have hsame : CountsOnly l (idx + 1) S.mem S.mem := Or.inl rfl
  have hpos : pos = 0 ∨ pos = 1 ∨ pos = 2 ∨ pos = 3 ∨ pos = 4 := by
    have hle := hpc.left
    lia
  rw [bodyCode_eq l hidx]
  rcases hpos with rfl | rfl | rfl | rfl | rfl
  · -- The address of the control blocks.
    refine ⟨suspensionInv_of_countsOnly h.suspension htask rfl hsame, h.value, h.lost,
      fun _ => ⟨1, atInstr_append (by decide), fun _ => rfl, ?_, ?_⟩, fun hne => absurd hk hne⟩
    · exact fun hpos => absurd hpos (by decide)
    · exact fun hpos => absurd hpos (by decide)
  · -- The load.
    have haddress : S.system.cpu.regs .r0 + BitVec.ofNat 32 (16 * (idx + 1) + 12) =
        l.field (BitVec.ofNat 32 (idx + 1)) 12#32 := by
      rw [show S.system.cpu.regs .r0 = l.tcbs from hbody.base (by decide)]
      exact counter_address l hidx
    refine ⟨suspensionInv_of_countsOnly h.suspension htask rfl hsame, h.value, ?_,
      fun _ => ⟨2, atInstr_append (by decide), fun _ => hbody.base (by decide), fun _ => ?_, ?_⟩,
      fun hne => absurd hk hne⟩
    · have hlost := h.lost
      show t.lost + 0 ≤ t.resumes
      lia
    · show S.mem.read32 (S.system.cpu.regs .r0 + BitVec.ofNat 32 (16 * (idx + 1) + 12)) + 0#32 = _
      rw [haddress, BitVec.add_zero]
      rfl
    · exact fun hpos => absurd hpos (by decide)
  · -- The addition.
    refine ⟨suspensionInv_of_countsOnly h.suspension htask rfl hsame, h.value, h.lost,
      fun _ => ⟨3, atInstr_append (by decide), fun _ => hbody.base (by decide), ?_, fun _ => ?_⟩,
      fun hne => absurd hk hne⟩
    · exact fun hpos => absurd hpos (by decide)
    · show S.system.cpu.regs .r1 + 1#32 + BitVec.ofNat 32 t.sinceAccess =
        l.counter S.mem (idx + 1) + 1#32
      rw [← hbody.loaded rfl, BitVec.add_assoc, BitVec.add_comm 1#32, ← BitVec.add_assoc]
      rfl
  · -- The store.
    have haddress : S.system.cpu.regs .r0 + BitVec.ofNat 32 (16 * (idx + 1) + 12) =
        l.field (BitVec.ofNat 32 (idx + 1)) 12#32 := by
      rw [show S.system.cpu.regs .r0 = l.tcbs from hbody.base (by decide)]
      exact counter_address l hidx
    have hcount : CountsOnly l (idx + 1) S.mem (S.mem.write32
        (S.system.cpu.regs .r0 + BitVec.ofNat 32 (16 * (idx + 1) + 12))
        (S.system.cpu.regs .r1)) := by
      rw [haddress]
      exact Or.inr ⟨_, rfl⟩
    refine ⟨suspensionInv_of_countsOnly h.suspension htask rfl hcount, ?_, ?_,
      fun _ => ⟨4, atInstr_append (by decide), fun _ => hbody.base (by decide), ?_, ?_⟩,
      fun hne => absurd hk hne⟩
    · show (S.mem.write32 (S.system.cpu.regs .r0 + BitVec.ofNat 32 (16 * (idx + 1) + 12))
        (S.system.cpu.regs .r1)).read32 (l.field (BitVec.ofNat 32 (idx + 1)) 12#32) +
          BitVec.ofNat 32 (t.lost + t.sinceAccess) =
        start + BitVec.ofNat 32 (t.stores + 1 + t.resumes)
      have hadded : S.system.cpu.regs .r1 + BitVec.ofNat 32 t.sinceAccess =
          l.counter S.mem (idx + 1) + 1#32 := hbody.added rfl
      have hvalue := h.value
      rw [haddress, Memory.read32_write32 _ _ _ (by decide)]
      simp only [BitVec.ofNat_add] at hvalue ⊢
      grind
    · have hlost := h.lost
      show t.lost + t.sinceAccess + 0 ≤ t.resumes
      lia
    · exact fun hpos => absurd hpos (by decide)
    · exact fun hpos => absurd hpos (by decide)
  · -- The branch.
    refine ⟨suspensionInv_of_countsOnly h.suspension htask rfl hsame, h.value, h.lost,
      fun _ => ⟨1, atInstr_append (by decide), fun _ => hbody.base (by decide), ?_, ?_⟩,
      fun hne => absurd hk hne⟩
    · exact fun hpos => absurd hpos (by decide)
    · exact fun hpos => absurd hpos (by decide)

/-!
### Activations
-/

theorem counterInv_stayed (h : CounterInv l bodies idx start k S t) (hidx : idx < 2)
    (hstep : pendSV l S.system = some s)
    (hready : nextReady l S.system.cpu.mem (BitVec.ofNat 32 k) numTcbs 0 = none) :
    CounterInv l bodies idx start k (S.switched l s) t := by
  have htask : idx + 1 < numTcbs := by
    unfold numTcbs
    lia
  have hbefore : l.currentTask S.mem = BitVec.ofNat 32 k := h.suspension.switch.current
  obtain ⟨k', hsuspension⟩ := suspensionInv_pendSV h.suspension hstep
  have hafter : l.currentTask s.cpu.mem = BitVec.ofNat 32 k' := hsuspension.switch.current
  have hcount : l.counter s.cpu.mem (idx + 1) = l.counter S.mem (idx + 1) := by
    rw [pendSV_counts h.suspension.switch hstep htask, hready]
    rfl
  have hstates := pendSV_states h.suspension.switch hstep
  rw [hready] at hstates
  have hstay : k' = k :=
    (ofNat_eq_iff hsuspension.switch.lt h.suspension.switch.lt).mp (hafter.symm.trans hstates.left)
  subst hstay
  have hframes : (S.switched l s).frames (idx + 1) = S.frames (idx + 1) :=
    if_pos (hbefore.trans hafter.symm)
  refine ⟨hsuspension, ?_, h.lost, fun hk => ?_, fun hk => ?_⟩
  · show l.counter s.cpu.mem (idx + 1) + _ = _
    rw [hcount]
    exact h.value
  · show exists pos, InBody l _ (l.counter s.cpu.mem (idx + 1)) t pos (.ofCpu s.cpu)
    rw [hcount, frame_stayed h.suspension.switch hstep hready]
    exact h.running hk
  · show (_ ∧ l.state s.cpu.mem (idx + 1) ≠ 1#32) ∨ exists f pos, _ ∧
      InBody l _ (l.counter s.cpu.mem (idx + 1)) t pos f
    rw [hcount, hframes, hstates.right (idx + 1) htask]
    exact h.suspended hk

theorem counterInv_switched (h : CounterInv l bodies idx start k S t) (hidx : idx < 2)
    (hstep : pendSV l S.system = some s) {m : Nat}
    (hready : nextReady l S.system.cpu.mem (BitVec.ofNat 32 k) numTcbs 0 = some m) :
    CounterInv l bodies idx start m (S.switched l s) (if m = idx + 1 then t.resumed else t) := by
  have htask : idx + 1 < numTcbs := by
    unfold numTcbs
    lia
  have hbefore : l.currentTask S.mem = BitVec.ofNat 32 k := h.suspension.switch.current
  obtain ⟨k', hsuspension⟩ := suspensionInv_pendSV h.suspension hstep
  have hcount := pendSV_counts h.suspension.switch hstep htask
  have hstates := pendSV_states h.suspension.switch hstep
  obtain ⟨_, _, _, hreturns⟩ := pendSV_returns h.suspension.switch hstep
  rw [hready] at hcount hstates hreturns
  obtain ⟨hswitch, hafter, _, _⟩ := hreturns
  have hkm : BitVec.ofNat 32 k ≠ BitVec.ofNat 32 m :=
    fun heq => hswitch.ne ((ofNat_eq_iff hswitch.lt hswitch.lt').mp heq).symm
  have hm : k' = m :=
    (ofNat_eq_iff hsuspension.switch.lt hswitch.lt').mp
      (hsuspension.switch.current.symm.trans hafter)
  subst hm
  have hstate : l.state s.cpu.mem (idx + 1) = handedOver l S.system.cpu.mem k k' (idx + 1) :=
    hstates.right (idx + 1) htask
  have hframes : (S.switched l s).frames (idx + 1) =
      if k = idx + 1 then some (.ofCpu S.system.cpu)
      else if k' = idx + 1 then none
      else S.frames (idx + 1) := by
    show (if l.currentTask S.mem = l.currentTask s.cpu.mem then S.frames (idx + 1)
      else if l.currentTask S.mem = BitVec.ofNat 32 (idx + 1) then some (.ofCpu S.system.cpu)
      else if l.currentTask s.cpu.mem = BitVec.ofNat 32 (idx + 1) then none
      else S.frames (idx + 1)) = _
    rw [hbefore, hafter, if_neg hkm]
    simp only [ofNat_eq_iff hswitch.lt htask, ofNat_eq_iff hswitch.lt' htask]
  by_cases hselected : k' = idx + 1
  · -- The task is resumed, and the handler counts that.
    have hcounted : l.counter s.cpu.mem (idx + 1) = l.counter S.mem (idx + 1) + 1#32 :=
      hcount.trans (if_pos hselected.symm)
    have hk : k ≠ idx + 1 := fun heq => hswitch.ne (hselected.trans heq.symm)
    rw [if_pos hselected]
    refine ⟨hsuspension, ?_, ?_, fun _ => ?_, fun hne => absurd hselected hne⟩
    · have hvalue := h.value
      show l.counter s.cpu.mem (idx + 1) + BitVec.ofNat 32 t.lost =
        start + BitVec.ofNat 32 (t.stores + (t.resumes + 1))
      rw [hcounted, ← Nat.add_assoc, BitVec.ofNat_add, ← BitVec.add_assoc start, ← hvalue]
      grind
    · have hlost := h.lost
      show t.lost + (t.sinceAccess + 1) ≤ t.resumes + 1
      lia
    · rcases h.suspended hk with ⟨_, hdead⟩ | ⟨f, pos, hf, hbody⟩
      · have hone := (nextReady_some hready).right.right.right
        rw [hselected] at hone
        exact absurd hone hdead
      · have hframe : Frame.ofCpu s.cpu = f :=
          frame_selected h.suspension hstep hready (by rw [hselected]; exact hf)
        refine ⟨pos, ?_⟩
        show InBody l _ (l.counter s.cpu.mem (idx + 1)) _ pos (.ofCpu s.cpu)
        rw [hframe, hcounted]
        exact hbody.resumed
  · have hcounted : l.counter s.cpu.mem (idx + 1) = l.counter S.mem (idx + 1) :=
      hcount.trans (if_neg (Ne.symm hselected))
    rw [if_neg hselected]
    refine ⟨hsuspension, ?_, h.lost, fun heq => absurd heq hselected, fun _ => ?_⟩
    · show l.counter s.cpu.mem (idx + 1) + _ = _
      rw [hcounted]
      exact h.value
    · show (_ ∧ l.state s.cpu.mem (idx + 1) ≠ 1#32) ∨ exists f pos, _ ∧
        InBody l _ (l.counter s.cpu.mem (idx + 1)) t pos f
      rw [hcounted, hframes]
      by_cases hk : k = idx + 1
      · -- The task is preempted where it is.
        obtain ⟨pos, hbody⟩ := h.running hk
        rw [if_pos hk]
        exact Or.inr ⟨_, pos, rfl, hbody⟩
      · have hkept : l.state s.cpu.mem (idx + 1) = l.state S.mem (idx + 1) := by
          rw [hstate]
          unfold handedOver
          rw [if_neg (Ne.symm hselected), if_neg (Ne.symm hk)]
          rfl
        rw [if_neg hk, if_neg hselected, hkept]
        exact h.suspended hk

/-- An activation counts as a resumption if the handler switches to the task. -/
theorem counterInv_pendSV (h : CounterInv l bodies idx start k S t) (hidx : idx < 2)
    (hstep : pendSV l S.system = some s) :
    exists k', CounterInv l bodies idx start k' (S.switched l s)
      (if ¬ IsCurrent l idx S.mem ∧ IsCurrent l idx s.cpu.mem then t.resumed else t) := by
  have hcurrent : IsCurrent l idx S.mem ↔ k = idx + 1 := h.isCurrent_iff hidx
  cases hready : nextReady l S.system.cpu.mem (BitVec.ofNat 32 k) numTcbs 0 with
  | none =>
      have hstayed := counterInv_stayed h hidx hstep hready
      have hafter : IsCurrent l idx s.cpu.mem ↔ k = idx + 1 := hstayed.isCurrent_iff hidx
      have hnot : ¬ (¬ IsCurrent l idx S.mem ∧ IsCurrent l idx s.cpu.mem) :=
        fun hboth => hboth.left (hcurrent.mpr (hafter.mp hboth.right))
      refine ⟨k, ?_⟩
      rw [if_neg hnot]
      exact hstayed
  | some m =>
      have hswitched := counterInv_switched h hidx hstep hready
      have hafter : IsCurrent l idx s.cpu.mem ↔ m = idx + 1 := hswitched.isCurrent_iff hidx
      have hne : m ≠ k := (switching_of_nextReady h.suspension.switch
        (by rw [h.suspension.switch.current]; exact hready)).ne
      refine ⟨m, ?_⟩
      by_cases hselected : m = idx + 1
      · have hboth : ¬ IsCurrent l idx S.mem ∧ IsCurrent l idx s.cpu.mem :=
          ⟨fun hnow => hne (hselected.trans (hcurrent.mp hnow).symm), hafter.mpr hselected⟩
        rw [if_pos hselected] at hswitched
        rw [if_pos hboth]
        exact hswitched
      · have hnot : ¬ (¬ IsCurrent l idx S.mem ∧ IsCurrent l idx s.cpu.mem) :=
          fun hboth => hselected (hafter.mp hboth.right)
        rw [if_neg hselected] at hswitched
        rw [if_neg hnot]
        exact hswitched

theorem counterInv_run (hidx : idx < 2) (hroomy : forall j, j < numTasks - 1 -> Roomy l (j + 1))
    (hrun : CounterRun l bodies idx start S t) :
    exists k, CounterInv l bodies idx start k S t := by
  induction hrun with
  | initial s hinit hstart => exact ⟨0, counterInv_initial hinit hidx hstart⟩
  | spawn S t i _ hother ih =>
      obtain ⟨k, hinv⟩ := ih
      exact ⟨k, counterInv_spawn hinv hidx hroomy
        (fun heq => hother ((hinv.isCurrent_iff hidx).mpr heq)) i⟩
  | other S s t _ hother hstep hspares hleaves ih =>
      obtain ⟨k, hinv⟩ := ih
      exact ⟨k, counterInv_other hinv (fun heq => hother ((hinv.isCurrent_iff hidx).mpr heq))
        hstep hspares hleaves⟩
  | body S t pos _ hcurrent hpc ih =>
      obtain ⟨k, hinv⟩ := ih
      exact ⟨k, counterInv_body hinv hidx ((hinv.isCurrent_iff hidx).mp hcurrent) hpc⟩
  | pendSV S s t _ hstep ih =>
      obtain ⟨k, hinv⟩ := ih
      exact counterInv_pendSV hinv hidx hstep

/-- In every run the counter of a task has advanced once for each store of the task and for
each time it was resumed, but for the resumptions between a load and the next store: the
store takes those back. -/
theorem counter_counts (hidx : idx < 2)
    (hroomy : forall j, j < numTasks - 1 -> Roomy l (j + 1))
    (hrun : CounterRun l bodies idx start S t) :
    l.counter S.mem (idx + 1) + BitVec.ofNat 32 t.lost =
      start + BitVec.ofNat 32 (t.stores + t.resumes) ∧
    t.lost + t.sinceAccess ≤ t.resumes := by
  obtain ⟨k, hinv⟩ := counterInv_run hidx hroomy hrun
  exact ⟨hinv.value, hinv.lost⟩

end Steps

/-- Task 1 is spawned and resumed once, before it has executed anything. -/
theorem counter_counts_resumed :
    exists S, CounterRun exampleLayout exampleBodies 0 0#32 S (Tally.resumed .zero) ∧
      exampleLayout.counter S.mem 1 = 1#32 := by
  have hinitial : CounterRun exampleLayout exampleBodies 0 0#32 ⟨exampleSystem, fun _ => none⟩
      .zero := .initial exampleSystem initial_exampleSystem (by decide +kernel)
  have hrun : CounterRun exampleLayout exampleBodies 0 0#32 exampleSuspension .zero :=
    .spawn _ _ 0 hinitial (by decide +kernel)
  obtain ⟨k, hinv⟩ := counterInv_run (by decide) roomy_exampleLayout hrun
  have hscan : nextReady exampleLayout exampleSuspension.system.cpu.mem
      (exampleLayout.currentTask exampleSuspension.system.cpu.mem) numTcbs 0 = some 1 := by
    decide +kernel
  have hother : ¬ IsCurrent exampleLayout 0 exampleSuspension.mem := by decide +kernel
  obtain ⟨s, hstep, _, _, hcurrent, _⟩ := pendSV_switch hinv.suspension.switch hscan
  have hresumed := CounterRun.pendSV _ _ _ hrun hstep
  rw [if_pos ⟨hother, hcurrent⟩] at hresumed
  refine ⟨_, hresumed, ?_⟩
  have hcounts := (counter_counts (by decide) roomy_exampleLayout hresumed).left
  exact (BitVec.add_zero _).symm.trans hcounts

end Kernel
end HolyRust
