import HolyRust.Foundation.Trail
import HolyRust.Kernel.Pool
import Mathlib.Data.Set.BooleanAlgebra
import Mathlib.Order.CompletePartialOrder
import Mathlib.Order.Interval.Set.Basic

/-!
# Histories of the memory pools

What the blocks that were handed out since the last reset of a pool have to do with
each other, for every order of `alloc` and `reset` calls.  The bounds check compares a
sum that may have wrapped; a call with a sum below `2 ^ 32` is said to fit.
-/

namespace HolyRust
namespace Kernel

open Foundation

inductive PoolCall where
  | alloc (task : Nat) (size : Word)
  | reset (task : Nat)

namespace PoolCall

/-- The answer of a call, and `OFFSETS` after it. -/
def run : PoolCall -> PoolOffsets -> Except PoolError (Option Word) × PoolOffsets
  | alloc task size, offsets =>
      match offsets.alloc task size with
      | .ok (addr, offsets') => (.ok (some addr), offsets')
      | .error e => (.error e, offsets)
  | reset task, offsets =>
      match offsets.reset task with
      | .ok offsets' => (.ok none, offsets')
      | .error e => (.error e, offsets)

def Step (offsets : PoolOffsets) (call : PoolCall) (offsets' : PoolOffsets) : Prop :=
  (call.run offsets).2 = offsets'

/-- The sum that the bounds check compares is the true one. -/
def Fits (offsets : PoolOffsets) : PoolCall -> Prop
  | alloc task size =>
      forall h : task < numPools, (offsets ⟨task, h⟩).toNat + size.toNat < 2 ^ 32
  | reset _ => True

end PoolCall

abbrev PoolTransition : Type := Transition PoolOffsets PoolCall

/-!
## Blocks
-/

structure Block where
  addr : Word
  size : Word

def Block.bytes (b : Block) : Set Nat :=
  Set.Ico b.addr.toNat (b.addr.toNat + b.size.toNat)

def subPoolBase (task : Fin numPools) : Nat := heapPoolBase.toNat + task * taskPoolSize

/-- The bytes that belong to one task. -/
def subPool (task : Fin numPools) : Set Nat :=
  Set.Ico (subPoolBase task) (subPoolBase task + taskPoolSize)

/-- The blocks that were returned to `task` since its last reset, the latest first. -/
def liveBlocks (task : Fin numPools) : List PoolTransition -> List Block
  | [] => []
  | tr :: past =>
      match tr.label with
      | .alloc t size =>
          match tr.before.alloc t size with
          | .ok (addr, _) =>
              if t = task then ⟨addr, size⟩ :: liveBlocks task past else liveBlocks task past
          | .error _ => liveBlocks task past
      | .reset t => if t = task then [] else liveBlocks task past

/-- What is asked of the pools after the calls of `past`. -/
structure PoolSound (past : List PoolTransition) (offsets : PoolOffsets) : Prop where
  apart : forall task, (liveBlocks task past).Pairwise fun b c => Disjoint b.bytes c.bytes
  inside : forall task b, b ∈ liveBlocks task past -> b.bytes ⊆ subPool task
  foreign : forall task task', task ≠ task' -> forall b, b ∈ liveBlocks task past ->
    forall c, c ∈ liveBlocks task' past -> Disjoint b.bytes c.bytes
  bounded : forall task, (offsets task).toNat ≤ taskPoolSize
  remaining : forall task : Fin numPools, exists n : Word,
    offsets.remaining task = .ok n ∧ n.toNat + (offsets task).toNat = taskPoolSize
  failed : forall tr e, tr ∈ past -> (tr.label.run tr.before).1 = .error e ->
    tr.after = tr.before

/-- They were sound after every call so far. -/
def SoundThroughout : List PoolTransition -> PoolOffsets -> Prop
  | [], offsets => PoolSound [] offsets
  | tr :: past, offsets => PoolSound (tr :: past) offsets ∧ SoundThroughout past tr.before

/-!
## What a call does
-/

@[simp]
theorem put_self (offsets : PoolOffsets) (task : Fin numPools) (off : Word) :
    offsets.put task off task = off :=
  if_pos rfl

@[simp]
theorem put_of_ne (offsets : PoolOffsets) {task t : Fin numPools} (off : Word)
    (h : t ≠ task) : offsets.put task off t = offsets t :=
  if_neg h

/-- The block at the offset of a task. -/
def nextBlock (offsets : PoolOffsets) (task : Fin numPools) (size : Word) : Block where
  addr := heapPoolBase + BitVec.ofNat 32 (task * taskPoolSize) + offsets task
  size := size

theorem alloc_of_lt (offsets : PoolOffsets) (task : Fin numPools) (size : Word) :
    offsets.alloc task size =
      if taskPoolSize < (offsets task + size).toNat then .error .full
      else .ok ((nextBlock offsets task size).addr,
        offsets.put task (offsets task + size)) := by
  unfold PoolOffsets.alloc
  rw [dif_pos task.isLt]
  rfl

/-- A call fails, or hands out the next block of a task, or empties its pool. -/
theorem poolCall_cases {offsets offsets' : PoolOffsets} {call : PoolCall}
    (h : PoolCall.Step offsets call offsets') (past : List PoolTransition) :
    (offsets' = offsets ∧ forall t,
        liveBlocks t (⟨offsets, call, offsets'⟩ :: past) = liveBlocks t past) ∨
      (exists task : Fin numPools, exists size,
        call = .alloc task size ∧ (offsets task + size).toNat ≤ taskPoolSize ∧
          offsets' = offsets.put task (offsets task + size) ∧ forall t,
          liveBlocks t (⟨offsets, call, offsets'⟩ :: past) =
            if task = t then nextBlock offsets task size :: liveBlocks t past
            else liveBlocks t past) ∨
      (exists task : Fin numPools, call = .reset task ∧ offsets' = offsets.put task 0#32 ∧
        forall t, liveBlocks t (⟨offsets, call, offsets'⟩ :: past) =
          if task = t then [] else liveBlocks t past) := by
  cases h
  cases call with
  | alloc task size =>
      by_cases hlt : task < numPools
      · have halloc := alloc_of_lt offsets ⟨task, hlt⟩ size
        dsimp only at halloc
        by_cases hfull : taskPoolSize < (offsets ⟨task, hlt⟩ + size).toNat
        · rw [if_pos hfull] at halloc
          apply Or.inl
          simp [PoolCall.run, liveBlocks, halloc]
        · rw [if_neg hfull] at halloc
          apply Or.inr
          apply Or.inl
          refine ⟨⟨task, hlt⟩, size, rfl, Nat.le_of_not_lt hfull, ?_, ?_⟩
          · simp [PoolCall.run, halloc]
          · intro t
            simp [liveBlocks, halloc, Fin.ext_iff, nextBlock]
      · have halloc : offsets.alloc task size = .error .badTask := dif_neg hlt
        apply Or.inl
        simp [PoolCall.run, liveBlocks, halloc]
  | reset task =>
      by_cases hlt : task < numPools
      · have hreset : offsets.reset task = .ok (offsets.put ⟨task, hlt⟩ 0#32) := dif_pos hlt
        apply Or.inr
        apply Or.inr
        refine ⟨⟨task, hlt⟩, rfl, ?_, ?_⟩
        · simp [PoolCall.run, hreset]
        · intro t
          simp [liveBlocks, Fin.ext_iff]
      · have hreset : offsets.reset task = .error .badTask := dif_neg hlt
        apply Or.inl
        constructor
        · simp [PoolCall.run, hreset]
        · intro t
          have hne : task ≠ t := fun heq => hlt (heq ▸ t.isLt)
          simp [liveBlocks, hne]

/-!
## The invariant

The blocks of a task lie below its offset, so the next one is clear of them.
-/

/-- The part of a sub-pool below an offset. -/
def used (task : Fin numPools) (off : Word) : Set Nat :=
  Set.Ico (subPoolBase task) (subPoolBase task + off.toNat)

/-- One task, its live blocks and its offset. -/
structure TaskInv (task : Fin numPools) (blocks : List Block) (off : Word) : Prop where
  bounded : off.toNat ≤ taskPoolSize
  below : forall b, b ∈ blocks -> b.bytes ⊆ used task off
  apart : blocks.Pairwise fun b c => Disjoint b.bytes c.bytes

structure PoolInv (past : List PoolTransition) (offsets : PoolOffsets) : Prop where
  tasks : forall task, TaskInv task (liveBlocks task past) (offsets task)
  failed : forall tr e, tr ∈ past -> (tr.label.run tr.before).1 = .error e ->
    tr.after = tr.before

theorem bytes_nextBlock {offsets : PoolOffsets} {task : Fin numPools}
    (hbound : (offsets task).toNat ≤ taskPoolSize) (size : Word) :
    (nextBlock offsets task size).bytes =
      Set.Ico (subPoolBase task + (offsets task).toNat)
        (subPoolBase task + (offsets task).toNat + size.toNat) := by
  have hlt := task.isLt
  have haddr : (nextBlock offsets task size).addr.toNat =
      subPoolBase task + (offsets task).toNat := by
    unfold nextBlock subPoolBase
    unfold taskPoolSize poolSize numPools at *
    rw [BitVec.toNat_add, BitVec.toNat_add, BitVec.toNat_ofNat]
    unfold heapPoolBase
    simp only [BitVec.toNat_ofNat]
    lia
  unfold Block.bytes
  rw [haddr]
  rfl

theorem used_subset {task : Fin numPools} {off off' : Word} (h : off.toNat ≤ off'.toNat) :
    used task off ⊆ used task off' :=
  Set.Ico_subset_Ico_right (by lia)

theorem run_error {call : PoolCall} {offsets : PoolOffsets} {e : PoolError}
    (h : (call.run offsets).1 = .error e) : (call.run offsets).2 = offsets := by
  cases call with
  | alloc task size =>
      cases halloc : offsets.alloc task size with
      | error e' => simp [PoolCall.run, halloc]
      | ok answer => simp [PoolCall.run, halloc] at h
  | reset task =>
      cases hreset : offsets.reset task with
      | error e' => simp [PoolCall.run, hreset]
      | ok answer => simp [PoolCall.run, hreset] at h

theorem failed_cons {past : List PoolTransition} {offsets offsets' : PoolOffsets}
    {call : PoolCall} (hstep : PoolCall.Step offsets call offsets')
    (hpast : forall tr e, tr ∈ past -> (tr.label.run tr.before).1 = .error e ->
      tr.after = tr.before) :
    forall tr e, tr ∈ (⟨offsets, call, offsets'⟩ :: past : List PoolTransition) ->
      (tr.label.run tr.before).1 = .error e -> tr.after = tr.before := by
  intro tr e htr herror
  rcases List.mem_cons.mp htr with rfl | hold
  · cases hstep
    exact run_error herror
  · exact hpast tr e hold herror

theorem taskInv_nil (task : Fin numPools) : TaskInv task [] 0#32 where
  bounded := Nat.zero_le _
  below _ hb := by
    cases hb
  apart := List.Pairwise.nil

/-- The new block starts where the used part ends. -/
theorem taskInv_alloc {offsets : PoolOffsets} {task : Fin numPools} {blocks : List Block}
    {size : Word} (hinv : TaskInv task blocks (offsets task))
    (hfits : (offsets task).toNat + size.toNat < 2 ^ 32)
    (hroom : (offsets task + size).toNat ≤ taskPoolSize) :
    TaskInv task (nextBlock offsets task size :: blocks) (offsets task + size) := by
  have hsum : (offsets task + size).toNat = (offsets task).toNat + size.toNat := by
    rw [BitVec.toNat_add, Nat.mod_eq_of_lt hfits]
  have hbytes := bytes_nextBlock hinv.bounded size
  constructor
  · exact hroom
  · intro b hb
    rcases List.mem_cons.mp hb with rfl | hold
    · rw [hbytes]
      exact Set.Ico_subset_Ico (by lia) (by lia)
    · exact Set.Subset.trans (hinv.below b hold) (used_subset (by lia))
  · rw [List.pairwise_cons]
    refine ⟨fun c hc => ?_, hinv.apart⟩
    rw [hbytes]
    refine Set.disjoint_of_subset_right (hinv.below c hc) ?_
    exact Set.disjoint_left.mpr fun a hnew hold =>
      absurd hnew.left (Nat.not_le.mpr hold.right)

theorem poolInv_step {past : List PoolTransition} {offsets offsets' : PoolOffsets}
    {call : PoolCall} (hinv : PoolInv past offsets)
    (hstep : PoolCall.Step offsets call offsets') (hfits : call.Fits offsets) :
    PoolInv (⟨offsets, call, offsets'⟩ :: past) offsets' := by
  refine ⟨fun t => ?_, failed_cons hstep hinv.failed⟩
  have hold := hinv.tasks t
  rcases poolCall_cases hstep past with ⟨rfl, hlive⟩ | ⟨task, size, rfl, hroom, rfl, hlive⟩ |
    ⟨task, rfl, rfl, hlive⟩
  · rw [hlive]
    exact hold
  · rw [hlive]
    by_cases ht : task = t
    · cases ht
      rw [if_pos rfl, put_self]
      exact taskInv_alloc hold (hfits t.isLt) hroom
    · rw [if_neg ht, put_of_ne _ _ (Ne.symm ht)]
      exact hold
  · rw [hlive]
    by_cases ht : task = t
    · cases ht
      rw [if_pos rfl, put_self]
      exact taskInv_nil t
    · rw [if_neg ht, put_of_ne _ _ (Ne.symm ht)]
      exact hold

theorem subPool_disjoint {task task' : Fin numPools} (h : task ≠ task') :
    Disjoint (subPool task) (subPool task') := by
  refine Set.disjoint_left.mpr fun a ha ha' => h (Fin.ext ?_)
  unfold subPool subPoolBase taskPoolSize poolSize numPools at *
  rw [Set.mem_Ico] at ha ha'
  lia

theorem remaining_of_bounded {offsets : PoolOffsets} {task : Fin numPools}
    (h : (offsets task).toNat ≤ taskPoolSize) :
    exists n : Word, offsets.remaining task = .ok n ∧
      n.toNat + (offsets task).toNat = taskPoolSize := by
  have hsize : (BitVec.ofNat 32 taskPoolSize).toNat = taskPoolSize := by decide
  refine ⟨BitVec.ofNat 32 taskPoolSize - offsets task, dif_pos task.isLt, ?_⟩
  rw [BitVec.toNat_sub_of_le (BitVec.le_def.mpr (by rw [hsize]; exact h)), hsize]
  lia

theorem poolSound_of_inv {past : List PoolTransition} {offsets : PoolOffsets}
    (hinv : PoolInv past offsets) : PoolSound past offsets := by
  have hinside : forall task b, b ∈ liveBlocks task past -> b.bytes ⊆ subPool task := by
    intro task b hb
    refine Set.Subset.trans ((hinv.tasks task).below b hb) (Set.Ico_subset_Ico_right ?_)
    exact Nat.add_le_add_left (hinv.tasks task).bounded _
  constructor
  · exact fun task => (hinv.tasks task).apart
  · exact hinside
  · intro task task' hne b hb c hc
    exact Set.disjoint_of_subset (hinside task b hb) (hinside task' c hc)
      (subPool_disjoint hne)
  · exact fun task => (hinv.tasks task).bounded
  · exact fun task => remaining_of_bounded (hinv.tasks task).bounded
  · exact hinv.failed

/-!
## Every history
-/

theorem poolInv_zero : PoolInv [] PoolOffsets.zero where
  tasks := taskInv_nil
  failed _ _ htr := by
    cases htr

theorem poolInv_of_fits {past : List PoolTransition} {offsets : PoolOffsets}
    (htrail : Trail PoolCall.Step PoolOffsets.zero past offsets)
    (hfits : forall tr, tr ∈ past -> tr.label.Fits tr.before) :
    PoolInv past offsets ∧ SoundThroughout past offsets := by
  refine Trail.invariant (fun past offsets => PoolInv past offsets ∧
    SoundThroughout past offsets) (fun tr => tr.label.Fits tr.before)
    ⟨poolInv_zero, poolSound_of_inv poolInv_zero⟩ ?_ htrail hfits
  intro past offsets call offsets' hpast hstep hcall
  have hinv := poolInv_step hpast.left hstep hcall
  exact ⟨hinv, poolSound_of_inv hinv, hpast.right⟩

/-- A call whose sum wraps hands out a block that leaves its sub-pool. -/
theorem fits_of_sound {past : List PoolTransition} {offsets offsets' : PoolOffsets}
    {call : PoolCall} (hinv : PoolInv past offsets)
    (hstep : PoolCall.Step offsets call offsets')
    (hsound : PoolSound (⟨offsets, call, offsets'⟩ :: past) offsets') :
    call.Fits offsets := by
  cases call with
  | reset task => trivial
  | alloc task size =>
      intro hlt
      by_contra hwraps
      have hbound := (hinv.tasks ⟨task, hlt⟩).bounded
      have hsum := BitVec.toNat_add (offsets ⟨task, hlt⟩) size
      have hsize := size.isLt
      have hroom : (offsets ⟨task, hlt⟩ + size).toNat ≤ taskPoolSize := by
        lia
      have halloc := alloc_of_lt offsets ⟨task, hlt⟩ size
      rw [if_neg (Nat.not_lt.mpr hroom)] at halloc
      have hmem : nextBlock offsets ⟨task, hlt⟩ size ∈
          liveBlocks ⟨task, hlt⟩ (⟨offsets, .alloc task size, offsets'⟩ :: past) := by
        dsimp only at halloc
        simp [liveBlocks, halloc, nextBlock]
      have hsub := hsound.inside _ _ hmem
      rw [bytes_nextBlock hbound] at hsub
      -- The block reaches past the end of its sub-pool, and even of the address space.
      have hlast : subPoolBase ⟨task, hlt⟩ + taskPoolSize ∈
          Set.Ico (subPoolBase ⟨task, hlt⟩ + (offsets ⟨task, hlt⟩).toNat)
            (subPoolBase ⟨task, hlt⟩ + (offsets ⟨task, hlt⟩).toNat + size.toNat) := by
        rw [Set.mem_Ico]
        unfold taskPoolSize poolSize numPools at *
        lia
      exact absurd (hsub hlast).right (Nat.lt_irrefl _)

theorem fits_of_soundThroughout {past : List PoolTransition} {offsets : PoolOffsets}
    (htrail : Trail PoolCall.Step PoolOffsets.zero past offsets)
    (hsound : SoundThroughout past offsets) :
    forall tr, tr ∈ past -> tr.label.Fits tr.before := by
  induction htrail with
  | nil =>
      intro tr htr
      cases htr
  | snoc hpast hstep ih =>
      have hold := ih hsound.right
      intro tr htr
      rcases List.mem_cons.mp htr with rfl | hmem
      · exact fits_of_sound (poolInv_of_fits hpast hold).left hstep hsound.left
      · exact hold tr hmem

/-- The calls, made one after the other on fresh pools. -/
def history (calls : List PoolCall) : List PoolTransition × PoolOffsets :=
  calls.foldl
    (fun h call => (⟨h.2, call, (call.run h.2).2⟩ :: h.1, (call.run h.2).2))
    ([], PoolOffsets.zero)

theorem trail_history (calls : List PoolCall) :
    Trail PoolCall.Step PoolOffsets.zero (history calls).1 (history calls).2 := by
  unfold history
  induction calls using List.reverseRecOn with
  | nil => exact Trail.nil
  | append_singleton calls call ih =>
      rw [List.foldl_append]
      exact Trail.snoc ih rfl

/-- The pools are sound after every call exactly when the sum of every bounds check fits
the machine word. -/
theorem soundThroughout_iff_fits (calls : List PoolCall) :
    SoundThroughout (history calls).1 (history calls).2 ↔
      forall tr, tr ∈ (history calls).1 -> tr.label.Fits tr.before := by
  have htrail := trail_history calls
  constructor
  · exact fits_of_soundThroughout htrail
  · exact fun hfits => (poolInv_of_fits htrail hfits).right

/-- 100 bytes, then `2 ^ 32 - 50`: the offset goes back to 50, and the second block runs
over the rest of the address space. -/
theorem not_soundThroughout_wrapping :
    ¬ SoundThroughout (history [.alloc 0 100#32, .alloc 0 0xFFFFFFCE#32]).1
      (history [.alloc 0 100#32, .alloc 0 0xFFFFFFCE#32]).2 := by
  intro hsound
  have hlive : liveBlocks ⟨0, by decide⟩
      (history [.alloc 0 100#32, .alloc 0 0xFFFFFFCE#32]).1 =
        [⟨0x2000C864#32, 0xFFFFFFCE#32⟩, ⟨0x2000C800#32, 100#32⟩] := rfl
  have hsub := hsound.left.inside ⟨0, by decide⟩ ⟨0x2000C864#32, 0xFFFFFFCE#32⟩
    (hlive ▸ List.mem_cons_self)
  -- The first byte of the next sub-pool.
  have hbyte : 0x2000D000 ∈ subPool ⟨0, by decide⟩ := hsub (Set.mem_Ico.mpr (by decide))
  exact absurd hbyte.right (by decide)

end Kernel
end HolyRust
