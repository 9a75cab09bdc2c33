import HolyRust.Kernel.ContextSwitch
import Mathlib.Data.List.Chain

/-!
# Fairness of the scan

`PendSV_Handler` starts every scan at control block 0 and takes the first Ready
task other than the current one.  Between activations code may run and spawn
tasks, which turns a Dead control block into a Ready one.  Two tasks take turns;
as soon as a third is Ready, the two lowest take turns without it.
-/

namespace HolyRust
namespace Kernel

open Foundation
open Isa

/-- The only change to a state that code between activations makes. -/
def OnlySpawns (l : TaskLayout) (s s' : System) : Prop :=
  forall j, j < numTcbs -> l.state s'.cpu.mem j = l.state s.cpu.mem j ∨
    (l.state s.cpu.mem j = 0#32 ∧ l.state s'.cpu.mem j = 1#32)

/-- A run in which the states are left to the handler and to `spawn`, with the
states around its PendSV activations. -/
inductive ScheduledRun (l : TaskLayout) : System -> List (System × System) -> Prop where
  | initial (s : System) : Initial l s -> ScheduledRun l s []
  | thread (s s' : System) (acts : List (System × System)) :
      ScheduledRun l s acts -> ThreadStep l s s' -> OnlySpawns l s s' -> ScheduledRun l s' acts
  | pendSV (s s' : System) (acts : List (System × System)) :
      ScheduledRun l s acts -> pendSV l s = some s' -> ScheduledRun l s' ((s, s') :: acts)

theorem ScheduledRun.toRun {l : TaskLayout} {s : System} {acts : List (System × System)}
    (h : ScheduledRun l s acts) : Run l s acts := by
  induction h with
  | initial s hinit => exact .initial s hinit
  | thread s s' acts _ hstep _ ih => exact .thread s s' acts ih hstep
  | pendSV s s' acts _ hstep ih => exact .pendSV s s' acts ih hstep

/-!
## What an activation does to the states
-/

theorem pendSV_mem {l : TaskLayout} {s s' : System} (h : pendSV l s = some s') :
    exists cpu, activate (pendSVHandler l) pendSVFuel s.cpu = some cpu ∧ s'.cpu = cpu := by
  unfold pendSV at h
  cases hact : activate (pendSVHandler l) pendSVFuel s.cpu with
  | none =>
      rw [hact] at h
      cases h
  | some cpu =>
      rw [hact] at h
      exact ⟨cpu, rfl, by rw [← Option.some.inj h]⟩

/-- The states after task `k` gave way to task `j`. -/
def handedOver (l : TaskLayout) (mem : Mem) (k j i : Nat) : Word :=
  if i = j then 2#32 else if i = k then 1#32 else l.state mem i

theorem Switching.finalMem_states {l : TaskLayout} {c : Cpu} {k j : Nat}
    (h : Switching l c k j) {i : Nat} (hi : i < numTcbs) :
    l.state (finalMem l c j) i = handedOver l c.mem k j i := by
  unfold handedOver
  by_cases hij : i = j
  · subst hij
    rw [if_pos rfl]
    unfold TaskLayout.state finalMem
    rw [Memory.read32_write32_of_apart _ _ (apart_field l h.lt' h.lt' (by decide) (by decide)
      (by
        rw [show (8#32).toNat = 8 from rfl, show (12#32).toNat = 12 from rfl]
        lia)), Memory.read32_write32 _ _ _ (by decide)]
  · rw [if_neg hij]
    by_cases hik : i = k
    · subst hik
      rw [if_pos rfl]
      unfold TaskLayout.state
      rw [finalMem_read32 (apart_field l h.lt' hi (by decide) (by decide) (by lia))
        (apart_field l h.lt' hi (by decide) (by decide) (by
          rw [show (8#32).toNat = 8 from rfl, show (12#32).toNat = 12 from rfl]
          lia))]
      unfold switchMem
      rw [h.current, Memory.read32_write32_of_apart _ _ (apart_current_field l hi (by decide)),
        Memory.read32_write32 _ _ _ (by decide)]
    · rw [if_neg hik]
      exact h.finalMem_state hi hik hij

theorem pendSV_states {l : TaskLayout} {k : Nat} {s s' : System} (hinv : SwitchInv l k s)
    (h : pendSV l s = some s') :
    match nextReady l s.cpu.mem (BitVec.ofNat 32 k) numTcbs 0 with
    | none => l.currentTask s'.cpu.mem = BitVec.ofNat 32 k ∧
        forall i, i < numTcbs -> l.state s'.cpu.mem i = l.state s.cpu.mem i
    | some j => l.currentTask s'.cpu.mem = BitVec.ofNat 32 j ∧
        forall i, i < numTcbs -> l.state s'.cpu.mem i = handedOver l s.cpu.mem k j i := by
  have hroom := hinv.room
  obtain ⟨cpu, hactivate, hcpu⟩ := pendSV_mem h
  rw [hcpu, ← hinv.current]
  cases hready : nextReady l s.cpu.mem (l.currentTask s.cpu.mem) numTcbs 0 with
  | none =>
      obtain ⟨c, hrun, hmem, _⟩ := run_pendSV_none l (exceptionEntry s.cpu)
        (by rw [exceptionEntry_nextReady hroom, hready])
      have hreturn := Option.some.inj ((activate_of_run hrun).symm.trans hactivate)
      have hfinal : cpu.mem = (exceptionEntry s.cpu).mem := by
        rw [← hreturn, exceptionReturn_mem, hmem]
      simp only
      rw [hfinal]
      refine ⟨exceptionEntry_current hroom, fun i hi => ?_⟩
      exact exceptionEntry_field hroom hi (by decide)
  | some j =>
      obtain ⟨c, hrun, hmem, _⟩ := run_pendSV_some l (exceptionEntry s.cpu)
        (by rw [exceptionEntry_nextReady hroom, hready])
      have hreturn := Option.some.inj ((activate_of_run hrun).symm.trans hactivate)
      have hfinal : cpu.mem = finalMem l (exceptionEntry s.cpu) j := by
        rw [← hreturn, exceptionReturn_mem, hmem]
        rfl
      have hswitch := switching_of_nextReady hinv hready
      simp only
      rw [hfinal]
      refine ⟨hswitch.finalMem_current, fun i hi => ?_⟩
      rw [hswitch.finalMem_states hi]
      unfold handedOver
      rw [show l.state (exceptionEntry s.cpu).mem i = l.state s.cpu.mem i from
        exceptionEntry_field hroom hi (by decide)]

/-!
## Round robin
-/

/-- The activation switches to task `j`. -/
def Selects (l : TaskLayout) (act : System × System) (j : Nat) : Prop :=
  l.currentTask act.2.cpu.mem = BitVec.ofNat 32 j ∧
    l.currentTask act.1.cpu.mem ≠ BitVec.ofNat 32 j

/-- At the activation task `j` is Ready, unless it is the one that runs. -/
def StaysReady (l : TaskLayout) (act : System × System) (j : Nat) : Prop :=
  l.state act.1.cpu.mem j = 1#32 ∨ l.currentTask act.1.cpu.mem = BitVec.ofNat 32 j

/-- Between two consecutive selections of `i`, every other task that stays Ready
is selected.  The latest activation comes first. -/
def RoundRobin (l : TaskLayout) (acts : List (System × System)) : Prop :=
  forall i j later last between first earlier, i < numTcbs -> j < numTcbs -> j ≠ i ->
    acts = later ++ last :: (between ++ first :: earlier) ->
    Selects l first i -> Selects l last i ->
    (forall act, act ∈ between -> ¬Selects l act i) ->
    (forall act, act ∈ last :: between -> StaysReady l act j) ->
    exists act, act ∈ between ∧ Selects l act j

/-- Exactly the current task is Running. -/
def OneRunning (l : TaskLayout) (s : System) : Prop :=
  forall j, j < numTcbs ->
    (l.state s.cpu.mem j = 2#32 ↔ l.currentTask s.cpu.mem = BitVec.ofNat 32 j)

/-- Some activation has switched tasks. -/
def Switched (l : TaskLayout) (acts : List (System × System)) : Prop :=
  exists act j, act ∈ acts ∧ j < numTcbs ∧ Selects l act j

/-- What the scheduler promises of a run. -/
structure Scheduled (l : TaskLayout) (s : System) (acts : List (System × System)) : Prop where
  fair : RoundRobin l acts
  running : Switched l acts -> OneRunning l s

/-- At most one task other than the current one is Ready. -/
def OneOther (l : TaskLayout) (s : System) : Prop :=
  forall i j, i < numTcbs -> j < numTcbs ->
    BitVec.ofNat 32 i ≠ l.currentTask s.cpu.mem -> BitVec.ofNat 32 j ≠ l.currentTask s.cpu.mem ->
    l.state s.cpu.mem i = 1#32 -> l.state s.cpu.mem j = 1#32 -> i = j

/-!
## Whole runs
-/

/-- The activation finds the task that the one before it left. -/
def Follows (l : TaskLayout) (act act' : System × System) : Prop :=
  l.currentTask act.1.cpu.mem = l.currentTask act'.2.cpu.mem

structure ScheduleInv (l : TaskLayout) (s : System) (acts : List (System × System)) : Prop where
  follows : acts.IsChain (Follows l)
  latest : forall act rest, acts = act :: rest ->
    l.currentTask s.cpu.mem = l.currentTask act.2.cpu.mem
  genuine : forall act, act ∈ acts -> exists k, SwitchInv l k act.1 ∧ pendSV l act.1 = some act.2
  only : forall j, j < numTcbs -> l.state s.cpu.mem j = 2#32 ->
    l.currentTask s.cpu.mem = BitVec.ofNat 32 j
  marked : Switched l acts -> forall j, j < numTcbs ->
    l.currentTask s.cpu.mem = BitVec.ofNat 32 j -> l.state s.cpu.mem j = 2#32

theorem scheduleInv_initial {l : TaskLayout} {s : System} (h : Initial l s) :
    ScheduleInv l s [] where
  follows := .nil
  latest := nofun
  genuine := nofun
  only := by
    intro j hj hrunning
    rw [h.dead j hj] at hrunning
    cases hrunning
  marked := by
    rintro ⟨act, j, hact, _⟩
    cases hact

theorem scheduleInv_thread {l : TaskLayout} {s s' : System} {acts : List (System × System)}
    (h : ScheduleInv l s acts) (hstep : ThreadStep l s s') (hspawns : OnlySpawns l s s') :
    ScheduleInv l s' acts where
  follows := h.follows
  latest := fun act rest hacts => hstep.current.trans (h.latest act rest hacts)
  genuine := h.genuine
  only := by
    intro j hj hrunning
    rcases hspawns j hj with hsame | ⟨_, hready⟩
    · rw [hstep.current]
      exact h.only j hj (hsame ▸ hrunning)
    · rw [hready] at hrunning
      cases hrunning
  marked := by
    intro hswitched j hj hcurrent
    rw [hstep.current] at hcurrent
    have hrunning := h.marked hswitched j hj hcurrent
    rcases hspawns j hj with hsame | ⟨hdead, _⟩
    · rw [hsame, hrunning]
    · rw [hdead] at hrunning
      cases hrunning

/-- The latest activation did not switch. -/
theorem switched_of_stay {l : TaskLayout} {act : System × System}
    {acts : List (System × System)}
    (hstay : l.currentTask act.2.cpu.mem = l.currentTask act.1.cpu.mem)
    (h : Switched l (act :: acts)) : Switched l acts := by
  obtain ⟨act', j, hact, hj, hselects⟩ := h
  rcases List.mem_cons.mp hact with rfl | hold
  · exact absurd (hstay ▸ hselects.left) hselects.right
  · exact ⟨act', j, hold, hj, hselects⟩

theorem scheduleInv_pendSV {l : TaskLayout} {k : Nat} {s s' : System}
    {acts : List (System × System)} (h : ScheduleInv l s acts) (hinv : SwitchInv l k s)
    (hstep : pendSV l s = some s') : ScheduleInv l s' ((s, s') :: acts) := by
  have hstates := pendSV_states hinv hstep
  have hfollows : ((s, s') :: acts).IsChain (Follows l) := by
    cases acts with
    | nil => exact .singleton _
    | cons act rest => exact .cons_cons (h.latest act rest rfl) h.follows
  have hgenuine : forall act, act ∈ (s, s') :: acts ->
      exists k, SwitchInv l k act.1 ∧ pendSV l act.1 = some act.2 := by
    intro act hact
    rcases List.mem_cons.mp hact with rfl | hold
    · exact ⟨k, hinv, hstep⟩
    · exact h.genuine act hold
  have hlatest : forall act rest, (s, s') :: acts = act :: rest ->
      l.currentTask s'.cpu.mem = l.currentTask act.2.cpu.mem := by
    intro act rest hacts
    rw [← (List.cons.inj hacts).left]
  cases hready : nextReady l s.cpu.mem (BitVec.ofNat 32 k) numTcbs 0 with
  | none =>
      rw [hready] at hstates
      obtain ⟨hcurrent, hsame⟩ := hstates
      rw [← hinv.current] at hcurrent
      refine ⟨hfollows, hlatest, hgenuine, ?_, ?_⟩
      · intro j hj hrunning
        rw [hcurrent]
        exact h.only j hj (hsame j hj ▸ hrunning)
      · intro hswitched j hj hnow
        rw [hsame j hj]
        exact h.marked (switched_of_stay hcurrent hswitched) j hj (hcurrent ▸ hnow)
  | some m =>
      rw [hready] at hstates
      obtain ⟨hcurrent, hafter⟩ := hstates
      obtain ⟨_, hm, _⟩ := nextReady_some hready
      rw [Nat.zero_add] at hm
      refine ⟨hfollows, hlatest, hgenuine, ?_, ?_⟩
      · intro j hj hrunning
        rw [hafter j hj] at hrunning
        unfold handedOver at hrunning
        by_cases hjm : j = m
        · rw [hcurrent, hjm]
        · rw [if_neg hjm] at hrunning
          by_cases hjk : j = k
          · rw [if_pos hjk] at hrunning
            cases hrunning
          · rw [if_neg hjk] at hrunning
            have hold := h.only j hj hrunning
            rw [hinv.current, ofNat_eq_iff hinv.lt hj] at hold
            exact absurd hold.symm hjk
      · intro _ j hj hnow
        rw [hcurrent, ofNat_eq_iff hm hj] at hnow
        rw [hafter j hj]
        unfold handedOver
        rw [if_pos hnow.symm]

theorem scheduleInv_run {l : TaskLayout} {s : System} {acts : List (System × System)}
    (h : ScheduledRun l s acts) : ScheduleInv l s acts := by
  induction h with
  | initial s hinit => exact scheduleInv_initial hinit
  | thread s s' acts _ hstep hspawns ih => exact scheduleInv_thread ih hstep hspawns
  | pendSV s s' acts hrun hstep ih =>
      obtain ⟨k, hinv⟩ := switchInv_run hrun.toRun
      exact scheduleInv_pendSV ih hinv hstep

/-- A task that is selected and no longer current was left in between. -/
theorem exists_leaving {l : TaskLayout} {i : Word} {first last : System × System}
    {between : List (System × System)}
    (hfollows : (last :: (between ++ [first])).IsChain (Follows l))
    (hfirst : l.currentTask first.2.cpu.mem = i) (hlast : l.currentTask last.1.cpu.mem ≠ i) :
    exists act, act ∈ between ∧ l.currentTask act.1.cpu.mem = i ∧
      l.currentTask act.2.cpu.mem ≠ i := by
  induction between generalizing last with
  | nil =>
      have hnext : Follows l last first := List.rel_of_isChain_cons_cons hfollows
      exact absurd (hnext.trans hfirst) hlast
  | cons act rest ih =>
      rw [List.cons_append, List.isChain_cons_cons] at hfollows
      have hnext : l.currentTask last.1.cpu.mem = l.currentTask act.2.cpu.mem := hfollows.left
      by_cases hact : l.currentTask act.1.cpu.mem = i
      · exact ⟨act, List.mem_cons_self, hact, hnext ▸ hlast⟩
      · obtain ⟨act', hmem, hleaves⟩ := ih hfollows.right hact
        exact ⟨act', List.mem_cons_of_mem _ hmem, hleaves⟩

/-- The only other Ready task is the one that an activation selects. -/
theorem selects_of_oneOther {l : TaskLayout} {k j : Nat} {act : System × System}
    (hinv : SwitchInv l k act.1) (hstep : pendSV l act.1 = some act.2)
    (hone : OneOther l act.1) (hj : j < numTcbs) (hne : j ≠ k)
    (hready : l.state act.1.cpu.mem j = 1#32)
    (hleaves : l.currentTask act.2.cpu.mem ≠ l.currentTask act.1.cpu.mem) : Selects l act j := by
  have hstates := pendSV_states hinv hstep
  have hother : BitVec.ofNat 32 j ≠ l.currentTask act.1.cpu.mem := by
    rw [hinv.current]
    exact fun heq => hne ((ofNat_eq_iff hj hinv.lt).mp heq)
  cases hscan : nextReady l act.1.cpu.mem (BitVec.ofNat 32 k) numTcbs 0 with
  | none =>
      rw [hscan, ← hinv.current] at hstates
      exact absurd hstates.left hleaves
  | some m =>
      rw [hscan] at hstates
      obtain ⟨_, hm, hmk, hmready⟩ := nextReady_some hscan
      rw [Nat.zero_add] at hm
      rw [← hinv.current] at hmk
      have hmj := hone m j hm hj hmk hother hmready hready
      exact ⟨hmj ▸ hstates.left, hother.symm⟩

/-- With at most one other Ready task at every activation, two tasks take turns. -/
theorem scheduled_of_oneOther {l : TaskLayout} {s : System} {acts : List (System × System)}
    (h : ScheduledRun l s acts) (hone : forall act, act ∈ acts -> OneOther l act.1) :
    Scheduled l s acts := by
  have hinv := scheduleInv_run h
  constructor
  · intro i j later last between first earlier hi hj hne hacts hfirst hlast _ hstays
    have hsegment : acts = later ++ (last :: (between ++ [first]) ++ earlier) := by
      rw [hacts]
      simp
    have hfollows : (last :: (between ++ [first])).IsChain (Follows l) := by
      have hchain := hinv.follows
      rw [hsegment] at hchain
      exact hchain.right_of_append.left_of_append
    obtain ⟨act, hmem, hcurrent, hleaves⟩ := exists_leaving hfollows hfirst.left hlast.right
    have hin : act ∈ acts := by
      rw [hacts]
      simp [hmem]
    obtain ⟨k, hswitch, hstep⟩ := hinv.genuine act hin
    have hik : i = k := by
      rw [hswitch.current, ofNat_eq_iff hswitch.lt hi] at hcurrent
      exact hcurrent.symm
    have hready : l.state act.1.cpu.mem j = 1#32 := by
      rcases hstays act (List.mem_cons_of_mem _ hmem) with hready | hruns
      · exact hready
      · rw [hcurrent, ofNat_eq_iff hi hj] at hruns
        exact absurd hruns.symm hne
    refine ⟨act, hmem, selects_of_oneOther hswitch hstep (hone act hin) hj ?_ hready ?_⟩
    · rw [← hik]
      exact hne
    · rw [hcurrent]
      exact hleaves
  · intro hswitched j hj
    exact ⟨hinv.only j hj, hinv.marked hswitched j hj⟩

/-!
## Small systems
-/

/-- Two tasks are spawned at once. -/
theorem scheduledRun_pair :
    ScheduledRun exampleLayout (exampleSpawned [1, 2]) [] := by
  apply ScheduledRun.thread _ _ _ (.initial _ initial_exampleSystem)
  · apply threadStep_exampleSpawned
    · decide +kernel
    · unfold FrameFits
      decide +kernel
  · unfold OnlySpawns
    decide +kernel

theorem scheduledRun_solo :
    ScheduledRun exampleLayout (exampleSpawned [1]) [] := by
  apply ScheduledRun.thread _ _ _ (.initial _ initial_exampleSystem)
  · apply threadStep_exampleSpawned
    · decide +kernel
    · unfold FrameFits
      decide +kernel
  · unfold OnlySpawns
    decide +kernel

/-- An activation of a run, with what it does to the states. -/
theorem exists_pendSV {l : TaskLayout} {s : System} {acts : List (System × System)} {k : Nat}
    (hrun : ScheduledRun l s acts) (hk : k < numTcbs)
    (hcurrent : l.currentTask s.cpu.mem = BitVec.ofNat 32 k) {j : Nat}
    (hscan : nextReady l s.cpu.mem (BitVec.ofNat 32 k) numTcbs 0 = some j) :
    exists s', ScheduledRun l s' ((s, s') :: acts) ∧
      l.currentTask s'.cpu.mem = BitVec.ofNat 32 j ∧
      forall i, i < numTcbs -> l.state s'.cpu.mem i = handedOver l s.cpu.mem k j i := by
  obtain ⟨k', hinv⟩ := switchInv_run hrun.toRun
  obtain ⟨s', _, hstep, _⟩ := switchInv_pendSV hinv
  have hkk : k' = k := by
    rw [hinv.current, ofNat_eq_iff hinv.lt hk] at hcurrent
    exact hcurrent
  subst hkk
  have hstates := pendSV_states hinv hstep
  rw [hscan] at hstates
  exact ⟨s', .pendSV s s' acts hrun hstep, hstates⟩

/-- With tasks 1 and 2 spawned, tasks 1 and 0 take turns and task 2 starves. -/
theorem not_roundRobin_three :
    ¬ forall s acts, ScheduledRun exampleLayout s acts -> Scheduled exampleLayout s acts := by
  intro hall
  obtain ⟨s1, hrun1, hcur1, hst1⟩ := exists_pendSV scheduledRun_pair (k := 0) (j := 1)
    (by decide) (by decide +kernel) (by decide +kernel)
  have hready1 : exampleLayout.state s1.cpu.mem 0 = 1#32 := (hst1 0 (by decide)).trans rfl
  have hthird1 : exampleLayout.state s1.cpu.mem 2 = 1#32 :=
    (hst1 2 (by decide)).trans (by decide +kernel)
  obtain ⟨s2, hrun2, hcur2, hst2⟩ := exists_pendSV hrun1 (k := 1) (j := 0) (by decide) hcur1
    (by simp [nextReady, numTcbs, hready1])
  have hready2 : exampleLayout.state s2.cpu.mem 1 = 1#32 := (hst2 1 (by decide)).trans rfl
  have hthird2 : exampleLayout.state s2.cpu.mem 2 = 1#32 := (hst2 2 (by decide)).trans hthird1
  obtain ⟨s3, hrun3, hcur3, _⟩ := exists_pendSV hrun2 (k := 0) (j := 1) (by decide) hcur2
    (by simp [nextReady, numTcbs, hready2])
  have hstart : exampleLayout.currentTask (exampleSpawned [1, 2]).cpu.mem ≠
      BitVec.ofNat 32 1 := by
    decide +kernel
  have hfair := (hall s3 _ hrun3).fair 1 2 [] (s2, s3) [(s1, s2)] (exampleSpawned [1, 2], s1) []
    (by decide) (by decide) (by decide) rfl
    ⟨hcur1, hstart⟩ ⟨hcur3, by rw [hcur2]; decide⟩
  obtain ⟨act, hact, hselects⟩ := hfair
    (by
      intro act hact
      rw [List.mem_singleton.mp hact]
      rintro ⟨hnow, _⟩
      rw [hcur2] at hnow
      cases hnow)
    (by
      intro act hact
      rcases List.mem_cons.mp hact with rfl | hact
      · exact Or.inl hthird2
      · rw [List.mem_singleton.mp hact]
        exact Or.inl hthird1)
  rw [List.mem_singleton.mp hact] at hselects
  have hnow := hselects.left
  rw [hcur2] at hnow
  cases hnow

/-- With one task spawned, it and the first task take turns. -/
theorem scheduled_solo : exists s acts, ScheduledRun exampleLayout s acts ∧ acts.length = 2 ∧
    Scheduled exampleLayout s acts := by
  obtain ⟨s1, hrun1, hcur1, hst1⟩ := exists_pendSV scheduledRun_solo (k := 0) (j := 1)
    (by decide) (by decide +kernel) (by decide +kernel)
  have hready1 : exampleLayout.state s1.cpu.mem 0 = 1#32 := (hst1 0 (by decide)).trans rfl
  obtain ⟨s2, hrun2, _, _⟩ := exists_pendSV hrun1 (k := 1) (j := 0) (by decide) hcur1
    (by simp [nextReady, numTcbs, hready1])
  have hbefore : forall i, i < numTcbs ->
      exampleLayout.state (exampleSpawned [1]).cpu.mem i = 1#32 -> i = 1 := by
    decide +kernel
  have hafter : forall i, i < numTcbs -> exampleLayout.state s1.cpu.mem i = 1#32 -> i = 0 := by
    intro i hi hready
    rw [hst1 i hi] at hready
    unfold handedOver at hready
    by_cases hi1 : i = 1
    · rw [if_pos hi1] at hready
      cases hready
    · rw [if_neg hi1] at hready
      by_cases hi0 : i = 0
      · exact hi0
      · rw [if_neg hi0] at hready
        exact absurd (hbefore i hi hready) hi1
  refine ⟨s2, _, hrun2, rfl, scheduled_of_oneOther hrun2 ?_⟩
  intro act hact
  rcases List.mem_cons.mp hact with rfl | hact
  · intro i j hi hj _ _ hiready hjready
    rw [hafter i hi hiready, hafter j hj hjready]
  · rw [List.mem_singleton.mp hact]
    intro i j hi hj _ _ hiready hjready
    rw [hbefore i hi hiready, hbefore j hj hjready]

end Kernel
end HolyRust
