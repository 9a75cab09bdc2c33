import HolyRust.Execution.NativeAgreement
import HolyRust.Drivers.RegistryIntegrity

/-!
# Task slots in the execution buffer

`spawn` copies the body of a function into a slot of `EXEC_BUFFER`, without a
halt after it.  The native compiler writes to the start of the same buffer, which
is slot 0; its code never gets as far as slot 1.  So a body stays in its slot and
stops at its end only if the right word happened to be there, and in slot 0 only
until the next line that is compiled.
-/

namespace HolyRust
namespace Drivers

open Foundation
open Capabilities
open Kernel
open Compilation
open Execution

/-!
## Lines that write code
-/

/-- The stream of `bench`. -/
def benchStream (prims : Prims) : List Word :=
  [prims.wordOf .lit, 2#32, prims.wordOf .lit, 3#32, prims.wordOf .add, prims.wordOf .halt]

/-- The code that an outcome leaves in the buffer of the ARM build. -/
def nativeCode (b : Build) (engine : Engine) : Outcome -> List Half
  | .run program =>
      match engine with
      | .native => emittedCode thumb2Backend b.prims program.stream.words
      | .threaded => []
  | .bench => emittedCode thumb2Backend b.prims (benchStream b.prims)
  | _ => []

def lineCode (b : Build) (engine : Engine) (input : Input) (s : Session) : List Half :=
  match accepted b input s with
  | some outcome => nativeCode b engine outcome
  | none => []

/-- The code is in the buffer before the line does anything else. -/
def emitLine (b : Build) (engine : Engine) (input : Input) (s : Session) : Session :=
  { s with machine := { s.machine with
      mem := Memory.writeHalves (lineCode b engine input s) (jitSlotBase 0) s.machine.mem } }

/-- A line of the ARM build together with the code that it compiles. -/
def JitStep (b : Build) (engine : Engine) (s : Session) (input : Input) (s' : Session) : Prop :=
  Step b engine (emitLine b engine input s) input s'

theorem length_nativeCode_le (b : Build) (engine : Engine) (outcome : Outcome) :
    (nativeCode b engine outcome).length ≤ 258 := by
  have hall : forall words : List Word, words.length ≤ maxStreamWords ->
      (emittedCode thumb2Backend b.prims words).length ≤ 258 := by
    intro words hwords
    have hsize := length_emittedCode_le thumb2_bounds b.prims words
    have hmax : maxStreamWords = 128 := rfl
    lia
  unfold nativeCode
  split
  · split
    · exact hall _ (StreamProgram.stream _).length_le
    · exact Nat.zero_le _
  · exact hall _ (show 6 ≤ 128 by decide)
  · exact Nat.zero_le _

theorem length_lineCode_le (b : Build) (engine : Engine) (input : Input) (s : Session) :
    (lineCode b engine input s).length ≤ 258 := by
  unfold lineCode
  split
  · exact length_nativeCode_le b engine _
  · exact Nat.zero_le _

/-- Code stays in the first 516 bytes of the buffer. -/
theorem keeps_emitLine {lo hi : Nat} (hfits : hi ≤ 2 ^ 32)
    (hapart : hi ≤ 0x20002000 ∨ 0x20002204 ≤ lo) (b : Build) (engine : Engine) (input : Input)
    (s : Session) : Keeps lo hi s (emitLine b engine input s) := by
  intro byte hlo hhi
  have hlen := length_lineCode_le b engine input s
  have hbase : jitSlotBase 0 = 0x20002000 := rfl
  exact Memory.writeHalves_outside _ (by lia) (by lia) (by lia)

theorem emitLine_of_nil {b : Build} {engine : Engine} {input : Input} {s : Session}
    (h : lineCode b engine input s = []) : emitLine b engine input s = s := by
  unfold emitLine
  rw [h]
  rfl

theorem registry_emitLine {b : Build} (harm : b.target = .arm) (engine : Engine) (input : Input)
    (s : Session) : (emitLine b engine input s).registry b = s.registry b := by
  apply registry_of_sameWindow
  rw [harm]
  exact keeps_emitLine (by decide) (by decide) b engine input s

theorem accepted_emitLine {b : Build} (harm : b.target = .arm) (engine : Engine) (input : Input)
    (s : Session) : accepted b input (emitLine b engine input s) = accepted b input s := by
  unfold accepted compileLine Session.env
  rw [registry_emitLine harm]
  rfl

theorem storesToUser_emitLine {b : Build} (harm : b.target = .arm) {engine : Engine}
    {input : Input} {s s' : Session} (h : StoresToUser b ⟨s, input, s'⟩) :
    StoresToUser b ⟨emitLine b engine input s, input, s'⟩ := by
  intro a ha
  have htargets : lineTargets b input (emitLine b engine input s) = lineTargets b input s := by
    unfold lineTargets
    rw [accepted_emitLine harm]
  exact h a (htargets ▸ ha)

/-!
## Intact slots
-/

/-- A word that ends a dispatch. -/
def IsTerminator (prims : Prims) (word : Word) : Prop :=
  word = 0#32 ∨ word = prims.wordOf .halt

instance (prims : Prims) (word : Word) : Decidable (IsTerminator prims word) :=
  inferInstanceAs (Decidable (_ ∨ _))

/-- The word after a body of `n` words. -/
def wordAfter (slot : Fin 2) (n : Nat) (mem : Mem) : Word :=
  mem.read32 (BitVec.ofNat 32 (jitSlotBase slot + 4 * n))

/-- The slot holds the body, and a terminator after it. -/
structure SlotIntact (prims : Prims) (slot : Fin 2) (body : List Word) (mem : Mem) : Prop where
  words : mem.readWords (BitVec.ofNat 32 (jitSlotBase slot)) body.length = body
  stops : IsTerminator prims (wordAfter slot body.length mem)

/-- End of the longest body with its terminator. -/
def jitSlotTop (slot : Fin 2) : Nat := jitSlotBase slot + 4 * (fnBodyWords + 1)

theorem slotIntact_sameWindow {prims : Prims} {slot : Fin 2} {body : List Word} {mem mem' : Mem}
    (hbody : body.length ≤ fnBodyWords)
    (hsame : mem'.SameWindow (jitSlotBase slot) (jitSlotTop slot) mem)
    (h : SlotIntact prims slot body mem) : SlotIntact prims slot body mem' where
  words := by
    have htop : jitSlotTop slot = jitSlotBase slot + 4 * (fnBodyWords + 1) := rfl
    rw [hsame.readWords (Nat.le_refl _) (by lia)]
    exact h.words
  stops := by
    have htop : jitSlotTop slot = jitSlotBase slot + 4 * (fnBodyWords + 1) := rfl
    unfold wordAfter
    rw [hsame.read32 (by lia) (by lia)]
    exact h.stops

/-- A dispatch of the slot performs `accesses` and stops behind the body, however far
one looks past it. -/
def DispatchPerforms (prims : Prims) (slot : Fin 2) (body : List Word) (mem : Mem)
    (accesses : List (Access Word Word)) : Prop :=
  forall (σ : Type) (bus : Bus Word Word σ) (s : σ) (more : Nat),
    let done := runThreadedStream prims bus 0
      (mem.readWords (BitVec.ofNat 32 (jitSlotBase slot)) (body.length + (more + 1))) (Vm.start s)
    (done.1 = .halted body.length ∨ done.1 = .zeroWord body.length) ∧ done.2.trace = accesses

theorem dispatchPerforms_of_intact {prims : Prims} {slot : Fin 2} {bs : List Block} {mem : Mem}
    (h : SlotIntact prims slot (blockWords prims bs) mem)
    (hbody : (blockWords prims bs).length ≤ fnBodyWords) :
    DispatchPerforms prims slot (blockWords prims bs) mem (bs.map blockAccess) := by
  intro σ bus s more
  have hmax : maxStreamWords = 128 := rfl
  have hfn : fnBodyWords = 32 := rfl
  have hroom : 3 * (Vm.start s).stack.items.length + (blockWords prims bs).length ≤
      maxStreamWords := by
    show 3 * 0 + _ ≤ _
    lia
  obtain ⟨hrun, hrecorded⟩ := run_blocks prims bus 0 bs
    (mem.readWords (BitVec.ofNat 32 (jitSlotBase slot + 4 * (blockWords prims bs).length))
      (more + 1)) (Vm.start s) hroom
  have htrace : (execBlocks bus 0 bs (Vm.start s)).trace = bs.map blockAccess := hrecorded.trace
  have hstops := h.stops
  unfold wordAfter at hstops
  simp only
  rw [Memory.readWords_append, h.words, hrun, Nat.zero_add, Memory.readWords]
  rcases hstops with hzero | hhalt
  · rw [hzero, run_zero]
    exact ⟨Or.inr rfl, htrace⟩
  · rw [hhalt, run_halt]
    exact ⟨Or.inl rfl, htrace⟩

/-!
## Spawning
-/

/-- The slot and the body of a line that spawns. -/
def spawnedBy (b : Build) (input : Input) (s : Session) : Option (Fin 2 × List Word) :=
  match compileLine b input s with
  | some (.ok (.spawn name) ps) =>
      match ps.comp.exportFn name.bytes maxStreamWords,
          (List.finRange 2).find? fun slot => !s.spawned slot with
      | some words, some slot => some (slot, words)
      | _, _ => none
  | _ => none

theorem perform_emitFn (slot : Fin 2) (words : List Word) (mem : Mem) :
    mem.perform (emitFnIntoSlot slot words) =
      mem.writeWords (BitVec.ofNat 32 (jitSlotBase slot)) words := by
  have hfrom : forall k, mem.perform ((words.zipIdx k).map fun p =>
      (.write (BitVec.ofNat 32 (jitSlotBase slot + 4 * p.2)) p.1 : Access Word Word)) =
      mem.writeWords (BitVec.ofNat 32 (jitSlotBase slot + 4 * k)) words := by
    induction words generalizing mem with
    | nil =>
        intro k
        rfl
    | cons w words ih =>
        intro k
        have hnext : BitVec.ofNat 32 (jitSlotBase slot + 4 * k) + 4#32 =
            BitVec.ofNat 32 (jitSlotBase slot + 4 * (k + 1)) := by
          rw [show 4#32 = BitVec.ofNat 32 4 from rfl, ← BitVec.ofNat_add]
          congr 1
        rw [Memory.writeWords, hnext, ← ih]
        rfl
  exact hfrom 0

/-- What `spawn` writes besides the body. -/
def taskWrites (b : Build) (slot : Fin 2) : List (Access Word Word) :=
  spawnJitTask b slot ++ configureSysTick

theorem taskWrites_above {b : Build} {slot : Fin 2} {a : Word}
    (ha : a ∈ storeAddrs (taskWrites b slot)) : 0x2000E800 ≤ a.toNat := by
  unfold taskWrites at ha
  rw [storeAddrs_append, List.mem_append] at ha
  rcases ha with htask | htick
  · exact (addr_of_task htask).left
  · have htick := addr_of_sysTick htick
    lia

theorem jitSlot_window (slot : Fin 2) :
    4 ≤ jitSlotBase slot ∧ jitSlotTop slot ≤ 0x20002484 ∧ 0x20002000 ≤ jitSlotBase slot := by
  have hslot := slot.isLt
  have hfn : fnBodyWords = 32 := rfl
  unfold jitSlotTop jitSlotBase
  lia

/-- Right after the copy the slot is intact if a terminator was there already. -/
theorem slotIntact_spawn (b : Build) {slot : Fin 2} {body : List Word} {mem : Mem}
    (hbody : body.length ≤ fnBodyWords)
    (hterminator : IsTerminator b.prims (wordAfter slot body.length mem)) :
    SlotIntact b.prims slot body
      (mem.perform (emitFnIntoSlot slot body ++ spawnJitTask b slot ++ configureSysTick)) := by
  obtain ⟨hwrap, htop, hbase⟩ := jitSlot_window slot
  have hfn : fnBodyWords = 32 := rfl
  have hdef : jitSlotTop slot = jitSlotBase slot + 4 * (fnBodyWords + 1) := rfl
  have hsplit : mem.perform (emitFnIntoSlot slot body ++ spawnJitTask b slot ++ configureSysTick) =
      (mem.writeWords (BitVec.ofNat 32 (jitSlotBase slot)) body).perform (taskWrites b slot) := by
    rw [← perform_emitFn, List.append_assoc]
    exact List.foldl_append
  rw [hsplit]
  have hmisses : forall a, a ∈ storeAddrs (taskWrites b slot) ->
      Memory.Misses (jitSlotBase slot) (jitSlotTop slot) a := by
    intro a ha
    have habove := taskWrites_above ha
    exact Or.inr (by lia)
  apply slotIntact_sameWindow hbody (Memory.sameWindow_perform _ hwrap (by lia) hmisses)
  constructor
  · exact Memory.readWords_writeWords (by decide) mem (by
      rw [BitVec.toNat_ofNat, Nat.mod_eq_of_lt (by lia)]
      lia)
  · unfold wordAfter at *
    rw [Memory.read32_writeWords_outside (by decide) mem]
    · exact hterminator
    · rw [BitVec.toNat_ofNat, Nat.mod_eq_of_lt (by lia)]
      lia
    · rw [BitVec.toNat_ofNat, Nat.mod_eq_of_lt (by lia)]
      lia
    · right
      rw [BitVec.toNat_ofNat, BitVec.toNat_ofNat, Nat.mod_eq_of_lt (by lia),
        Nat.mod_eq_of_lt (by lia)]

/-- The line that spawned: what it copied where, and that the slot is taken. -/
theorem spawn_step {b : Build} (harm : b.target = .arm) {engine : Engine} {s s' : Session}
    {input : Input} {slot : Fin 2} {body : List Word} (hstep : JitStep b engine s input s')
    (hspawned : spawnedBy b input s = some (slot, body)) :
    body.length ≤ fnBodyWords ∧ s'.spawned slot = true ∧
      s'.machine.mem = s.machine.mem.perform
        (emitFnIntoSlot slot body ++ spawnJitTask b slot ++ configureSysTick) := by
  unfold spawnedBy at hspawned
  split at hspawned
  · rename_i name ps hcompile
    split at hspawned
    · rename_i words slot' hexport hfree
      obtain ⟨rfl, rfl⟩ := Prod.mk.inj (Option.some.inj hspawned)
      have haccepted : accepted b input s = some (.spawn name) := by
        unfold accepted
        rw [hcompile]
      have hnone : emitLine b engine input s = s := by
        apply emitLine_of_nil
        unfold lineCode
        rw [haccepted]
        rfl
      have huser : StoresToUser b ⟨s, input, s'⟩ := by
        intro a ha
        rw [lineTargets_of_accepted haccepted] at ha
        cases ha
      unfold JitStep at hstep
      rw [hnone] at hstep
      have heval := (evalLine_of_step hstep huser).left
      unfold evalLine at heval
      simp only [hcompile, execute, onArm, harm, doSpawn, hexport, hfree] at heval
      rw [← Option.some.inj heval]
      exact ⟨length_exportFn hexport, if_pos rfl, rfl⟩
    · cases hspawned
  · cases hspawned

/-!
## Later lines
-/

/-- A slot is never free again. -/
theorem execute_spawned {b : Build} {input : Input} {outcome : Outcome} {s s' : Session}
    {slot : Fin 2} (hexec : execute b input outcome s = some s') (h : s.spawned slot = true) :
    s'.spawned slot = true := by
  by_cases hspawn : exists name, outcome = .spawn name
  · obtain ⟨name, rfl⟩ := hspawn
    rw [← Option.some.inj hexec]
    unfold onArm
    split
    · unfold doSpawn
      split
      · exact h
      · split
        · exact h
        · show (if slot = _ then true else s.spawned slot) = true
          split
          · rfl
          · exact h
    · exact h
  · rw [(execute_leavesAlone hexec).spawned fun name heq => hspawn ⟨name, heq⟩]
    exact h

/-- The next spawn goes to the other slot. -/
theorem keeps_doSpawn_other {b : Build} {slot : Fin 2} (name : NameBuf) {s : Session}
    (htaken : s.spawned slot = true) :
    Keeps (jitSlotBase slot) (jitSlotTop slot) s (doSpawn b name s) := by
  unfold doSpawn
  cases hexport : s.comp.exportFn name.bytes maxStreamWords with
  | none => exact keeps_refl s
  | some words =>
      cases hfree : (List.finRange 2).find? fun slot => !s.spawned slot with
      | none => exact keeps_refl s
      | some other =>
          obtain ⟨hwrap, htop, hbase⟩ := jitSlot_window slot
          have hne : other ≠ slot := by
            rintro rfl
            have hempty := List.find?_some hfree
            rw [htaken] at hempty
            cases hempty
          apply keeps_perform hwrap (by lia) s
          intro a ha
          rw [List.append_assoc, storeAddrs_append, List.mem_append] at ha
          rcases ha with hcopy | htask
          · have haddr := addr_of_emit (length_exportFn hexport) hcopy
            have hfn : fnBodyWords = 32 := rfl
            have hslots : slot.val ≠ other.val := fun heq => hne (Fin.ext heq.symm)
            have hother := other.isLt
            have hslot := slot.isLt
            unfold Memory.Misses jitSlotTop
            unfold jitSlotBase at *
            lia
          · have habove := taskWrites_above htask
            exact Or.inr (by lia)

/-- A line whose stores go to user memory leaves a taken slot alone, its code aside. -/
theorem keeps_slot {b : Build} (harm : b.target = .arm) {engine : Engine} {s s' : Session}
    {input : Input} {slot : Fin 2} (hstep : Step b engine s input s')
    (huser : StoresToUser b ⟨s, input, s'⟩) (htaken : s.spawned slot = true) :
    Keeps (jitSlotBase slot) (jitSlotTop slot) s s' ∧ s'.spawned slot = true := by
  obtain ⟨hwrap, htop, hbase⟩ := jitSlot_window slot
  obtain ⟨heval, hline⟩ := evalLine_of_step hstep huser
  rcases evalLine_cases heval with
    ⟨rfl, _⟩ | ⟨outcome, ps, _, haccepted, hexec⟩ | ⟨e, ps, _, _, rfl⟩
  · exact ⟨keeps_refl _, htaken⟩
  · refine ⟨?_, execute_spawned hexec htaken⟩
    obtain ⟨hmakes, htargets⟩ := hline outcome haccepted
    by_cases hspawn : exists name, outcome = .spawn name
    · obtain ⟨name, rfl⟩ := hspawn
      rw [← Option.some.inj hexec]
      exact keeps_onArm fun _ => keeps_doSpawn_other (s := { s with comp := ps.comp }) name htaken
    · have hregion : ((0x20002000, 0x20003000) : Nat × Nat) ∈ kernelMemory b.target := by
        rw [harm]
        decide
      have hdriver : forall a, a ∈ driverRegisters b.target outcome ->
          Memory.Misses (jitSlotBase slot) (jitSlotTop slot) a := by
        intro a ha
        have hall : (allDriverRegisters .arm).all
            (fun a => decide (Memory.Misses 0x20002000 0x20003000 a)) = true := by
          decide
        rw [harm] at ha
        have hmiss : Memory.Misses 0x20002000 0x20003000 a := by
          simpa using List.all_eq_true.mp hall a (mem_allDriverRegisters ha)
        unfold Memory.Misses at *
        lia
      have hregistry : registryHi b.target ≤ jitSlotBase slot := by
        rw [harm]
        exact Nat.le_trans (by decide) hbase
      have hpstore : jitSlotTop slot ≤ pstoreBase := Nat.le_trans htop (by decide)
      have hkeeps := keeps_execute_apart hwrap (by lia) hexec hmakes
        (fun a ha => misses_of_region hregion (by lia) (by lia) (htargets a ha)) hdriver
        (Or.inr hregistry) (Or.inl hpstore) (fun name heq => hspawn ⟨name, heq⟩)
      exact hkeeps
  · exact ⟨keeps_refl s, htaken⟩

theorem keeps_jitStep {b : Build} (harm : b.target = .arm) {engine : Engine} {s s' : Session}
    {input : Input} {slot : Fin 2} (hstep : JitStep b engine s input s')
    (huser : StoresToUser b ⟨s, input, s'⟩)
    (hcode : slot = 0 -> lineCode b engine input s = []) (htaken : s.spawned slot = true) :
    Keeps (jitSlotBase slot) (jitSlotTop slot) s s' ∧ s'.spawned slot = true := by
  obtain ⟨_, htop, _⟩ := jitSlot_window slot
  have hemit : Keeps (jitSlotBase slot) (jitSlotTop slot) s (emitLine b engine input s) := by
    by_cases hslot : slot = 0
    · rw [emitLine_of_nil (hcode hslot)]
      exact keeps_refl s
    · have hone : slot = 1 := by lia
      subst hone
      exact keeps_emitLine (by lia) (Or.inr (by decide)) b engine input s
  obtain ⟨hkeeps, hstill⟩ := keeps_slot (s := emitLine b engine input s) harm hstep
    (storesToUser_emitLine harm huser) htaken
  exact ⟨Memory.SameWindow.trans hkeeps hemit, hstill⟩

/-!
## Typing lines
-/

theorem jitStep_typed {b : Build} (engine : Engine) {s : Session} {text : String}
    (h : returnsQuietly b s text = true) (hcode : lineCode b engine (typed text) s = []) :
    JitStep b engine s (typed text) (typeLine b s text) := by
  unfold JitStep
  rw [emitLine_of_nil hcode]
  exact step_typed engine h

/-- A program that is one literal makes no access. -/
theorem makes_literal {v : Word} {program : StreamProgram}
    (hwords : program.stream.words = [Prims.inFlash.wordOf .lit, v, Prims.inFlash.wordOf .halt])
    (hyields : program.yieldsValue = true) : Engine.Makes .native .arm program [] := by
  refine ⟨Unit, Bus.constant 0#32, (), fun _ => 0#32, [], ?_⟩
  rw [show Build.arm.prims = .inFlash from rfl,
    compileAndRun_value .inFlash thumb2_laws thumb2_roomy hwords hyields]
  rfl

/-- The session after `1;`, which native code evaluates. -/
def afterOne (s : Session) : Session :=
  typeLine .arm (emitLine .arm .native (typed "1;") s) "1;"

/-- The words of the program that `1;` runs. -/
def evaluatesOne (s : Session) : Bool :=
  decide ((runProgram (accepted .arm (typed "1;") s)).map
    (fun program => (program.stream.words, program.yieldsValue)) =
    some ([Prims.inFlash.wordOf .lit, 1#32, Prims.inFlash.wordOf .halt], true))

theorem jitStep_one {s : Session} (h : evaluatesOne s = true) :
    JitStep .arm .native s (typed "1;") (afterOne s) := by
  obtain ⟨program, haccepted, hprogram⟩ := accepted_of_runProgram (of_decide_eq_true h)
  obtain ⟨hwords, hyields⟩ := Prod.mk.inj hprogram
  have hemitted : accepted .arm (typed "1;") (emitLine .arm .native (typed "1;") s) =
      some (.run program) := by
    rw [accepted_emitLine rfl]
    exact haccepted
  obtain ⟨ps, hparse⟩ := parse_of_accepted hemitted
  apply Step.line
  · intro outcome houtcome
    rw [hemitted] at houtcome
    cases houtcome
    exact makes_literal hwords hyields
  · unfold afterOne typeLine evalLine
    rw [compileLine_of_accepted hparse hemitted]
    rfl

/-!
## Whole runs
-/

/-- The slot is intact, and the function's statements are what a dispatch performs. -/
def SlotRunsBody (prims : Prims) (slot : Fin 2) (body : List Word) (mem : Mem) : Prop :=
  SlotIntact prims slot body mem ∧
    forall bs, body = blockWords prims bs ->
      DispatchPerforms prims slot body mem (bs.map blockAccess)

/-- Two functions are defined and the first one is spawned. -/
def afterFirstSpawn : Session :=
  typeLine .arm (typeLine .arm (typeLine .arm .blank "fn g() { poke 0x20000004 2; }")
    "fn f() { poke 0x20000000 1; }") "spawn g;"

def afterSecondSpawn : Session := typeLine .arm afterFirstSpawn "spawn f;"

/-- The lines that may follow a spawn: programs and further spawns. -/
def RunsOrSpawns (b : Build) (tr : Transition Session Input) : Prop :=
  (exists program, accepted b tr.label tr.before = some (.run program)) ∨
    exists name, accepted b tr.label tr.before = some (.spawn name)

/-- What slot integrity asks of every run from `start`. -/
def JitSlotIntegrity (b : Build) (engine : Engine) (start : Session) : Prop :=
  forall before s0, Trail (JitStep b engine) start before s0 ->
    forall input s1 slot body, JitStep b engine s0 input s1 ->
      spawnedBy b input s0 = some (slot, body) ->
      forall past s, Trail (JitStep b engine) s1 past s ->
        (forall tr, tr ∈ past -> RunsOrSpawns b tr) -> SlotRunsBody b.prims slot body s.machine.mem

/-- A function is defined. -/
def afterFn : Session := typeLine .arm .blank "fn f() { poke 0x20000000 1; }"

def afterSpawn : Session := typeLine .arm afterFn "spawn f;"

end Drivers
end HolyRust
