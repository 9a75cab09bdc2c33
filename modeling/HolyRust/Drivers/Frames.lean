import HolyRust.Drivers.Repl

/-!
# What a line leaves alone

State outside memory is changed by few commands.  A window of SRAM is protected
when neither user memory, nor a device register, nor anything that `spawn` writes
reaches into it.  Lines whose stores go to user memory keep protected windows;
`cap_claim`, `cap_drop` and `store` are looked at where the registry and the
program store are.
-/

namespace HolyRust
namespace Drivers

open Foundation
open Capabilities
open Kernel
open Compilation
open Execution

/-!
## Outside memory
-/

/-- The commands that end in `enforced_poke_u32`. -/
def isEnforcedWrite : Outcome -> Bool
  | .enforcedPoke _ _ => true
  | .setBit _ _ => true
  | .clrBit _ _ => true
  | _ => false

/-- Only `load` changes the compiler, only `spawn` takes a slot, and only enforced
writes are recorded. -/
structure LeavesAlone (outcome : Outcome) (s s' : Session) : Prop where
  comp : (forall name, outcome ≠ .load name) -> s'.comp = s.comp
  spawned : (forall name, outcome ≠ .spawn name) -> s'.spawned = s.spawned
  audit : isEnforcedWrite outcome = false -> s'.machine.audit = s.machine.audit

theorem leavesAlone_refl (outcome : Outcome) (s : Session) : LeavesAlone outcome s s where
  comp := fun _ => rfl
  spawned := fun _ => rfl
  audit := fun _ => rfl

theorem leavesAlone_mem (outcome : Outcome) (s : Session) (mem : Mem) :
    LeavesAlone outcome s { s with machine := { s.machine with mem := mem } } where
  comp := fun _ => rfl
  spawned := fun _ => rfl
  audit := fun _ => rfl

theorem leavesAlone_onArm {b : Build} {outcome : Outcome} {f : Session -> Session} {s : Session}
    (h : LeavesAlone outcome s (f s)) : LeavesAlone outcome s (onArm b f s) := by
  unfold onArm
  split
  · exact h
  · exact leavesAlone_refl outcome s

theorem audit_writeRegistryWord (t : Target) (i : Nat) (r : Registry) (m : Machine) :
    (writeRegistryWord t i r m).audit = m.audit := by
  unfold writeRegistryWord
  split <;> rfl

theorem audit_doClaim (t : Target) (name : List Byte) (m : Machine) :
    (doClaim t name m).audit = m.audit := by
  unfold doClaim
  split
  · exact audit_writeRegistryWord t _ _ m
  · rfl

theorem audit_doDrop (t : Target) (name : List Byte) (m : Machine) :
    (doDrop t name m).audit = m.audit := by
  unfold doDrop
  split
  · split
    · rfl
    · exact audit_writeRegistryWord t _ _ m
  · rfl

theorem audit_enforcedPeek (t : Target) (addr : Word) (m : Machine) :
    (finalState (enforcedPeekU32 t addr m)).audit = m.audit := by
  rw [enforcedPeekU32_eq]
  split <;> rfl

theorem leavesAlone_doStore (name : NameBuf) (s : Session) :
    LeavesAlone (.store name) s (doStore name s) := by
  unfold doStore
  split
  · exact leavesAlone_refl _ s
  · split
    · exact leavesAlone_refl _ s
    · split
      · exact leavesAlone_mem _ s _
      · exact leavesAlone_refl _ s

theorem leavesAlone_doLoad (name : NameBuf) (s : Session) :
    LeavesAlone (.load name) s (doLoad name s) := by
  refine ⟨fun hload => absurd rfl (hload name), fun _ => ?_, fun _ => ?_⟩
  · unfold doLoad
    split
    · rfl
    · split <;> rfl
  · unfold doLoad
    split
    · rfl
    · split <;> rfl

theorem leavesAlone_doSpawn (b : Build) (name : NameBuf) (s : Session) :
    LeavesAlone (.spawn name) s (doSpawn b name s) := by
  refine ⟨fun _ => ?_, fun hspawn => absurd rfl (hspawn name), fun _ => ?_⟩
  · unfold doSpawn
    split
    · rfl
    · split <;> rfl
  · unfold doSpawn
    split
    · rfl
    · split <;> rfl

theorem execute_leavesAlone {b : Build} {input : Input} {outcome : Outcome} {s s' : Session}
    (hexec : execute b input outcome s = some s') : LeavesAlone outcome s s' := by
  cases outcome with
  | claim name =>
      rw [← Option.some.inj hexec]
      exact ⟨fun _ => rfl, fun _ => rfl, fun _ => audit_doClaim b.target name.bytes s.machine⟩
  | drop name =>
      rw [← Option.some.inj hexec]
      exact ⟨fun _ => rfl, fun _ => rfl, fun _ => audit_doDrop b.target name.bytes s.machine⟩
  | enforcedPeek addr =>
      rw [← Option.some.inj hexec]
      exact ⟨fun _ => rfl, fun _ => rfl, fun _ => audit_enforcedPeek b.target addr s.machine⟩
  | enforcedPoke addr val =>
      rw [← Option.some.inj hexec]
      exact ⟨fun _ => rfl, fun _ => rfl, nofun⟩
  | setBit addr bit | clrBit addr bit =>
      obtain ⟨v, _, rfl⟩ := Option.map_eq_some_iff.mp hexec
      exact ⟨fun _ => rfl, fun _ => rfl, nofun⟩
  | store name =>
      rw [← Option.some.inj hexec]
      exact leavesAlone_onArm (leavesAlone_doStore name s)
  | load name =>
      rw [← Option.some.inj hexec]
      exact leavesAlone_onArm (leavesAlone_doLoad name s)
  | spawn name =>
      rw [← Option.some.inj hexec]
      exact leavesAlone_onArm (leavesAlone_doSpawn b name s)
  | poolAlloc _ | poolFree =>
      rw [← Option.some.inj hexec]
      apply leavesAlone_onArm
      split
      · exact ⟨fun _ => rfl, fun _ => rfl, fun _ => rfl⟩
      · exact leavesAlone_refl _ s
  | _ =>
      rw [← Option.some.inj hexec]
      exact ⟨fun _ => rfl, fun _ => rfl, fun _ => rfl⟩

/-!
## Windows
-/

/-- What `spawn` may write to: the execution buffer, a task stack and the tick timer. -/
def SpawnWrites (a : Word) : Prop :=
  (0x20002000 ≤ a.toNat ∧ a.toNat + 4 ≤ 0x2000F000) ∨ 0xE0000000 ≤ a.toNat

structure Protected (t : Target) (lo hi : Nat) : Prop where
  wrap : 4 ≤ lo
  fits : hi ≤ 2 ^ 32
  user : forall a, UserMemory t a -> Memory.Misses lo hi a
  driver : forall outcome a, a ∈ driverRegisters t outcome -> Memory.Misses lo hi a
  spawn : t = .arm -> forall a, SpawnWrites a -> Memory.Misses lo hi a

theorem misses_of_region {t : Target} {lo hi : Nat} {region : Nat × Nat} {a : Word}
    (hregion : region ∈ kernelMemory t) (hlo : region.1 ≤ lo) (hhi : hi ≤ region.2)
    (h : UserMemory t a) : Memory.Misses lo hi a := by
  have hmiss := h.right region hregion
  unfold Memory.Misses at *
  lia

theorem length_exportFn {c : Compiler} {name : List Byte} {capacity : Nat} {ws : List Word}
    (h : c.exportFn name capacity = some ws) : ws.length ≤ fnBodyWords := by
  unfold Compiler.exportFn at h
  split at h
  · cases h
  · rename_i i _
    split at h
    · rw [← Option.some.inj h]
      exact (c.fns i).length_le
    · cases h

theorem storeAddrs_append (trace trace' : List (Access Word Word)) :
    storeAddrs (trace ++ trace') = storeAddrs trace ++ storeAddrs trace' :=
  List.filterMap_append

theorem addr_of_emit {slot : Fin 2} {words : List Word} (hlen : words.length ≤ fnBodyWords)
    {a : Word} (ha : a ∈ storeAddrs (emitFnIntoSlot slot words)) :
    jitSlotBase slot ≤ a.toNat ∧ a.toNat + 4 ≤ jitSlotBase slot + 4 * fnBodyWords := by
  obtain ⟨access, haccess, hwrite⟩ := List.mem_filterMap.mp ha
  obtain ⟨⟨w, i⟩, hp, rfl⟩ := List.mem_map.mp haccess
  have hi : i < 0 + words.length := (List.mem_zipIdx hp).right.left
  have hbody : fnBodyWords = 32 := rfl
  have hslot := slot.isLt
  have haddr : a = BitVec.ofNat 32 (jitSlotBase slot + 4 * i) := (Option.some.inj hwrite).symm
  unfold jitSlotBase at *
  rw [haddr, BitVec.toNat_ofNat, Nat.mod_eq_of_lt (by lia)]
  lia

theorem addr_of_task {b : Build} {slot : Fin 2} {a : Word}
    (ha : a ∈ storeAddrs (spawnJitTask b slot)) :
    0x2000E800 ≤ a.toNat ∧ a.toNat + 4 ≤ 0x2000F000 := by
  have hall : forall a, a ∈ storeAddrs (spawnJitTask b slot) ->
      0x2000E800 ≤ a.toNat ∧ a.toNat + 4 ≤ 0x2000F000 := by
    have hslot : slot = 0 ∨ slot = 1 := by lia
    rcases hslot with rfl | rfl <;> simp [storeAddrs, spawnJitTask, taskStackTop]
  exact hall a ha

theorem addr_of_sysTick {a : Word} (ha : a ∈ storeAddrs configureSysTick) :
    0xE0000000 ≤ a.toNat := by
  have hall : forall a, a ∈ storeAddrs configureSysTick -> 0xE0000000 ≤ a.toNat := by
    simp [storeAddrs, configureSysTick]
  exact hall a ha

theorem spawnWrites_of_spawn {b : Build} {slot : Fin 2} {words : List Word}
    (hlen : words.length ≤ fnBodyWords) {a : Word}
    (ha : a ∈ storeAddrs (emitFnIntoSlot slot words ++ spawnJitTask b slot ++ configureSysTick)) :
    SpawnWrites a := by
  have hbody : fnBodyWords = 32 := rfl
  have hslot := slot.isLt
  rw [storeAddrs_append, storeAddrs_append, List.mem_append, List.mem_append] at ha
  unfold SpawnWrites
  rcases ha with (hcopy | htask) | htick
  · have haddr := addr_of_emit hlen hcopy
    unfold jitSlotBase at haddr
    lia
  · have haddr := addr_of_task htask
    lia
  · exact Or.inr (addr_of_sysTick htick)

section Window

variable {b : Build} {lo hi : Nat}

/-- The window is as it was. -/
def Keeps (lo hi : Nat) (s s' : Session) : Prop :=
  s'.machine.mem.SameWindow lo hi s.machine.mem

theorem keeps_refl (s : Session) : Keeps lo hi s s := Memory.SameWindow.refl lo hi _

theorem keeps_perform (hwrap : 4 ≤ lo) (hfits : hi ≤ 2 ^ 32) (s : Session)
    {trace : List (Access Word Word)}
    (h : forall a, a ∈ storeAddrs trace -> Memory.Misses lo hi a) :
    Keeps lo hi s (s.perform trace) :=
  Memory.sameWindow_perform _ hwrap hfits h

theorem logged_mem (t : Target) (cycles addr value : Word) (m : Machine) :
    (logged t cycles addr value m).mem = m.mem := by
  unfold logged
  split <;> rfl

theorem keeps_pokeOutcome (hwrap : 4 ≤ lo) (hfits : hi ≤ 2 ^ 32) (s : Session)
    {cycles addr value : Word} (h : Memory.Misses lo hi addr) :
    Keeps lo hi s (pokeOutcome b cycles addr value s) := by
  unfold Keeps pokeOutcome
  rw [enforcedPokeU32_eq]
  by_cases hpasses : passes b.target (s.machine.registry b.target) addr = true
  · rw [if_pos hpasses]
    show ((logged b.target cycles addr value s.machine).mem.write32 addr value).SameWindow _ _ _
    rw [logged_mem]
    intro byte hlo hhi
    exact Memory.write32_misses _ _ h hwrap hfits hlo hhi
  · rw [if_neg hpasses]
    exact keeps_refl s

theorem keeps_doSpawn (hprot : Protected b.target lo hi) (harm : b.target = .arm)
    (name : NameBuf) (s : Session) : Keeps lo hi s (doSpawn b name s) := by
  unfold doSpawn
  cases hexport : s.comp.exportFn name.bytes maxStreamWords with
  | none => exact keeps_refl s
  | some words =>
      cases (List.finRange 2).find? fun slot => !s.spawned slot with
      | none => exact keeps_refl s
      | some slot =>
          apply keeps_perform hprot.wrap hprot.fits s
          intro a ha
          exact hprot.spawn harm a (spawnWrites_of_spawn (length_exportFn hexport) ha)

theorem keeps_doLoad (name : NameBuf) (s : Session) : Keeps lo hi s (doLoad name s) := by
  unfold doLoad
  split
  · exact keeps_refl s
  · split <;> exact keeps_refl s

theorem keeps_onArm {f : Session -> Session} {s : Session}
    (h : b.target = .arm -> Keeps lo hi s (f s)) : Keeps lo hi s (onArm b f s) := by
  unfold onArm
  split
  · rename_i harm
    exact h harm
  · exact keeps_refl s

/-- The frame of all outcomes but four, for a window that the line's stores miss. -/
theorem keeps_execute_of_misses (hwrap : 4 ≤ lo) (hfits : hi ≤ 2 ^ 32) {engine : Engine}
    {input : Input} {outcome : Outcome} {s s' : Session}
    (hexec : execute b input outcome s = some s')
    (hmakes : Makes engine b outcome input.accesses)
    (htargets : forall a, a ∈ storeTargets outcome input.accesses -> Memory.Misses lo hi a)
    (hdriver : forall a, a ∈ driverRegisters b.target outcome -> Memory.Misses lo hi a)
    (hclaim : forall name, outcome ≠ .claim name) (hdrop : forall name, outcome ≠ .drop name)
    (hstore : forall name, outcome ≠ .store name) (hspawn : forall name, outcome ≠ .spawn name) :
    Keeps lo hi s s' := by
  have hdevice : (forall a, a ∈ storeAddrs input.accesses ->
      a ∈ driverRegisters b.target outcome) -> Keeps lo hi s (s.perform input.accesses) :=
    fun h => keeps_perform hwrap hfits s fun a ha => hdriver a (h a ha)
  cases outcome with
  | claim name => exact absurd rfl (hclaim name)
  | drop name => exact absurd rfl (hdrop name)
  | store name => exact absurd rfl (hstore name)
  | spawn name => exact absurd rfl (hspawn name)
  | run program =>
      rw [← Option.some.inj hexec]
      exact keeps_perform hwrap hfits s htargets
  | enforcedPoke addr val =>
      rw [← Option.some.inj hexec]
      exact keeps_pokeOutcome hwrap hfits s (htargets addr List.mem_cons_self)
  | enforcedPeek addr =>
      rw [← Option.some.inj hexec]
      unfold Keeps
      rw [enforcedPeekU32_eq]
      split <;> exact keeps_refl s
  | setBit addr bit | clrBit addr bit =>
      obtain ⟨v, _, rfl⟩ := Option.map_eq_some_iff.mp hexec
      exact keeps_pokeOutcome hwrap hfits s (htargets addr List.mem_cons_self)
  | pwm _ _ | pwmDuty _ | spiTx _ | flashTest | bench =>
      rw [← Option.some.inj hexec]
      exact hdevice hmakes
  | load name =>
      rw [← Option.some.inj hexec]
      exact keeps_onArm fun _ => keeps_doLoad name s
  | poolAlloc _ | poolFree =>
      rw [← Option.some.inj hexec]
      refine keeps_onArm fun _ => ?_
      split <;> exact keeps_refl s
  | _ =>
      rw [← Option.some.inj hexec]
      exact keeps_refl s

/-- The frame of all outcomes but three. -/
theorem keeps_execute (hprot : Protected b.target lo hi) {engine : Engine} {input : Input}
    {outcome : Outcome} {s s' : Session} (hexec : execute b input outcome s = some s')
    (hmakes : Makes engine b outcome input.accesses)
    (huser : forall a, a ∈ storeTargets outcome input.accesses -> UserMemory b.target a)
    (hclaim : forall name, outcome ≠ .claim name) (hdrop : forall name, outcome ≠ .drop name)
    (hstore : forall name, outcome ≠ .store name) : Keeps lo hi s s' := by
  by_cases hspawn : exists name, outcome = .spawn name
  · obtain ⟨name, rfl⟩ := hspawn
    rw [← Option.some.inj hexec]
    exact keeps_onArm fun harm => keeps_doSpawn hprot harm name s
  · exact keeps_execute_of_misses hprot.wrap hprot.fits hexec hmakes
      (fun a ha => hprot.user a (huser a ha)) (fun a ha => hprot.driver outcome a ha)
      hclaim hdrop hstore (fun name heq => hspawn ⟨name, heq⟩)

end Window

/-!
## The registry's window
-/

/-- The registry's first byte and the end of its eight words. -/
def registryLo (t : Target) : Nat := t.registryBase.toNat

def registryHi (t : Target) : Nat := registryLo t + 32

theorem registryAddr_eq (t : Target) (i : Nat) :
    Machine.registryAddr t i = BitVec.ofNat 32 (registryLo t + 4 * i) := by
  unfold Machine.registryAddr registryLo
  rw [BitVec.ofNat_add, BitVec.ofNat_toNat, BitVec.setWidth_eq]

/-- The registers of all driver commands together. -/
def allDriverRegisters (t : Target) : List Word :=
  pwmRegisters t ++ (timBase t + 0x34#32) :: spiDataRegister t :: flashRegisters ++ cycleRegisters t

theorem mem_allDriverRegisters {t : Target} {outcome : Outcome} {a : Word}
    (h : a ∈ driverRegisters t outcome) : a ∈ allDriverRegisters t := by
  unfold allDriverRegisters
  unfold driverRegisters at h
  split at h <;> simp_all

theorem protected_registry (t : Target) : Protected t (registryLo t) (registryHi t) where
  wrap := by cases t <;> decide
  fits := by cases t <;> decide
  user := by
    intro a ha
    cases t with
    | arm =>
        have hregion : ((0x20001000, 0x20001100) : Nat × Nat) ∈ kernelMemory .arm := by decide
        exact misses_of_region hregion (by decide) (by decide) ha
    | riscv32 =>
        have hregion : ((0x80001800, 0x80001900) : Nat × Nat) ∈ kernelMemory .riscv32 := by decide
        exact misses_of_region hregion (by decide) (by decide) ha
  driver := by
    intro outcome a ha
    have hall : (allDriverRegisters t).all
        (fun a => decide (Memory.Misses (registryLo t) (registryHi t) a)) = true := by
      cases t <;> decide
    simpa using List.all_eq_true.mp hall a (mem_allDriverRegisters ha)
  spawn := by
    rintro rfl a ha
    have hlo : registryLo .arm = 0x20001000 := rfl
    have hhi : registryHi .arm = 0x20001020 := rfl
    unfold SpawnWrites at ha
    unfold Memory.Misses
    lia

/-!
## Windows apart from the registry and the program store
-/

section Apart

variable {b : Build} {lo hi : Nat}

theorem sameWindow_writeRegistryWord {t : Target} (hwrap : 4 ≤ lo) (hfits : hi ≤ 2 ^ 32)
    (hapart : hi ≤ registryLo t ∨ registryHi t ≤ lo) (i : Nat) (r : Registry) (m : Machine) :
    (writeRegistryWord t i r m).mem.SameWindow lo hi m.mem := by
  unfold writeRegistryWord Registry.get?
  by_cases hi' : i < registryWords
  · rw [dif_pos hi']
    have hwords : registryWords = 8 := rfl
    have hend : registryHi t = registryLo t + 32 := rfl
    have htop : registryHi t ≤ 2 ^ 32 := (protected_registry t).fits
    have hmiss : Memory.Misses lo hi (Machine.registryAddr t i) := by
      rw [registryAddr_eq]
      unfold Memory.Misses
      rw [BitVec.toNat_ofNat, Nat.mod_eq_of_lt (by lia)]
      lia
    intro byte hlo hhi
    exact Memory.write32_misses _ _ hmiss hwrap hfits hlo hhi
  · rw [dif_neg hi']
    exact Memory.SameWindow.refl _ _ _

theorem keeps_doClaim (hwrap : 4 ≤ lo) (hfits : hi ≤ 2 ^ 32)
    (hapart : hi ≤ registryLo b.target ∨ registryHi b.target ≤ lo) (name : List Byte)
    (s : Session) : Keeps lo hi s { s with machine := doClaim b.target name s.machine } := by
  unfold Keeps doClaim
  cases resolveName name with
  | none => exact keeps_refl s
  | some id => exact sameWindow_writeRegistryWord hwrap hfits hapart _ _ _

theorem keeps_doDrop (hwrap : 4 ≤ lo) (hfits : hi ≤ 2 ^ 32)
    (hapart : hi ≤ registryLo b.target ∨ registryHi b.target ≤ lo) (name : List Byte)
    (s : Session) : Keeps lo hi s { s with machine := doDrop b.target name s.machine } := by
  unfold Keeps doDrop
  cases resolveName name with
  | none => exact keeps_refl s
  | some id =>
      simp only
      split
      · exact keeps_refl s
      · exact sameWindow_writeRegistryWord hwrap hfits hapart _ _ _

theorem keeps_doStore (hfits : hi ≤ 2 ^ 32) (hapart : hi ≤ pstoreBase ∨ pstoreTop ≤ lo)
    (name : NameBuf) (s : Session) : Keeps lo hi s (doStore name s) := by
  unfold doStore
  cases hexport : s.comp.exportFn name.bytes maxStreamWords with
  | none => exact keeps_refl s
  | some words =>
      cases hfree : freeSlot s.machine.mem with
      | none => exact keeps_refl s
      | some i =>
          have hi' : i < maxPrograms := List.mem_range.mp (List.mem_of_find?_eq_some hfree)
          cases hsave : save i name.bytes words s.machine.mem with
          | error e =>
              simp only [hsave]
              exact keeps_refl s
          | ok mem =>
              simp only [hsave]
              intro byte hlo hhi
              have hlen := length_exportFn hexport
              have hused := slotUsed_le hi'
              have hslot : slotUsed i = slotStart i + 24 + 4 * fnBodyWords := rfl
              have hstart : pstoreBase ≤ slotStart i := Nat.le_add_right _ _
              exact save_outside hsave hi' (by lia) (by lia)

/-- The frame of all outcomes but `spawn`. -/
theorem keeps_execute_apart (hwrap : 4 ≤ lo) (hfits : hi ≤ 2 ^ 32) {engine : Engine}
    {input : Input} {outcome : Outcome} {s s' : Session}
    (hexec : execute b input outcome s = some s')
    (hmakes : Makes engine b outcome input.accesses)
    (htargets : forall a, a ∈ storeTargets outcome input.accesses -> Memory.Misses lo hi a)
    (hdriver : forall a, a ∈ driverRegisters b.target outcome -> Memory.Misses lo hi a)
    (hregistry : hi ≤ registryLo b.target ∨ registryHi b.target ≤ lo)
    (hpstore : hi ≤ pstoreBase ∨ pstoreTop ≤ lo) (hspawn : forall name, outcome ≠ .spawn name) :
    Keeps lo hi s s' := by
  cases outcome with
  | claim name =>
      rw [← Option.some.inj hexec]
      exact keeps_doClaim hwrap hfits hregistry name.bytes s
  | drop name =>
      rw [← Option.some.inj hexec]
      exact keeps_doDrop hwrap hfits hregistry name.bytes s
  | store name =>
      rw [← Option.some.inj hexec]
      exact keeps_onArm fun _ => keeps_doStore hfits hpstore name s
  | spawn name => exact absurd rfl (hspawn name)
  | _ =>
      exact keeps_execute_of_misses hwrap hfits hexec hmakes htargets hdriver nofun nofun nofun
        nofun

/-- A line whose stores go to user memory keeps such a window. -/
theorem keeps_step (hprot : Protected b.target lo hi)
    (hregistry : hi ≤ registryLo b.target ∨ registryHi b.target ≤ lo)
    (hpstore : hi ≤ pstoreBase ∨ pstoreTop ≤ lo) {engine : Engine} {s s' : Session}
    {input : Input} (h : Step b engine s input s') (huser : StoresToUser b ⟨s, input, s'⟩) :
    Keeps lo hi s s' := by
  obtain ⟨heval, hline⟩ := evalLine_of_step h huser
  rcases evalLine_cases heval with
    ⟨rfl, _⟩ | ⟨outcome, ps, _, haccepted, hexec⟩ | ⟨e, ps, _, _, rfl⟩
  · exact keeps_refl _
  · obtain ⟨hmakes, htargets⟩ := hline outcome haccepted
    by_cases hspawn : exists name, outcome = .spawn name
    · obtain ⟨name, rfl⟩ := hspawn
      rw [← Option.some.inj hexec]
      exact keeps_onArm fun harm => keeps_doSpawn hprot harm name { s with comp := ps.comp }
    · have hkeep := keeps_execute_apart hprot.wrap hprot.fits hexec hmakes
        (fun a ha => hprot.user a (htargets a ha)) (fun a ha => hprot.driver outcome a ha)
        hregistry hpstore (fun name heq => hspawn ⟨name, heq⟩)
      exact hkeep
  · exact keeps_refl s

end Apart

end Drivers
end HolyRust
