import HolyRust.Drivers.Frames

/-!
# Registry integrity

`REGISTRY_BITS` lies in the SRAM that `check_access` leaves open.  A line changes
it through `cap_claim` and `cap_drop` only as long as the stores it asks for go to
user memory; a single `poke` into the registry grants every capability at once.
-/

namespace HolyRust
namespace Drivers

open Foundation
open Capabilities
open Kernel
open Compilation
open Execution

/-!
## Names of resources
-/

theorem resolveName_mem {name : List Byte} {id : Nat} (h : resolveName name = some id) :
    (name, id) ∈ resourceTable := by
  unfold resolveName at h
  cases hfind : resourceTable.find? fun row => decide (row.1 = name) with
  | none =>
      rw [hfind] at h
      cases h
  | some row =>
      rw [hfind] at h
      have hname : row.1 = name := by simpa using List.find?_some hfind
      have hid : row.2 = id := Option.some.inj h
      rw [← hname, ← hid]
      exact List.mem_of_find?_eq_some hfind

theorem resolveName_lt {name : List Byte} {id : Nat} (h : resolveName name = some id) :
    id < maxResources := by
  have hall : forall row, row ∈ resourceTable -> row.2 < maxResources := by decide
  exact hall _ (resolveName_mem h)

theorem resolveName_superuser {name : List Byte} (h : resolveName name = some 31) :
    name = ascii "SUPERUSER" := by
  have hall : forall row, row ∈ resourceTable -> row.2 = 31 -> row.1 = ascii "SUPERUSER" := by
    decide
  exact hall _ (resolveName_mem h) rfl

/-!
## The registry in memory
-/

theorem registry_of_sameWindow {t : Target} {m m' : Machine}
    (h : m.mem.SameWindow (registryLo t) (registryHi t) m'.mem) :
    m.registry t = m'.registry t := by
  funext i
  unfold Machine.registry
  rw [registryAddr_eq]
  have hi : i.val < 8 := i.isLt
  have hhi : registryHi t = registryLo t + 32 := rfl
  exact h.read32 (by lia) (by lia)

theorem registryAddr_apart (t : Target) : forall i, i < registryWords ->
    forall j, j < registryWords -> i ≠ j ->
      Memory.Apart (Machine.registryAddr t i) (Machine.registryAddr t j) := by
  cases t <;> decide

/-- Storing the one word in which a new registry differs installs all of it. -/
theorem registry_writeRegistryWord {t : Target} {i : Nat} {r : Registry} {m : Machine}
    (h : forall j : Fin registryWords, j.val ≠ i -> r j = m.registry t j) :
    (writeRegistryWord t i r m).registry t = r := by
  unfold writeRegistryWord Registry.get?
  by_cases hi : i < registryWords
  · rw [dif_pos hi]
    funext j
    show (m.mem.write32 (Machine.registryAddr t i) (r ⟨i, hi⟩)).read32
      (Machine.registryAddr t j.val) = r j
    by_cases hj : j.val = i
    · subst hj
      exact Memory.read32_write32 _ _ _ (by decide)
    · rw [Memory.read32_write32_of_apart _ _
        (registryAddr_apart t i hi j.val j.isLt fun heq => hj heq.symm)]
      exact (h j hj).symm
  · rw [dif_neg hi]
    funext j
    exact (h j fun heq => hi (heq ▸ j.isLt)).symm

theorem acquire_other {r : Registry} {id : Nat} {j : Fin registryWords} (h : j.val ≠ id / 32) :
    (acquire r id).2 j = r j := by
  unfold acquire
  cases r.get? (id / 32) with
  | some w => exact if_neg h
  | none => rfl

theorem release_other {r : Registry} {id : Nat} {j : Fin registryWords} (h : j.val ≠ id / 32) :
    release r id j = r j := by
  unfold release
  cases r.get? (id / 32) with
  | some w => exact if_neg h
  | none => rfl

/-!
## What a line does to the registry
-/

def claimed (name : NameBuf) (r : Registry) : Registry :=
  match resolveName name.bytes with
  | some id => (acquire r id).2
  | none => r

def dropped (name : NameBuf) (r : Registry) : Registry :=
  match resolveName name.bytes with
  | some id => if available r id then r else release r id
  | none => r

/-- The registry after a line with this outcome. -/
def registryAfter (r : Registry) : Option Outcome -> Registry
  | some (.claim name) => claimed name r
  | some (.drop name) => dropped name r
  | _ => r

theorem registry_doClaim (t : Target) (name : NameBuf) (m : Machine) :
    (doClaim t name.bytes m).registry t = claimed name (m.registry t) := by
  unfold doClaim claimed
  cases resolveName name.bytes with
  | none => rfl
  | some id => exact registry_writeRegistryWord fun j hj => acquire_other hj

theorem registry_doDrop (t : Target) (name : NameBuf) (m : Machine) :
    (doDrop t name.bytes m).registry t = dropped name (m.registry t) := by
  unfold doDrop dropped
  cases resolveName name.bytes with
  | none => rfl
  | some id =>
      by_cases h : available (m.registry t) id = true
      · simp only [h, if_true]
      · simp only [h]
        exact registry_writeRegistryWord fun j hj => release_other hj

/-- The program store is above the registry. -/
theorem registry_doStore {b : Build} (harm : b.target = .arm) (name : NameBuf) (s : Session) :
    (doStore name s).registry b = s.registry b := by
  unfold doStore
  split
  · rfl
  · split
    · rfl
    · rename_i i hfree
      split
      · rename_i mem hsave
        have hi : i < maxPrograms := List.mem_range.mp (List.mem_of_find?_eq_some hfree)
        apply registry_of_sameWindow
        intro byte hlo hhi
        have hbase : registryHi b.target ≤ pstoreBase := by
          rw [harm]
          decide
        have hstart : pstoreBase ≤ slotStart i := Nat.le_add_right _ _
        have htop : registryHi b.target ≤ 2 ^ 32 := (protected_registry b.target).fits
        exact save_outside hsave hi (by lia) (Or.inl (by lia))
      · rfl

theorem execute_registry {b : Build} {engine : Engine} {input : Input} {outcome : Outcome}
    {s s' : Session} (hexec : execute b input outcome s = some s')
    (hmakes : Makes engine b outcome input.accesses)
    (huser : forall a, a ∈ storeTargets outcome input.accesses -> UserMemory b.target a) :
    s'.registry b = registryAfter (s.registry b) (some outcome) := by
  have hframe : (forall name, outcome ≠ .claim name) -> (forall name, outcome ≠ .drop name) ->
      (forall name, outcome ≠ .store name) -> s'.registry b = s.registry b :=
    fun hclaim hdrop hstore => registry_of_sameWindow
      (keeps_execute (protected_registry b.target) hexec hmakes huser hclaim hdrop hstore)
  cases outcome with
  | claim name =>
      rw [← Option.some.inj hexec]
      exact registry_doClaim b.target name s.machine
  | drop name =>
      rw [← Option.some.inj hexec]
      exact registry_doDrop b.target name s.machine
  | store name =>
      rw [← Option.some.inj hexec]
      unfold onArm
      split
      · rename_i harm
        exact registry_doStore harm name s
      · rfl
  | _ => exact hframe nofun nofun nofun

/-- A line whose stores go to user memory claims, drops or leaves the registry. -/
theorem step_registry {b : Build} {engine : Engine} {s s' : Session} {input : Input}
    (h : Step b engine s input s') (huser : StoresToUser b ⟨s, input, s'⟩) :
    s'.registry b = registryAfter (s.registry b) (accepted b input s) := by
  obtain ⟨heval, hline⟩ := evalLine_of_step h huser
  rcases evalLine_cases heval with
    ⟨rfl, hnone⟩ | ⟨outcome, ps, _, haccepted, hexec⟩ | ⟨e, ps, _, hnone, rfl⟩
  · rw [hnone]
    rfl
  · rw [haccepted]
    obtain ⟨hmakes, htargets⟩ := hline outcome haccepted
    have hafter := execute_registry hexec hmakes htargets
    exact hafter
  · rw [hnone]
    rfl

/-!
## Bits
-/

theorem bit_claimed {name : NameBuf} {id k : Nat} {r : Registry}
    (hname : resolveName name.bytes = some id) (hk : k < maxResources) :
    (claimed name r).bit k = (r.bit k || decide (k = id)) := by
  unfold claimed
  rw [hname]
  exact bit_acquire (resolveName_lt hname) hk

theorem bit_dropped {name : NameBuf} {id k : Nat} {r : Registry}
    (hname : resolveName name.bytes = some id) (hk : k < maxResources) :
    (dropped name r).bit k = (r.bit k && decide (k ≠ id)) := by
  have hid := resolveName_lt hname
  unfold dropped
  rw [hname]
  simp only
  split
  · rename_i hfree
    by_cases h : k = id
    · subst h
      rw [available_eq_bit hid, Bool.not_eq_true'] at hfree
      rw [hfree, Bool.false_and]
    · rw [decide_eq_true h, Bool.and_true]
  · exact bit_release hid hk

theorem isSuperuserActive_eq_bit (r : Registry) : isSuperuserActive r = r.bit 31 := by
  unfold isSuperuserActive
  rw [show CapId.superUser.index = 31 from rfl, available_eq_bit (by decide), Bool.not_not]

/-- Only an accepted claim or drop changes the registry, and only in the bit it names. -/
def RegistryStep (b : Build) (tr : Transition Session Input) : Prop :=
  tr.after.registry b = tr.before.registry b ∨
    exists name id,
      (accepted b tr.label tr.before = some (.claim name) ∨
        accepted b tr.label tr.before = some (.drop name)) ∧
      resolveName name.bytes = some id ∧
      forall k, k < maxResources -> k ≠ id ->
        (tr.after.registry b).bit k = (tr.before.registry b).bit k

/-- The name in an accepted claim. -/
def claimedName : Option Outcome -> Option (List Byte)
  | some (.claim name) => some name.bytes
  | _ => none

def ClaimsSuperuser (b : Build) (tr : Transition Session Input) : Prop :=
  claimedName (accepted b tr.label tr.before) = some (ascii "SUPERUSER")

theorem registryStep_of_registryAfter {b : Build} {tr : Transition Session Input}
    (h : tr.after.registry b =
      registryAfter (tr.before.registry b) (accepted b tr.label tr.before)) :
    RegistryStep b tr := by
  unfold registryAfter at h
  split at h
  · rename_i name haccepted
    cases hname : resolveName name.bytes with
    | none =>
        unfold claimed at h
        rw [hname] at h
        exact Or.inl h
    | some id =>
        refine Or.inr ⟨name, id, Or.inl haccepted, hname, fun k hk hne => ?_⟩
        rw [h, bit_claimed hname hk, decide_eq_false hne, Bool.or_false]
  · rename_i name haccepted
    cases hname : resolveName name.bytes with
    | none =>
        unfold dropped at h
        rw [hname] at h
        exact Or.inl h
    | some id =>
        refine Or.inr ⟨name, id, Or.inr haccepted, hname, fun k hk hne => ?_⟩
        rw [h, bit_dropped hname hk, decide_eq_true hne, Bool.and_true]
  · exact Or.inl h

theorem superuser_registryAfter {b : Build} {tr : Transition Session Input}
    (h : tr.after.registry b =
      registryAfter (tr.before.registry b) (accepted b tr.label tr.before))
    (hclear : isSuperuserActive (tr.before.registry b) = false) (hnever : ¬ ClaimsSuperuser b tr) :
    isSuperuserActive (tr.after.registry b) = false := by
  rw [isSuperuserActive_eq_bit] at *
  unfold registryAfter at h
  split at h
  · rename_i name haccepted
    cases hname : resolveName name.bytes with
    | none =>
        unfold claimed at h
        rw [hname] at h
        rw [h]
        exact hclear
    | some id =>
        have hne : 31 ≠ id := by
          rintro rfl
          apply hnever
          unfold ClaimsSuperuser
          rw [haccepted, claimedName, resolveName_superuser hname]
        rw [h, bit_claimed hname (by decide), hclear, decide_eq_false hne, Bool.or_false]
  · rename_i name haccepted
    cases hname : resolveName name.bytes with
    | none =>
        unfold dropped at h
        rw [hname] at h
        rw [h]
        exact hclear
    | some id => rw [h, bit_dropped hname (by decide), hclear, Bool.false_and]
  · rw [h]
    exact hclear

/-!
## Whole runs
-/

/-- What registry integrity asks of every run from `start`. -/
def RegistryIntegrity (b : Build) (engine : Engine) (start : Session) : Prop :=
  forall past s, Run b engine start past s ->
    (forall tr, tr ∈ past -> ¬ ClaimsSuperuser b tr) ->
      forall tr, tr ∈ past -> RegistryStep b tr

/-- In a run without a claim of SUPERUSER whose stores go to user memory, every
line keeps the rule and SuperUser stays clear. -/
theorem registryStep_of_storesToUser {b : Build} {engine : Engine} {start s : Session}
    {past : List (Transition Session Input)} (hrun : Run b engine start past s)
    (hclear : isSuperuserActive (start.registry b) = false)
    (hnever : forall tr, tr ∈ past -> ¬ ClaimsSuperuser b tr)
    (huser : forall tr, tr ∈ past -> StoresToUser b tr) :
    (forall tr, tr ∈ past -> RegistryStep b tr) ∧
      isSuperuserActive (s.registry b) = false := by
  refine Trail.forall_mem (fun s => isSuperuserActive (s.registry b) = false) (RegistryStep b)
    (fun tr => ¬ ClaimsSuperuser b tr ∧ StoresToUser b tr) hclear ?_ hrun
    (fun tr htr => ⟨hnever tr htr, huser tr htr⟩)
  rintro s input s' hs hstep ⟨hno, hstores⟩
  have hafter := step_registry hstep hstores
  exact ⟨registryStep_of_registryAfter hafter, superuser_registryAfter hafter hs hno⟩

/-- GPIOA is claimed and a word of free RAM written. -/
theorem registryStep_claimThenPoke :
    exists past s, Run .arm .native .blank past s ∧ past.length = 2 ∧
      (forall tr, tr ∈ past -> RegistryStep .arm tr) ∧
      (s.registry .arm).bit 0 = true ∧ isSuperuserActive (s.registry .arm) = false := by
  have hclaim : Step .arm .native .blank (typed "cap_claim GPIOA;")
      (typeLine .arm .blank "cap_claim GPIOA;") :=
    step_typed .native (by decide +kernel)
  have hpoke : Step .arm .native (typeLine .arm .blank "cap_claim GPIOA;")
      (typed "poke 0x20000000 1;")
      (typeLine .arm (typeLine .arm .blank "cap_claim GPIOA;") "poke 0x20000000 1;") :=
    step_typed .native (by decide +kernel)
  have hrun := Trail.snoc (Trail.snoc Trail.nil hclaim) hpoke
  have hall := registryStep_of_storesToUser hrun (by decide +kernel)
    (by
      intro tr htr
      rcases List.mem_cons.mp htr with rfl | htr
      · unfold ClaimsSuperuser
        decide +kernel
      · rw [List.mem_singleton.mp htr]
        unfold ClaimsSuperuser
        decide +kernel)
    (by
      intro tr htr
      rcases List.mem_cons.mp htr with rfl | htr
      · exact storesToUser_of_all (by decide +kernel)
      · rw [List.mem_singleton.mp htr]
        exact storesToUser_of_all (by decide +kernel))
  exact ⟨_, _, hrun, rfl, hall.left, by decide +kernel, hall.right⟩

/-- One poke of the first registry word makes everyone a SuperUser. -/
theorem not_registryIntegrity_poke :
    isSuperuserActive (Session.blank.registry .arm) = false ∧
      ¬ RegistryIntegrity .arm .native .blank := by
  refine ⟨by decide +kernel, fun hintegrity => ?_⟩
  have hpoke : Step .arm .native .blank (typed "poke 0x20001000 0x80000000;")
      (typeLine .arm .blank "poke 0x20001000 0x80000000;") :=
    step_typed .native (by decide +kernel)
  have hstep := hintegrity _ _ (Trail.snoc Trail.nil hpoke)
    (by
      intro tr htr
      rw [List.mem_singleton.mp htr]
      unfold ClaimsSuperuser
      decide +kernel)
    _ List.mem_cons_self
  rcases hstep with hsame | ⟨name, id, haccepted, _⟩
  · have hchanged : ((typeLine .arm .blank "poke 0x20001000 0x80000000;").registry .arm).bit 31 ≠
        (Session.blank.registry .arm).bit 31 := by
      decide +kernel
    exact hchanged (congrArg (fun r => r.bit 31) hsame)
  · have hkind : (accepted .arm (typed "poke 0x20001000 0x80000000;") .blank).map
        isEnforcedWrite = some true := by
      decide +kernel
    rcases haccepted with h | h
    · rw [h] at hkind
      cases hkind
    · rw [h] at hkind
      cases hkind

end Drivers
end HolyRust
