import HolyRust.Compilation.StreamShape
import HolyRust.Drivers.Frames

/-!
# The window of the program store

Lines whose stores go to user memory leave the program store alone, all but `store`.
-/

namespace HolyRust
namespace Drivers

open Foundation
open Capabilities
open Kernel
open Compilation
open Execution

theorem protected_pstore : Protected .arm pstoreBase pstoreTop where
  wrap := by decide
  fits := by decide
  user := by
    intro a ha
    have hregion : ((0x2000E800, 0x20010000) : Nat × Nat) ∈ kernelMemory .arm := by decide
    exact misses_of_region hregion (by decide) (by decide) ha
  driver := by
    intro outcome a ha
    have hall : (allDriverRegisters .arm).all
        (fun a => decide (Memory.Misses pstoreBase pstoreTop a)) = true := by
      decide
    simpa using List.all_eq_true.mp hall a (mem_allDriverRegisters ha)
  spawn := by
    intro _ a ha
    have hlo : pstoreBase = 0x2000F000 := rfl
    have hhi : pstoreTop = 0x20010000 := rfl
    unfold SpawnWrites at ha
    unfold Memory.Misses
    lia

theorem pstore_above_registry {b : Build} (harm : b.target = .arm) :
    pstoreTop ≤ registryLo b.target ∨ registryHi b.target ≤ pstoreBase := by
  rw [harm]
  decide

/-- Only `store` writes to the window of the program store. -/
theorem keeps_pstore {b : Build} (harm : b.target = .arm) {engine : Engine} {input : Input}
    {outcome : Outcome} {s s' : Session} (hexec : execute b input outcome s = some s')
    (hmakes : Makes engine b outcome input.accesses)
    (huser : forall a, a ∈ storeTargets outcome input.accesses -> UserMemory b.target a)
    (hstore : forall name, outcome ≠ .store name) : Keeps pstoreBase pstoreTop s s' := by
  have hprot : Protected b.target pstoreBase pstoreTop := harm ▸ protected_pstore
  cases outcome with
  | store name => exact absurd rfl (hstore name)
  | claim name =>
      rw [← Option.some.inj hexec]
      exact keeps_doClaim hprot.wrap hprot.fits (pstore_above_registry harm) name.bytes s
  | drop name =>
      rw [← Option.some.inj hexec]
      exact keeps_doDrop hprot.wrap hprot.fits (pstore_above_registry harm) name.bytes s
  | _ => exact keeps_execute hprot hexec hmakes huser nofun nofun nofun

theorem length_of_importFn {c c' : Compiler} {name : List Byte} {ws : List Word}
    (h : c.importFn name ws = .ok c') : ws.length ≤ fnBodyWords := by
  obtain ⟨_, _, hlength, _⟩ := importFn_ok h
  exact hlength

end Drivers
end HolyRust
