import HolyRust.Drivers.TickHandlers

/-!
# Installing the task handlers

`install_task_handlers` is what `boot` leaves out.  Called before the first prompt it points
both vectors at the handlers; the priorities that it means to set, it does not reach.
-/

namespace HolyRust
namespace Drivers

open Foundation
open Kernel

/-- SHPR3: the priorities of PendSV and SysTick. -/
def handlerPriorities : Word := 0xE000ED20#32

def installTaskHandlers (h : Handlers) (mem : Mem) : Mem :=
  let mem := mem.write32 (BitVec.ofNat 32 (vectorAddr 14)) h.pendSV
  let mem := mem.write32 (BitVec.ofNat 32 (vectorAddr 15)) h.sysTickPend
  mem.write32 (handlerPriorities + 12#32) 0xFF000000#32

/-- The first prompt, had `boot` called it at its end. -/
def installedPrompt (h : Handlers) (l : LinkMap) (mem : Mem) : Session :=
  { atPrompt l mem with
    machine := { mem := installTaskHandlers h (boot l mem), audit := .new } }

section Install

variable (h : Handlers) (mem : Mem)

theorem pendSVVector_install : pendSVVector (installTaskHandlers h mem) = h.pendSV := by
  unfold pendSVVector installTaskHandlers
  rw [Memory.read32_write32_of_apart _ _ (by decide),
    Memory.read32_write32_of_apart _ _ (by decide),
    Memory.read32_write32 _ _ _ (by decide)]

theorem sysTickVector_install : sysTickVector (installTaskHandlers h mem) = h.sysTickPend := by
  unfold sysTickVector installTaskHandlers
  rw [Memory.read32_write32_of_apart _ _ (by decide), Memory.read32_write32 _ _ _ (by decide)]

/-- The third store goes three words behind the register. -/
theorem handlerPriorities_install :
    (installTaskHandlers h mem).read32 handlerPriorities = mem.read32 handlerPriorities := by
  unfold installTaskHandlers
  rw [Memory.read32_write32_of_apart _ _ (by decide),
    Memory.read32_write32_of_apart _ _ (by decide),
    Memory.read32_write32_of_apart _ _ (by decide)]

end Install

/-- No line that leaves the kernel's memory alone, a `spawn` included, touches the two
vectors, so both keep leading to their handlers. -/
theorem tickHandled_of_installed {h : Handlers} {b : Build} {engine : Engine} {l : LinkMap}
    {mem : Mem} {past : List (Transition Session Input)} {s : Session} (harm : b.target = .arm)
    (hrun : Run b engine (installedPrompt h l mem) past s)
    (huser : forall tr, tr ∈ past -> StoresToUser b tr) :
    pendSVVector s.machine.mem = h.pendSV ∧ sysTickVector s.machine.mem = h.sysTickPend ∧
      (installedPrompt h l mem).machine.mem.read32 handlerPriorities =
        (boot l mem).read32 handlerPriorities := by
  have hvectors : pendSVVector s.machine.mem = h.pendSV ∧
      sysTickVector s.machine.mem = h.sysTickPend :=
    Trail.invariant
      (fun _ s => pendSVVector s.machine.mem = h.pendSV ∧
        sysTickVector s.machine.mem = h.sysTickPend)
      (StoresToUser b) ⟨pendSVVector_install h _, sysTickVector_install h _⟩
      (fun _ _ _ _ hs hstep hstores => by
        have hkeeps := keeps_vectors harm hstep hstores
        exact ⟨(hkeeps.read32 (by decide) (by decide)).trans hs.left,
          (hkeeps.read32 (by decide) (by decide)).trans hs.right⟩)
      hrun huser
  exact ⟨hvectors.left, hvectors.right, handlerPriorities_install h _⟩

def installedSample : Session := installedPrompt sampleHandlers smallLinkMap flashedMem

/-- The run that faults without them: a function is defined and spawned. -/
theorem tickHandled_of_installed_spawn :
    exists past s, Run .arm .native installedSample past s ∧
      sysTickEnabled s.machine.mem = true ∧
      pendSVVector s.machine.mem = sampleHandlers.pendSV ∧
      sysTickVector s.machine.mem = sampleHandlers.sysTickPend ∧
      installedSample.machine.mem.read32 handlerPriorities =
        (boot smallLinkMap flashedMem).read32 handlerPriorities := by
  have hdefine : Step .arm .native installedSample (typed "fn f() { poke 0x20000000 1; }")
      (typeLine .arm installedSample "fn f() { poke 0x20000000 1; }") :=
    step_typed .native (by decide +kernel)
  have hspawn : Step .arm .native
      (typeLine .arm installedSample "fn f() { poke 0x20000000 1; }") (typed "spawn f;")
      (typeLine .arm (typeLine .arm installedSample "fn f() { poke 0x20000000 1; }") "spawn f;") :=
    step_typed .native (by decide +kernel)
  have hrun := Trail.snoc (Trail.snoc Trail.nil hdefine) hspawn
  refine ⟨_, _, hrun, by decide +kernel, ?_⟩
  apply tickHandled_of_installed rfl hrun
  intro tr htr
  rcases List.mem_cons.mp htr with rfl | htr
  · exact storesToUser_of_all (by decide +kernel)
  · rw [List.mem_singleton.mp htr]
    exact storesToUser_of_all (by decide +kernel)

end Drivers
end HolyRust
