import HolyRust.Execution.NativeAgreement
import HolyRust.Drivers.Origins

/-!
# Grants and accesses

`check_access` guards a statement when it is compiled, not when it runs.  A
compiled body keeps working after its capability was dropped, in functions that
call it and in the program store.  What does hold is that every access is that of
a statement whose address was accepted while its own line was compiled.
-/

namespace HolyRust
namespace Drivers

open Foundation
open Capabilities
open Kernel
open Compilation
open Execution

/-- A new compiler and no program in any slot. -/
structure Fresh (s : Session) : Prop where
  comp : s.comp = Compiler.new
  slots : forall i, i < maxPrograms -> load i slotWords s.machine.mem = .error .notFound

/-!
## Whole runs
-/

theorem accounts_fresh {b : Build} {s : Session} (h : Fresh s) : Accounts b .empty s where
  bodies := by
    intro name
    rw [h.comp]
    rfl
  slots := by
    intro _ i hi name ws hload _
    rw [h.slots i hi] at hload
    cases hload

theorem granted_empty (b : Build) : Ledger.empty.Granted b [] where
  fns := by
    intro name o ho
    cases ho
  slots := by
    intro i o ho
    cases ho

/-- The ledger of a run accounts for every body, and everything in it was granted. -/
theorem run_ledger {b : Build} {engine : Engine} {start s : Session}
    {past : List (Transition Session Input)} (hrun : Run b engine start past s)
    (hfresh : Fresh start) (huser : forall tr, tr ∈ past -> StoresToUser b tr) :
    Accounts b (ledger b past) s ∧ (ledger b past).Granted b past := by
  refine Trail.invariant
    (fun past s => Accounts b (ledger b past) s ∧ (ledger b past).Granted b past)
    (StoresToUser b) ⟨accounts_fresh hfresh, granted_empty b⟩ ?_ hrun huser
  rintro past s input s' ⟨haccounts, hgranted⟩ hstep hstores
  exact ⟨accounts_step haccounts hstep hstores, granted_advance hgranted s'⟩

/-- A program of blocks runs to its end and makes their accesses. -/
theorem threadedMakes_blocks {prims : Prims} {bs : List Block} {program : StreamProgram}
    (hwords : program.stream.words = blockWords prims bs ++ [prims.wordOf .halt])
    (hyields : program.yieldsValue = false) {trace : List (Access Word Word)}
    (h : ThreadedMakes prims program trace) : trace = bs.map blockAccess := by
  obtain ⟨σ, bus, st, wild, rfl, hwild⟩ := h
  have hnone : wild = [] := by
    by_contra hne
    refine hwild hne ?_
    rw [(run_blockProgram prims bus bs program st hwords).left]
    trivial
  rw [hnone, List.append_nil, (runThreaded_blocks hwords hyields bus st).right]

theorem threadedMakes_value {prims : Prims} {v : Word} {program : StreamProgram}
    (hwords : program.stream.words = [prims.wordOf .lit, v, prims.wordOf .halt])
    (hyields : program.yieldsValue = true) {trace : List (Access Word Word)}
    (h : ThreadedMakes prims program trace) : trace = [] := by
  obtain ⟨σ, bus, st, wild, rfl, hwild⟩ := h
  have hnone : wild = [] := by
    by_contra hne
    refine hwild hne ?_
    rw [run_valueProgram prims bus v program st hwords]
    trivial
  rw [hnone, List.append_nil, (runThreaded_value hwords hyields bus st).right]

/-- Each access of a program is that of one `poke` or `peek` statement, and `check_access`
let its address pass while the line that the statement stands in was compiled. -/
theorem accesses_granted {b : Build} {engine : Engine} {start s : Session}
    {past : List (Transition Session Input)} (hrun : Run b engine start past s)
    (hfresh : Fresh start) (huser : forall tr, tr ∈ past -> StoresToUser b tr)
    {input : Input} {program : StreamProgram} (haccepted : accepted b input s = some (.run program))
    {trace : List (Access Word Word)} (htrace : ThreadedMakes b.prims program trace) :
    exists request, ReadsRequest (s.env b input) s.comp input.line request ∧
      trace = (requestOrigins ⟨input, s⟩ (ledger b past).fns request).map
        (fun o => blockAccess o.block) ∧
      forall o, o ∈ requestOrigins ⟨input, s⟩ (ledger b past).fns request ->
        (o.line = ⟨input, s⟩ ∨ Typed past o.line) ∧ o.Granted b := by
  obtain ⟨haccounts, hgranted⟩ := run_ledger hrun hfresh huser
  obtain ⟨ps, hparse⟩ := parse_of_accepted haccepted
  obtain ⟨request, hreads, hwords, hyields⟩ := exists_readsRequest hparse
  refine ⟨request, hreads, ?_, fun o ho => ?_⟩
  · cases request with
    | value v => exact threadedMakes_value hwords hyields htrace
    | perform body =>
        have hblocks : program.stream.words =
            originWords b.prims (stmtsOrigins ⟨input, s⟩ (ledger b past).fns body) ++
              [b.prims.wordOf .halt] := by
          rw [originWords, map_stmtsOrigins, ← flattenAll_eq haccounts.bodies]
          exact hwords
        rw [threadedMakes_blocks hblocks hyields htrace, List.map_map]
        rfl
  · rcases mem_requestOrigins _ _ ho with ⟨hline, hblock⟩ | ⟨name, hname⟩
    · obtain ⟨line, block⟩ := o
      cases hline
      exact ⟨Or.inl rfl, granted_of_readsRequest haccepted hreads hblock⟩
    · exact ⟨Or.inr (hgranted.fns name o hname).1, (hgranted.fns name o hname).2⟩

/-!
## A dropped capability
-/

/-- `check_access` holds in the registry as it is at each access. -/
def CheckedAtAccess (b : Build) (s : Session) (trace : List (Access Word Word)) : Prop :=
  forall before access after, trace = before ++ access :: after ->
    Accessible b.target ((s.perform before).registry b) access.address

/-- ... in every program of every run. -/
def AccessesAuthorised (b : Build) (engine : Engine) (start : Session) : Prop :=
  forall past s, Run b engine start past s ->
    forall input program, accepted b input s = some (.run program) ->
      forall trace, ThreadedMakes b.prims program trace -> CheckedAtAccess b s trace

/-- GPIOA is claimed, a function that writes to it defined, GPIOA dropped. -/
def afterDrop : Session :=
  typeLine .arm (typeLine .arm (typeLine .arm .blank "cap_claim GPIOA;")
    "fn f() { poke 0x40020000 1; }") "cap_drop GPIOA;"

theorem run_afterDrop (engine : Engine) :
    exists past, Run .arm engine .blank past afterDrop ∧
      forall tr, tr ∈ past -> StoresToUser .arm tr := by
  have hclaim : Step .arm engine .blank (typed "cap_claim GPIOA;")
      (typeLine .arm .blank "cap_claim GPIOA;") :=
    step_typed engine (by decide +kernel)
  have hdefine : Step .arm engine (typeLine .arm .blank "cap_claim GPIOA;")
      (typed "fn f() { poke 0x40020000 1; }")
      (typeLine .arm (typeLine .arm .blank "cap_claim GPIOA;") "fn f() { poke 0x40020000 1; }") :=
    step_typed engine (by decide +kernel)
  have hdrop : Step .arm engine
      (typeLine .arm (typeLine .arm .blank "cap_claim GPIOA;") "fn f() { poke 0x40020000 1; }")
      (typed "cap_drop GPIOA;") afterDrop :=
    step_typed engine (by decide +kernel)
  refine ⟨_, Trail.snoc (Trail.snoc (Trail.snoc Trail.nil hclaim) hdefine) hdrop, ?_⟩
  intro tr htr
  rcases List.mem_cons.mp htr with rfl | htr
  · exact storesToUser_of_all (by decide +kernel)
  rcases List.mem_cons.mp htr with rfl | htr
  · exact storesToUser_of_all (by decide +kernel)
  · rw [List.mem_singleton.mp htr]
    exact storesToUser_of_all (by decide +kernel)

/-- The call after the drop still writes to GPIOA. -/
theorem call_afterDrop :
    exists program, accepted .arm (typed "f();") afterDrop = some (.run program) ∧
      ThreadedMakes .inFlash program [.write 0x40020000#32 1#32] := by
  have hcall : (runProgram (accepted .arm (typed "f();") afterDrop)).map
      (fun program => (runThreaded .inFlash (Bus.constant 0#32) program ()).2.trace) =
      some [.write 0x40020000#32 1#32] := by
    decide +kernel
  obtain ⟨program, haccepted, htrace⟩ := accepted_of_runProgram hcall
  refine ⟨program, haccepted, ?_⟩
  rw [← htrace]
  exact threadedMakes_run .inFlash (Bus.constant 0#32) program ()

theorem fresh_blank : Fresh Session.blank where
  comp := rfl
  slots := by decide +kernel

/-- The write of the later call is that of a statement that was granted when it was compiled. -/
theorem accesses_granted_afterDrop :
    exists past request, Run .arm .threaded .blank past afterDrop ∧
      ReadsRequest (afterDrop.env .arm (typed "f();")) afterDrop.comp (ascii "f();") request ∧
      [.write 0x40020000#32 1#32] =
        (requestOrigins ⟨typed "f();", afterDrop⟩ (ledger .arm past).fns request).map
          (fun o => blockAccess o.block) ∧
      forall o, o ∈ requestOrigins ⟨typed "f();", afterDrop⟩ (ledger .arm past).fns request ->
        (o.line = ⟨typed "f();", afterDrop⟩ ∨ Typed past o.line) ∧ o.Granted .arm := by
  obtain ⟨past, hrun, huser⟩ := run_afterDrop .threaded
  obtain ⟨program, haccepted, htrace⟩ := call_afterDrop
  obtain ⟨request, hreads, haccesses, hgranted⟩ :=
    accesses_granted hrun fresh_blank huser haccepted htrace
  exact ⟨past, request, hrun, hreads, haccesses, hgranted⟩

/-- A function outlives the capability it was defined under. -/
theorem not_accessesAuthorised_afterDrop : ¬ AccessesAuthorised .arm .threaded .blank := by
  intro hauthorised
  obtain ⟨past, hrun, _⟩ := run_afterDrop .threaded
  obtain ⟨program, haccepted, htrace⟩ := call_afterDrop
  have haccess := hauthorised past afterDrop hrun _ program haccepted _ htrace [] _ [] rfl
  have hrefused : ¬ Accessible .arm (afterDrop.registry .arm) 0x40020000#32 := by
    decide +kernel
  exact hrefused haccess

end Drivers
end HolyRust
