import HolyRust.Execution.NativeAgreement
import HolyRust.Drivers.Frames

/-!
# What the audit log records

`record_event` is called in `enforced_poke_u32` and nowhere else.  The enforced
commands are therefore logged write by write, and the stores of a program are
not logged at all: neither the interpreter nor native code knows of the log.
-/

namespace HolyRust
namespace Drivers

open Foundation
open Capabilities
open Kernel
open Compilation
open Execution

/-!
## One line
-/

/-- The address and value that an outcome hands to `enforced_poke_u32`. -/
def enforcedWrite (input : Input) : Outcome -> Option (Word × Word)
  | .enforcedPoke addr val => some (addr, val)
  | .setBit addr bit => (input.answers addr).map fun v => (addr, v ||| bitMask bit)
  | .clrBit addr bit => (input.answers addr).map fun v => (addr, v &&& ~~~bitMask bit)
  | _ => none

/-- The accesses of an outcome at addresses that the user chose. -/
def chosenAccesses (b : Build) (input : Input) (outcome : Outcome) (m : Machine) :
    List (Access Word Word) :=
  match outcome with
  | .run _ => input.accesses
  | _ =>
      match enforcedWrite input outcome with
      | some (addr, value) =>
          if passes b.target (m.registry b.target) addr then [.write addr value] else []
      | none => []

/-- The events that an outcome hands to `record_event`. -/
def events (b : Build) (input : Input) (outcome : Outcome) (m : Machine) : List AuditEntry :=
  match enforcedWrite input outcome with
  | some (addr, value) =>
      if isSuperuserActive (m.registry b.target) then
        [{ addr := addr, val := value, timestampCycles := input.cycles }]
      else []
  | none => []

/-- The writes of a trace that find the SuperUser bit set. -/
def superuserWrites (t : Target) : Machine -> List (Access Word Word) -> List (Word × Word)
  | _, [] => []
  | m, .read _ :: rest => superuserWrites t m rest
  | m, .write addr value :: rest =>
      let later := superuserWrites t (pokeU32 m addr value) rest
      if isSuperuserActive (m.registry t) then (addr, value) :: later else later

theorem events_of_enforcedWrite {b : Build} {input : Input} {outcome : Outcome} {m : Machine}
    {addr value : Word} (h : enforcedWrite input outcome = some (addr, value)) :
    events b input outcome m =
      if isSuperuserActive (m.registry b.target) then
        [{ addr := addr, val := value, timestampCycles := input.cycles }]
      else [] := by
  unfold events
  rw [h]

/-- An enforced write reaches the log exactly as `events` says. -/
theorem audit_pokeOutcome {b : Build} {input : Input} {outcome : Outcome} {addr value : Word}
    (h : enforcedWrite input outcome = some (addr, value)) (s : Session) :
    (pokeOutcome b input.cycles addr value s).machine.audit =
      (events b input outcome s.machine).foldl AuditLog.record s.machine.audit := by
  rw [events_of_enforcedWrite h]
  unfold pokeOutcome
  rw [enforcedPokeU32_eq]
  cases hsuper : isSuperuserActive (s.machine.registry b.target) with
  | true =>
      rw [passes_of_superuser hsuper, if_pos rfl, if_pos rfl]
      show (logged b.target input.cycles addr value s.machine).audit = _
      unfold logged
      rw [if_pos hsuper]
      rfl
  | false =>
      have hkept : (logged b.target input.cycles addr value s.machine).audit =
          s.machine.audit := by
        unfold logged
        rw [hsuper]
        rfl
      by_cases hpasses : passes b.target (s.machine.registry b.target) addr = true
      · rw [if_pos hpasses]
        exact hkept
      · rw [if_neg hpasses]
        rfl

theorem enforcedWrite_eq_none {outcome : Outcome} (h : isEnforcedWrite outcome = false)
    (input : Input) : enforcedWrite input outcome = none := by
  cases outcome with
  | enforcedPoke addr val => cases h
  | setBit addr bit => cases h
  | clrBit addr bit => cases h
  | _ => rfl

/-- Executing an outcome adds its events to the log and nothing else. -/
theorem audit_execute {b : Build} {input : Input} {outcome : Outcome} {s s' : Session}
    (h : execute b input outcome s = some s') :
    s'.machine.audit =
      (events b input outcome s.machine).foldl AuditLog.record s.machine.audit := by
  by_cases hother : isEnforcedWrite outcome = false
  · rw [(execute_leavesAlone h).audit hother]
    unfold events
    rw [enforcedWrite_eq_none hother]
    rfl
  · cases outcome with
    | enforcedPoke addr val =>
        rw [← Option.some.inj h]
        exact audit_pokeOutcome rfl s
    | setBit addr bit =>
        obtain ⟨v, hv, rfl⟩ := Option.map_eq_some_iff.mp h
        have hwrite : enforcedWrite input (.setBit addr bit) = some (addr, v ||| bitMask bit) :=
          Option.map_eq_some_iff.mpr ⟨v, hv, rfl⟩
        exact audit_pokeOutcome hwrite s
    | clrBit addr bit =>
        obtain ⟨v, hv, rfl⟩ := Option.map_eq_some_iff.mp h
        have hwrite : enforcedWrite input (.clrBit addr bit) =
            some (addr, v &&& ~~~bitMask bit) :=
          Option.map_eq_some_iff.mpr ⟨v, hv, rfl⟩
        exact audit_pokeOutcome hwrite s
    | _ => exact absurd rfl hother

/-!
## Whole runs
-/

/-- The events that the line of a transition records. -/
def lineEvents (b : Build) (tr : Transition Session Input) : List AuditEntry :=
  match accepted b tr.label tr.before with
  | some outcome => events b tr.label outcome tr.before.machine
  | none => []

/-- The writes to chosen addresses that the line makes under SuperUser. -/
def lineWrites (b : Build) (tr : Transition Session Input) : List (Word × Word) :=
  match accepted b tr.label tr.before with
  | some outcome => superuserWrites b.target tr.before.machine
      (chosenAccesses b tr.label outcome tr.before.machine)
  | none => []

/-- All events of a run, in order. -/
def recorded (b : Build) (past : List (Transition Session Input)) : List AuditEntry :=
  past.reverse.flatMap (lineEvents b)

/-- All such writes of a run, in order. -/
def written (b : Build) (past : List (Transition Session Input)) : List (Word × Word) :=
  past.reverse.flatMap (lineWrites b)

/-- The log of a run from `start` to `s` has every write under SuperUser and no other. -/
structure AuditComplete (b : Build) (start : Session) (past : List (Transition Session Input))
    (s : Session) : Prop where
  -- a line that stores over the kernel's memory may store over the log
  log : (forall tr, tr ∈ past -> evalLine b tr.label tr.before = some tr.after) ->
    s.machine.audit = (recorded b past).foldl AuditLog.record start.machine.audit
  writes : (recorded b past).map AuditEntry.write = written b past

/-- The line runs a program, and a store of the program finds the SuperUser bit set. -/
def StoresUnaudited (b : Build) (tr : Transition Session Input) : Prop :=
  (exists program, accepted b tr.label tr.before = some (.run program)) ∧
    exists before addr value after, tr.label.accesses = before ++ .write addr value :: after ∧
      isSuperuserActive ((tr.before.perform before).registry b) = true

/-- A write of a trace is its first access, or a write of the rest. -/
theorem exists_write_cons (P : List (Access Word Word) -> Prop) (access : Access Word Word)
    (rest : List (Access Word Word)) :
    (exists before addr value after,
      access :: rest = before ++ .write addr value :: after ∧ P before) ↔
      (exists addr value, access = .write addr value ∧ P []) ∨
        exists before addr value after,
          rest = before ++ .write addr value :: after ∧ P (access :: before) := by
  constructor
  · rintro ⟨before, addr, value, after, htrace, hP⟩
    cases before with
    | nil =>
        cases htrace
        exact Or.inl ⟨addr, value, rfl, hP⟩
    | cons _ before =>
        cases htrace
        exact Or.inr ⟨before, addr, value, after, rfl, hP⟩
  · rintro (⟨addr, value, rfl, hP⟩ | ⟨before, addr, value, after, rfl, hP⟩)
    · exact ⟨[], addr, value, rest, rfl, hP⟩
    · exact ⟨access :: before, addr, value, after, rfl, hP⟩

/-- The bit is looked at right before each write. -/
theorem superuserWrites_eq_nil_iff (t : Target) (m : Machine) (trace : List (Access Word Word)) :
    superuserWrites t m trace = [] ↔
      ¬ exists before addr value after, trace = before ++ .write addr value :: after ∧
        isSuperuserActive (Machine.registry t { m with mem := m.mem.perform before }) = true := by
  induction trace generalizing m with
  | nil =>
      refine ⟨?_, fun _ => rfl⟩
      rintro - ⟨before, addr, value, after, htrace, _⟩
      cases before <;> cases htrace
  | cons access rest ih =>
      rw [exists_write_cons fun before =>
        isSuperuserActive (Machine.registry t { m with mem := m.mem.perform before }) = true]
      cases access with
      | read a =>
          rw [superuserWrites, ih m]
          simp [Memory.perform, Memory.access]
      | write a v =>
          have hrest := ih (pokeU32 m a v)
          rw [superuserWrites]
          by_cases hsuper : isSuperuserActive (m.registry t) = true
          · rw [if_pos hsuper]
            constructor
            · intro h
              cases h
            · intro h
              exact absurd (Or.inl ⟨a, v, rfl, hsuper⟩) h
          · rw [if_neg hsuper, hrest, not_or]
            refine ⟨fun h => ⟨?_, h⟩, fun h => h.right⟩
            rintro ⟨_, _, _, hactive⟩
            exact hsuper hactive

/-- An enforced command writes under SuperUser exactly what it records. -/
theorem superuserWrites_enforced {b : Build} {input : Input} {outcome : Outcome} {m : Machine}
    (hrun : forall program, outcome ≠ .run program) :
    superuserWrites b.target m (chosenAccesses b input outcome m) =
      (events b input outcome m).map AuditEntry.write := by
  have hchosen : chosenAccesses b input outcome m =
      match enforcedWrite input outcome with
      | some (addr, value) =>
          if passes b.target (m.registry b.target) addr then [.write addr value] else []
      | none => [] := by
    cases outcome with
    | run program => exact absurd rfl (hrun program)
    | _ => rfl
  rw [hchosen]
  unfold events
  cases henforced : enforcedWrite input outcome with
  | none => rfl
  | some write =>
      obtain ⟨addr, value⟩ := write
      simp only
      cases hsuper : isSuperuserActive (m.registry b.target) with
      | true =>
          rw [passes_of_superuser hsuper, if_pos rfl, if_pos rfl, superuserWrites, hsuper]
          rfl
      | false =>
          rw [if_neg Bool.false_ne_true]
          split
          · rw [superuserWrites, hsuper]
            rfl
          · rfl

theorem lineEvents_eq_iff (b : Build) (tr : Transition Session Input) :
    (lineEvents b tr).map AuditEntry.write = lineWrites b tr ↔ ¬ StoresUnaudited b tr := by
  unfold lineEvents lineWrites StoresUnaudited
  cases haccepted : accepted b tr.label tr.before with
  | none => simp
  | some outcome =>
      by_cases hrun : exists program, outcome = .run program
      · obtain ⟨program, rfl⟩ := hrun
        have hnil := superuserWrites_eq_nil_iff b.target tr.before.machine tr.label.accesses
        constructor
        · rintro heq ⟨_, hstores⟩
          exact hnil.mp heq.symm hstores
        · intro hnone
          exact (hnil.mpr fun hstores => hnone ⟨⟨program, rfl⟩, hstores⟩).symm
      · simp only
        rw [superuserWrites_enforced fun program heq => hrun ⟨program, heq⟩]
        refine ⟨fun _ hstores => ?_, fun _ => rfl⟩
        obtain ⟨⟨program, heq⟩, _⟩ := hstores
        exact hrun ⟨program, Option.some.inj heq⟩

theorem length_lineEvents_le (b : Build) (tr : Transition Session Input) :
    (lineEvents b tr).length ≤ (lineWrites b tr).length := by
  unfold lineEvents lineWrites
  cases haccepted : accepted b tr.label tr.before with
  | none => exact Nat.le_refl 0
  | some outcome =>
      by_cases hrun : exists program, outcome = .run program
      · obtain ⟨program, rfl⟩ := hrun
        exact Nat.zero_le _
      · simp only
        rw [superuserWrites_enforced fun program heq => hrun ⟨program, heq⟩, List.length_map]

theorem not_storesUnaudited_of_noRun {b : Build} {tr : Transition Session Input}
    (h : (runProgram (accepted b tr.label tr.before)).isNone = true) :
    ¬ StoresUnaudited b tr := by
  rintro ⟨⟨program, haccepted⟩, _⟩
  rw [haccepted] at h
  cases h

theorem recorded_cons (b : Build) (tr : Transition Session Input)
    (past : List (Transition Session Input)) :
    recorded b (tr :: past) = recorded b past ++ lineEvents b tr := by
  simp [recorded]

theorem written_cons (b : Build) (tr : Transition Session Input)
    (past : List (Transition Session Input)) :
    written b (tr :: past) = written b past ++ lineWrites b tr := by
  simp [written]

theorem length_recorded_le (b : Build) (past : List (Transition Session Input)) :
    (recorded b past).length ≤ (written b past).length := by
  induction past with
  | nil => exact Nat.le_refl 0
  | cons tr past ih =>
      rw [recorded_cons, written_cons, List.length_append, List.length_append]
      exact Nat.add_le_add ih (length_lineEvents_le b tr)

/-- No line records more than it writes, so the lists agree only line by line. -/
theorem recorded_eq_iff (b : Build) (past : List (Transition Session Input)) :
    (recorded b past).map AuditEntry.write = written b past ↔
      forall tr, tr ∈ past -> ¬ StoresUnaudited b tr := by
  induction past with
  | nil => simp [recorded, written]
  | cons tr past ih =>
      rw [List.forall_mem_cons, ← lineEvents_eq_iff, ← ih, recorded_cons, written_cons,
        List.map_append]
      constructor
      · intro heq
        have hlen := congrArg List.length heq
        rw [List.length_append, List.length_append, List.length_map, List.length_map] at hlen
        have hline := length_lineEvents_le b tr
        have hpast := length_recorded_le b past
        have hinj := List.append_inj heq (by rw [List.length_map]; lia)
        exact ⟨hinj.right, hinj.left⟩
      · rintro ⟨hline, hpast⟩
        rw [hline, hpast]

theorem audit_evalLine {b : Build} {tr : Transition Session Input}
    (h : evalLine b tr.label tr.before = some tr.after) :
    tr.after.machine.audit = (lineEvents b tr).foldl AuditLog.record tr.before.machine.audit := by
  unfold lineEvents
  rcases evalLine_cases h with
    ⟨hsame, haccepted⟩ | ⟨outcome, ps, _, haccepted, hexec⟩ | ⟨e, ps, _, haccepted, hsame⟩
  · rw [haccepted, hsame]
    rfl
  · rw [haccepted]
    have hlog := audit_execute hexec
    exact hlog
  · rw [haccepted, hsame]
    rfl

theorem audit_of_run {b : Build} {engine : Engine} {start s : Session}
    {past : List (Transition Session Input)} (hrun : Run b engine start past s)
    (heval : forall tr, tr ∈ past -> evalLine b tr.label tr.before = some tr.after) :
    s.machine.audit = (recorded b past).foldl AuditLog.record start.machine.audit := by
  refine Trail.invariant
    (fun past s => s.machine.audit = (recorded b past).foldl AuditLog.record start.machine.audit)
    (fun tr => evalLine b tr.label tr.before = some tr.after) rfl ?_ hrun heval
  intro past s input s' hpast _ hline
  rw [recorded_cons, List.foldl_append, ← hpast]
  exact audit_evalLine hline

/-- The log is complete exactly as long as no program stores under SuperUser. -/
theorem auditComplete_iff {b : Build} {engine : Engine} {start s : Session}
    {past : List (Transition Session Input)} (hrun : Run b engine start past s) :
    AuditComplete b start past s ↔ forall tr, tr ∈ past -> ¬ StoresUnaudited b tr := by
  rw [← recorded_eq_iff]
  exact ⟨fun h => h.writes, fun h => ⟨audit_of_run hrun, h⟩⟩

/-- SuperUser is claimed and an unmapped word poked. -/
theorem auditComplete_superuserPoke :
    exists past s, Run .arm .native .blank past s ∧ AuditComplete .arm .blank past s ∧
      written .arm past = [(0x50000000#32, 0xDEADBEEF#32)] ∧
      s.machine.audit.count = 1#32 := by
  have hclaim : Step .arm .native .blank (typed "cap_claim SUPERUSER;")
      (typeLine .arm .blank "cap_claim SUPERUSER;") :=
    step_typed .native (by decide +kernel)
  have hpoke : Step .arm .native (typeLine .arm .blank "cap_claim SUPERUSER;")
      (typed "poke 0x50000000 0xDEADBEEF;")
      (typeLine .arm (typeLine .arm .blank "cap_claim SUPERUSER;")
        "poke 0x50000000 0xDEADBEEF;") :=
    step_typed .native (by decide +kernel)
  have hrun := Trail.snoc (Trail.snoc Trail.nil hclaim) hpoke
  refine ⟨_, _, hrun, (auditComplete_iff hrun).mpr ?_, by decide +kernel, by decide +kernel⟩
  intro tr htr
  rcases List.mem_cons.mp htr with rfl | htr
  · exact not_storesUnaudited_of_noRun (by decide +kernel)
  · rw [List.mem_singleton.mp htr]
    exact not_storesUnaudited_of_noRun (by decide +kernel)

/-!
## A call under SuperUser
-/

/-- A program that pokes one address makes its accesses on both engines. -/
theorem makes_oneTarget (engine : Engine) {bs : List Block} {program : StreamProgram}
    (hwords : program.stream.words = blockWords .inFlash bs ++ [Prims.inFlash.wordOf .halt])
    (hyields : program.yieldsValue = false) (htarget : OneTarget bs) :
    engine.Makes .arm program (bs.map blockAccess) := by
  have hthreaded := (runThreaded_blocks hwords hyields (Bus.constant 0#32) ()).right
  cases engine with
  | threaded =>
      rw [← hthreaded]
      exact threadedMakes_run .inFlash (Bus.constant 0#32) program ()
  | native =>
      refine ⟨Unit, Bus.constant 0#32, (), fun _ => 0#32, [], ?_⟩
      rw [show Build.arm.prims = .inFlash from rfl,
        compileAndRun_blocks .inFlash thumb2_laws thumb2_roomy hwords hyields]
      show bs.map blockAccess = _
      rw [streamBlocks_trace _ _ thumb2_laws.distinct]
      exact (streamTrace_of_oneTarget _ htarget (fun _ _ _ _ => rfl) ()).symm

/-- SuperUser is claimed and a function that pokes defined. -/
def afterDefinition : Session :=
  typeLine .arm (typeLine .arm .blank "cap_claim SUPERUSER;") "fn f() { poke 0x20000000 1; }"

/-- The call of that function. -/
def superuserCall : Input :=
  { typed "f();" with accesses := [.write 0x20000000#32 1#32] }

def afterCall : Session := (evalLine .arm superuserCall afterDefinition).getD afterDefinition

theorem step_call (engine : Engine) : Step .arm engine afterDefinition superuserCall afterCall := by
  have hcall : (runProgram (accepted .arm superuserCall afterDefinition)).map
      (fun program => (program.stream.words, program.yieldsValue)) =
      some (blockWords .inFlash [.poke 0x20000000#32 1#32] ++ [Prims.inFlash.wordOf .halt],
        false) := by
    decide +kernel
  obtain ⟨program, haccepted, hprogram⟩ := accepted_of_runProgram hcall
  obtain ⟨hwords, hyields⟩ := Prod.mk.inj hprogram
  have heval : (evalLine .arm superuserCall afterDefinition).isSome = true := by
    decide +kernel
  apply Step.line
  · intro outcome houtcome
    rw [haccepted] at houtcome
    cases houtcome
    exact makes_oneTarget engine hwords hyields trivial
  · obtain ⟨s, hs⟩ := Option.isSome_iff_exists.mp heval
    unfold afterCall
    rw [hs]
    rfl

/-- The claim, the definition and the call. -/
def unaudited : List (Transition Session Input) :=
  [⟨afterDefinition, superuserCall, afterCall⟩,
    ⟨typeLine .arm .blank "cap_claim SUPERUSER;", typed "fn f() { poke 0x20000000 1; }",
      afterDefinition⟩,
    ⟨.blank, typed "cap_claim SUPERUSER;", typeLine .arm .blank "cap_claim SUPERUSER;"⟩]

theorem run_unaudited (engine : Engine) : Run .arm engine .blank unaudited afterCall := by
  have hclaim : Step .arm engine .blank (typed "cap_claim SUPERUSER;")
      (typeLine .arm .blank "cap_claim SUPERUSER;") :=
    step_typed engine (by decide +kernel)
  have hdefine : Step .arm engine (typeLine .arm .blank "cap_claim SUPERUSER;")
      (typed "fn f() { poke 0x20000000 1; }") afterDefinition :=
    step_typed engine (by decide +kernel)
  exact Trail.snoc (Trail.snoc (Trail.snoc Trail.nil hclaim) hdefine) (step_call engine)

/-- The same poke in a function, called under SuperUser, is not logged. -/
theorem not_auditComplete_call :
    ¬ forall past s, Run .arm .native .blank past s -> AuditComplete .arm .blank past s := by
  intro hcomplete
  have hwrites := (hcomplete _ _ (run_unaudited .native)).writes
  have hnone : recorded .arm unaudited = [] := by
    decide +kernel
  have hone : written .arm unaudited = [(0x20000000#32, 1#32)] := by
    decide +kernel
  rw [hnone, hone] at hwrites
  cases hwrites

end Drivers
end HolyRust
