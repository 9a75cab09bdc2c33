import HolyRust.Compilation.Native
import HolyRust.Execution.Threaded
import HolyRust.Drivers.StoreWindow

/-!
# Loaded programs

`load` hands the words of a slot to the compiler as they are, and a call splices
them into a program.  The native path refuses a program with an unknown word, and
what it refuses goes to the dispatch loop, which calls every word it meets.  So
all depends on the words that `load` finds.
-/

namespace HolyRust
namespace Drivers

open Foundation
open Capabilities
open Kernel
open Compilation
open Execution

/-!
## Valid streams
-/

section Streams

variable (prims : Prims)

/-- The dispatch loop meets primitives only, until it stops or reaches the end. -/
def validStream : List Word -> Bool
  | [] => true
  | word :: rest =>
      if word = 0#32 then true
      else
        match codeAt prims word with
        | none => false
        | some p =>
            if p = .halt then true
            else if p = .lit then
              match rest with
              | [] => false
              | _ :: rest' => validStream rest'
            else validStream rest

theorem validStream_zero (rest : List Word) : validStream prims (0#32 :: rest) = true := by
  unfold validStream
  rw [if_pos rfl]

theorem validStream_halt (rest : List Word) :
    validStream prims (prims.wordOf .halt :: rest) = true := by
  unfold validStream
  simp only [if_neg (prims.wordOf_ne_zero _), codeAt_wordOf, if_true]

theorem validStream_lit (v : Word) (rest : List Word) :
    validStream prims (prims.wordOf .lit :: v :: rest) = validStream prims rest := by
  rw [validStream, if_neg (prims.wordOf_ne_zero _), codeAt_wordOf]
  rfl

theorem validStream_operate {p : Prim} (hlit : p ≠ .lit) (hhalt : p ≠ .halt)
    (rest : List Word) :
    validStream prims (prims.wordOf p :: rest) = validStream prims rest := by
  rw [validStream.eq_def]
  simp only [if_neg (prims.wordOf_ne_zero _), codeAt_wordOf, if_neg hlit, if_neg hhalt]

theorem validStream_append (ws vs : List Word) (hws : validStream prims ws = true)
    (hvs : validStream prims vs = true) : validStream prims (ws ++ vs) = true := by
  fun_induction validStream prims ws with
  | case1 => exact hvs
  | case2 rest => exact validStream_zero prims _
  | case3 word rest hzero hcode => cases hws
  | case4 word rest hzero hcode =>
      rw [List.cons_append, validStream.eq_def]
      simp only [if_neg hzero, hcode, if_true]
  | case5 word hzero hcode => cases hws
  | case6 word hzero v rest hcode _ ih =>
      rw [List.cons_append, List.cons_append, validStream, if_neg hzero, hcode]
      exact ih hws
  | case7 word rest hzero p hcode hhalt hlit ih =>
      rw [List.cons_append, validStream.eq_def]
      simp only [if_neg hzero, hcode, if_neg hhalt, if_neg hlit]
      exact ih hws

variable {prims}

/-- A valid stream is dispatched without a jump to anything but a primitive. -/
theorem not_wildJump_of_validStream {words : List Word} (h : validStream prims words = true)
    (bus : Bus Word Word σ) (ip : Nat) (vm : Vm σ) (jump : Nat) :
    (runThreadedStream prims bus ip words vm).1 ≠ .wildJump jump := by
  fun_induction validStream prims words generalizing ip vm with
  | case1 =>
      intro hjump
      cases hjump
  | case2 rest =>
      unfold runThreadedStream
      rw [if_pos rfl]
      intro hjump
      cases hjump
  | case3 word rest hzero hcode => cases h
  | case4 word rest hzero hcode =>
      unfold runThreadedStream
      simp only [if_neg hzero, hcode, if_true]
      intro hjump
      cases hjump
  | case5 word hzero hcode => cases h
  | case6 word hzero v rest hcode _ ih =>
      rw [runThreadedStream, if_neg hzero, hcode]
      exact ih h _ _
  | case7 word rest hzero p hcode hhalt hlit ih =>
      rw [runThreadedStream.eq_def]
      simp only [if_neg hzero, hcode, if_neg hhalt, if_neg hlit]
      exact ih h _ _

variable (prims)

theorem validStream_block (block : Block) : validStream prims (block.words prims) = true := by
  cases block with
  | poke a v =>
      show validStream prims [prims.wordOf .lit, a, prims.wordOf .lit, v,
        prims.wordOf .writeReg] = true
      rw [validStream_lit, validStream_lit, validStream_operate prims (by decide) (by decide)]
      rfl
  | peek a =>
      show validStream prims [prims.wordOf .lit, a, prims.wordOf .loadReg] = true
      rw [validStream_lit, validStream_operate prims (by decide) (by decide)]
      rfl

/-- The bodies that can be spliced into any program. -/
def validBodies : BodyClass prims where
  Holds := fun _ ws => validStream prims ws = true
  nil := fun _ => rfl
  append := fun hws hvs => validStream_append prims _ _ hws hvs
  block := fun _ => validStream_block prims _
  mono := fun _ hws => hws

end Streams

/-!
## Programs
-/

/-- The dispatch loop calls nothing but primitives, whatever its reads return. -/
def CallsPrimitives (prims : Prims) (program : StreamProgram) : Prop :=
  forall (σ : Type) (bus : Bus Word Word σ) (s : σ) (jump : Nat),
    (runThreadedStream prims bus 0 (StreamProgram.array program) (Vm.start s)).1 ≠ .wildJump jump

/-- The native path hands the program to the dispatch loop. -/
def NativeRefuses (B : Backend unit instr) (prims : Prims) (program : StreamProgram) : Prop :=
  forall (σ : Type) (bus : Bus Word Word σ) (s : σ) (regs : Nat -> Word) (stale : List unit),
    compileAndRun B prims bus program s regs stale = .refused

/-- The program reaches the dispatch loop. -/
def Dispatches (engine : Engine) (b : Build) (program : StreamProgram) : Prop :=
  match engine, b.target with
  | .threaded, _ => True
  | .native, .arm => NativeRefuses thumb2Backend b.prims program
  | .native, .riscv32 => NativeRefuses riscv32Backend b.prims program

/-- ... in every line of every run from `start`. -/
def ControlFlowIntegrity (b : Build) (engine : Engine) (start : Session) : Prop :=
  forall past s, Run b engine start past s ->
    forall input program, accepted b input s = some (.run program) ->
      Dispatches engine b program -> CallsPrimitives b.prims program

theorem callsPrimitives_of_outcomeIn {prims : Prims} {A : Word -> Prop} {program : StreamProgram}
    (h : OutcomeIn (validBodies prims) A (.run program)) : CallsPrimitives prims program := by
  intro σ bus s jump
  apply not_wildJump_of_validStream
  unfold StreamProgram.array
  rcases h with ⟨ws, hws, hwords, _⟩ | ⟨v, hwords, _⟩
  · rw [hwords, List.append_assoc]
    exact validStream_append prims _ _ hws (validStream_halt prims _)
  · rw [hwords]
    show validStream prims (prims.wordOf .lit :: v :: prims.wordOf .halt :: _) = true
    rw [validStream_lit]
    exact validStream_halt prims _

/-!
## Whole runs
-/

/-- What the line would import is a valid stream. -/
def LoadsValid (b : Build) (tr : Transition Session Input) : Prop :=
  forall name words, b.target = .arm -> accepted b tr.label tr.before = some (.load name) ->
    findStored tr.before.machine.mem name.bytes maxPrograms 0 = some words ->
    words.length ≤ fnBodyWords -> validStream b.prims words = true

section Runs

variable {b : Build} {A : Word -> Prop}

theorem fnsValid_doLoad {name : NameBuf} {s : Session}
    (h : FnsIn (validBodies b.prims) A s.comp)
    (hvalid : forall words, findStored s.machine.mem name.bytes maxPrograms 0 = some words ->
      words.length ≤ fnBodyWords -> validStream b.prims words = true) :
    FnsIn (validBodies b.prims) A (doLoad name s).comp := by
  unfold doLoad
  cases hfound : findStored s.machine.mem name.bytes maxPrograms 0 with
  | none => exact h
  | some words =>
      cases himport : s.comp.importFn name.bytes words with
      | error e =>
          simp only [himport]
          exact h
      | ok c =>
          simp only [himport]
          have hwords := hvalid words hfound (length_of_importFn himport)
          have hin : (validBodies b.prims).Holds A words := hwords
          exact fnsIn_importFn h hin himport

theorem fnsValid_step {engine : Engine} {s s' : Session} {input : Input}
    (h : FnsIn (validBodies b.prims) (fun _ => True) s.comp) (hstep : Step b engine s input s')
    (huser : StoresToUser b ⟨s, input, s'⟩) (hloads : LoadsValid b ⟨s, input, s'⟩) :
    FnsIn (validBodies b.prims) (fun _ => True) s'.comp := by
  obtain ⟨heval, _⟩ := evalLine_of_step hstep huser
  have hparsed := fnsIn_mono (fun _ _ => trivial)
    (@parse_fnsIn (s.env b input) (validBodies b.prims) _ s.comp h input.line)
  rcases evalLine_cases heval with
    ⟨rfl, _⟩ | ⟨outcome, ps, hparse, haccepted, hexec⟩ | ⟨e, ps, hparse, _, rfl⟩
  · exact h
  · rw [hparse] at hparsed
    by_cases hname : exists name, outcome = .load name
    · obtain ⟨name, rfl⟩ := hname
      rw [← Option.some.inj hexec]
      unfold onArm
      split
      · rename_i harm
        exact fnsValid_doLoad hparsed fun words => hloads name words harm haccepted
      · exact hparsed
    · rw [(execute_leavesAlone hexec).comp fun name heq => hname ⟨name, heq⟩]
      exact hparsed
  · rw [hparse] at hparsed
    exact hparsed

/-- In a run whose stores go to user memory and whose loads find valid streams, the
dispatch loop calls primitives only. -/
theorem callsPrimitives_of_loadsValid {engine : Engine} {start s : Session}
    {past : List (Transition Session Input)} (hrun : Run b engine start past s)
    (hnew : start.comp = Compiler.new) (huser : forall tr, tr ∈ past -> StoresToUser b tr)
    (hloads : forall tr, tr ∈ past -> LoadsValid b tr) {input : Input} {program : StreamProgram}
    (haccepted : accepted b input s = some (.run program)) : CallsPrimitives b.prims program := by
  have hfns : FnsIn (validBodies b.prims) (fun _ => True) s.comp := by
    refine Trail.invariant (fun _ s => FnsIn (validBodies b.prims) (fun _ => True) s.comp)
      (fun tr => StoresToUser b tr ∧ LoadsValid b tr) ?_ ?_ hrun
      (fun tr htr => ⟨huser tr htr, hloads tr htr⟩)
    · rw [hnew]
      exact fnsIn_new
    · intro _ s input s' hs hstep hallowed
      exact fnsValid_step hs hstep hallowed.left hallowed.right
  obtain ⟨ps, hparse⟩ := parse_of_accepted haccepted
  exact callsPrimitives_of_outcomeIn (@parse_outcomeIn (s.env b input) _ _ _ hfns _ _ _ hparse)

end Runs

/-!
## A slot with one unknown word
-/

/-- A session that starts with `words` in the first slot, under the name `f`. -/
def planted (words : List Word) : Session :=
  { Session.blank with machine := { Machine.blank with
      mem := (save 0 (ascii "f") words Machine.blank.mem).toOption.getD Machine.blank.mem } }

/-- The session after `load f;`. -/
def afterLoad (words : List Word) : Session := typeLine .arm (planted words) "load f;"

theorem run_afterLoad {words : List Word}
    (h : returnsQuietly .arm (planted words) "load f;" = true) :
    Run .arm .native (planted words)
      [⟨planted words, typed "load f;", afterLoad words⟩] (afterLoad words) :=
  Trail.snoc Trail.nil (step_typed .native h)

/-- The name of an accepted `load` line. -/
def loadName (outcome : Option Outcome) : Option NameBuf :=
  match outcome with
  | some (.load name) => some name
  | _ => none

/-- A stored poke is loaded and called. -/
theorem callsPrimitives_storedPoke :
    exists program, accepted .arm (typed "f();")
        (afterLoad (Block.words .inFlash (.poke 0x20000000#32 1#32))) = some (.run program) ∧
      CallsPrimitives .inFlash program := by
  have hcall : (runProgram (accepted .arm (typed "f();")
      (afterLoad (Block.words .inFlash (.poke 0x20000000#32 1#32))))).isSome = true := by
    decide +kernel
  obtain ⟨program, hprogram⟩ := Option.isSome_iff_exists.mp hcall
  obtain ⟨program, haccepted, _⟩ := accepted_of_runProgram
    (f := id) (x := program) (by rw [hprogram]; rfl)
  refine ⟨program, haccepted, callsPrimitives_of_loadsValid
    (run_afterLoad (by decide +kernel)) rfl ?_ ?_ haccepted⟩
  · intro tr htr
    rw [List.mem_singleton.mp htr]
    exact storesToUser_of_all (by decide +kernel)
  · intro tr htr
    rw [List.mem_singleton.mp htr]
    intro name words _ hload hfound _
    have hvalid : (loadName (accepted .arm (typed "load f;")
          (planted (Block.words .inFlash (.poke 0x20000000#32 1#32))))).all (fun name =>
        (findStored (planted (Block.words .inFlash (.poke 0x20000000#32 1#32))).machine.mem
          name.bytes maxPrograms 0).all (validStream .inFlash)) = true := by
      decide +kernel
    rw [hload] at hvalid
    simp only [loadName, hfound, Option.all_some] at hvalid
    exact hvalid

/-- The word 5 is loaded, refused by the native path and called. -/
theorem not_controlFlowIntegrity_unknownWord :
    ¬ControlFlowIntegrity .arm .native (planted [5#32]) := by
  intro hintegrity
  have hcall : (runProgram (accepted .arm (typed "f();") (afterLoad [5#32]))).map
      (fun program => program.stream.words) = some [5#32, Prims.inFlash.wordOf .halt] := by
    decide +kernel
  obtain ⟨program, haccepted, hwords⟩ := accepted_of_runProgram hcall
  have hrefused : Dispatches .native .arm program := by
    intro σ bus s regs stale
    unfold compileAndRun
    rw [hwords]
    exact if_pos (by decide)
  have hcalls := hintegrity _ _ (run_afterLoad (by decide +kernel)) _ program haccepted hrefused
    Unit (Bus.constant 0#32) () 0
  apply hcalls
  unfold StreamProgram.array
  rw [hwords]
  decide +kernel

end Drivers
end HolyRust
