import HolyRust.Compilation.StreamShape
import HolyRust.Execution.Threaded

/-!
# Runs of compiled streams

A block leaves the stack as it was, or one word higher, and makes one access.
So a whole program halts at its last word, and its accesses are those of its
blocks, whatever the bus answers.
-/

namespace HolyRust
namespace Execution

open Foundation
open Compilation

/-!
## Stack operations with room
-/

namespace Vm

variable (vm : Vm σ)

/-- Dispatch of several positions. -/
def marks (ips : List Nat) : Vm σ :=
  { vm with dispatched := vm.dispatched ++ ips }

theorem mark_push (v : Word) (ip : Nat) : (vm.push v).mark ip = (vm.mark ip).push v := by
  unfold push mark
  by_cases h : vm.stack.items.length < vmStackSize
  · rw [dif_pos h, dif_pos h]
  · rw [dif_neg h, dif_neg h]

theorem mark_eq_marks (ip : Nat) : vm.mark ip = vm.marks [ip] := rfl

theorem marks_marks (ips js : List Nat) : (vm.marks ips).marks js = vm.marks (ips ++ js) := by
  unfold marks
  rw [List.append_assoc]

theorem push_of_room {v : Word} (h : vm.stack.items.length < vmStackSize) :
    vm.push v = { vm with stack := ⟨v :: vm.stack.items, h⟩ } := by
  unfold push
  rw [dif_pos h]

theorem pop_push {v : Word} (h : vm.stack.items.length < vmStackSize) :
    (vm.push v).pop = (v, vm) := by
  rw [push_of_room vm h]
  rfl

end Vm

/-!
## One block
-/

def blockSize : Block -> Nat
  | .poke _ _ => 5
  | .peek _ => 3

/-- The positions that a block at `ip` dispatches. -/
def blockOpcodes (ip : Nat) : Block -> List Nat
  | .poke _ _ => [ip, ip + 2, ip + 4]
  | .peek _ => [ip, ip + 2]

/-- The access that a block makes. -/
def blockAccess : Block -> Access Word Word
  | .poke a v => .write a v
  | .peek a => .read a

/-- What running the block at `ip` amounts to. -/
def execBlock (bus : Bus Word Word σ) (ip : Nat) (b : Block) (vm : Vm σ) : Vm σ :=
  match b with
  | .poke a v => (vm.marks (blockOpcodes ip b)).store bus a v
  | .peek a =>
      let value := (vm.marks (blockOpcodes ip b)).load bus a
      value.2.push value.1

theorem run_block (prims : Prims) (bus : Bus Word Word σ) (ip : Nat) (b : Block)
    (rest : List Word) (vm : Vm σ) (hroom : vm.stack.items.length + 2 ≤ vmStackSize) :
    runThreadedStream prims bus ip (b.words prims ++ rest) vm =
      runThreadedStream prims bus (ip + blockSize b) rest (execBlock bus ip b vm) := by
  cases b with
  | poke a v =>
      show runThreadedStream prims bus ip (prims.wordOf .lit :: a :: prims.wordOf .lit :: v ::
        prims.wordOf .writeReg :: rest) vm = _
      rw [run_lit, run_lit, run_operate _ _ _ _ _ (by decide) (by decide)]
      rw [Vm.mark_push, Vm.mark_push, Vm.mark_push]
      have hroom0 : (((vm.mark ip).mark (ip + 2)).mark (ip + 2 + 2)).stack.items.length <
          vmStackSize := by
        show vm.stack.items.length < vmStackSize
        lia
      have hroom1 : ((((vm.mark ip).mark (ip + 2)).mark (ip + 2 + 2)).push
          a).stack.items.length < vmStackSize := by
        rw [Vm.push_of_room _ hroom0]
        show vm.stack.items.length + 1 < vmStackSize
        lia
      unfold operate writeRegPrim
      simp only [Vm.pop_push _ hroom1, Vm.pop_push _ hroom0]
      simp only [Vm.mark_eq_marks, Vm.marks_marks]
      rfl
  | peek a =>
      show runThreadedStream prims bus ip (prims.wordOf .lit :: a ::
        prims.wordOf .loadReg :: rest) vm = _
      rw [run_lit, run_operate _ _ _ _ _ (by decide) (by decide)]
      rw [Vm.mark_push]
      have hroom0 : ((vm.mark ip).mark (ip + 2)).stack.items.length < vmStackSize := by
        show vm.stack.items.length < vmStackSize
        lia
      unfold operate loadRegPrim
      simp only [Vm.pop_push _ hroom0]
      simp only [Vm.mark_eq_marks, Vm.marks_marks]
      rfl

/-!
## Whole programs
-/

def execBlocks (bus : Bus Word Word σ) : Nat -> List Block -> Vm σ -> Vm σ
  | _, [], vm => vm
  | ip, b :: bs, vm => execBlocks bus (ip + blockSize b) bs (execBlock bus ip b vm)

def opcodePositions : Nat -> List Block -> List Nat
  | _, [] => []
  | ip, b :: bs => blockOpcodes ip b ++ opcodePositions (ip + blockSize b) bs

theorem length_blockWords (prims : Prims) (b : Block) :
    (b.words prims).length = blockSize b := by
  cases b <;> rfl

theorem blockWords_cons (prims : Prims) (b : Block) (bs : List Block) :
    blockWords prims (b :: bs) = b.words prims ++ blockWords prims bs := by
  unfold blockWords
  rw [List.flatMap_cons]

/-- What a run over blocks records: no loss, the accesses and the positions. -/
structure Recorded (accesses : List (Access Word Word)) (ips : List Nat)
    (vm vm' : Vm σ) : Prop where
  trace : vm'.trace = vm.trace ++ accesses
  dispatched : vm'.dispatched = vm.dispatched ++ ips
  dropped : vm'.dropped = vm.dropped
  underflows : vm'.underflows = vm.underflows

theorem recorded_trans {as bs : List (Access Word Word)} {is js : List Nat}
    {vm vm' vm'' : Vm σ} (h : Recorded as is vm vm') (h' : Recorded bs js vm' vm'') :
    Recorded (as ++ bs) (is ++ js) vm vm'' where
  trace := by rw [h'.trace, h.trace, List.append_assoc]
  dispatched := by rw [h'.dispatched, h.dispatched, List.append_assoc]
  dropped := h'.dropped.trans h.dropped
  underflows := h'.underflows.trans h.underflows

/-- A block makes its access and keeps three words of stream for a word of stack. -/
theorem execBlock_spec (bus : Bus Word Word σ) (ip : Nat) (b : Block) (vm : Vm σ)
    (hroom : vm.stack.items.length < vmStackSize) :
    Recorded [blockAccess b] (blockOpcodes ip b) vm (execBlock bus ip b vm) ∧
      3 * (execBlock bus ip b vm).stack.items.length ≤
        3 * vm.stack.items.length + blockSize b := by
  cases b with
  | poke a v =>
      refine ⟨⟨rfl, rfl, rfl, rfl⟩, ?_⟩
      show 3 * vm.stack.items.length ≤ 3 * vm.stack.items.length + 5
      lia
  | peek a =>
      unfold execBlock
      have hroom' : ((vm.marks (blockOpcodes ip (.peek a))).load bus a).2.stack.items.length <
          vmStackSize := hroom
      simp only [Vm.push_of_room _ hroom']
      refine ⟨⟨rfl, rfl, rfl, rfl⟩, ?_⟩
      show 3 * (vm.stack.items.length + 1) ≤ 3 * vm.stack.items.length + 3
      lia

/-- The run over blocks, by induction on the blocks: the stack never takes more
than a third of the words that are gone. -/
theorem run_blocks (prims : Prims) (bus : Bus Word Word σ) (ip : Nat) (bs : List Block)
    (rest : List Word) (vm : Vm σ)
    (hroom : 3 * vm.stack.items.length + (blockWords prims bs).length ≤ maxStreamWords) :
    runThreadedStream prims bus ip (blockWords prims bs ++ rest) vm =
        runThreadedStream prims bus (ip + (blockWords prims bs).length) rest
          (execBlocks bus ip bs vm) ∧
      Recorded (bs.map blockAccess) (opcodePositions ip bs) vm (execBlocks bus ip bs vm) := by
  induction bs generalizing ip vm with
  | nil =>
      exact ⟨rfl, (List.append_nil _).symm, (List.append_nil _).symm, rfl, rfl⟩
  | cons b bs ih =>
      rw [blockWords_cons, List.length_append, length_blockWords] at hroom
      have hstack : vm.stack.items.length + 2 ≤ vmStackSize := by
        have hmax : maxStreamWords = 128 := rfl
        have hvm : vmStackSize = 64 := rfl
        lia
      have hstep := execBlock_spec bus ip b vm (by lia)
      have hrest := ih (ip + blockSize b) (execBlock bus ip b vm) (by lia)
      rw [blockWords_cons, List.append_assoc, List.length_append, length_blockWords]
      constructor
      · rw [run_block prims bus ip b _ vm hstack, hrest.left, Nat.add_assoc]
        rfl
      · exact recorded_trans hstep.left hrest.right

/-- Where a program of blocks ends and what it did. -/
theorem run_blockProgram (prims : Prims) (bus : Bus Word Word σ) (bs : List Block)
    (program : StreamProgram) (s : σ)
    (hwords : program.stream.words = blockWords prims bs ++ [prims.wordOf .halt]) :
    (runThreadedStream prims bus 0 (StreamProgram.array program) (Vm.start s)).1 =
        .halted (blockWords prims bs).length ∧
      Recorded (bs.map blockAccess) (opcodePositions 0 bs ++ [(blockWords prims bs).length])
        (Vm.start s)
        (runThreadedStream prims bus 0 (StreamProgram.array program) (Vm.start s)).2 := by
  have hlen : (blockWords prims bs).length + 1 ≤ maxStreamWords := by
    have hle := program.stream.length_le
    rw [hwords, List.length_append, List.length_singleton] at hle
    exact hle
  have hrun := run_blocks prims bus 0 bs
    (prims.wordOf .halt :: List.replicate (maxStreamWords - program.stream.words.length) 0#32)
    (Vm.start s) (by show 3 * 0 + _ ≤ _; lia)
  have harray : StreamProgram.array program = blockWords prims bs ++
      (prims.wordOf .halt ::
        List.replicate (maxStreamWords - program.stream.words.length) 0#32) := by
    unfold StreamProgram.array
    rw [hwords, List.append_assoc]
    rfl
  rw [harray, hrun.left, run_halt, Nat.zero_add]
  refine ⟨rfl, ?_⟩
  have hmark : Recorded [] [(blockWords prims bs).length] (execBlocks bus 0 bs (Vm.start s))
      ((execBlocks bus 0 bs (Vm.start s)).mark (blockWords prims bs).length) :=
    ⟨(List.append_nil _).symm, rfl, rfl, rfl⟩
  have hall := recorded_trans hrun.right hmark
  rw [List.append_nil] at hall
  exact hall

theorem run_valueProgram (prims : Prims) (bus : Bus Word Word σ) (v : Word)
    (program : StreamProgram) (s : σ)
    (hwords : program.stream.words = [prims.wordOf .lit, v, prims.wordOf .halt]) :
    runThreadedStream prims bus 0 (StreamProgram.array program) (Vm.start s) =
      (.halted 2, ((Vm.start s).marks [0, 2]).push v) := by
  unfold StreamProgram.array
  rw [hwords]
  show runThreadedStream prims bus 0 (prims.wordOf .lit :: v :: prims.wordOf .halt :: _) _ = _
  rw [run_lit, run_halt, Vm.mark_push]
  rfl

/-!
## Every program that a line returns
-/

/-- Blocks, or one literal, and a final halt. -/
def WellFormedProgram (prims : Prims) (program : StreamProgram) : Prop :=
  (IsBlockProgram prims (fun _ => True) program ∨ IsValueProgram prims program) ∧
    program.stream.words.length ≤ maxStreamWords

/-- The positions of the opcodes of a program, its final halt included. -/
def OpcodesAt (prims : Prims) (program : StreamProgram) (ips : List Nat) : Prop :=
  (exists bs, program.stream.words = blockWords prims bs ++ [prims.wordOf .halt] ∧
      ips = opcodePositions 0 bs ++ [(blockWords prims bs).length]) ∨
    (exists v, program.stream.words = [prims.wordOf .lit, v, prims.wordOf .halt] ∧ ips = [0, 2])

/-- The run ends at the last word, having dispatched the opcodes only, without
losing a push or popping an empty stack; a value program leaves its value. -/
structure RunsCleanly (prims : Prims) (bus : Bus Word Word σ) (program : StreamProgram)
    (s : σ) (stop : Stop) (vm : Vm σ) : Prop where
  run : runThreadedStream prims bus 0 (StreamProgram.array program) (Vm.start s) = (stop, vm)
  halts : stop = .halted (program.stream.words.length - 1)
  opcodes : OpcodesAt prims program vm.dispatched
  dropped : vm.dropped = 0
  underflows : vm.underflows = 0
  value : program.yieldsValue = true ->
    exists v, program.stream.words = [prims.wordOf .lit, v, prims.wordOf .halt] ∧
      vm.stack.items = [v]

theorem runsCleanly_blockProgram {prims : Prims} {A : Word -> Prop} {program : StreamProgram}
    (h : IsBlockProgram prims A program) (bus : Bus Word Word σ) (s : σ) :
    exists stop vm, RunsCleanly prims bus program s stop vm := by
  obtain ⟨bs, _, hwords, hyields⟩ := h
  have hrun := run_blockProgram prims bus bs program s hwords
  refine ⟨_, _, Prod.mk.eta.symm, ?_, ?_, hrun.right.dropped, hrun.right.underflows, ?_⟩
  · rw [hrun.left, hwords, List.length_append]
    rfl
  · exact Or.inl ⟨bs, hwords, hrun.right.dispatched⟩
  · intro htrue
    rw [hyields] at htrue
    cases htrue

theorem runsCleanly_valueProgram {prims : Prims} {program : StreamProgram}
    (h : IsValueProgram prims program) (bus : Bus Word Word σ) (s : σ) :
    exists stop vm, RunsCleanly prims bus program s stop vm := by
  obtain ⟨v, hwords, _⟩ := h
  have hrun := run_valueProgram prims bus v program s hwords
  refine ⟨_, _, hrun, ?_, Or.inr ⟨v, hwords, rfl⟩, rfl, rfl, fun _ => ⟨v, hwords, rfl⟩⟩
  rw [hwords]
  rfl

/-- Every stored body and every program that any history of lines, exports and
imports leads to. -/
theorem streams_wellFormed {target : Target} {prims : Prims} {h : History}
    (hreach : Reach target prims h) :
    (forall i, IsBody prims (fun _ => True) (h.comp.fns i).body) ∧
      forall (env : Env) (line : List Byte) (program : StreamProgram) (s' : ParseState),
        env.prims = prims -> parse env h.comp line = .ok (.run program) s' ->
          WellFormedProgram prims program ∧
            forall (σ : Type) (bus : Bus Word Word σ) (s : σ),
              exists stop vm, RunsCleanly prims bus program s stop vm := by
  have hshaped := (reach_shaped hreach).left
  refine ⟨hshaped, ?_⟩
  rintro env line program s' rfl hparse
  have hprogram : IsBlockProgram env.prims (fun _ => True) program ∨
      IsValueProgram env.prims program :=
    outcomeShaped_mono (fun _ _ => trivial) (parse_outcomeShaped hshaped hparse)
  refine ⟨⟨hprogram, program.stream.length_le⟩, ?_⟩
  intro σ bus s
  rcases hprogram with hblocks | hvalue
  · exact runsCleanly_blockProgram hblocks bus s
  · exact runsCleanly_valueProgram hvalue bus s

/-- The program of a line that is to be run. -/
def runOf : EStateM.Result Abort ParseState Outcome -> Option StreamProgram
  | .ok (.run program) _ => some program
  | _ => none

theorem exists_of_runOf {r : EStateM.Result Abort ParseState Outcome}
    {f : StreamProgram -> β} {x : β} (h : (runOf r).map f = some x) :
    exists program s', r = .ok (.run program) s' ∧ f program = x := by
  unfold runOf at h
  split at h
  · exact ⟨_, _, rfl, Option.some.inj h⟩
  · cases h

/-- The compiler after one function definition. -/
def withPokePeek : Compiler :=
  (finalState (parse Env.idle Compiler.new
    (ascii "fn f() { poke 0x20000000 1; peek 0x20000000; }"))).comp

/-- A function is defined, exported, imported under another name and called. -/
theorem streams_wellFormed_imported :
    exists (h : History) (program : StreamProgram) (s' : ParseState),
      Reach .arm .inFlash h ∧ parse Env.idle h.comp (ascii "g();") = .ok (.run program) s' ∧
        program.stream.words = blockWords .inFlash
          [.poke 0x20000000#32 1#32, .peek 0x20000000#32] ++ [Prims.inFlash.wordOf .halt] ∧
        WellFormedProgram .inFlash program ∧
        exists stop vm, RunsCleanly .inFlash (Bus.constant 0#32) program () stop vm := by
  have hexport : withPokePeek.exportFn (ascii "f") 32 =
      some (blockWords .inFlash [.poke 0x20000000#32 1#32, .peek 0x20000000#32]) := by
    decide +kernel
  have himported : (withPokePeek.importFn (ascii "g")
        (blockWords .inFlash [.poke 0x20000000#32 1#32, .peek 0x20000000#32])).toOption.map
      (fun c => (runOf (parse Env.idle c (ascii "g();"))).map fun program =>
        program.stream.words) =
      some (some (blockWords .inFlash [.poke 0x20000000#32 1#32, .peek 0x20000000#32] ++
        [Prims.inFlash.wordOf .halt])) := by
    decide +kernel
  cases himport : withPokePeek.importFn (ascii "g")
    (blockWords .inFlash [.poke 0x20000000#32 1#32, .peek 0x20000000#32]) with
  | error e =>
      rw [himport] at himported
      cases himported
  | ok c =>
      rw [himport] at himported
      obtain ⟨program, s', hparse, hwords⟩ := exists_of_runOf (Option.some.inj himported)
      have hdefined : Reach .arm .inFlash ⟨withPokePeek, []⟩ :=
        Reach.line Env.idle _ Reach.new rfl rfl
      have hreach := Reach.importFn (Reach.exportFn hdefined hexport) List.mem_cons_self
        (by decide) himport
      have hall := (streams_wellFormed hreach).right Env.idle _ program s' rfl hparse
      exact ⟨_, program, s', hreach, hparse, hwords, hall.left, hall.right _ _ _⟩

end Execution
end HolyRust
