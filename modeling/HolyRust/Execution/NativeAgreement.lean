import HolyRust.Execution.Backends

/-!
# Native against threaded execution

The native compiler puts an address into the accumulator once, at the first
poke.  Its code makes the accesses of the threaded path if and only if all
pokes go to one address and come before the first peek, and every literal is
loaded as it is.
-/

namespace HolyRust
namespace Execution

open Foundation
open Compilation
open Isa

/-!
## Accesses of native code
-/

/-- The accesses of blocks when the accumulator holds `acc`. -/
def nativeTrace (loaded : Word -> Word) (bus : Bus Word Word σ) :
    σ -> Word -> List Block -> List (Access Word Word)
  | _, _, [] => []
  | s, acc, .poke _ v :: bs =>
      .write acc (loaded v) :: nativeTrace loaded bus (bus.store s acc (loaded v)) acc bs
  | s, _, .peek a :: bs =>
      .read (loaded a) ::
        nativeTrace loaded bus (bus.load s (loaded a)).2 (bus.load s (loaded a)).1 bs

/-- The accesses of a whole stream: the first block may set the accumulator. -/
def streamTrace (loaded : Word -> Word) (bus : Bus Word Word σ) (s : σ) :
    List Block -> List (Access Word Word)
  | [] => []
  | .poke a v :: bs =>
      .write (loaded a) (loaded v) ::
        nativeTrace loaded bus (bus.store s (loaded a) (loaded v)) (loaded a) bs
  | .peek a :: bs =>
      .read (loaded a) ::
        nativeTrace loaded bus (bus.load s (loaded a)).2 (bus.load s (loaded a)).1 bs

section Trace

variable {B : Backend unit instr} (loaded : Word -> Word) (bus : Bus Word Word σ)

theorem nativeBlock_peek (accLoaded : Bool) (a : Word) (c : Core σ) :
    (nativeBlock B loaded bus accLoaded (.peek a) c).trace = c.trace ++ [.read (loaded a)] ∧
      (nativeBlock B loaded bus accLoaded (.peek a) c).bus = (bus.load c.bus (loaded a)).2 ∧
      (nativeBlock B loaded bus accLoaded (.peek a) c).regs B.acc.toNat =
        (bus.load c.bus (loaded a)).1 := by
  simp [nativeBlock, Core.load]

theorem nativeBlock_poke (hne : B.acc.toNat ≠ B.scratch.toNat) (accLoaded : Bool) (a v acc : Word)
    (c : Core σ) (hacc : (if accLoaded then c.regs B.acc.toNat else loaded a) = acc) :
    (nativeBlock B loaded bus accLoaded (.poke a v) c).trace =
        c.trace ++ [.write acc (loaded v)] ∧
      (nativeBlock B loaded bus accLoaded (.poke a v) c).bus =
        bus.store c.bus acc (loaded v) ∧
      (nativeBlock B loaded bus accLoaded (.poke a v) c).regs B.acc.toNat = acc := by
  subst hacc
  cases accLoaded <;> simp [nativeBlock, Core.store, hne]

theorem nativeBlocks_trace (hne : B.acc.toNat ≠ B.scratch.toNat) (bs : List Block) (c : Core σ) :
    (nativeBlocks B loaded bus true bs c).trace =
      c.trace ++ nativeTrace loaded bus c.bus (c.regs B.acc.toNat) bs := by
  induction bs generalizing c with
  | nil => exact (List.append_nil _).symm
  | cons b bs ih =>
      rw [nativeBlocks, ih]
      cases b with
      | poke a v =>
          obtain ⟨htrace, hbus, hacc⟩ :=
            nativeBlock_poke loaded bus hne true a v _ c rfl
          rw [htrace, hbus, hacc, List.append_assoc]
          rfl
      | peek a =>
          obtain ⟨htrace, hbus, hacc⟩ :=
            nativeBlock_peek (B := B) loaded bus true a c
          rw [htrace, hbus, hacc, List.append_assoc]
          rfl

theorem streamBlocks_trace (hne : B.acc.toNat ≠ B.scratch.toNat) (bs : List Block)
    (regs : Nat -> Word) (s : σ) :
    (nativeBlocks B loaded bus false bs ⟨regs, s, []⟩).trace = streamTrace loaded bus s bs := by
  cases bs with
  | nil => rfl
  | cons b bs =>
      rw [nativeBlocks, nativeBlocks_trace loaded bus hne]
      cases b with
      | poke a v =>
          obtain ⟨htrace, hbus, hacc⟩ :=
            nativeBlock_poke loaded bus hne false a v _ ⟨regs, s, []⟩ rfl
          rw [htrace, hbus, hacc]
          rfl
      | peek a =>
          obtain ⟨htrace, hbus, hacc⟩ :=
            nativeBlock_peek (B := B) loaded bus false a ⟨regs, s, []⟩
          rw [htrace, hbus, hacc]
          rfl

end Trace

/-!
## When the accesses are those of the blocks
-/

def OnlyPeeks : List Block -> Prop
  | [] => True
  | .poke _ _ :: _ => False
  | .peek _ :: bs => OnlyPeeks bs

/-- Pokes to `acc`, then peeks. -/
def PokesTo (acc : Word) : List Block -> Prop
  | [] => True
  | .poke a _ :: bs => a = acc ∧ PokesTo acc bs
  | .peek _ :: bs => OnlyPeeks bs

/-- All pokes go to one address and come before all peeks. -/
def OneTarget : List Block -> Prop
  | [] => True
  | .poke a _ :: bs => PokesTo a bs
  | .peek _ :: bs => OnlyPeeks bs

def blockLiterals : Block -> List Word
  | .poke a v => [a, v]
  | .peek a => [a]

/-- Every literal of the blocks is loaded as it is. -/
def LoadedAsIs (loaded : Word -> Word) (bs : List Block) : Prop :=
  forall b, b ∈ bs -> forall w, w ∈ blockLiterals b -> loaded w = w

section Exact

variable {loaded : Word -> Word}

theorem loadedAsIs_poke {a v : Word} {bs : List Block} :
    LoadedAsIs loaded (.poke a v :: bs) ↔ loaded a = a ∧ loaded v = v ∧ LoadedAsIs loaded bs := by
  unfold LoadedAsIs
  simp [blockLiterals, and_assoc]

theorem loadedAsIs_peek {a : Word} {bs : List Block} :
    LoadedAsIs loaded (.peek a :: bs) ↔ loaded a = a ∧ LoadedAsIs loaded bs := by
  unfold LoadedAsIs
  simp [blockLiterals]

theorem nativeTrace_of_onlyPeeks (bus : Bus Word Word σ) {bs : List Block}
    (h : OnlyPeeks bs) (hloaded : LoadedAsIs loaded bs) (s : σ) (acc : Word) :
    nativeTrace loaded bus s acc bs = bs.map blockAccess := by
  induction bs generalizing s acc with
  | nil => rfl
  | cons b bs ih =>
      cases b with
      | poke a v => exact h.elim
      | peek a =>
          rw [loadedAsIs_peek] at hloaded
          rw [nativeTrace, hloaded.left, ih h hloaded.right]
          rfl

theorem nativeTrace_of_pokesTo (bus : Bus Word Word σ) {acc : Word} {bs : List Block}
    (h : PokesTo acc bs) (hloaded : LoadedAsIs loaded bs) (s : σ) :
    nativeTrace loaded bus s acc bs = bs.map blockAccess := by
  induction bs generalizing s with
  | nil => rfl
  | cons b bs ih =>
      cases b with
      | poke a v =>
          rw [loadedAsIs_poke] at hloaded
          rw [nativeTrace, hloaded.right.left, ih h.right hloaded.right.right, ← h.left]
          rfl
      | peek a =>
          have hpeeks : OnlyPeeks (.peek a :: bs) := h
          exact nativeTrace_of_onlyPeeks bus hpeeks hloaded s acc

theorem streamTrace_of_oneTarget (bus : Bus Word Word σ) {bs : List Block}
    (h : OneTarget bs) (hloaded : LoadedAsIs loaded bs) (s : σ) :
    streamTrace loaded bus s bs = bs.map blockAccess := by
  cases bs with
  | nil => rfl
  | cons b bs =>
      cases b with
      | poke a v =>
          rw [loadedAsIs_poke] at hloaded
          rw [streamTrace, hloaded.left, hloaded.right.left,
            nativeTrace_of_pokesTo bus h hloaded.right.right]
          rfl
      | peek a =>
          rw [loadedAsIs_peek] at hloaded
          rw [streamTrace, hloaded.left, nativeTrace_of_onlyPeeks bus h hloaded.right]
          rfl

/-!
The converse needs only buses that answer every read with one word: after a
peek such a bus can put any word into the accumulator.
-/

theorem onlyPeeks_of_nativeTrace {bs : List Block}
    (h : forall x : Word, nativeTrace loaded (Bus.constant x) () x bs = bs.map blockAccess) :
    OnlyPeeks bs ∧ LoadedAsIs loaded bs := by
  induction bs with
  | nil => exact ⟨trivial, fun b hb => by cases hb⟩
  | cons b bs ih =>
      cases b with
      | poke a v =>
          have hhead := (List.cons.inj (h (a + 1#32))).left
          have haddr : a + 1#32 = a := (Access.write.inj hhead).left
          exact absurd haddr (by bv_omega)
      | peek a =>
          have haddr : loaded a = a := Access.read.inj (List.cons.inj (h 0#32)).left
          have hrest := ih fun x => (List.cons.inj (h x)).right
          exact ⟨hrest.left, loadedAsIs_peek.mpr ⟨haddr, hrest.right⟩⟩

theorem pokesTo_of_nativeTrace {acc : Word} (hacc : loaded acc = acc) {bs : List Block}
    (h : forall x : Word, nativeTrace loaded (Bus.constant x) () acc bs = bs.map blockAccess) :
    PokesTo acc bs ∧ LoadedAsIs loaded bs := by
  induction bs with
  | nil => exact ⟨trivial, fun b hb => by cases hb⟩
  | cons b bs ih =>
      cases b with
      | poke a v =>
          have hhead := Access.write.inj (List.cons.inj (h 0#32)).left
          have hrest := ih fun x => (List.cons.inj (h x)).right
          refine ⟨⟨hhead.left.symm, hrest.left⟩, loadedAsIs_poke.mpr ⟨?_, hhead.right, hrest.right⟩⟩
          rw [← hhead.left]
          exact hacc
      | peek a =>
          have haddr : loaded a = a := Access.read.inj (List.cons.inj (h 0#32)).left
          have hrest := onlyPeeks_of_nativeTrace fun x => (List.cons.inj (h x)).right
          exact ⟨hrest.left, loadedAsIs_peek.mpr ⟨haddr, hrest.right⟩⟩

theorem oneTarget_of_streamTrace {bs : List Block}
    (h : forall x : Word, streamTrace loaded (Bus.constant x) () bs = bs.map blockAccess) :
    OneTarget bs ∧ LoadedAsIs loaded bs := by
  cases bs with
  | nil => exact ⟨trivial, fun b hb => by cases hb⟩
  | cons b bs =>
      cases b with
      | poke a v =>
          have hhead := Access.write.inj (List.cons.inj (h 0#32)).left
          have htail : forall x : Word,
              nativeTrace loaded (Bus.constant x) () a bs = bs.map blockAccess := by
            intro x
            have hx := (List.cons.inj (h x)).right
            rw [hhead.left] at hx
            exact hx
          have hrest := pokesTo_of_nativeTrace hhead.left htail
          exact ⟨hrest.left, loadedAsIs_poke.mpr ⟨hhead.left, hhead.right, hrest.right⟩⟩
      | peek a =>
          have haddr : loaded a = a := Access.read.inj (List.cons.inj (h 0#32)).left
          have hrest := onlyPeeks_of_nativeTrace fun x => (List.cons.inj (h x)).right
          exact ⟨hrest.left, loadedAsIs_peek.mpr ⟨haddr, hrest.right⟩⟩

end Exact

/-!
## The two paths of a program
-/

/-- Whenever native code returns, it made the accesses of the threaded path and
yields the same. -/
def NativeAgrees (B : Backend unit instr) (prims : Prims) (program : StreamProgram) : Prop :=
  forall (σ : Type) (bus : Bus Word Word σ) (s : σ) (regs : Nat -> Word) (stale : List unit)
    (value : Option Word) (core : Core σ),
    compileAndRun B prims bus program s regs stale = .returned value core ->
      value = (runThreaded prims bus program s).1 ∧
        core.trace = (runThreaded prims bus program s).2.trace

def NativeAgreesOn (target : Target) (prims : Prims) (program : StreamProgram) : Prop :=
  match target with
  | .arm => NativeAgrees thumb2Backend prims program
  | .riscv32 => NativeAgrees riscv32Backend prims program

theorem runThreaded_blocks {prims : Prims} {bs : List Block} {program : StreamProgram}
    (hwords : program.stream.words = blockWords prims bs ++ [prims.wordOf .halt])
    (hyields : program.yieldsValue = false) (bus : Bus Word Word σ) (s : σ) :
    (runThreaded prims bus program s).1 = none ∧
      (runThreaded prims bus program s).2.trace = bs.map blockAccess := by
  have hrun := (run_blockProgram prims bus bs program s hwords).right.trace
  have hlen : 0 < program.stream.words.length := by
    rw [hwords, List.length_append, List.length_singleton]
    lia
  unfold runThreaded
  simp only [hyields, if_pos hlen, Bool.false_eq_true, if_false, true_and]
  exact hrun

theorem runThreaded_value {prims : Prims} {v : Word} {program : StreamProgram}
    (hwords : program.stream.words = [prims.wordOf .lit, v, prims.wordOf .halt])
    (hyields : program.yieldsValue = true) (bus : Bus Word Word σ) (s : σ) :
    (runThreaded prims bus program s).1 = some v ∧
      (runThreaded prims bus program s).2.trace = [] := by
  have hlen : 0 < program.stream.words.length := by
    rw [hwords]
    exact Nat.zero_lt_succ _
  have hroom : ((Vm.start s).marks [0, 2]).stack.items.length < vmStackSize := by
    show 0 < vmStackSize
    decide
  have hpop := Vm.pop_push (v := v) ((Vm.start s).marks [0, 2]) hroom
  unfold runThreaded
  simp only [hyields, if_pos hlen, run_valueProgram prims bus v program s hwords, hpop, if_true]
  exact ⟨trivial, rfl⟩

section Exactness

variable {B : Backend unit instr} {loaded : Word -> Word} {movUnits k : Nat} {prims : Prims}

theorem nativeAgrees_blocks_iff (hB : BackendLaws B loaded movUnits) (hroomy : Roomy B movUnits k)
    {bs : List Block} {program : StreamProgram}
    (hwords : program.stream.words = blockWords prims bs ++ [prims.wordOf .halt])
    (hyields : program.yieldsValue = false) :
    NativeAgrees B prims program ↔ OneTarget bs ∧ LoadedAsIs loaded bs := by
  constructor
  · intro h
    apply oneTarget_of_streamTrace
    intro x
    have hrun := compileAndRun_blocks prims hB hroomy hwords hyields (Bus.constant x) ()
      (fun _ => 0#32) []
    have hagree := (h Unit (Bus.constant x) () _ _ _ _ hrun).right
    rw [streamBlocks_trace _ _ hB.distinct, (runThreaded_blocks hwords hyields _ _).right]
      at hagree
    exact hagree
  · rintro ⟨htarget, hloaded⟩ σ bus s regs stale value core hrun
    rw [compileAndRun_blocks prims hB hroomy hwords hyields] at hrun
    cases hrun
    rw [streamBlocks_trace _ _ hB.distinct, streamTrace_of_oneTarget bus htarget hloaded]
    exact ⟨(runThreaded_blocks hwords hyields bus s).left.symm,
      (runThreaded_blocks hwords hyields bus s).right.symm⟩

theorem nativeAgrees_value_iff (hB : BackendLaws B loaded movUnits) (hroomy : Roomy B movUnits k)
    {v : Word} {program : StreamProgram}
    (hwords : program.stream.words = [prims.wordOf .lit, v, prims.wordOf .halt])
    (hyields : program.yieldsValue = true) :
    NativeAgrees B prims program ↔ loaded v = v := by
  constructor
  · intro h
    have hrun := compileAndRun_value prims hB hroomy hwords hyields (Bus.constant 0#32) ()
      (fun _ => 0#32) []
    have hagree := (h Unit (Bus.constant 0#32) () _ _ _ _ hrun).left
    rw [(runThreaded_value hwords hyields _ _).left] at hagree
    exact Option.some.inj hagree
  · intro hloaded σ bus s regs stale value core hrun
    rw [compileAndRun_value prims hB hroomy hwords hyields, hloaded] at hrun
    cases hrun
    exact ⟨(runThreaded_value hwords hyields bus s).left.symm,
      (runThreaded_value hwords hyields bus s).right.symm⟩

end Exactness

/-!
## Programs that lines return
-/

/-- Literals that native code loads as they are. -/
def FitsOn : Target -> Word -> Prop
  | .arm, _ => True
  | .riscv32, v => signedOk v = true

/-- One poked address, pokes before peeks, and literals that fit. -/
def NativeFaithful (target : Target) (prims : Prims) (program : StreamProgram) : Prop :=
  (exists bs, program.stream.words = blockWords prims bs ++ [prims.wordOf .halt] ∧
      program.yieldsValue = false ∧ OneTarget bs ∧
      forall b, b ∈ bs -> forall w, w ∈ blockLiterals b -> FitsOn target w) ∨
    (exists v, program.stream.words = [prims.wordOf .lit, v, prims.wordOf .halt] ∧
      program.yieldsValue = true ∧ FitsOn target v)

theorem nativeAgreesOn_blocks_iff {target : Target} {prims : Prims} {bs : List Block}
    {program : StreamProgram}
    (hwords : program.stream.words = blockWords prims bs ++ [prims.wordOf .halt])
    (hyields : program.yieldsValue = false) :
    NativeAgreesOn target prims program ↔ OneTarget bs ∧
      forall b, b ∈ bs -> forall w, w ∈ blockLiterals b -> FitsOn target w := by
  cases target with
  | arm =>
      refine (nativeAgrees_blocks_iff thumb2_laws thumb2_roomy hwords hyields).trans ?_
      exact and_congr_right fun _ =>
        iff_of_true (fun _ _ _ _ => rfl) (fun _ _ _ _ => trivial)
  | riscv32 =>
      refine (nativeAgrees_blocks_iff rv32_laws rv32_roomy hwords hyields).trans ?_
      unfold LoadedAsIs
      simp only [rvLoaded_eq_iff]
      rfl

theorem nativeAgreesOn_value_iff {target : Target} {prims : Prims} {v : Word}
    {program : StreamProgram}
    (hwords : program.stream.words = [prims.wordOf .lit, v, prims.wordOf .halt])
    (hyields : program.yieldsValue = true) :
    NativeAgreesOn target prims program ↔ FitsOn target v := by
  cases target with
  | arm =>
      refine (nativeAgrees_value_iff thumb2_laws thumb2_roomy hwords hyields).trans ?_
      exact iff_of_true rfl trivial
  | riscv32 =>
      refine (nativeAgrees_value_iff rv32_laws rv32_roomy hwords hyields).trans ?_
      rw [rvLoaded_eq_iff]
      rfl

/-- Of the programs that lines return, native code is right about these only. -/
theorem nativeAgreesOn_iff {target : Target} {prims : Prims} {h : History}
    (hreach : Reach target prims h) {env : Env} {line : List Byte} {program : StreamProgram}
    {s' : ParseState} (hprims : env.prims = prims)
    (hparse : parse env h.comp line = .ok (.run program) s') :
    NativeAgreesOn target prims program ↔ NativeFaithful target prims program := by
  subst hprims
  have hshape : IsBlockProgram env.prims (fun _ => True) program ∨
      IsValueProgram env.prims program :=
    outcomeShaped_mono (fun _ _ => trivial)
      (parse_outcomeShaped (reach_shaped hreach).left hparse)
  constructor
  · intro hagree
    rcases hshape with ⟨bs, _, hwords, hyields⟩ | ⟨v, hwords, hyields⟩
    · rw [nativeAgreesOn_blocks_iff hwords hyields] at hagree
      exact Or.inl ⟨bs, hwords, hyields, hagree⟩
    · rw [nativeAgreesOn_value_iff hwords hyields] at hagree
      exact Or.inr ⟨v, hwords, hyields, hagree⟩
  · rintro (⟨bs, hwords, hyields, hfaithful⟩ | ⟨v, hwords, hyields, hfits⟩)
    · exact (nativeAgreesOn_blocks_iff hwords hyields).mpr hfaithful
    · exact (nativeAgreesOn_value_iff hwords hyields).mpr hfits

/-- A function that pokes a word and reads it back is compiled correctly for ARM. -/
theorem nativeAgreesOn_pokePeek :
    exists (program : StreamProgram) (s' : ParseState),
      Reach .arm .inFlash ⟨withPokePeek, []⟩ ∧
        parse Env.idle withPokePeek (ascii "f();") = .ok (.run program) s' ∧
        NativeAgreesOn .arm .inFlash program := by
  have hrun : (runOf (parse Env.idle withPokePeek (ascii "f();"))).map
      (fun program => (program.stream.words, program.yieldsValue)) =
      some (blockWords .inFlash [.poke 0x20000000#32 1#32, .peek 0x20000000#32] ++
        [Prims.inFlash.wordOf .halt], false) := by
    decide +kernel
  obtain ⟨program, s', hparse, hprogram⟩ := exists_of_runOf hrun
  obtain ⟨hwords, hyields⟩ := Prod.mk.inj hprogram
  have hreach : Reach .arm .inFlash ⟨withPokePeek, []⟩ :=
    Reach.line Env.idle _ Reach.new rfl rfl
  refine ⟨program, s', hreach, hparse, (nativeAgreesOn_iff hreach rfl hparse).mpr ?_⟩
  exact Or.inl ⟨_, hwords, hyields, trivial, fun _ _ _ _ => trivial⟩

/-- The compiler after a function with two pokes was defined. -/
def withTwoPokes : Compiler :=
  (finalState (parse Env.idle Compiler.new
    (ascii "fn f() { poke 0x20000000 1; poke 0x20000004 2; }"))).comp

/-- The second poke of native code goes to the address of the first. -/
theorem not_nativeAgreesOn_twoPokes :
    exists (program : StreamProgram) (s' : ParseState),
      Reach .arm .inFlash ⟨withTwoPokes, []⟩ ∧
        parse Env.idle withTwoPokes (ascii "f();") = .ok (.run program) s' ∧
        ¬ NativeAgreesOn .arm .inFlash program := by
  have hrun : (runOf (parse Env.idle withTwoPokes (ascii "f();"))).map
      (fun program => (program.stream.words, program.yieldsValue)) =
      some (blockWords .inFlash [.poke 0x20000000#32 1#32, .poke 0x20000004#32 2#32] ++
        [Prims.inFlash.wordOf .halt], false) := by
    decide +kernel
  obtain ⟨program, s', hparse, hprogram⟩ := exists_of_runOf hrun
  obtain ⟨hwords, hyields⟩ := Prod.mk.inj hprogram
  refine ⟨program, s', Reach.line Env.idle _ Reach.new rfl rfl, hparse, ?_⟩
  rw [nativeAgreesOn_blocks_iff hwords hyields]
  rintro ⟨htarget, _⟩
  have haddr : 0x20000004#32 = 0x20000000#32 := htarget.left
  exact absurd haddr (by decide)

end Execution
end HolyRust
