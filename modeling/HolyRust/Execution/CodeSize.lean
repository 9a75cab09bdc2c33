import HolyRust.Execution.CodeFences

/-!
# Native code fits its buffer

`compile_and_run` maps every failure to `Err(())`.  Here the emission loop keeps
the failures apart: those of the emitter, which are a full buffer or a bad
register, and those of the stream.  The loop never meets one of the emitter.
-/

namespace HolyRust
namespace Execution

open Foundation
open Compilation

/-- What makes the loop return `Err(())`. -/
inductive LoopError where
  | emitter (e : EmitError)
  | stream
deriving DecidableEq, Repr

abbrev LoopM (unit : Type) : Type -> Type := EStateM LoopError (EmitBuffer unit)

section Model

/-- The error before `map_err`. -/
def fromEmitter (x : EmitM unit Unit) : LoopM unit Unit :=
  fun b =>
    match x b with
    | .ok a b' => .ok a b'
    | .error e b' => .error (.emitter e) b'

variable (B : Backend unit instr) (prims : Prims)

/-- `compileLoop` with its errors told apart. -/
def emissionLoop : List Word -> Bool -> LoopM unit Unit
  | [], _ => pure ()
  | word :: rest, accLoaded =>
      if word = 0#32 then pure ()
      else if word = prims.wordOf .halt then pure ()
      else if word = prims.wordOf .lit then
        match rest with
        | [] => throw .stream
        | val :: rest' => do
            fromEmitter (literal B prims val (rest'.headD 0#32) accLoaded).1
            emissionLoop rest' (literal B prims val (rest'.headD 0#32) accLoaded).2
      else
        match operation B prims word accLoaded with
        | none => throw .stream
        | some (code, accLoaded') => do
            fromEmitter code
            emissionLoop rest accLoaded'

/-- The loop and the final return. -/
def emission (words : List Word) : LoopM unit Unit := do
  emissionLoop B prims words false
  fromEmitter B.emitter.ret

end Model

/-- `map_err(|_| ())` on all of it. -/
def eraseError (x : LoopM unit Unit) : CompileM unit Unit :=
  fun b =>
    match x b with
    | .ok a b' => .ok a b'
    | .error _ b' => .error () b'

theorem eraseError_bind (x y : LoopM unit Unit) :
    eraseError (x >>= fun _ => y) = (eraseError x >>= fun _ => eraseError y) := by
  funext b
  rw [bind_apply]
  cases hrun : x b with
  | ok a b' =>
      have hbind : (x >>= fun _ => y) b = y b' := by
        rw [bind_apply, hrun]
      have hfirst : eraseError x b = .ok a b' := by
        unfold eraseError
        rw [hrun]
      rw [hfirst]
      unfold eraseError
      rw [hbind]
  | error e b' =>
      have hbind : (x >>= fun _ => y) b = .error e b' := by
        rw [bind_apply, hrun]
      have hfirst : eraseError x b = .error () b' := by
        unfold eraseError
        rw [hrun]
      rw [hfirst]
      unfold eraseError
      rw [hbind]

theorem eraseError_fromEmitter (x : EmitM unit Unit) :
    eraseError (fromEmitter x) = orFail x := by
  funext b
  unfold eraseError fromEmitter orFail
  cases x b with
  | ok a b' => rfl
  | error e b' => rfl

/-- Nothing else is different. -/
theorem eraseError_emissionLoop (B : Backend unit instr) (prims : Prims) (words : List Word)
    (accLoaded : Bool) :
    eraseError (emissionLoop B prims words accLoaded) = compileLoop B prims words accLoaded := by
  fun_induction emissionLoop B prims words accLoaded with
  | case1 => rfl
  | case2 rest accLoaded =>
      rw [compileLoop.eq_def]
      simp only [if_true]
      rfl
  | case3 rest accLoaded hzero =>
      rw [compileLoop_halt]
      rfl
  | case4 accLoaded hzero hhalt =>
      rw [compileLoop, if_neg hzero, if_neg hhalt, if_pos rfl]
      rfl
  | case5 accLoaded val rest hzero hhalt ih =>
      rw [compileLoop_lit, eraseError_bind, eraseError_fromEmitter, ih]
  | case6 word rest accLoaded hzero hhalt hlit hnone =>
      rw [compileLoop.eq_def]
      simp only [if_neg hzero, if_neg hhalt, if_neg hlit, hnone]
      rfl
  | case7 word rest accLoaded hzero hhalt hlit code accLoaded' hcode ih =>
      rw [compileLoop.eq_def, eraseError_bind, eraseError_fromEmitter, ih]
      simp only [if_neg hzero, if_neg hhalt, if_neg hlit, hcode]

theorem eraseError_emission (B : Backend unit instr) (prims : Prims) (words : List Word) :
    eraseError (emission B prims words) = compile B prims words := by
  unfold emission compile
  rw [eraseError_bind, eraseError_emissionLoop, eraseError_fromEmitter]

/-!
## The loop meets no error of the emitter
-/

/-- With room for `k` units, `x` writes at most these and succeeds, or gives up because of
the stream where `complete` does not hold. -/
def Within (k : Nat) (complete : Bool) (x : LoopM unit Unit) : Prop :=
  forall b : EmitBuffer unit, b.code.length + k ≤ b.capWords ->
    exists b', b'.capWords = b.capWords ∧ b'.code.length ≤ b.code.length + k ∧
      x b = if complete then .ok () b' else .error .stream b'

theorem within_pure (k : Nat) : Within k true (pure () : LoopM unit Unit) :=
  fun b _ => ⟨b, rfl, Nat.le_add_right _ _, rfl⟩

theorem within_stream (k : Nat) : Within k false (throw .stream : LoopM unit Unit) :=
  fun b _ => ⟨b, rfl, Nat.le_add_right _ _, rfl⟩

/-- Code that fits comes first, and the rest decides. -/
theorem within_bind {k n : Nat} {complete : Bool} {x : EmitM unit Unit} {y : LoopM unit Unit}
    (hx : Fits k x) (hy : Within n complete y) :
    Within (k + n) complete (fromEmitter x >>= fun _ => y) := by
  intro b hroom
  obtain ⟨units, hunits, happends⟩ := hx
  have hfirst : fromEmitter x b = .ok () { b with code := b.code ++ units } := by
    unfold fromEmitter
    rw [happends b (by lia)]
  obtain ⟨b', hcap, hlength, hrun⟩ := hy { b with code := b.code ++ units } (by
    show (b.code ++ units).length + n ≤ b.capWords
    rw [List.length_append]
    lia)
  refine ⟨b', hcap, ?_, ?_⟩
  · change b'.code.length ≤ (b.code ++ units).length + n at hlength
    rw [List.length_append] at hlength
    lia
  · rw [bind_apply, hfirst]
    exact hrun

section Loop

variable {B : Backend unit instr} {k : Nat} (hB : EmitterFits B k) (prims : Prims)

include hB in
/-- Each word of the stream pays for `k` units, by induction on the stream. -/
theorem within_emissionLoop (words : List Word) (accLoaded litSeen : Bool)
    (hc : isCompilableLoop prims words litSeen = true) :
    Within (k * words.length) (litsComplete prims words)
      (emissionLoop B prims words accLoaded) := by
  fun_induction emissionLoop B prims words accLoaded generalizing litSeen with
  | case1 => exact within_pure _
  | case2 rest accLoaded =>
      rw [litsComplete.eq_def]
      dsimp only
      rw [if_pos (Or.inl rfl)]
      exact within_pure _
  | case3 rest accLoaded hzero =>
      rw [litsComplete_halt]
      exact within_pure _
  | case4 accLoaded hzero hhalt =>
      rw [litsComplete, if_neg (not_or.mpr ⟨hzero, hhalt⟩), if_pos rfl]
      exact within_stream _
  | case5 accLoaded val rest hzero hhalt ih =>
      rw [isCompilableLoop_lit] at hc
      rw [litsComplete_lit, List.length_cons, List.length_cons,
        show k * (rest.length + 1 + 1) = 2 * k + k * rest.length by lia]
      exact within_bind (fits_literal hB prims _ _ _) (ih true hc)
  | case6 word rest accLoaded hzero hhalt hlit hnone =>
      exact absurd hnone (operation_of_isCompilable prims hzero hhalt hlit hc accLoaded).2
  | case7 word rest accLoaded hzero hhalt hlit code accLoaded' hcode ih =>
      have hrest := (operation_of_isCompilable (B := B) prims hzero hhalt hlit hc accLoaded).1
      rw [litsComplete_cons hzero hhalt hlit, List.length_cons,
        show k * (rest.length + 1) = k + k * rest.length by lia]
      exact within_bind (fits_operation hB prims hcode) (ih true hrest)

include hB in
theorem within_emission {words : List Word} (hc : isCompilable prims words = true) :
    Within (k * words.length + 1) (litsComplete prims words) (emission B prims words) := by
  intro b hroom
  obtain ⟨b', hcap, hlength, hrun⟩ :=
    within_emissionLoop hB prims words false false hc b (by lia)
  obtain ⟨u, hret⟩ := hB.ret
  unfold emission
  rw [bind_apply, hrun]
  cases litsComplete prims words with
  | true =>
      have hlast : fromEmitter B.emitter.ret b' = .ok () { b' with code := b'.code ++ [u] } := by
        unfold fromEmitter
        rw [hret b' (by rw [List.length_singleton]; lia)]
      refine ⟨{ b' with code := b'.code ++ [u] }, hcap, ?_, hlast⟩
      show (b'.code ++ [u]).length ≤ _
      rw [List.length_append, List.length_singleton]
      lia
  | false => exact ⟨b', hcap, by lia, rfl⟩

/-- The emission of a stream that `is_compilable` takes, with `unitBytes` to a unit: no error
of the emitter, not more bytes than the buffer has, and an error of the stream only for a
`lit` without its literal. -/
def EmissionFits (B : Backend unit instr) (prims : Prims) (unitBytes bufferSize : Nat)
    (words : List Word) : Prop :=
  match emission B prims words { capWords := bufferSize / unitBytes, code := [] } with
  | .ok _ b => unitBytes * b.code.length ≤ bufferSize
  | .error .stream b => unitBytes * b.code.length ≤ bufferSize ∧ litsComplete prims words = false
  | .error (.emitter _) _ => False

/-- `Err(())` of the whole function has one of two reasons, both visible in the stream. -/
def RefusesOnlyStreams (B : Backend unit instr) (prims : Prims) (program : StreamProgram) : Prop :=
  forall {σ : Type} (bus : Bus Word Word σ) (s : σ) (regs : Nat -> Word) (stale : List unit),
    compileAndRun B prims bus program s regs stale = .refused ->
      isCompilable prims program.stream.words = false ∨
        litsComplete prims program.stream.words = false

include hB in
theorem emissionFits {unitBytes bufferSize : Nat}
    (hcap : B.capWords = bufferSize / unitBytes) {words : List Word}
    (hlength : words.length ≤ maxStreamWords) (hc : isCompilable prims words = true) :
    EmissionFits B prims unitBytes bufferSize words := by
  have hroom := hB.room
  have hwords := Nat.mul_le_mul_left k hlength
  obtain ⟨b, _, hle, hrun⟩ := within_emission hB prims hc
    { capWords := bufferSize / unitBytes, code := [] } (by
      show 0 + (k * words.length + 1) ≤ bufferSize / unitBytes
      lia)
  have hlast : b.code.length ≤ bufferSize / unitBytes := by
    change b.code.length ≤ 0 + (k * words.length + 1) at hle
    lia
  have hsize : unitBytes * b.code.length ≤ bufferSize :=
    (Nat.mul_le_mul_left unitBytes hlast).trans (Nat.mul_div_le bufferSize unitBytes)
  unfold EmissionFits
  rw [hrun]
  cases hcomplete : litsComplete prims words with
  | true => exact hsize
  | false => exact ⟨hsize, rfl⟩

include hB in
theorem refusesOnlyStreams (program : StreamProgram) : RefusesOnlyStreams B prims program := by
  intro σ bus s regs stale hrefused
  by_contra hnot
  rw [not_or, Bool.not_eq_false, Bool.not_eq_false] at hnot
  have hroom := hB.room
  have hwords := Nat.mul_le_mul_left k program.stream.length_le
  obtain ⟨b, _, _, hrun⟩ := within_emission hB prims hnot.left
    { capWords := B.capWords, code := [] } (by
      show 0 + (k * program.stream.words.length + 1) ≤ B.capWords
      lia)
  rw [hnot.right, if_pos rfl] at hrun
  have hcompile : compile B prims program.stream.words { capWords := B.capWords, code := [] } =
      .ok () b := by
    rw [← eraseError_emission]
    unfold eraseError
    rw [hrun]
  unfold compileAndRun at hrefused
  rw [if_neg (by rw [hnot.left]; decide), hcompile] at hrefused
  dsimp only at hrefused
  split at hrefused
  · cases hrefused
  · cases hrefused

end Loop

/-!
## The two targets
-/

/-- The stream array and its length, as `compile_and_run` takes them. -/
def StreamProgram.ofArray (stream : Vector Word maxStreamWords) (len : Fin (maxStreamWords + 1))
    (yieldsValue : Bool) : StreamProgram where
  stream := ⟨stream.toList.take len, by
    rw [List.length_take]
    have hlen := len.isLt
    lia⟩
  yieldsValue := yieldsValue

/-- Emission into the buffer of the target, and the reasons for its `Err(())`. -/
def NativeFits (target : Target) (prims : Prims) (program : StreamProgram) : Prop :=
  match target with
  | .arm =>
      (isCompilable prims program.stream.words = true ->
        EmissionFits thumb2Backend prims 2 (Target.execBufferSize .arm) program.stream.words) ∧
        RefusesOnlyStreams thumb2Backend prims program
  | .riscv32 =>
      (isCompilable prims program.stream.words = true ->
        EmissionFits riscv32Backend prims 4 (Target.execBufferSize .riscv32)
          program.stream.words) ∧
        RefusesOnlyStreams riscv32Backend prims program

/-- Native code always fits. -/
theorem nativeFits_of_array (target : Target) (prims : Prims)
    (stream : Vector Word maxStreamWords) (len : Fin (maxStreamWords + 1)) (yieldsValue : Bool) :
    NativeFits target prims (StreamProgram.ofArray stream len yieldsValue) := by
  have hlength := (StreamProgram.ofArray stream len yieldsValue).stream.length_le
  cases target with
  | arm =>
      exact ⟨emissionFits thumb2_emitterFits prims rfl hlength,
        refusesOnlyStreams thumb2_emitterFits prims _⟩
  | riscv32 =>
      exact ⟨emissionFits rv32_emitterFits prims rfl hlength,
        refusesOnlyStreams rv32_emitterFits prims _⟩

end Execution
end HolyRust
