import HolyRust.Foundation.Fences
import HolyRust.Execution.Backends

/-!
# Fences before calls

`compile_and_run` writes machine code into EXEC_BUFFER and jumps to it at once.
`execute_sram_buffer` issues its own fence before the call, and `run_bench` issues one more
after its first run.  The trace of a session lists what the emitters have written, the
fences and the calls, in this order.  Threaded execution does none of these.
-/

namespace HolyRust
namespace Execution

open Foundation
open Compilation

/-- The two ways into EXEC_BUFFER. -/
inductive CodeEntry where
  | jumpToSram
  | executeSramBuffer
deriving DecidableEq, Repr

abbrev CodeTrace (unit : Type) : Type := List (CodeEvent unit CodeEntry)

/-!
## The code that writes and calls
-/

section Model

variable (B : Backend unit instr) (prims : Prims)

/-- Whether `compile_and_run` is `Ok`, and its events.  Each unit in the buffer is one
volatile store, also when the emitter gives up in the middle. -/
def compileAndRunTrace (words : List Word) : Bool × CodeTrace unit :=
  if isCompilable prims words = false then (false, [])
  else
    match compile B prims words { capWords := B.capWords, code := [] } with
    | .error _ b => (false, b.code.map .write)
    | .ok _ b => (true, b.code.map .write ++ [.call .jumpToSram])

/-- `StreamProgram::run`, with the threaded interpreter behind a refusal. -/
def runTrace (program : StreamProgram) : CodeTrace unit :=
  if program.stream.words.length = 0 then []
  else (compileAndRunTrace B prims program.stream.words).2

def executeSramBufferTrace : CodeTrace unit := [.fence, .call .executeSramBuffer]

def benchIterations : Nat := 1000

/-- `lit 2, lit 3, add, halt`. -/
def buildStream : List Word :=
  [prims.wordOf .lit, 2#32, prims.wordOf .lit, 3#32, prims.wordOf .add, prims.wordOf .halt]

def runBenchTrace : CodeTrace unit :=
  (compileAndRunTrace B prims (buildStream prims)).2 ++
    if (compileAndRunTrace B prims (buildStream prims)).1 then
      .fence :: (List.replicate benchIterations executeSramBufferTrace).flatten
    else []

/-- The lines of a session that reach the buffer. -/
inductive CodeCommand where
  | run (program : StreamProgram)
  | bench

def CodeCommand.trace : CodeCommand -> CodeTrace unit
  | .run program => runTrace B prims program
  | .bench => runBenchTrace B prims

/-- A call that does not come back ends the session with its command. -/
def sessionTrace (commands : List CodeCommand) : CodeTrace unit :=
  commands.flatMap (CodeCommand.trace B prims)

end Model

/-!
## When a stream becomes native code
-/

/-- Up to the end of the stream, every `lit` has its literal. -/
def litsComplete (prims : Prims) : List Word -> Bool
  | [] => true
  | w :: rest =>
      if w = 0#32 ∨ w = prims.wordOf .halt then true
      else if w = prims.wordOf .lit then
        match rest with
        | [] => false
        | _ :: rest' => litsComplete prims rest'
      else litsComplete prims rest

theorem litsComplete_cons {prims : Prims} {w : Word} {rest : List Word} (hzero : w ≠ 0#32)
    (hhalt : w ≠ prims.wordOf .halt) (hlit : w ≠ prims.wordOf .lit) :
    litsComplete prims (w :: rest) = litsComplete prims rest := by
  rw [litsComplete.eq_def]
  dsimp only
  rw [if_neg (not_or.mpr ⟨hzero, hhalt⟩), if_neg hlit]

theorem litsComplete_lit {prims : Prims} (v : Word) (rest : List Word) :
    litsComplete prims (prims.wordOf .lit :: v :: rest) = litsComplete prims rest := by
  rw [litsComplete,
    if_neg (not_or.mpr ⟨prims.wordOf_ne_zero _, wordOf_ne prims (by decide)⟩), if_pos rfl]

theorem litsComplete_halt {prims : Prims} (rest : List Word) :
    litsComplete prims (prims.wordOf .halt :: rest) = true := by
  rw [litsComplete.eq_def]
  dsimp only
  rw [if_pos (Or.inr rfl)]

/-- `x` succeeds if there is room for `k` more units. -/
def Fits (k : Nat) (x : EStateM ε (EmitBuffer unit) Unit) : Prop :=
  exists units : List unit, units.length ≤ k ∧ Appends units x

theorem fits_pure (k : Nat) : Fits k (pure () : EStateM ε (EmitBuffer unit) Unit) :=
  ⟨[], Nat.zero_le k, appends_pure⟩

theorem fits_bind {k n : Nat} {x y : EStateM ε (EmitBuffer unit) Unit} (hx : Fits k x)
    (hy : Fits n y) : Fits (k + n) (x >>= fun _ => y) := by
  obtain ⟨us, hus, hx⟩ := hx
  obtain ⟨vs, hvs, hy⟩ := hy
  refine ⟨us ++ vs, ?_, appends_bind hx hy⟩
  rw [List.length_append]
  lia

theorem fits_orFail {k : Nat} {x : EmitM unit Unit} (h : Fits k x) : Fits k (orFail x) := by
  obtain ⟨units, hlength, happends⟩ := h
  exact ⟨units, hlength, appends_orFail happends⟩

/-- No instruction of the native compiler fails but for lack of room, and there is room
for every stream. -/
structure EmitterFits (B : Backend unit instr) (k : Nat) : Prop where
  mov : forall r, r = B.acc ∨ r = B.scratch -> forall v, Fits (2 * k) (B.emitter.movImm r v)
  store : Fits k (B.emitter.storeU32 B.scratch B.acc)
  load : Fits k (B.emitter.loadU32 B.acc B.scratch)
  add : Fits k (B.emitter.add B.acc B.acc B.scratch)
  sub : Fits k (B.emitter.sub B.acc B.acc B.scratch)
  mul : Fits k (B.emitter.mul B.acc B.acc B.scratch)
  div : Fits k (B.emitter.div B.acc B.acc B.scratch)
  ret : exists u, Appends [u] B.emitter.ret
  room : k * maxStreamWords + 1 ≤ B.capWords

section Compile

variable {B : Backend unit instr} {k : Nat} (hB : EmitterFits B k) (prims : Prims)

include hB in
theorem fits_literal (val next : Word) (accLoaded : Bool) :
    Fits (2 * k) (literal B prims val next accLoaded).1 := by
  unfold literal
  split
  · exact hB.mov _ (Or.inr rfl) val
  · split
    · exact hB.mov _ (Or.inl rfl) val
    · exact hB.mov _ (Or.inr rfl) val

include hB in
theorem fits_operation {word : Word} {accLoaded accLoaded' : Bool} {code : EmitM unit Unit}
    (h : operation B prims word accLoaded = some (code, accLoaded')) : Fits k code := by
  rcases operation_cases h with rfl | rfl | rfl | rfl | rfl | rfl
  · exact hB.add
  · exact hB.sub
  · exact hB.mul
  · exact hB.div
  · exact hB.load
  · exact hB.store

/-- What `is_compilable` and `litsComplete` say about a word that is not the end. -/
theorem operation_of_isCompilable {word : Word} {rest : List Word} {litSeen : Bool}
    (hzero : word ≠ 0#32) (hhalt : word ≠ prims.wordOf .halt) (hlit : word ≠ prims.wordOf .lit)
    (h : isCompilableLoop prims (word :: rest) litSeen = true) (accLoaded : Bool) :
    isCompilableLoop prims rest true = true ∧ operation B prims word accLoaded ≠ none := by
  unfold isCompilableLoop at h
  rw [if_neg (not_or.mpr ⟨hzero, hhalt⟩), if_neg hlit] at h
  split at h
  · rename_i hknown
    refine ⟨h, ?_⟩
    intro hnone
    unfold operation at hnone
    grind
  · cases h

include hB in
theorem fits_compileLoop (words : List Word) (accLoaded litSeen : Bool)
    (hc : isCompilableLoop prims words litSeen = true) (hl : litsComplete prims words = true) :
    Fits (k * words.length) (compileLoop B prims words accLoaded) := by
  fun_induction compileLoop B prims words accLoaded generalizing litSeen with
  | case1 => exact fits_pure _
  | case2 => exact fits_pure _
  | case3 => exact fits_pure _
  | case4 accLoaded hzero hhalt =>
      rw [litsComplete, if_neg (not_or.mpr ⟨hzero, hhalt⟩), if_pos rfl] at hl
      cases hl
  | case5 accLoaded val rest hzero hhalt ih =>
      rw [litsComplete, if_neg (not_or.mpr ⟨hzero, hhalt⟩), if_pos rfl] at hl
      rw [isCompilableLoop, if_neg (not_or.mpr ⟨hzero, hhalt⟩), if_pos rfl] at hc
      have hlen : k * (prims.wordOf .lit :: val :: rest).length = 2 * k + k * rest.length := by
        rw [List.length_cons, List.length_cons]
        lia
      rw [hlen]
      exact fits_bind (fits_orFail (fits_literal hB prims _ _ _)) (ih true hc hl)
  | case6 word rest accLoaded hzero hhalt hlit hnone =>
      exact absurd hnone (operation_of_isCompilable prims hzero hhalt hlit hc accLoaded).2
  | case7 word rest accLoaded hzero hhalt hlit code accLoaded' hcode ih =>
      rw [litsComplete_cons hzero hhalt hlit] at hl
      have hrest := (operation_of_isCompilable (B := B) prims hzero hhalt hlit hc accLoaded).1
      have hlen : k * (word :: rest).length = k + k * rest.length := by
        rw [List.length_cons]
        lia
      rw [hlen]
      exact fits_bind (fits_orFail (fits_operation hB prims hcode)) (ih true hrest hl)

theorem error_of_then {x y : CompileM unit Unit}
    (h : forall b, exists b', y b = .error () b') (b : EmitBuffer unit) :
    exists b', (x >>= fun _ => y) b = .error () b' := by
  rw [bind_apply]
  cases x b with
  | ok a b' => exact h b'
  | error e b' => exact ⟨b', rfl⟩

/-- A `lit` without its literal stops the compiler, whatever it has written before. -/
theorem compileLoop_incomplete (words : List Word) (accLoaded : Bool)
    (hl : litsComplete prims words = false) (b : EmitBuffer unit) :
    exists b', compileLoop B prims words accLoaded b = .error () b' := by
  fun_induction compileLoop B prims words accLoaded generalizing b with
  | case1 => cases hl
  | case2 rest accLoaded =>
      rw [litsComplete.eq_def] at hl
      dsimp only at hl
      rw [if_pos (Or.inl rfl)] at hl
      cases hl
  | case3 rest accLoaded =>
      rw [litsComplete.eq_def] at hl
      dsimp only at hl
      rw [if_pos (Or.inr rfl)] at hl
      cases hl
  | case4 accLoaded hzero hhalt => exact ⟨b, rfl⟩
  | case5 accLoaded val rest hzero hhalt ih =>
      rw [litsComplete, if_neg (not_or.mpr ⟨hzero, hhalt⟩), if_pos rfl] at hl
      exact error_of_then (ih hl) b
  | case6 word rest accLoaded hzero hhalt hlit hnone => exact ⟨b, rfl⟩
  | case7 word rest accLoaded hzero hhalt hlit code accLoaded' hcode ih =>
      rw [litsComplete_cons hzero hhalt hlit] at hl
      exact error_of_then (ih hl) b

/-- The stream is compiled and called: `is_compilable` takes it, and it does not break off
inside a literal. -/
def nativeStream (words : List Word) : Bool :=
  isCompilable prims words && litsComplete prims words

include hB in
theorem compileAndRunTrace_native {words : List Word} (hlength : words.length ≤ maxStreamWords)
    (h : nativeStream prims words = true) :
    exists us : List unit, us ≠ [] ∧ compileAndRunTrace B prims words =
      (true, us.map .write ++ [.call .jumpToSram]) := by
  unfold nativeStream at h
  rw [Bool.and_eq_true] at h
  obtain ⟨us, hus, hloop⟩ := fits_compileLoop hB prims words false false h.1 h.2
  obtain ⟨u, hret⟩ := hB.ret
  have hall : Appends (us ++ [u]) (compile B prims words) :=
    appends_bind hloop (appends_orFail hret)
  have hroom : 0 + (us ++ [u]).length ≤ B.capWords := by
    have hcap := hB.room
    have hwords := Nat.mul_le_mul_left k hlength
    rw [List.length_append, List.length_singleton]
    lia
  refine ⟨us ++ [u], List.append_ne_nil_of_right_ne_nil us (List.cons_ne_nil u []), ?_⟩
  unfold compileAndRunTrace
  rw [if_neg (by rw [h.1]; decide), hall { capWords := B.capWords, code := [] } hroom]
  rfl

theorem compileAndRunTrace_refused {words : List Word} (h : nativeStream prims words = false) :
    exists us : List unit, compileAndRunTrace B prims words = (false, us.map .write) := by
  unfold nativeStream at h
  unfold compileAndRunTrace
  by_cases hcompilable : isCompilable prims words = false
  · rw [if_pos hcompilable]
    exact ⟨[], rfl⟩
  · rw [if_neg hcompilable]
    rw [Bool.not_eq_false] at hcompilable
    rw [hcompilable, Bool.true_and] at h
    obtain ⟨b, hb⟩ := compileLoop_incomplete (B := B) prims words false h
      { capWords := B.capWords, code := [] }
    have hcompile : compile B prims words { capWords := B.capWords, code := [] } =
        .error () b := by
      unfold compile
      rw [bind_apply, hb]
    rw [hcompile]
    exact ⟨b.code, rfl⟩

theorem length_buildStream : (buildStream prims).length ≤ maxStreamWords := by
  show 6 ≤ maxStreamWords
  decide

theorem nativeStream_buildStream : nativeStream prims (buildStream prims) = true := by
  have hcompilable : isCompilable prims (buildStream prims) = true := by
    unfold isCompilable buildStream
    rw [isCompilableLoop_lit, isCompilableLoop_lit,
      isCompilableLoop_operation prims (by decide) (by decide), isCompilableLoop_halt]
  have hlits : litsComplete prims (buildStream prims) = true := by
    unfold buildStream
    rw [litsComplete_lit, litsComplete_lit,
      litsComplete_cons (prims.wordOf_ne_zero _) (wordOf_ne prims (by decide))
        (wordOf_ne prims (by decide)), litsComplete_halt]
  unfold nativeStream
  rw [hcompilable, hlits]
  rfl

end Compile

/-!
## Which calls are fenced
-/

/-- Of the calls, those of `jump_to_sram` and no others find a write unfenced. -/
abbrev OnlyJumpsUnfenced (dirty : Bool) (trace : CodeTrace unit) : Prop :=
  CallsMeet (fun dirty entry => dirty = true ↔ entry = .jumpToSram) dirty trace

section Fenced

variable {B : Backend unit instr} {k : Nat} (hB : EmitterFits B k) (prims : Prims)

include hB in
theorem onlyJumpsUnfenced_compileAndRun (dirty : Bool) {words : List Word}
    (hlength : words.length ≤ maxStreamWords) :
    OnlyJumpsUnfenced dirty (compileAndRunTrace B prims words).2 := by
  cases h : nativeStream prims words with
  | true =>
      obtain ⟨us, hus, htrace⟩ := compileAndRunTrace_native hB prims hlength h
      rw [htrace, OnlyJumpsUnfenced, callsMeet_append, dirtyAfter_writes dirty hus]
      exact ⟨callsMeet_writes _ dirty us, iff_of_true rfl rfl, trivial⟩
  | false =>
      obtain ⟨us, htrace⟩ := compileAndRunTrace_refused (B := B) prims h
      rw [htrace]
      exact callsMeet_writes _ dirty us

/-- `execute_sram_buffer` fences what was written before it, every time. -/
theorem onlyJumpsUnfenced_executions (dirty : Bool) (n : Nat) :
    OnlyJumpsUnfenced dirty
      (List.replicate n (executeSramBufferTrace : CodeTrace unit)).flatten := by
  induction n generalizing dirty with
  | zero => trivial
  | succ n ih =>
      rw [List.replicate_succ, List.flatten_cons]
      exact ⟨iff_of_false (by decide) (by decide), ih false⟩

include hB in
theorem onlyJumpsUnfenced_command (dirty : Bool) (command : CodeCommand) :
    OnlyJumpsUnfenced dirty (command.trace B prims) := by
  cases command with
  | run program =>
      show OnlyJumpsUnfenced dirty (runTrace B prims program)
      unfold runTrace
      split
      · trivial
      · exact onlyJumpsUnfenced_compileAndRun hB prims dirty program.stream.length_le
  | bench =>
      show OnlyJumpsUnfenced dirty (runBenchTrace B prims)
      unfold runBenchTrace
      rw [OnlyJumpsUnfenced, callsMeet_append]
      refine ⟨onlyJumpsUnfenced_compileAndRun hB prims dirty (length_buildStream prims), ?_⟩
      split
      · exact onlyJumpsUnfenced_executions false benchIterations
      · trivial

include hB in
/-- In every session, the calls of `jump_to_sram` are the unfenced ones. -/
theorem onlyJumpsUnfenced_session (dirty : Bool) (commands : List CodeCommand) :
    OnlyJumpsUnfenced dirty (sessionTrace B prims commands) := by
  induction commands generalizing dirty with
  | nil => trivial
  | cons command commands ih =>
      unfold sessionTrace
      rw [List.flatMap_cons, OnlyJumpsUnfenced, callsMeet_append]
      exact ⟨onlyJumpsUnfenced_command hB prims dirty command, ih _⟩

/-- The command runs native code. -/
def CodeCommand.isNative (prims : Prims) : CodeCommand -> Bool
  | .run program => nativeStream prims program.stream.words
  | .bench => true

theorem jump_mem_writes (us : List unit) :
    .call .jumpToSram ∉ (us.map .write : CodeTrace unit) := by
  simp

include hB in
theorem jump_mem_compileAndRun {words : List Word} (hlength : words.length ≤ maxStreamWords) :
    .call .jumpToSram ∈ (compileAndRunTrace B prims words).2 ↔
      nativeStream prims words = true := by
  cases h : nativeStream prims words with
  | true =>
      obtain ⟨us, _, htrace⟩ := compileAndRunTrace_native hB prims hlength h
      rw [htrace]
      exact iff_of_true (List.mem_append_right _ List.mem_cons_self) rfl
  | false =>
      obtain ⟨us, htrace⟩ := compileAndRunTrace_refused (B := B) prims h
      rw [htrace]
      exact iff_of_false (jump_mem_writes us) (by decide)

include hB in
theorem jump_mem_command (command : CodeCommand) :
    .call .jumpToSram ∈ command.trace B prims ↔ command.isNative prims = true := by
  cases command with
  | run program =>
      show .call .jumpToSram ∈ runTrace B prims program ↔
        nativeStream prims program.stream.words = true
      unfold runTrace
      by_cases hempty : program.stream.words.length = 0
      · rw [if_pos hempty, List.length_eq_zero_iff.mp hempty]
        exact iff_of_false List.not_mem_nil Bool.false_ne_true
      · rw [if_neg hempty]
        exact jump_mem_compileAndRun hB prims program.stream.length_le
  | bench =>
      have hfirst := (jump_mem_compileAndRun hB prims (length_buildStream prims)).mpr
        (nativeStream_buildStream prims)
      exact iff_of_true (List.mem_append_left _ hfirst) rfl

include hB in
theorem disciplined_session_iff (commands : List CodeCommand) :
    Disciplined (sessionTrace B prims commands) ↔
      forall command, command ∈ commands -> command.isNative prims = false := by
  rw [disciplined_iff_not_mem (onlyJumpsUnfenced_session hB prims false commands)]
  unfold sessionTrace
  simp only [List.mem_flatMap, not_exists, not_and, jump_mem_command hB prims, Bool.not_eq_true]

end Fenced

/-!
## The two targets
-/

theorem fits_one {u : unit} {k : Nat} {x : EStateM ε (EmitBuffer unit) Unit}
    (h : Appends [u] x) (hk : 1 ≤ k) : Fits k x :=
  ⟨[u], hk, h⟩

/-- What is known of a backend already, and its arithmetic. -/
theorem emitterFits_of_laws {B : Backend unit instr} {loaded : Word -> Word} {k : Nat}
    (hB : BackendLaws B loaded (2 * k)) (hk : 1 ≤ k)
    (hadd : Fits k (B.emitter.add B.acc B.acc B.scratch))
    (hsub : Fits k (B.emitter.sub B.acc B.acc B.scratch))
    (hmul : Fits k (B.emitter.mul B.acc B.acc B.scratch))
    (hdiv : Fits k (B.emitter.div B.acc B.acc B.scratch))
    (hroom : k * maxStreamWords + 1 ≤ B.capWords) : EmitterFits B k where
  mov := by
    intro r hr v
    obtain ⟨units, hlength, happends, _⟩ := hB.mov r hr v
    exact ⟨units, hlength, happends⟩
  store := by
    obtain ⟨u, happends, _⟩ := hB.store
    exact fits_one happends hk
  load := by
    obtain ⟨u, happends, _⟩ := hB.load
    exact fits_one happends hk
  add := hadd
  sub := hsub
  mul := hmul
  div := hdiv
  ret := by
    obtain ⟨u, happends, _⟩ := hB.ret
    exact ⟨u, happends⟩
  room := hroom

theorem thumb2_emitterFits : EmitterFits thumb2Backend 2 :=
  emitterFits_of_laws thumb2_laws (by decide) (fits_one (appends_pushUnit _) (by decide))
    (fits_one (appends_pushUnit _) (by decide)) (fits_one (appends_pushUnit _) (by decide))
    (fits_bind (fits_one (appends_pushUnit _) (Nat.le_refl 1))
      (fits_one (appends_pushUnit _) (Nat.le_refl 1))) (by decide)

theorem rv32_emitterFits : EmitterFits riscv32Backend 1 :=
  emitterFits_of_laws rv32_laws (by decide) (fits_one (appends_pushUnit _) (by decide))
    (fits_one (appends_pushUnit _) (by decide)) (fits_one (appends_pushUnit _) (by decide))
    (fits_one (appends_pushUnit _) (by decide)) (by decide)

/-- Write, fence, call, in a session on the target. -/
def FencedOn (target : Target) (prims : Prims) (commands : List CodeCommand) : Prop :=
  match target with
  | .arm => Disciplined (sessionTrace thumb2Backend prims commands)
  | .riscv32 => Disciplined (sessionTrace riscv32Backend prims commands)

/-- A session keeps the order of write, fence and call exactly if none of its commands runs
native code. -/
theorem fencedOn_iff (target : Target) (prims : Prims) (commands : List CodeCommand) :
    FencedOn target prims commands ↔
      forall command, command ∈ commands -> command.isNative prims = false := by
  cases target with
  | arm => exact disciplined_session_iff thumb2_emitterFits prims commands
  | riscv32 => exact disciplined_session_iff rv32_emitterFits prims commands

/-- `lit 1, halt`, as the line `1;` compiles to. -/
def oneProgram : StreamProgram :=
  ⟨⟨[Prims.inFlash.wordOf .lit, 1#32, Prims.inFlash.wordOf .halt], by decide⟩, true⟩

/-- `MOVS r0, #1` and `BX LR` are written, and called before any fence. -/
theorem not_fencedOn_one : ¬ FencedOn .arm .inFlash [.run oneProgram] := by
  intro h
  have htrace : sessionTrace thumb2Backend .inFlash [.run oneProgram] =
      [.write 0x2001#16] ++ .write 0x4770#16 :: [] ++ .call .jumpToSram :: [] := by decide
  exact h _ _ _ htrace ⟨[.write 0x2001#16], 0x4770#16, [], rfl, List.not_mem_nil⟩

end Execution
end HolyRust
