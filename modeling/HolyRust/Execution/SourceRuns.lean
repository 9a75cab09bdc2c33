import HolyRust.Compilation.Requests
import HolyRust.Execution.StreamRuns

/-!
# Running what was written

Statements have a meaning of their own: a `poke` writes, a `peek` reads, a loop repeats its
body and a call does what the function it names was written to do when the caller was
written.  A session keeps the functions as the user wrote them; the compiler keeps unrolled
and inlined words.  Running the words does what the statements mean.
-/

namespace HolyRust
namespace Execution

open Foundation
open Compilation

/-!
## Meaning of statements
-/

/-- What answers accesses, and the accesses so far. -/
structure Observed (σ : Type) where
  bus : σ
  trace : List (Access Word Word)

def performBlock (bus : Bus Word Word σ) : Block -> Observed σ -> Observed σ
  | .poke a v, o => ⟨bus.store o.bus a v, o.trace ++ [.write a v]⟩
  | .peek a, o => ⟨(bus.load o.bus a).2, o.trace ++ [.read a]⟩

mutual

/-- One statement, given what its blocks and calls do.  An expression was evaluated when it
was compiled. -/
def performStmt (block : Block -> τ -> τ) (call : List Byte -> τ -> τ) : Stmt -> τ -> τ
  | .block b, o => block b o
  | .call name, o => call name o
  | .expr, o => o
  | .loop count body, o => (performStmts block call body)^[count] o

def performStmts (block : Block -> τ -> τ) (call : List Byte -> τ -> τ) : List Stmt -> τ -> τ
  | [], o => o
  | stmt :: body, o => performStmts block call body (performStmt block call stmt o)

end

/-- A function as it was written, and the functions that were there when it was. -/
inductive Definition where
  | mk (name : List Byte) (scope : List Definition) (body : List Stmt)

namespace Definition

def name : Definition -> List Byte
  | .mk name _ _ => name

/-- The same function under another name. -/
def rename (name : List Byte) : Definition -> Definition
  | .mk _ scope body => .mk name scope body

end Definition

mutual

def performDefinition (block : Block -> τ -> τ) : Definition -> τ -> τ
  | .mk _ scope body => performStmts block (performCall block scope) body

/-- A call of `name` where `defs` are defined, the latest first. -/
def performCall (block : Block -> τ -> τ) : List Definition -> List Byte -> τ -> τ
  | [], _ => id
  | d :: defs, name =>
      if d.name = name then performDefinition block d else performCall block defs name

end

/-!
## Unrolled and inlined
-/

mutual

def stmtBlocks (call : List Byte -> List Block) : Stmt -> List Block
  | .block b => [b]
  | .call name => call name
  | .expr => []
  | .loop count body => (List.replicate count (stmtsBlocks call body)).flatten

def stmtsBlocks (call : List Byte -> List Block) : List Stmt -> List Block
  | [] => []
  | stmt :: body => stmtBlocks call stmt ++ stmtsBlocks call body

end

mutual

def definitionBlocks : Definition -> List Block
  | .mk _ scope body => stmtsBlocks (callBlocks scope) body

def callBlocks : List Definition -> List Byte -> List Block
  | [], _ => []
  | d :: defs, name => if d.name = name then definitionBlocks d else callBlocks defs name

end

def performBlocks (block : Block -> τ -> τ) (bs : List Block) (o : τ) : τ :=
  bs.foldl (fun o b => block b o) o

section Unrolling

variable {prims : Prims} {block : Block -> τ -> τ} {blocks : List Byte -> List Block}

theorem performBlocks_append (block : Block -> τ -> τ) (bs ds : List Block) (o : τ) :
    performBlocks block (bs ++ ds) o = performBlocks block ds (performBlocks block bs o) :=
  List.foldl_append

theorem performBlocks_replicate (block : Block -> τ -> τ) (bs : List Block) (count : Nat)
    (o : τ) :
    performBlocks block (List.replicate count bs).flatten o =
      (performBlocks block bs)^[count] o := by
  induction count generalizing o with
  | zero => rfl
  | succ count ih =>
      rw [List.replicate_succ, List.flatten_cons, performBlocks_append, ih,
        Function.iterate_succ_apply]

theorem blockWords_append (prims : Prims) (bs ds : List Block) :
    blockWords prims (bs ++ ds) = blockWords prims bs ++ blockWords prims ds :=
  List.flatMap_append

theorem blockWords_replicate (prims : Prims) (bs : List Block) (count : Nat) :
    blockWords prims (List.replicate count bs).flatten =
      (List.replicate count (blockWords prims bs)).flatten := by
  induction count with
  | zero => rfl
  | succ count ih =>
      rw [List.replicate_succ, List.flatten_cons, blockWords_append, ih, List.replicate_succ,
        List.flatten_cons]

mutual

theorem performStmt_eq {call : List Byte -> τ -> τ}
    (hcall : forall name o, call name o = performBlocks block (blocks name) o) :
    forall stmt o, performStmt block call stmt o = performBlocks block (stmtBlocks blocks stmt) o
  | .block b, o => by rw [performStmt, stmtBlocks]; rfl
  | .call name, o => by rw [performStmt, stmtBlocks, hcall]
  | .expr, o => by rw [performStmt, stmtBlocks]; rfl
  | .loop count body, o => by
      have hbody : performStmts block call body = performBlocks block (stmtsBlocks blocks body) :=
        funext (performStmts_eq hcall body)
      rw [performStmt, stmtBlocks, hbody, performBlocks_replicate]

theorem performStmts_eq {call : List Byte -> τ -> τ}
    (hcall : forall name o, call name o = performBlocks block (blocks name) o) :
    forall body o,
      performStmts block call body o = performBlocks block (stmtsBlocks blocks body) o
  | [], o => by rw [performStmts, stmtsBlocks]; rfl
  | stmt :: body, o => by
      rw [performStmts, stmtsBlocks, performBlocks_append, performStmt_eq hcall stmt,
        performStmts_eq hcall body]

end

mutual

theorem performDefinition_eq (block : Block -> τ -> τ) :
    forall d o, performDefinition block d o = performBlocks block (definitionBlocks d) o
  | .mk _ scope body, o => by
      rw [performDefinition, definitionBlocks]
      exact performStmts_eq (performCall_eq block scope) body o

theorem performCall_eq (block : Block -> τ -> τ) :
    forall defs name o,
      performCall block defs name o = performBlocks block (callBlocks defs name) o
  | [], name, o => by rw [performCall, callBlocks]; rfl
  | d :: defs, name, o => by
      rw [performCall, callBlocks]
      split
      · exact performDefinition_eq block d o
      · exact performCall_eq block defs name o

end

mutual

theorem flatten_eq {c : Compiler}
    (hcall : forall name, c.bodyOf name = blockWords prims (blocks name)) :
    forall stmt, Stmt.flatten prims c stmt = blockWords prims (stmtBlocks blocks stmt)
  | .block b => by rw [Stmt.flatten, stmtBlocks, blockWords, List.flatMap_singleton]
  | .call name => by rw [Stmt.flatten, stmtBlocks, hcall]
  | .expr => by rw [Stmt.flatten, stmtBlocks]; rfl
  | .loop count body => by
      rw [Stmt.flatten, stmtBlocks, flattenAll_eq hcall body, blockWords_replicate]

theorem flattenAll_eq {c : Compiler}
    (hcall : forall name, c.bodyOf name = blockWords prims (blocks name)) :
    forall body, flattenAll prims c body = blockWords prims (stmtsBlocks blocks body)
  | [] => by rw [flattenAll, stmtsBlocks]; rfl
  | stmt :: body => by
      rw [flattenAll, stmtsBlocks, blockWords_append, flatten_eq hcall stmt,
        flattenAll_eq hcall body]

end

end Unrolling

/-!
## Sessions
-/

/-- A compiler, the functions that were written into it, the latest first, and the bodies
that were exported, each with the function it came from. -/
structure Written where
  comp : Compiler
  defs : List Definition
  saved : List (List Word × Definition)

/-- The function that `name` stands for. -/
def definitionOf (defs : List Definition) (name : List Byte) : Definition :=
  (defs.find? fun d => decide (d.name = name)).getD (.mk name [] [])

/-- What a line adds: an accepted definition closes over the functions before it. -/
def definedBy (env : Env) (c : Compiler) (defs : List Definition) (line : List Byte) :
    List Definition :=
  match parse env c line, readFn env (parseFuel line) (startState c line) with
  | .ok (.fnDefined name) _, .ok (_, body) _ => .mk name.bytes defs body :: defs
  | _, _ => defs

/-- What lines, exports, imports of exported bodies and resets lead to.  A line may come
with any registry and memory. -/
inductive Writes (prims : Prims) : Written -> Prop where
  | new : Writes prims ⟨Compiler.new, [], []⟩
  | line {w : Written} (env : Env) (text : List Byte) :
      Writes prims w -> env.prims = prims ->
        Writes prims { w with
          comp := (finalState (parse env w.comp text)).comp
          defs := definedBy env w.comp w.defs text }
  | exportFn {w : Written} {name : List Byte} {capacity : Nat} {ws : List Word} :
      Writes prims w -> w.comp.exportFn name capacity = some ws ->
        Writes prims { w with saved := (ws, definitionOf w.defs name) :: w.saved }
  | importFn {w : Written} {name : List Byte} {ws : List Word} {d : Definition} {c : Compiler} :
      Writes prims w -> (ws, d) ∈ w.saved -> name ≠ [] -> w.comp.importFn name ws = .ok c ->
        Writes prims { w with comp := c, defs := d.rename name :: w.defs }
  | reset {w : Written} :
      Writes prims w -> Writes prims { w with comp := Compiler.new, defs := [] }

/-- The compiler has the words of what was written, under every name. -/
structure Kept (prims : Prims) (w : Written) : Prop where
  bodies : forall name, w.comp.bodyOf name = blockWords prims (callBlocks w.defs name)
  saved : forall ws d, (ws, d) ∈ w.saved -> ws = blockWords prims (definitionBlocks d)

theorem definitionBlocks_definitionOf (defs : List Definition) (name : List Byte) :
    definitionBlocks (definitionOf defs name) = callBlocks defs name := by
  unfold definitionOf
  induction defs with
  | nil => rw [List.find?_nil, Option.getD_none, definitionBlocks, stmtsBlocks, callBlocks]
  | cons d defs ih =>
      rw [callBlocks, List.find?_cons]
      by_cases hname : d.name = name
      · rw [if_pos hname, decide_eq_true hname]
        rfl
      · rw [if_neg hname, decide_eq_false hname]
        exact ih

theorem definitionBlocks_rename (name : List Byte) (d : Definition) :
    definitionBlocks (d.rename name) = definitionBlocks d := by
  cases d with
  | mk _ scope body => rw [Definition.rename, definitionBlocks, definitionBlocks]

theorem name_rename (name : List Byte) (d : Definition) : (d.rename name).name = name := by
  cases d with
  | mk _ scope body => rfl

/-- A function that goes into a free slot changes what its own name stands for, only. -/
theorem bodyOf_setFn {c : Compiler} {nb : NameBuf} {i : Fin maxFns}
    (halloc : c.allocFnSlot nb = .ok i) (slot : FnSlot) (hslot : slot.name = nb)
    (hname : nb.bytes ≠ []) (name : List Byte) :
    (c.setFn i slot).bodyOf name = if nb.bytes = name then slot.body else c.bodyOf name := by
  obtain ⟨_, hfree⟩ := allocFnSlot_ok halloc
  by_cases heq : nb.bytes = name
  · subst heq
    obtain ⟨j, hfind, hbody⟩ := hasFn_setFn halloc hslot hname
    rw [if_pos rfl, Compiler.bodyOf, hfind]
    exact hbody
  · rw [if_neg heq, Compiler.bodyOf, Compiler.bodyOf,
      findFn_setFn_of_ne hfree (by rw [hslot]; exact heq)]
    cases hfind : c.findFn name with
    | none => rfl
    | some j =>
        dsimp only
        rw [fns_of_findFn hfree hfind]

theorem bodyOf_of_fns {c c' : Compiler} (h : c'.fns = c.fns) (name : List Byte) :
    c'.bodyOf name = c.bodyOf name := by
  unfold Compiler.bodyOf
  rw [findFn_of_fns h, h]

section Keeping

variable {prims : Prims} {w : Written}

/-- An accepted line that is no definition leaves the functions alone. -/
theorem fns_of_effect {c c' : Compiler} {outcome : Outcome} (h : Effect c outcome c')
    (hother : forall name, outcome ≠ .fnDefined name) : c'.fns = c.fns := by
  cases outcome with
  | fnDefined name => exact absurd rfl (hother name)
  | bound name value => exact fns_insert h.right
  | _ => exact h.fns

theorem kept_line (env : Env) (text : List Byte) (hprims : env.prims = prims)
    (h : Kept prims w) :
    Kept prims { w with
      comp := (finalState (parse env w.comp text)).comp
      defs := definedBy env w.comp w.defs text } := by
  subst hprims
  refine ⟨fun name => ?_, h.saved⟩
  unfold definedBy
  cases hparse : parse env w.comp text with
  | error e s =>
      have htables := sameTables_of_error hparse
      exact (bodyOf_of_fns htables.fns name).trans (h.bodies name)
  | ok outcome s =>
      have heffect := parse_effect hparse
      cases outcome with
      | fnDefined defined =>
          obtain ⟨hident, i, hlength, halloc, hcomp⟩ := heffect
          obtain ⟨body, t, hread⟩ := exists_readsFn hparse
          have hstores := stores_of_readFn hread
          rw [hparse] at hstores
          rw [hread]
          show s.comp.bodyOf name = blockWords env.prims (callBlocks (_ :: w.defs) name)
          have hset := bodyOf_setFn (c := w.comp.withStream s.comp.stream) halloc
            ⟨defined, s.comp.stream.words, hlength⟩ rfl (isIdent_ne_nil hident) name
          rw [hcomp, hset, callBlocks, Definition.name, apply_ite (blockWords env.prims),
            definitionBlocks, ← flattenAll_eq h.bodies, ← hstores.right.left]
          rw [← h.bodies]
          rfl
      | _ =>
          have hfns := fns_of_effect heffect fun _ heq => by cases heq
          exact (bodyOf_of_fns hfns name).trans (h.bodies name)

theorem exportFn_eq {c : Compiler} {name : List Byte} {capacity : Nat} {ws : List Word}
    (h : c.exportFn name capacity = some ws) : ws = c.bodyOf name := by
  unfold Compiler.exportFn at h
  unfold Compiler.bodyOf
  cases hfind : c.findFn name with
  | none =>
      rw [hfind] at h
      cases h
  | some i =>
      rw [hfind] at h
      dsimp only at h
      split at h
      · exact (Option.some.inj h).symm
      · cases h

theorem importFn_named {c c' : Compiler} {name : List Byte} {ws : List Word}
    (h : c.importFn name ws = .ok c') :
    exists nb i hlength, nb.bytes = name ∧ c.allocFnSlot nb = .ok i ∧
      c' = c.setFn i ⟨nb, ws, hlength⟩ := by
  obtain ⟨_, _, hlength, _⟩ := importFn_ok h
  unfold Compiler.importFn at h
  by_cases hlong : nameMax < name.length
  · rw [if_pos hlong] at h
    cases h
  · have hname : NameBuf.fromSlice name = .ok ⟨name, Nat.le_of_not_lt hlong⟩ :=
      dif_pos (Nat.le_of_not_lt hlong)
    rw [if_neg hlong, dif_pos hlength, hname] at h
    dsimp only at h
    cases halloc : c.allocFnSlot ⟨name, Nat.le_of_not_lt hlong⟩ with
    | error e =>
        rw [halloc] at h
        cases h
    | ok i =>
        rw [halloc] at h
        cases h
        exact ⟨_, i, hlength, rfl, halloc, rfl⟩

theorem kept_importFn {name : List Byte} {ws : List Word} {d : Definition} {c : Compiler}
    (h : Kept prims w) (hsaved : (ws, d) ∈ w.saved) (hname : name ≠ [])
    (himport : w.comp.importFn name ws = .ok c) :
    Kept prims { w with comp := c, defs := d.rename name :: w.defs } := by
  refine ⟨fun other => ?_, h.saved⟩
  obtain ⟨nb, i, hlength, rfl, halloc, rfl⟩ := importFn_named himport
  show (w.comp.setFn i _).bodyOf other = blockWords prims (callBlocks (_ :: w.defs) other)
  rw [bodyOf_setFn halloc _ rfl hname, callBlocks, name_rename, apply_ite (blockWords prims),
    definitionBlocks_rename, ← h.bodies, ← h.saved ws d hsaved]

/-- The invariant of every session. -/
theorem writes_kept (hw : Writes prims w) : Kept prims w := by
  have hempty : forall name, Compiler.new.bodyOf name = [] := fun name => rfl
  induction hw with
  | new =>
      refine ⟨fun name => ?_, fun _ _ hmem => by cases hmem⟩
      rw [hempty, callBlocks]
      rfl
  | line env text _ hprims ih => exact kept_line env text hprims ih
  | exportFn _ hexport ih =>
      refine ⟨ih.bodies, fun ws d hmem => ?_⟩
      rcases List.mem_cons.mp hmem with heq | hold
      · cases heq
        rw [exportFn_eq hexport, ih.bodies, definitionBlocks_definitionOf]
      · exact ih.saved ws d hold
  | importFn _ hsaved hname himport ih => exact kept_importFn ih hsaved hname himport
  | reset _ ih =>
      refine ⟨fun name => ?_, ih.saved⟩
      rw [hempty, callBlocks]
      rfl

end Keeping

/-!
## Runs
-/

def Vm.observed (vm : Vm σ) : Observed σ := ⟨vm.bus, vm.trace⟩

theorem Vm.observed_push (vm : Vm σ) (v : Word) : (vm.push v).observed = vm.observed := by
  unfold Vm.push
  split <;> rfl

theorem observed_execBlock (bus : Bus Word Word σ) (ip : Nat) (b : Block) (vm : Vm σ) :
    (execBlock bus ip b vm).observed = performBlock bus b vm.observed := by
  cases b with
  | poke a v => rfl
  | peek a => exact Vm.observed_push _ _

theorem observed_execBlocks (bus : Bus Word Word σ) (ip : Nat) (bs : List Block) (vm : Vm σ) :
    (execBlocks bus ip bs vm).observed = performBlocks (performBlock bus) bs vm.observed := by
  induction bs generalizing ip vm with
  | nil => rfl
  | cons b bs ih =>
      rw [execBlocks, ih, observed_execBlock]
      rfl

/-- A program of blocks does what its blocks do, and yields nothing. -/
theorem runThreaded_unrolled {prims : Prims} {program : StreamProgram} {bs : List Block}
    (hwords : program.stream.words = blockWords prims bs ++ [prims.wordOf .halt])
    (hyields : program.yieldsValue = false) (bus : Bus Word Word σ) (s : σ) :
    (runThreaded prims bus program s).1 = none ∧
      (runThreaded prims bus program s).2.observed =
        performBlocks (performBlock bus) bs ⟨s, []⟩ := by
  have hlength : program.stream.words.length = (blockWords prims bs).length + 1 := by
    rw [hwords, List.length_append]
    rfl
  have hroom : 3 * (Vm.start s).stack.items.length + (blockWords prims bs).length ≤
      maxStreamWords := by
    have hle := program.stream.length_le
    show 3 * 0 + _ ≤ _
    lia
  have hrun := (run_blocks prims bus 0 bs (prims.wordOf .halt ::
    List.replicate (maxStreamWords - program.stream.words.length) 0#32) (Vm.start s) hroom).left
  have harray : StreamProgram.array program = blockWords prims bs ++ (prims.wordOf .halt ::
      List.replicate (maxStreamWords - program.stream.words.length) 0#32) := by
    unfold StreamProgram.array
    rw [hwords, List.append_assoc]
    rfl
  rw [run_halt, ← harray] at hrun
  have hpos : 0 < program.stream.words.length := by lia
  unfold runThreaded
  rw [hyields, hrun, if_pos hpos]
  exact ⟨rfl, observed_execBlocks bus 0 bs (Vm.start s)⟩

theorem runThreaded_literal {prims : Prims} {program : StreamProgram} {v : Word}
    (hwords : program.stream.words = [prims.wordOf .lit, v, prims.wordOf .halt])
    (hyields : program.yieldsValue = true) (bus : Bus Word Word σ) (s : σ) :
    (runThreaded prims bus program s).1 = some v ∧
      (runThreaded prims bus program s).2.observed = ⟨s, []⟩ := by
  have hpos : 0 < program.stream.words.length := by
    rw [hwords]
    exact Nat.succ_pos _
  unfold runThreaded
  rw [hyields, run_valueProgram prims bus v program s hwords, if_pos hpos]
  exact ⟨rfl, rfl⟩

/-- The request is met: a value is yielded and nothing accessed, or statements are performed
in the scope of `defs` and nothing yielded. -/
def MetBy (bus : Bus Word Word σ) (defs : List Definition) (s : σ) (r : Option Word × Vm σ) :
    Request -> Prop
  | .value v => r.1 = some v ∧ r.2.observed = ⟨s, []⟩
  | .perform body => r.1 = none ∧
      r.2.observed =
        performStmts (performBlock bus) (performCall (performBlock bus) defs) body ⟨s, []⟩

theorem metBy_of_words {prims : Prims} {w : Written} (hkept : Kept prims w)
    {request : Request} {program : StreamProgram}
    (hwords : program.stream.words = request.words prims w.comp)
    (hyields : program.yieldsValue = request.yieldsValue) (bus : Bus Word Word σ) (s : σ) :
    MetBy bus w.defs s (runThreaded prims bus program s) request := by
  cases request with
  | value v => exact runThreaded_literal hwords hyields bus s
  | perform body =>
      have hblocks : program.stream.words =
          blockWords prims (stmtsBlocks (callBlocks w.defs) body) ++ [prims.wordOf .halt] := by
        rw [hwords, Request.words, flattenAll_eq hkept.bodies]
      have hrun := runThreaded_unrolled hblocks hyields bus s
      refine ⟨hrun.left, hrun.right.trans ?_⟩
      exact (performStmts_eq (performCall_eq _ w.defs) body _).symm

/-- One line of text. -/
def Written.typed (w : Written) (text : String) : Written :=
  { w with
    comp := (finalState (parse Env.idle w.comp (ascii text))).comp
    defs := definedBy Env.idle w.comp w.defs (ascii text) }

/-- A function, and one that calls it in a loop. -/
def callInLoop : Written :=
  ((Written.mk Compiler.new [] []).typed "fn f() { poke 0x20000000 1; }").typed
    "fn g() { loop 2 { f(); peek 0x20000000; } }"

end Execution
end HolyRust
