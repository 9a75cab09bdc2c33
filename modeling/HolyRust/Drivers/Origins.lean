import HolyRust.Compilation.StatementChecks
import HolyRust.Execution.SourceRuns
import HolyRust.Drivers.StoreWindow

/-!
# Where accesses come from

A ledger follows a session and says of every function, and of every body in the program
store, which statements it consists of and which line each of them was typed in.  A
definition copies the entries of the functions that it calls, `store` copies those of a
function to a slot, and `load` copies them back.
-/

namespace HolyRust
namespace Drivers

open Foundation
open Capabilities
open Kernel
open Compilation
open Execution

/-- `check_access` accepted `a` while the line was compiled in `s`. -/
def AcceptedWhileCompiling (b : Build) (input : Input) (s : Session) (a : Word) : Prop :=
  a ∈ (finalState (parse (s.env b input) s.comp input.line)).checked ∧
    Accessible b.target (s.registry b) a

/-- A line and the session that it is typed in. -/
structure Typing where
  input : Input
  session : Session

/-- A `poke` or `peek` statement and the line that it stands in. -/
structure Origin where
  line : Typing
  block : Block

/-!
## Unrolled statements
-/

mutual

/-- The statements that a statement of `line` comes to, in the order of execution. -/
def stmtOrigins (line : Typing) (call : List Byte -> List Origin) : Stmt -> List Origin
  | .block b => [⟨line, b⟩]
  | .call name => call name
  | .expr => []
  | .loop count body => (List.replicate count (stmtsOrigins line call body)).flatten

def stmtsOrigins (line : Typing) (call : List Byte -> List Origin) : List Stmt -> List Origin
  | [] => []
  | stmt :: body => stmtOrigins line call stmt ++ stmtsOrigins line call body

end

def requestOrigins (line : Typing) (call : List Byte -> List Origin) : Request -> List Origin
  | .value _ => []
  | .perform body => stmtsOrigins line call body

section Statements

variable (line : Typing) (call : List Byte -> List Origin)

mutual

theorem map_stmtOrigins : forall stmt, (stmtOrigins line call stmt).map Origin.block =
    stmtBlocks (fun name => (call name).map Origin.block) stmt
  | .block b => by rw [stmtOrigins, stmtBlocks]; rfl
  | .call name => by rw [stmtOrigins, stmtBlocks]
  | .expr => by rw [stmtOrigins, stmtBlocks]; rfl
  | .loop count body => by
      rw [stmtOrigins, stmtBlocks, List.map_flatten, List.map_replicate, map_stmtsOrigins body]

theorem map_stmtsOrigins : forall body, (stmtsOrigins line call body).map Origin.block =
    stmtsBlocks (fun name => (call name).map Origin.block) body
  | [] => by rw [stmtsOrigins, stmtsBlocks]; rfl
  | stmt :: body => by
      rw [stmtsOrigins, stmtsBlocks, List.map_append, map_stmtOrigins stmt, map_stmtsOrigins body]

end

mutual

/-- A statement is the line's own, or that of a function it calls. -/
theorem mem_stmtOrigins {o : Origin} : forall stmt, o ∈ stmtOrigins line call stmt ->
    (o.line = line ∧ o.block ∈ stmt.blocks) ∨ exists name, o ∈ call name
  | .block b, h => by
      rw [stmtOrigins] at h
      rw [List.mem_singleton.mp h, Stmt.blocks]
      exact Or.inl ⟨rfl, List.mem_cons_self⟩
  | .call name, h => by
      rw [stmtOrigins] at h
      exact Or.inr ⟨name, h⟩
  | .expr, h => by
      rw [stmtOrigins] at h
      cases h
  | .loop count body, h => by
      rw [stmtOrigins, List.mem_flatten] at h
      obtain ⟨round, hround, ho⟩ := h
      rw [List.eq_of_mem_replicate hround] at ho
      rw [Stmt.blocks]
      exact mem_stmtsOrigins body ho

theorem mem_stmtsOrigins {o : Origin} : forall body, o ∈ stmtsOrigins line call body ->
    (o.line = line ∧ o.block ∈ blocksOf body) ∨ exists name, o ∈ call name
  | [], h => by
      rw [stmtsOrigins] at h
      cases h
  | stmt :: body, h => by
      rw [stmtsOrigins, List.mem_append] at h
      rw [blocksOf, List.mem_append]
      rcases h with h | h
      · rcases mem_stmtOrigins stmt h with ⟨hline, hblock⟩ | hcall
        · exact Or.inl ⟨hline, Or.inl hblock⟩
        · exact Or.inr hcall
      · rcases mem_stmtsOrigins body h with ⟨hline, hblock⟩ | hcall
        · exact Or.inl ⟨hline, Or.inr hblock⟩
        · exact Or.inr hcall

end

theorem mem_requestOrigins {o : Origin} {request : Request}
    (h : o ∈ requestOrigins line call request) :
    (o.line = line ∧ o.block ∈ request.blocks) ∨ exists name, o ∈ call name := by
  cases request with
  | value v => cases h
  | perform body => exact mem_stmtsOrigins line call body h

end Statements

/-!
## Ledger
-/

/-- The statements of every function, and of the body in every slot of the store. -/
structure Ledger where
  fns : List Byte -> List Origin
  slots : Nat -> List Origin

namespace Ledger

def empty : Ledger := ⟨fun _ => [], fun _ => []⟩

/-- A function without a name is none: its slot counts as free. -/
def define (name : List Byte) (statements : List Origin) (l : Ledger) : Ledger :=
  if name = [] then l
  else { l with fns := fun other => if name = other then statements else l.fns other }

end Ledger

/-- `findStored`, and the slot. -/
def storedSlot (mem : Mem) (name : List Byte) : Nat -> Nat -> Option (Nat × List Word)
  | 0, _ => none
  | n + 1, i =>
      match load i slotWords mem with
      | .ok (found, words) =>
          if found.take name.length = name then some (i, words)
          else storedSlot mem name n (i + 1)
      | .error .noStore => none
      | .error _ => storedSlot mem name n (i + 1)

namespace Ledger

/-- What `store` copies, and where to. -/
def store (comp : Compiler) (mem : Mem) (name : NameBuf) (l : Ledger) : Ledger :=
  match comp.exportFn name.bytes maxStreamWords, freeSlot mem with
  | some _, some i =>
      { l with slots := fun j => if j = i then l.fns name.bytes else l.slots j }
  | _, _ => l

/-- What `load` copies, unless the function cannot be imported. -/
def load (comp : Compiler) (mem : Mem) (name : NameBuf) (l : Ledger) : Ledger :=
  match storedSlot mem name.bytes maxPrograms 0 with
  | none => l
  | some (i, words) =>
      match comp.importFn name.bytes words with
      | .ok _ => l.define name.bytes (l.slots i)
      | .error _ => l

/-- The ledger after a line; `comp` is the compiler that the line leaves behind. -/
def advance (b : Build) (input : Input) (s : Session) (l : Ledger) : Ledger :=
  let comp := (finalState (parse (s.env b input) s.comp input.line)).comp
  match accepted b input s with
  | some (.fnDefined name) =>
      match readFn (s.env b input) (parseFuel input.line) (startState s.comp input.line) with
      | .ok (_, body) _ => l.define name.bytes (stmtsOrigins ⟨input, s⟩ l.fns body)
      | .error _ _ => l
  | some (.store name) =>
      match b.target with
      | .arm => l.store comp s.machine.mem name
      | .riscv32 => l
  | some (.load name) =>
      match b.target with
      | .arm => l.load comp s.machine.mem name
      | .riscv32 => l
  | _ => l

end Ledger

/-- The ledger of a run. -/
def ledger (b : Build) : List (Transition Session Input) -> Ledger
  | [] => .empty
  | tr :: past => (ledger b past).advance b tr.label tr.before

theorem findStored_eq_storedSlot (mem : Mem) (name : List Byte) (n i : Nat) :
    findStored mem name n i = (storedSlot mem name n i).map Prod.snd := by
  induction n generalizing i with
  | zero => rfl
  | succ n ih =>
      rw [findStored, storedSlot]
      cases load i slotWords mem with
      | ok entry =>
          dsimp only
          split
          · rfl
          · exact ih (i + 1)
      | error e =>
          cases e with
          | noStore => rfl
          | _ => exact ih (i + 1)

theorem storedSlot_some {mem : Mem} {name : List Byte} {n i j : Nat} {words : List Word}
    (h : storedSlot mem name n i = some (j, words)) :
    j < i + n ∧ exists found, load j slotWords mem = .ok (found, words) := by
  induction n generalizing i with
  | zero => cases h
  | succ n ih =>
      rw [storedSlot] at h
      have hlater : storedSlot mem name n (i + 1) = some (j, words) ->
          j < i + (n + 1) ∧ exists found, load j slotWords mem = .ok (found, words) := by
        intro hrest
        obtain ⟨hj, hload⟩ := ih hrest
        exact ⟨by lia, hload⟩
      split at h
      · rename_i found ws hload
        split at h
        · cases h
          exact ⟨by lia, found, hload⟩
        · exact hlater h
      · cases h
      · exact hlater h

/-!
## The ledger is right
-/

/-- The words of a body that consists of these statements. -/
abbrev originWords (prims : Prims) (statements : List Origin) : List Word :=
  blockWords prims (statements.map Origin.block)

/-- The bodies that the session holds are those of the ledger. -/
structure Accounts (b : Build) (l : Ledger) (s : Session) : Prop where
  bodies : forall name, s.comp.bodyOf name = originWords b.prims (l.fns name)
  slots : b.target = .arm -> forall i, i < maxPrograms ->
    SlotHolds (fun ws => ws = originWords b.prims (l.slots i)) s.machine.mem i

theorem findFn_nil (c : Compiler) : c.findFn [] = none := by
  rw [Compiler.findFn, List.find?_eq_none]
  intro i _ hi
  rw [Bool.and_eq_true] at hi
  have hlength := of_decide_eq_true hi.1
  rw [of_decide_eq_true hi.2] at hlength
  cases hlength

theorem bodyOf_nil (c : Compiler) : c.bodyOf [] = [] := by
  rw [Compiler.bodyOf, findFn_nil]

/-- A slot that is filled under no name stays free. -/
theorem bodyOf_setFn_unnamed {c : Compiler} {nb : NameBuf} {i : Fin maxFns}
    (halloc : c.allocFnSlot nb = .ok i) (slot : FnSlot) (hslot : slot.name.bytes = [])
    (name : List Byte) : (c.setFn i slot).bodyOf name = c.bodyOf name := by
  obtain ⟨_, hfree⟩ := allocFnSlot_ok halloc
  by_cases hname : name = []
  · rw [hname, bodyOf_nil, bodyOf_nil]
  · have hne : slot.name.bytes ≠ name := by
      rw [hslot]
      exact Ne.symm hname
    rw [Compiler.bodyOf, Compiler.bodyOf, findFn_setFn_of_ne hfree hne]
    cases hfind : c.findFn name with
    | none => rfl
    | some j =>
        dsimp only
        rw [fns_of_findFn hfree hfind]

section Accounting

variable {b : Build} {l : Ledger} {s : Session}

/-- A body that goes into a free slot is accounted for where its words are. -/
theorem bodies_define {c : Compiler} {nb : NameBuf} {i : Fin maxFns}
    (hbodies : forall name, c.bodyOf name = originWords b.prims (l.fns name))
    (halloc : c.allocFnSlot nb = .ok i) (slot : FnSlot) (hslot : slot.name = nb)
    {statements : List Origin} (hwords : slot.body = originWords b.prims statements)
    (name : List Byte) :
    (c.setFn i slot).bodyOf name =
      originWords b.prims ((l.define nb.bytes statements).fns name) := by
  unfold Ledger.define
  by_cases hname : nb.bytes = []
  · rw [if_pos hname, bodyOf_setFn_unnamed halloc slot (by rw [hslot]; exact hname), hbodies]
  · rw [if_neg hname, bodyOf_setFn halloc slot hslot hname]
    dsimp only
    split
    · exact hwords
    · exact hbodies name

theorem slots_define (name : List Byte) (statements : List Origin) (l : Ledger) :
    (l.define name statements).slots = l.slots := by
  unfold Ledger.define
  split <;> rfl

theorem accounts_keeps {s' : Session} (h : Accounts b l s)
    (hbodies : forall name, s'.comp.bodyOf name = s.comp.bodyOf name)
    (hkeeps : b.target = .arm -> Keeps pstoreBase pstoreTop s s') : Accounts b l s' where
  bodies := fun name => (hbodies name).trans (h.bodies name)
  slots := by
    intro harm i hi
    apply slotHolds_sameWindow _ (h.slots harm i hi)
    exact (hkeeps harm).mono (Nat.le_add_right _ _) (slotUsed_le hi)

theorem accounts_doStore (name : NameBuf) (h : Accounts b l s) :
    Accounts b (l.store s.comp s.machine.mem name) (doStore name s) := by
  unfold Ledger.store doStore
  cases hexport : s.comp.exportFn name.bytes maxStreamWords with
  | none => exact h
  | some words =>
      cases hfree : freeSlot s.machine.mem with
      | none => exact h
      | some i =>
          have hi : i < maxPrograms := List.mem_range.mp (List.mem_of_find?_eq_some hfree)
          have hwords : words = originWords b.prims (l.fns name.bytes) := by
            rw [exportFn_eq hexport, h.bodies]
          dsimp only
          cases hsave : save i name.bytes words s.machine.mem with
          | error e =>
              refine ⟨h.bodies, fun harm j hj => ?_⟩
              by_cases hji : j = i
              · -- nothing can be loaded from a free slot
                intro found ws hload _
                have hempty := List.find?_some hfree
                rw [decide_eq_true_eq] at hempty
                rw [hji, load_notFound_iff.mpr (load_notFound_iff.mp hempty)] at hload
                cases hload
              · dsimp only
                rw [if_neg hji]
                exact h.slots harm j hj
          | ok mem =>
              refine ⟨h.bodies, fun harm => ?_⟩
              refine slotHolds_save (P := fun j ws => ws = originWords b.prims
                (if j = i then l.fns name.bytes else l.slots j)) hsave hi
                (length_exportFn hexport) ?_ fun j hj hji => ?_
              · rw [if_pos rfl]
                exact hwords
              · rw [if_neg hji]
                exact h.slots harm j hj

theorem accounts_doLoad (harm : b.target = .arm) (name : NameBuf) (h : Accounts b l s) :
    Accounts b (l.load s.comp s.machine.mem name) (doLoad name s) := by
  unfold Ledger.load doLoad
  rw [findStored_eq_storedSlot]
  cases hstored : storedSlot s.machine.mem name.bytes maxPrograms 0 with
  | none => exact h
  | some entry =>
      obtain ⟨i, words⟩ := entry
      obtain ⟨hi, found, hload⟩ := storedSlot_some hstored
      dsimp only [Option.map_some]
      cases himport : s.comp.importFn name.bytes words with
      | error e => exact h
      | ok c =>
          have hlength := length_of_importFn himport
          obtain ⟨nb, slot, _, hname, halloc, rfl⟩ := importFn_named himport
          have hwords := h.slots harm i (by lia) found words hload hlength
          refine ⟨fun other => ?_, ?_⟩
          · rw [← hname]
            exact bodies_define h.bodies halloc _ rfl hwords other
          · rw [slots_define]
            exact h.slots

/-- A definition is accounted for as it was read. -/
theorem accounts_fnDefined {input : Input} {name : NameBuf} {ps : ParseState}
    (h : Accounts b l s)
    (hparse : parse (s.env b input) s.comp input.line = .ok (.fnDefined name) ps)
    (haccepted : accepted b input s = some (.fnDefined name)) :
    Accounts b (l.advance b input s) { s with comp := ps.comp } := by
  obtain ⟨body, t, hread⟩ := exists_readsFn hparse
  have hstores := stores_of_readFn hread
  rw [hparse] at hstores
  obtain ⟨_, i, hlength, halloc, hcomp⟩ := parse_effect hparse
  have hwords : ps.comp.stream.words =
      originWords b.prims (stmtsOrigins ⟨input, s⟩ l.fns body) := by
    rw [originWords, map_stmtsOrigins, ← flattenAll_eq h.bodies]
    exact hstores.2.1
  unfold Ledger.advance
  rw [haccepted, hread]
  refine ⟨fun other => ?_, ?_⟩
  · show ps.comp.bodyOf other = _
    rw [hcomp]
    exact bodies_define (c := s.comp.withStream ps.comp.stream) h.bodies halloc
      ⟨name, ps.comp.stream.words, hlength⟩ rfl hwords other
  · rw [slots_define]
    exact h.slots

/-- One line: the ledger follows what the line does to the bodies. -/
theorem accounts_step {engine : Engine} {s' : Session} {input : Input} (h : Accounts b l s)
    (hstep : Step b engine s input s') (huser : StoresToUser b ⟨s, input, s'⟩) :
    Accounts b (l.advance b input s) s' := by
  obtain ⟨heval, hline⟩ := evalLine_of_step hstep huser
  rcases evalLine_cases heval with
    ⟨rfl, hnone⟩ | ⟨outcome, ps, hparse, haccepted, hexec⟩ | ⟨e, ps, hparse, hnone, rfl⟩
  · unfold Ledger.advance
    rw [hnone]
    exact h
  · obtain ⟨hmakes, htargets⟩ := hline outcome haccepted
    have hcompiled : (forall name, outcome ≠ .fnDefined name) ->
        Accounts b l { s with comp := ps.comp } := fun hother =>
      accounts_keeps h (bodyOf_of_fns (fns_of_effect (parse_effect hparse) hother))
        fun _ => keeps_refl s
    have hcomp : (finalState (parse (s.env b input) s.comp input.line)).comp = ps.comp := by
      rw [hparse, finalState_ok]
    have hframe : (forall name, outcome ≠ .fnDefined name) ->
        (forall name, outcome ≠ .store name) -> s'.comp = ps.comp -> Accounts b l s' :=
      fun hfn hstore hsame => accounts_keeps (hcompiled hfn) (fun name => by rw [hsame])
        fun harm => keeps_pstore harm hexec hmakes htargets hstore
    cases outcome with
    | fnDefined name =>
        rw [← Option.some.inj hexec]
        exact accounts_fnDefined h hparse haccepted
    | store name =>
        have hsession := hcompiled nofun
        rw [← Option.some.inj hexec]
        unfold Ledger.advance onArm
        rw [haccepted, hcomp]
        cases b.target with
        | arm => exact accounts_doStore name hsession
        | riscv32 => exact hsession
    | load name =>
        have hsession := hcompiled nofun
        rw [← Option.some.inj hexec]
        unfold Ledger.advance onArm
        rw [haccepted, hcomp]
        cases htarget : b.target with
        | arm => exact accounts_doLoad htarget name hsession
        | riscv32 => exact hsession
    | _ =>
        unfold Ledger.advance
        rw [haccepted]
        exact hframe nofun nofun ((execute_leavesAlone hexec).comp nofun)
  · unfold Ledger.advance
    rw [hnone]
    exact accounts_keeps h (bodyOf_of_fns (sameTables_of_error hparse).fns) fun _ => keeps_refl s

end Accounting

/-!
## Lines of the past
-/

/-- The statement stands in the line, which was accepted. -/
def StandsIn (b : Build) (line : Typing) (block : Block) : Prop :=
  (exists name body,
    accepted b line.input line.session = some (.fnDefined name) ∧
      ReadsFn (line.session.env b line.input) line.session.comp line.input.line name body ∧
      block ∈ blocksOf body) ∨
  exists program request,
    accepted b line.input line.session = some (.run program) ∧
      ReadsRequest (line.session.env b line.input) line.session.comp line.input.line request ∧
      block ∈ request.blocks

/-- The statement stands in its line, and `check_access` let its address pass while the line
was compiled. -/
structure Origin.Granted (b : Build) (o : Origin) : Prop where
  stands : StandsIn b o.line o.block
  checked : AcceptedWhileCompiling b o.line.input o.line.session o.block.addr

/-- The line was typed earlier in the run. -/
def Typed (past : List (Transition Session Input)) (line : Typing) : Prop :=
  exists tr, tr ∈ past ∧ line = ⟨tr.label, tr.before⟩

/-- Every statement in the ledger comes from a line of the run, and was granted there. -/
structure Ledger.Granted (b : Build) (past : List (Transition Session Input)) (l : Ledger) :
    Prop where
  fns : forall name o, o ∈ l.fns name -> Typed past o.line ∧ o.Granted b
  slots : forall i o, o ∈ l.slots i -> Typed past o.line ∧ o.Granted b

section Past

variable {b : Build} {past : List (Transition Session Input)} {l : Ledger} {s : Session}
  {input : Input}

theorem acceptedWhileCompiling_of_vetted {outcome : Outcome} {ps : ParseState} {block : Block}
    (hparse : parse (s.env b input) s.comp input.line = .ok outcome ps)
    (h : Vetted (s.env b input) ps block) : AcceptedWhileCompiling b input s block.addr := by
  refine ⟨?_, h.2⟩
  rw [hparse]
  exact h.1

theorem granted_of_readsFn {name : NameBuf} {body : List Stmt}
    (haccepted : accepted b input s = some (.fnDefined name))
    (hreads : ReadsFn (s.env b input) s.comp input.line name body) {block : Block}
    (hblock : block ∈ blocksOf body) : Origin.Granted b ⟨⟨input, s⟩, block⟩ := by
  obtain ⟨ps, hparse⟩ := parse_of_accepted haccepted
  exact ⟨Or.inl ⟨name, body, haccepted, hreads, hblock⟩,
    acceptedWhileCompiling_of_vetted hparse (vetted_of_readsFn hparse hreads block hblock)⟩

theorem granted_of_readsRequest {program : StreamProgram} {request : Request}
    (haccepted : accepted b input s = some (.run program))
    (hreads : ReadsRequest (s.env b input) s.comp input.line request) {block : Block}
    (hblock : block ∈ request.blocks) : Origin.Granted b ⟨⟨input, s⟩, block⟩ := by
  obtain ⟨ps, hparse⟩ := parse_of_accepted haccepted
  exact ⟨Or.inr ⟨program, request, haccepted, hreads, hblock⟩,
    acceptedWhileCompiling_of_vetted hparse (vetted_of_readsRequest hparse hreads block hblock)⟩

theorem granted_define (h : l.Granted b past) (name : List Byte)
    {statements : List Origin}
    (hstatements : forall o, o ∈ statements -> Typed past o.line ∧ o.Granted b) :
    (l.define name statements).Granted b past := by
  unfold Ledger.define
  split
  · exact h
  · refine ⟨fun other o ho => ?_, h.slots⟩
    dsimp only at ho
    split at ho
    · exact hstatements o ho
    · exact h.fns other o ho

theorem granted_store (h : l.Granted b past) (comp : Compiler) (mem : Mem)
    (name : NameBuf) : (l.store comp mem name).Granted b past := by
  unfold Ledger.store
  split
  · refine ⟨h.fns, fun i o ho => ?_⟩
    dsimp only at ho
    split at ho
    · exact h.fns name.bytes o ho
    · exact h.slots i o ho
  · exact h

theorem granted_load (h : l.Granted b past) (comp : Compiler) (mem : Mem)
    (name : NameBuf) : (l.load comp mem name).Granted b past := by
  unfold Ledger.load
  split
  · exact h
  · rename_i i words hstored
    split
    · exact granted_define h name.bytes (h.slots i)
    · exact h

theorem typed_cons {line : Typing} (h : Typed past line) (tr : Transition Session Input) :
    Typed (tr :: past) line := by
  obtain ⟨tr', htr', hline⟩ := h
  exact ⟨tr', List.mem_cons_of_mem _ htr', hline⟩

/-- One line: what it adds to the ledger it has checked itself. -/
theorem granted_advance (h : l.Granted b past) (s' : Session) :
    (l.advance b input s).Granted b (⟨s, input, s'⟩ :: past) := by
  have hold : l.Granted b (⟨s, input, s'⟩ :: past) :=
    ⟨fun name o ho => ⟨typed_cons (h.fns name o ho).1 _, (h.fns name o ho).2⟩,
      fun i o ho => ⟨typed_cons (h.slots i o ho).1 _, (h.slots i o ho).2⟩⟩
  unfold Ledger.advance
  cases haccepted : accepted b input s with
  | none => exact hold
  | some outcome =>
      cases outcome with
      | fnDefined name =>
          obtain ⟨ps, hparse⟩ := parse_of_accepted haccepted
          obtain ⟨body, t, hread⟩ := exists_readsFn hparse
          simp only [hread]
          refine granted_define hold name.bytes fun o ho => ?_
          rcases mem_stmtsOrigins _ _ body ho with ⟨hline, hblock⟩ | ⟨callee, hcallee⟩
          · obtain ⟨line, block⟩ := o
            cases hline
            exact ⟨⟨_, List.mem_cons_self, rfl⟩, granted_of_readsFn haccepted ⟨t, hread⟩ hblock⟩
          · exact hold.fns callee o hcallee
      | store name =>
          dsimp only
          cases b.target with
          | arm => exact granted_store hold _ _ name
          | riscv32 => exact hold
      | load name =>
          dsimp only
          cases b.target with
          | arm => exact granted_load hold _ _ name
          | riscv32 => exact hold
      | _ => exact hold

end Past

end Drivers
end HolyRust
