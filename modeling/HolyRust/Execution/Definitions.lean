import HolyRust.Compilation.Tables
import HolyRust.Execution.StreamRuns

/-!
# Using what was defined

A name that `let` or `fn` accepted is used by a line of its own.  The words of the
commands come before both tables, so a definition under such a word is out of reach.
-/

namespace HolyRust
namespace Execution

open Foundation
open Compilation

/-!
## Lines that use a name
-/

/-- `NAME;` -/
def valueLine (name : List Byte) : List Byte := name ++ ascii ";"

/-- `NAME();` -/
def callLine (name : List Byte) : List Byte := name ++ ascii "();"

theorem tokensOf_valueLine {name : List Byte} (h : IsIdent name) :
    tokensOf (valueLine name) = [.identifier name, .semicolon] :=
  tokensOf_ident [] h (by decide)

theorem tokensOf_callLine {name : List Byte} (h : IsIdent name) :
    tokensOf (callLine name) = [.identifier name, .lParen, .rParen, .semicolon] :=
  tokensOf_ident (ascii ");") h (by decide)

theorem sat_parseLine_ident {env : Env} {fuel : Nat} {s : ParseState} {id : List Byte}
    {ts : List Token} {Q : Outcome -> ParseState -> Prop} {E : Abort -> ParseState -> Prop}
    (h : s.Has (.identifier id :: ts))
    (hcommand : forall s', MovedTo s ts s' -> Sat (parseCommand env fuel id) s' Q E) :
    Sat (parseLine env fuel) s Q E := by
  refine sat_seq (has_nextToken h) fun first s' hs' => ?_
  rw [show first = .identifier id from hs'.1]
  exact hcommand s' hs'.2

/-!
## Values
-/

/-- A bound name is a whole expression where no operator follows. -/
theorem sat_evalExpr_name {env : Env} {fuel : Nat} {s : ParseState} {name : List Byte}
    {v : Word} {ts : List Token} {E : Abort -> ParseState -> Prop}
    (hs : s.Has (.semicolon :: ts)) (hpeek : name ≠ ascii "peek")
    (hlookup : s.comp.lookupSymbol name = some v) :
    Sat (scanning fun c => evalExpr env c (fuel + 3) (some (.identifier name))) s
      (fun value s' => value = v ∧ MovedTo s (.semicolon :: ts) s') E := by
  apply sat_scanning
  have hterm : resolveTerm env s.comp (fuel + 1) (.identifier name) = pure v := by
    simp only [resolveTerm]
    rw [if_neg hpeek, hlookup]
  have hoperand : operand env s.comp (fuel + 2) (.identifier name) = pure v := by
    simp only [operand]
    rw [if_neg (by intro h; cases h), hterm]
  simp only [evalExpr]
  rw [sat_bind, sat_pure, hoperand, sat_bind, sat_pure]
  simp only [evalTail]
  refine sat_seq (has_peek hs) fun tok scan hscan => ?_
  rw [hscan.1]
  exact ⟨rfl, hscan.2, rfl⟩

theorem sat_buildValueProgram (env : Env) (v : Word) (s : ParseState)
    {E : Abort -> ParseState -> Prop} :
    Sat (buildValueProgram env v) s
      (fun program _ => program.stream.words =
        [env.prims.wordOf .lit, v, env.prims.wordOf .halt] ∧ program.yieldsValue = true) E :=
  ⟨rfl, rfl⟩

theorem sat_valueLine (env : Env) (fuel : Nat) {s : ParseState} {name : List Byte} {v : Word}
    {E : Abort -> ParseState -> Prop} (hs : s.Has [.identifier name, .semicolon])
    (hcommand : commandOf name = none) (hlookup : s.comp.lookupSymbol name = some v) :
    Sat (parseLine env (fuel + 3)) s
      (fun outcome _ => exists program, outcome = .run program ∧ program.stream.words =
        [env.prims.wordOf .lit, v, env.prims.wordOf .halt] ∧ program.yieldsValue = true) E := by
  have hpeek : name ≠ ascii "peek" := by
    rintro rfl
    exact absurd hcommand (by decide)
  refine sat_parseLine_ident hs fun s1 hs1 => ?_
  unfold parseCommand
  rw [hcommand]
  refine sat_seq (has_peekToken hs1.tokens) fun ahead s2 hs2 => ?_
  rw [if_neg (by rw [hs2.1]; decide)]
  have hlookup2 : s2.comp.lookupSymbol name = some v := by
    rw [hs2.2.comp, hs1.comp]
    exact hlookup
  refine sat_seq (sat_evalExpr_name hs2.2.tokens hpeek hlookup2) fun value s3 hs3 => ?_
  refine sat_seq (has_expectSemicolon hs3.2.tokens) fun _ s4 _ => ?_
  refine sat_seq (sat_buildValueProgram env value s4) fun program s5 hs5 => ?_
  rw [hs3.1] at hs5
  exact ⟨program, rfl, hs5⟩

/-!
## Calls
-/

theorem sat_buildCallProgram {env : Env} {s : ParseState} {name : List Byte} {body : List Word}
    (h : s.comp.HasFn name body) {E : Abort -> ParseState -> Prop} :
    Sat (buildCallProgram env name) s
      (fun program _ => program.stream.words = body ++ [env.prims.wordOf .halt] ∧
        program.yieldsValue = false) E := by
  obtain ⟨i, hfind, rfl⟩ := h
  have hlength := (s.comp.fns i).length_le
  have hbody : Sat (getFnBody name) s (fun body s' => body = (s.comp.fns i).body ∧ s' = s) E := by
    unfold Sat
    rw [getFnBody_of_some hfind]
    exact ⟨rfl, rfl⟩
  refine sat_seq hbody fun body s1 hs1 => ?_
  rw [hs1.1]
  have hreset : Sat streamReset s1 (fun _ s' => s'.comp.stream.words = []) E := rfl
  refine sat_seq hreset fun _ s2 hs2 => ?_
  have hroom : s2.comp.stream.words.length + (s.comp.fns i).body.length ≤ maxStreamWords := by
    rw [hs2]
    have hbound : fnBodyWords ≤ maxStreamWords := by decide
    simp only [List.length_nil]
    lia
  refine sat_seq (sat_of_emitter (emitter_pushWords _) hroom) fun _ s3 hs3 => ?_
  rw [hs2, List.nil_append] at hs3
  have hhalt : s3.comp.stream.words.length < maxStreamWords := by
    rw [hs3]
    exact Nat.lt_of_le_of_lt hlength (by decide)
  refine sat_seq (sat_of_emitter (emitter_streamPush _) hhalt) fun _ s4 hs4 => ?_
  rw [hs3] at hs4
  exact ⟨hs4, rfl⟩

theorem sat_callLine (env : Env) (fuel : Nat) {s : ParseState} {name : List Byte}
    {body : List Word} {E : Abort -> ParseState -> Prop}
    (hs : s.Has [.identifier name, .lParen, .rParen, .semicolon])
    (hcommand : commandOf name = none) (hfn : s.comp.HasFn name body) :
    Sat (parseLine env fuel) s
      (fun outcome _ => exists program, outcome = .run program ∧
        program.stream.words = body ++ [env.prims.wordOf .halt] ∧
        program.yieldsValue = false) E := by
  refine sat_parseLine_ident hs fun s1 hs1 => ?_
  unfold parseCommand
  rw [hcommand]
  refine sat_seq (has_peekToken hs1.tokens) fun ahead s2 hs2 => ?_
  rw [if_pos (show ahead = .lParen from hs2.1)]
  have htail : Sat callTail s2 (fun _ s' => MovedTo s2 [] s') E := by
    refine sat_seq (has_nextToken hs2.2.tokens) fun _ s3 hs3 => ?_
    refine sat_seq (has_expectToken hs3.2.tokens) fun _ s4 hs4 => ?_
    refine sat_mono (has_expectSemicolon hs4.tokens) ?_ (fun _ _ h => h)
    intro _ s5 hs5
    exact movedTo_trans hs3.2 (movedTo_trans hs4 hs5)
  refine sat_seq htail fun _ s3 hs3 => ?_
  have hfn3 : s3.comp.HasFn name body := by
    rw [hs3.comp, hs2.2.comp, hs1.comp]
    exact hfn
  refine sat_seq (sat_buildCallProgram hfn3) fun program s4 hs4 => ?_
  exact ⟨program, rfl, hs4⟩

/-!
## Command words
-/

/-- `loop` is followed by a count. -/
def NoCount : List Token -> Prop
  | .semicolon :: _ => True
  | .lParen :: .rParen :: _ => True
  | _ => False

theorem operand_fails {env : Env} {c : Compiler} {tok : Token}
    (htok : tok = .semicolon ∨ tok = .rParen) (fuel : Nat) (s : Scan) :
    Sat (operand env c fuel tok) s (fun _ _ => False) (fun _ _ => True) := by
  cases fuel with
  | zero => trivial
  | succ fuel =>
      simp only [operand]
      rcases htok with rfl | rfl
      · rw [if_neg (by decide)]
        cases fuel <;> trivial
      · rw [if_neg (by decide)]
        cases fuel <;> trivial

/-- An opening parenthesis that is closed at once is no operand either. -/
theorem operand_lParen_fails {env : Env} {c : Compiler} {ts : List Token} (fuel : Nat) {s : Scan}
    (hs : s.cur.Has (.rParen :: ts)) :
    Sat (operand env c fuel .lParen) s (fun _ _ => False) (fun _ _ => True) := by
  cases fuel with
  | zero => trivial
  | succ fuel =>
      simp only [operand, if_true]
      have hexpr : Sat (evalExpr env c fuel none) s (fun _ _ => False) (fun _ _ => True) := by
        cases fuel with
        | zero => trivial
        | succ fuel =>
            simp only [evalExpr]
            refine sat_seq (has_next hs) fun tok s1 hs1 => ?_
            exact sat_seq (operand_fails (Or.inr hs1.1) fuel s1) fun _ _ h => h.elim
      exact sat_seq hexpr fun _ _ h => h.elim

theorem atomicTerm_fails {env : Env} {c : Compiler} {fuel : Nat} {s : Scan} {ts : List Token}
    (hs : s.cur.Has ts) (hcount : NoCount ts) :
    Sat (parseAtomicTerm env fuel c) s (fun _ _ => False) (fun _ _ => True) := by
  refine sat_seq (has_next hs) fun tok s1 hs1 => ?_
  cases ts with
  | nil => exact hcount.elim
  | cons t ts =>
      rw [show tok = t from hs1.1]
      cases t with
      | semicolon => exact operand_fails (Or.inl rfl) fuel s1
      | lParen =>
          cases ts with
          | nil => exact hcount.elim
          | cons t' ts =>
              cases t' with
              | rParen => exact operand_lParen_fails fuel hs1.2
              | _ => exact hcount.elim
      | _ => exact hcount.elim

theorem sat_loopCount_noCount {env : Env} {fuel : Nat} {s : ParseState} {ts : List Token}
    (hs : s.Has ts) (hcount : NoCount ts) :
    Sat (loopCount env fuel) s (fun _ _ => False) (fun _ _ => True) := by
  have hterm : Sat (scanning (parseAtomicTerm env fuel)) s (fun _ _ => False)
      (fun _ _ => True) :=
    sat_scanning (atomicTerm_fails hs hcount)
  exact sat_seq hterm fun _ _ h => h.elim

theorem not_run_of_command {env : Env} {c : Compiler} {line : List Byte} {id : List Byte}
    {ts : List Token} {command : Command} {program : StreamProgram} {s : ParseState}
    (htokens : tokensOf line = .identifier id :: ts) (hcommand : commandOf id = some command)
    (hcount : NoCount ts) : parse env c line ≠ .ok (.run program) s := by
  intro hparse
  have hs := has_startState c line
  rw [htokens] at hs
  have hnotRun : Sat (parseLine env (parseFuel line)) (startState c line)
      (fun outcome _ => forall program, outcome ≠ .run program) (fun _ _ => True) := by
    refine sat_parseLine_ident hs fun s1 hs1 => ?_
    unfold parseCommand
    rw [hcommand]
    by_cases hloop : command = .loop
    · rw [hloop]
      exact sat_seq (sat_loopCount_noCount hs1.tokens hcount) fun _ _ h => h.elim
    · refine sat_mono (returns_runCommand env _ command s1) ?_ (fun _ _ h => h)
      intro outcome s2 hanswers program' hrun
      rw [hrun] at hanswers
      exact hloop (loop_of_answers_run hanswers)
  have hne := sat_of_ok hnotRun hparse
  exact hne program rfl

/-!
## Later lines
-/

/-- The compiler after further lines and imports.  Accepted lines have an `allowed`
outcome. -/
inductive Later (allowed : Outcome -> Prop) (c : Compiler) : Compiler -> Prop
  | now : Later allowed c c
  | accepted {c' : Compiler} {env : Env} {line : List Byte} {outcome : Outcome} {s : ParseState} :
      Later allowed c c' -> parse env c' line = .ok outcome s -> allowed outcome ->
      Later allowed c s.comp
  | rejected {c' : Compiler} {env : Env} {line : List Byte} {e : Abort} {s : ParseState} :
      Later allowed c c' -> parse env c' line = .error e s -> Later allowed c s.comp
  | imported {c' c'' : Compiler} {name : List Byte} {words : List Word} :
      Later allowed c c' -> c'.importFn name words = .ok c'' -> Later allowed c c''

/-- The line does not bind `name` again. -/
def KeepsValue (name : NameBuf) (outcome : Outcome) : Prop :=
  forall value, outcome ≠ .bound name value

/-- The line does not define the function `name` again. -/
def KeepsFn (name : NameBuf) (outcome : Outcome) : Prop := outcome ≠ .fnDefined name

theorem nameBuf_eq {a b : NameBuf} (h : a.bytes = b.bytes) : a = b := by
  cases a
  cases b
  cases h
  rfl

/-- One accepted line keeps a value that it does not bind. -/
theorem lookup_of_effect {c c' : Compiler} {outcome : Outcome} {name : NameBuf} {v : Word}
    (h : Effect c outcome c') (hkeeps : KeepsValue name outcome)
    (hlookup : c.lookupSymbol name.bytes = some v) : c'.lookupSymbol name.bytes = some v := by
  have htables : SameTables c c' -> c'.lookupSymbol name.bytes = some v := fun htables =>
    (lookupSymbol_of_symbols htables.symbols _).trans hlookup
  cases outcome with
  | bound other value =>
      refine lookup_insert_of_ne h.2 ?_ hlookup
      intro heq
      rw [nameBuf_eq heq] at hkeeps
      exact hkeeps value rfl
  | fnDefined other =>
      obtain ⟨_, i, hlength, _, hc'⟩ := h
      rw [hc']
      exact (lookupSymbol_of_symbols rfl _).trans hlookup
  | _ => exact htables h

theorem lookup_later {c c' : Compiler} {name : NameBuf} {v : Word}
    (hlater : Later (KeepsValue name) c c') (hlookup : c.lookupSymbol name.bytes = some v) :
    c'.lookupSymbol name.bytes = some v := by
  induction hlater with
  | now => exact hlookup
  | accepted _ hparse hkeeps ih => exact lookup_of_effect (parse_effect hparse) hkeeps ih
  | rejected _ hparse ih =>
      exact (lookupSymbol_of_symbols (sameTables_of_error hparse).symbols _).trans ih
  | imported _ himport ih =>
      obtain ⟨_, _, _, _, rfl⟩ := importFn_ok himport
      exact (lookupSymbol_of_symbols rfl _).trans ih

/-- No line can take a function away: its name is in use. -/
theorem hasFn_of_effect {c c' : Compiler} {outcome : Outcome} {name : List Byte}
    {body : List Word} (h : Effect c outcome c') (hfn : c.HasFn name body) :
    c'.HasFn name body := by
  cases outcome with
  | bound other value => exact hasFn_of_fns (fns_insert h.2) hfn
  | fnDefined other =>
      obtain ⟨_, i, hlength, halloc, hc'⟩ := h
      rw [hc']
      exact hasFn_setFn_of_hasFn (c := c.withStream c'.stream) hfn halloc rfl
  | _ => exact hasFn_of_fns h.fns hfn

theorem hasFn_later {allowed : Outcome -> Prop} {c c' : Compiler} {name : List Byte}
    {body : List Word} (hlater : Later allowed c c') (hfn : c.HasFn name body) :
    c'.HasFn name body := by
  induction hlater with
  | now => exact hfn
  | accepted _ hparse _ ih => exact hasFn_of_effect (parse_effect hparse) ih
  | rejected _ hparse ih => exact hasFn_of_fns (sameTables_of_error hparse).fns ih
  | imported _ himport ih =>
      obtain ⟨_, _, _, halloc, rfl⟩ := importFn_ok himport
      exact hasFn_setFn_of_hasFn ih halloc rfl

/-!
## Definitions that can be used
-/

/-- The program leaves `v`, whatever the memory. -/
structure YieldsValue (prims : Prims) (program : StreamProgram) (v : Word) : Prop where
  words : program.stream.words = [prims.wordOf .lit, v, prims.wordOf .halt]
  runs : forall (σ : Type) (bus : Bus Word Word σ) (s : σ),
    (runThreaded prims bus program s).1 = some v

/-- Now and later, `NAME;` is a program that yields `v`. -/
def ValueUsable (name : NameBuf) (v : Word) (c : Compiler) : Prop :=
  forall c', Later (KeepsValue name) c c' -> forall env : Env, exists program s,
    parse env c' (valueLine name.bytes) = .ok (.run program) s ∧ YieldsValue env.prims program v

/-- Now and later, `NAME();` is `body` and a final halt. -/
def FnUsable (name : NameBuf) (body : List Word) (c : Compiler) : Prop :=
  forall c', Later (KeepsFn name) c c' -> forall env : Env, exists program s,
    parse env c' (callLine name.bytes) = .ok (.run program) s ∧
      program.stream.words = body ++ [env.prims.wordOf .halt]

theorem yieldsValue_of_words {prims : Prims} {program : StreamProgram} {v : Word}
    (hwords : program.stream.words = [prims.wordOf .lit, v, prims.wordOf .halt])
    (hyields : program.yieldsValue = true) : YieldsValue prims program v := by
  refine ⟨hwords, ?_⟩
  intro σ bus s
  have hrun := run_valueProgram prims bus v program s hwords
  unfold runThreaded
  rw [hyields, if_pos rfl, if_pos (by rw [hwords]; exact Nat.succ_pos 2), hrun]
  rfl

theorem valueUsable_of_lookup {name : NameBuf} {v : Word} {c : Compiler}
    (hident : IsIdent name.bytes) (hcommand : commandOf name.bytes = none)
    (hlookup : c.lookupSymbol name.bytes = some v) : ValueUsable name v c := by
  intro c' hlater env
  have hs := has_startState c' (valueLine name.bytes)
  rw [tokensOf_valueLine hident] at hs
  obtain ⟨outcome, s, hparse, program, rfl, hwords, hyields⟩ :=
    exists_of_sat (sat_valueLine env (3 * (valueLine name.bytes).length + 5) hs hcommand
      (lookup_later hlater hlookup))
  exact ⟨program, s, hparse, yieldsValue_of_words hwords hyields⟩

theorem fnUsable_of_hasFn {name : NameBuf} {body : List Word} {c : Compiler}
    (hident : IsIdent name.bytes) (hcommand : commandOf name.bytes = none)
    (hfn : c.HasFn name.bytes body) : FnUsable name body c := by
  intro c' hlater env
  have hs := has_startState c' (callLine name.bytes)
  rw [tokensOf_callLine hident] at hs
  obtain ⟨outcome, s, hparse, program, rfl, hwords, _⟩ :=
    exists_of_sat (sat_callLine env (parseFuel (callLine name.bytes)) hs hcommand
      (hasFn_later hlater hfn))
  exact ⟨program, s, hparse, hwords⟩

theorem noCount_valueLine {name : List Byte} (h : IsIdent name) :
    exists ts, tokensOf (valueLine name) = .identifier name :: ts ∧ NoCount ts :=
  ⟨_, tokensOf_valueLine h, trivial⟩

theorem noCount_callLine {name : List Byte} (h : IsIdent name) :
    exists ts, tokensOf (callLine name) = .identifier name :: ts ∧ NoCount ts :=
  ⟨_, tokensOf_callLine h, trivial⟩

theorem commandOf_of_run {env : Env} {c : Compiler} {line name : List Byte}
    {program : StreamProgram} {s : ParseState}
    (hline : exists ts, tokensOf line = .identifier name :: ts ∧ NoCount ts)
    (hparse : parse env c line = .ok (.run program) s) : commandOf name = none := by
  obtain ⟨ts, htokens, hcount⟩ := hline
  cases hcommand : commandOf name with
  | none => rfl
  | some command => exact absurd hparse (not_run_of_command htokens hcommand hcount)

/-- The name that an accepted line defines. -/
def defines : Outcome -> Option NameBuf
  | .bound name _ => some name
  | .fnDefined name => some name
  | _ => none

/-- What the line defined can be used from now on; `c` is the compiler after the line
and the body is what it has just compiled. -/
def Usable (c : Compiler) : Outcome -> Prop
  | .bound name v => ValueUsable name v c
  | .fnDefined name => FnUsable name c.stream.words c
  | _ => True

/-- A definition can be used unless its name is the word of a command. -/
theorem usable_iff {env : Env} {c : Compiler} {line : List Byte} {outcome : Outcome}
    {s : ParseState} {name : NameBuf} (hparse : parse env c line = .ok outcome s)
    (hname : defines outcome = some name) :
    Usable s.comp outcome ↔ commandOf name.bytes = none := by
  have heffect := parse_effect hparse
  cases outcome with
  | bound name' v =>
      cases hname
      obtain ⟨hident, hinsert⟩ := heffect
      constructor
      · intro husable
        obtain ⟨program, s', huse, _⟩ := husable s.comp Later.now Env.idle
        exact commandOf_of_run (noCount_valueLine hident) huse
      · intro hcommand
        exact valueUsable_of_lookup hident hcommand (lookup_insert hinsert)
  | fnDefined name' =>
      cases hname
      obtain ⟨hident, _⟩ := heffect
      have hfn := hasFn_of_fnDefined hparse
      constructor
      · intro husable
        obtain ⟨program, s', huse, _⟩ := husable s.comp Later.now Env.idle
        exact commandOf_of_run (noCount_callLine hident) huse
      · intro hcommand
        exact fnUsable_of_hasFn hident hcommand hfn
  | _ => cases hname

/-- `x` is no command. -/
theorem usable_letX :
    exists name s, parse Env.idle Compiler.new (ascii "let x = 5;") = .ok (.bound name 5#32) s ∧
      Usable s.comp (.bound name 5#32) := by
  have hparse : exists s, parse Env.idle Compiler.new (ascii "let x = 5;") =
      .ok (.bound ⟨ascii "x", by decide⟩ 5#32) s := ⟨_, rfl⟩
  obtain ⟨s, hparse⟩ := hparse
  exact ⟨_, s, hparse, (usable_iff hparse rfl).mpr (by decide)⟩

/-- `let help = 1;` is accepted, and `help;` prints the help. -/
theorem not_usable_help :
    exists name s, parse Env.idle Compiler.new (ascii "let help = 1;") =
        .ok (.bound name 1#32) s ∧ ¬ Usable s.comp (.bound name 1#32) := by
  have hparse : exists s, parse Env.idle Compiler.new (ascii "let help = 1;") =
      .ok (.bound ⟨ascii "help", by decide⟩ 1#32) s := ⟨_, rfl⟩
  obtain ⟨s, hparse⟩ := hparse
  refine ⟨_, s, hparse, ?_⟩
  intro husable
  obtain ⟨program, s', huse, _⟩ := husable s.comp Later.now Env.idle
  have hcommand := commandOf_of_run (noCount_valueLine (parse_effect hparse).1) huse
  exact absurd hcommand (by decide)

end Execution
end HolyRust
