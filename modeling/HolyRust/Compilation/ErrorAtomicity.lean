import HolyRust.Compilation.Congruence

/-!
# Failing lines

A line that fails leaves the symbol table and the functions alone.  It may leave words
behind in the stream, which every line that reads the stream resets first, so nothing
that is entered later can tell that the failing line was there.
-/

namespace HolyRust
namespace Compilation

open Foundation

/-- The symbol table and the functions; the stream is scratch. -/
structure SameTables (c c' : Compiler) : Prop where
  symbols : c'.symbols = c.symbols
  fns : c'.fns = c.fns

theorem sameTables_refl (c : Compiler) : SameTables c c := ⟨rfl, rfl⟩

theorem sameTables_trans {c c' c'' : Compiler} (h : SameTables c c') (h' : SameTables c' c'') :
    SameTables c c'' :=
  ⟨h'.symbols.trans h.symbols, h'.fns.trans h.fns⟩

/-!
## Parsers that keep the tables
-/

/-- However the parser ends, the tables are as they were. -/
def Keeps (x : ParseM α) : Prop :=
  forall s, Sat x s (fun _ s' => SameTables s.comp s'.comp) (fun _ s' => SameTables s.comp s'.comp)

theorem keeps_pure (a : α) : Keeps (pure a : ParseM α) :=
  fun s => sameTables_refl s.comp

theorem keeps_throw (e : Abort) : Keeps (throw e : ParseM α) :=
  fun s => sameTables_refl s.comp

theorem keeps_bind {x : ParseM α} {f : α -> ParseM β} (hx : Keeps x)
    (hf : forall a, Keeps (f a)) : Keeps (x >>= f) := by
  intro s
  refine sat_seq (hx s) fun a s' hs' => ?_
  exact sat_mono (hf a s') (fun _ _ h => sameTables_trans hs' h)
    (fun _ _ h => sameTables_trans hs' h)

theorem keeps_scanning (x : Compiler -> ScanM α) : Keeps (scanning x) := by
  intro s
  apply sat_scanning
  unfold Sat
  cases x s.comp s.scan <;> exact sameTables_refl s.comp

theorem keeps_get : Keeps (get : ParseM ParseState) :=
  fun s => sameTables_refl s.comp

theorem keeps_setStream (stream : Stream) : Keeps (setStream stream) :=
  fun _ => ⟨rfl, rfl⟩

theorem composes_keeps : Composes (fun x _ => Keeps x) where
  onPure := keeps_pure
  onReject := fun _ => keeps_throw _
  onBind := keeps_bind

theorem onTokens_keeps : OnTokens (fun x _ => Keeps x) where
  toComposes := composes_keeps
  onNext := keeps_scanning _
  onPeek := keeps_scanning _

theorem onStream_keeps : OnStream (fun x _ => Keeps x) where
  toComposes := composes_keeps
  onGet := keeps_bind keeps_get fun _ => keeps_pure _
  onSet := keeps_setStream

theorem keeps_requireAccess (env : Env) (addr : Word) : Keeps (requireAccess env addr) := by
  unfold requireAccess
  cases Capabilities.checkAccess env.target env.registry addr with
  | ok u => exact fun s => sameTables_refl s.comp
  | error cap => exact keeps_throw _

theorem onOperands_keeps (env : Env) (fuel : Nat) :
    OnOperands (fun x _ => Keeps x) env env fuel fuel where
  toComposes := composes_keeps
  target := rfl
  prims := rfl
  onTerm := keeps_scanning _
  onExpr := keeps_scanning _
  onSemicolon := related_expectSemicolon onTokens_keeps
  onAccess := keeps_requireAccess env

theorem keeps_getFnBody (name : List Byte) : Keeps (getFnBody name) := by
  refine keeps_bind keeps_get fun s => ?_
  cases s.comp.findFn name with
  | some i => exact keeps_pure _
  | none => exact keeps_throw _

theorem onStatements_keeps (env : Env) : OnStatements (fun x _ => Keeps x) env env where
  toOnTokens := onTokens_keeps
  onFuel := keeps_throw _
  onPoke := fun fuel => related_pokeStmt (onOperands_keeps env fuel) onStream_keeps
  onPeekStmt := fun fuel => related_peekStmt (onOperands_keeps env fuel) onStream_keeps
  onLoop := fun fuel => related_loopStmt (onOperands_keeps env fuel) onTokens_keeps onStream_keeps
  onCall := fun id => related_spliceCall onStream_keeps (keeps_getFnBody id)
  onExpr := fun _ _ => keeps_scanning _

theorem keeps_parseBlock (env : Env) (fuel : Nat) : Keeps (parseBlock env fuel) :=
  (related_body (onStatements_keeps env) fuel).2

theorem keeps_valueCommand (env : Env) (fuel : Nat) (first : Token) :
    Keeps (valueCommand env fuel first) :=
  related_valueCommand (onOperands_keeps env fuel) onStream_keeps (keeps_scanning _)

theorem keeps_callOrValue (env : Env) (fuel : Nat) (id : List Byte) :
    Keeps (callOrValue env fuel id) :=
  related_callOrValue (onOperands_keeps env fuel) onTokens_keeps
    (related_buildCallProgram onStream_keeps ⟨rfl, rfl⟩ (keeps_getFnBody id))
    (keeps_valueCommand env fuel _)

/-- Only definitions change the tables. -/
theorem keeps_runCommand (env : Env) (fuel : Nat) (command : Command) :
    Keeps (runCommand env fuel command) := by
  have hblock := related_parseTopBlock (onStatements_keeps env) fuel
  have hloop := related_loopCommand (onOperands_keeps env fuel) onTokens_keeps onStream_keeps hblock
  exact related_runCommand (onOperands_keeps env fuel) onTokens_keeps hloop command

/-!
## Lines that fail
-/

/-- A failure leaves the tables as they were. -/
def FailsClean (x : ParseM α) : Prop :=
  forall s, Sat x s (fun _ _ => True) (fun _ s' => SameTables s.comp s'.comp)

theorem failsClean_of_keeps {x : ParseM α} (h : Keeps x) : FailsClean x :=
  fun s => sat_mono (h s) (fun _ _ _ => trivial) (fun _ _ h => h)

/-- Everything before the last part keeps the tables. -/
theorem failsClean_bind {x : ParseM α} {f : α -> ParseM β} (hx : Keeps x)
    (hf : forall a, FailsClean (f a)) : FailsClean (x >>= f) := by
  intro s
  refine sat_seq (hx s) fun a s' hs' => ?_
  exact sat_mono (hf a s') (fun _ _ h => h) (fun _ _ h => sameTables_trans hs' h)

/-- The tables change in the last step of a definition, which cannot fail. -/
theorem failsClean_setComp (c : Compiler) (a : α) :
    FailsClean (setComp c >>= fun _ => (pure a : ParseM α)) :=
  fun _ => trivial

theorem failsClean_parseLet (env : Env) (fuel : Nat) : FailsClean (parseLet env fuel) :=
  failsClean_bind (related_expectName onTokens_keeps) fun _ =>
    failsClean_bind (related_expectToken onTokens_keeps _) fun _ =>
    failsClean_bind (keeps_scanning _) fun _ =>
    failsClean_bind (related_expectSemicolon onTokens_keeps) fun _ =>
    failsClean_bind keeps_get fun _ =>
    failsClean_bind (related_liftExcept composes_keeps _) fun _ => failsClean_setComp _ _

theorem failsClean_defineFn (name : NameBuf) (a : α) :
    FailsClean (defineFn name >>= fun _ => (pure a : ParseM α)) := by
  intro s
  unfold defineFn
  rw [sat_bind, sat_bind, sat_get]
  by_cases h : s.comp.stream.words.length ≤ fnBodyWords
  · rw [dif_pos h]
    have hslot := related_liftExcept composes_keeps (s.comp.allocFnSlot name) s
    exact sat_seq (sat_mono hslot (fun _ _ _ => trivial) fun _ _ h => h) fun _ _ _ => trivial
  · rw [dif_neg h]
    exact sameTables_refl s.comp

theorem failsClean_parseFn (env : Env) (fuel : Nat) : FailsClean (parseFn env fuel) :=
  failsClean_bind (related_expectName onTokens_keeps) fun name =>
    failsClean_bind (related_expectToken onTokens_keeps _) fun _ =>
    failsClean_bind (related_expectToken onTokens_keeps _) fun _ =>
    failsClean_bind (related_expectToken onTokens_keeps _) fun _ =>
    failsClean_bind (keeps_setStream _) fun _ =>
    failsClean_bind (keeps_parseBlock env fuel) fun _ => failsClean_defineFn name _

theorem failsClean_parseLine (env : Env) (fuel : Nat) : FailsClean (parseLine env fuel) := by
  refine failsClean_bind (keeps_scanning _) fun first => ?_
  cases first with
  | kwLet => exact failsClean_parseLet env fuel
  | kwFn => exact failsClean_parseFn env fuel
  | identifier id =>
      show FailsClean (parseCommand env fuel id)
      unfold parseCommand
      cases commandOf id with
      | some command => exact failsClean_of_keeps (keeps_runCommand env fuel command)
      | none => exact failsClean_of_keeps (keeps_callOrValue env fuel id)
  | literal v => exact failsClean_of_keeps (keeps_valueCommand env fuel _)
  | operator op => exact failsClean_of_keeps (keeps_valueCommand env fuel _)
  | lParen => exact failsClean_of_keeps (keeps_valueCommand env fuel _)
  | _ => exact failsClean_of_keeps (keeps_throw _)

theorem sameTables_of_error {env : Env} {c : Compiler} {line : List Byte} {e : Abort}
    {s : ParseState} (h : parse env c line = .error e s) : SameTables c s.comp := by
  have hclean := failsClean_parseLine env (parseFuel line) (startState c line)
  have htables := sat_of_error hclean h
  exact htables

/-!
## What a line sees of the stream
-/

/-- The same compiler with other words in its stream. -/
def Compiler.withStream (c : Compiler) (stream : Stream) : Compiler :=
  { c with stream := stream }

theorem eq_withStream {c c' : Compiler} (h : SameTables c c') : c' = c.withStream c'.stream := by
  cases c
  cases c'
  cases h.symbols
  cases h.fns
  rfl

theorem lookupLoop_withStream (c : Compiler) (stream : Stream) (name : List Byte)
    (start n step : Nat) :
    (c.withStream stream).lookupLoop name start n step = c.lookupLoop name start n step := by
  induction n generalizing step with
  | zero => rfl
  | succ n ih =>
      simp only [Compiler.lookupLoop, ih]
      rfl

theorem lookupSymbol_withStream (c : Compiler) (stream : Stream) (name : List Byte) :
    (c.withStream stream).lookupSymbol name = c.lookupSymbol name :=
  lookupLoop_withStream c stream name _ _ _

/-- An insertion into the same table gives the same table. -/
theorem insertLoop_withStream (c : Compiler) (stream : Stream) (name : NameBuf) (value : Word)
    (start n step : Nat) :
    (c.withStream stream).insertLoop name value start n step =
      (c.insertLoop name value start n step).map fun c' => c'.withStream stream := by
  induction n generalizing step with
  | zero => rfl
  | succ n ih =>
      have hslot : (c.withStream stream).symbols (Compiler.probe start step) =
          c.symbols (Compiler.probe start step) := rfl
      simp only [Compiler.insertLoop, ih, hslot]
      cases c.symbols (Compiler.probe start step) with
      | none => rfl
      | some s =>
          dsimp only
          split <;> rfl

/-- Expressions see the symbols only. -/
structure ExprBlind (env : Env) (c : Compiler) (stream : Stream) (fuel : Nat) : Prop where
  onOperand : forall tok, operand env (c.withStream stream) fuel tok = operand env c fuel tok
  onTerm : forall tok, resolveTerm env (c.withStream stream) fuel tok = resolveTerm env c fuel tok
  onExpr : forall first, evalExpr env (c.withStream stream) fuel first = evalExpr env c fuel first
  onTail : forall acc, evalTail env (c.withStream stream) fuel acc = evalTail env c fuel acc

theorem exprBlind (env : Env) (c : Compiler) (stream : Stream) (fuel : Nat) :
    ExprBlind env c stream fuel := by
  induction fuel with
  | zero => exact ⟨fun _ => rfl, fun _ => rfl, fun _ => rfl, fun _ => rfl⟩
  | succ fuel ih =>
      constructor
      · intro tok
        simp only [operand, ih.onExpr, ih.onTerm]
      · intro tok
        cases tok with
        | identifier id =>
            simp only [resolveTerm, ih.onOperand, lookupSymbol_withStream]
        | _ => simp only [resolveTerm]
      · intro first
        simp only [evalExpr, ih.onOperand, ih.onTail]
      · intro acc
        simp only [evalTail, ih.onOperand, ih.onTail]

/-!
## Lines that only differ in the stream
-/

/-- The same state but for the stream. -/
def ParseState.SameButStream (s t : ParseState) : Prop :=
  exists stream, t = { s with comp := s.comp.withStream stream }

/-- Both end alike, in states that differ in the stream at most. -/
def SameAnswer : EStateM.Result Abort ParseState α -> EStateM.Result Abort ParseState α -> Prop
  | .ok a s, .ok b t => b = a ∧ s.SameButStream t
  | .error e s, .error e' t => e' = e ∧ s.SameButStream t
  | _, _ => False

/-- What the parser does depends on the tables and not on the stream. -/
def Blind (x : ParseM α) : Prop :=
  forall s stream, SameAnswer (x s) (x { s with comp := s.comp.withStream stream })

theorem sameAnswer_refl (r : EStateM.Result Abort ParseState α) : SameAnswer r r := by
  cases r with
  | ok a s => exact ⟨rfl, s.comp.stream, rfl⟩
  | error e s => exact ⟨rfl, s.comp.stream, rfl⟩

theorem blind_pure (a : α) : Blind (pure a : ParseM α) :=
  fun _ stream => ⟨rfl, stream, rfl⟩

theorem blind_throw (e : Abort) : Blind (throw e : ParseM α) :=
  fun _ stream => ⟨rfl, stream, rfl⟩

theorem blind_bind {x : ParseM α} {f : α -> ParseM β} (hx : Blind x)
    (hf : forall a, Blind (f a)) : Blind (x >>= f) := by
  intro s stream
  have hanswer := hx s stream
  rw [bind_apply, bind_apply]
  revert hanswer
  cases x s with
  | ok a s' =>
      cases x { s with comp := s.comp.withStream stream } with
      | ok b t =>
          rintro ⟨rfl, stream', rfl⟩
          exact hf b s' stream'
      | error e t => exact False.elim
  | error e s' =>
      cases x { s with comp := s.comp.withStream stream } with
      | ok b t => exact False.elim
      | error e' t => exact fun h => h

theorem blind_scanning {x : Compiler -> ScanM α}
    (hx : forall c stream, x (Compiler.withStream c stream) = x c) : Blind (scanning x) := by
  intro s stream
  unfold scanning
  dsimp only
  rw [hx]
  cases x s.comp s.scan with
  | ok a scan => exact ⟨rfl, stream, rfl⟩
  | error e scan => exact ⟨rfl, stream, rfl⟩

/-- A parser that resets the stream cannot have seen it. -/
theorem blind_reset (f : Unit -> ParseM α) : Blind (streamReset >>= f) :=
  fun s _ => sameAnswer_refl ((streamReset >>= f) s)

theorem composes_blind : Composes (fun x _ => Blind x) where
  onPure := blind_pure
  onReject := fun _ => blind_throw _
  onBind := blind_bind

theorem onTokens_blind : OnTokens (fun x _ => Blind x) where
  toComposes := composes_blind
  onNext := blind_scanning fun _ _ => rfl
  onPeek := blind_scanning fun _ _ => rfl

theorem blind_atomicTerm (env : Env) (fuel : Nat) :
    Blind (scanning (parseAtomicTerm env fuel)) := by
  apply blind_scanning
  intro c stream
  simp only [parseAtomicTerm, (exprBlind env c stream fuel).onOperand]

theorem blind_evalExpr (env : Env) (fuel : Nat) (first : Option Token) :
    Blind (scanning fun c => evalExpr env c fuel first) :=
  blind_scanning fun c stream => (exprBlind env c stream fuel).onExpr first

theorem blind_requireAccess (env : Env) (addr : Word) : Blind (requireAccess env addr) := by
  unfold requireAccess
  cases Capabilities.checkAccess env.target env.registry addr with
  | ok u => exact fun _ stream => ⟨rfl, stream, rfl⟩
  | error cap => exact blind_throw _

theorem onOperands_blind (env : Env) (fuel : Nat) :
    OnOperands (fun x _ => Blind x) env env fuel fuel where
  toComposes := composes_blind
  target := rfl
  prims := rfl
  onTerm := blind_atomicTerm env fuel
  onExpr := blind_evalExpr env fuel none
  onSemicolon := related_expectSemicolon onTokens_blind
  onAccess := blind_requireAccess env

theorem getFnBody_of_some {name : List Byte} {s : ParseState} {i : Fin maxFns}
    (h : s.comp.findFn name = some i) : getFnBody name s = .ok (s.comp.fns i).body s := by
  unfold getFnBody
  rw [bind_apply, get_apply]
  dsimp only
  rw [h]
  rfl

theorem getFnBody_of_none {name : List Byte} {s : ParseState}
    (h : s.comp.findFn name = none) : getFnBody name s = .error (.error .unknownSymbol) s := by
  unfold getFnBody
  rw [bind_apply, get_apply]
  dsimp only
  rw [h]
  rfl

theorem blind_getFnBody (name : List Byte) : Blind (getFnBody name) := by
  intro s stream
  cases hfind : s.comp.findFn name with
  | some i =>
      rw [getFnBody_of_some hfind,
        getFnBody_of_some (s := { s with comp := s.comp.withStream stream }) hfind]
      exact ⟨rfl, stream, rfl⟩
  | none =>
      rw [getFnBody_of_none hfind,
        getFnBody_of_none (s := { s with comp := s.comp.withStream stream }) hfind]
      exact ⟨rfl, stream, rfl⟩

/-!
## Lines
-/

theorem blind_define (name : NameBuf) (value : Word) :
    Blind (do
      let s <- get
      let c <- liftExcept (s.comp.insertSymbol name value)
      setComp c
      pure (Outcome.bound name value)) := by
  intro s stream
  rw [bind_apply, bind_apply, get_apply, get_apply]
  dsimp only
  have hinsert : (s.comp.withStream stream).insertSymbol name value =
      (s.comp.insertSymbol name value).map fun c => c.withStream stream :=
    insertLoop_withStream s.comp stream name value _ _ _
  rw [hinsert]
  cases s.comp.insertSymbol name value with
  | ok c => exact ⟨rfl, stream, rfl⟩
  | error e => exact ⟨rfl, stream, rfl⟩

theorem blind_parseLet (env : Env) (fuel : Nat) : Blind (parseLet env fuel) :=
  blind_bind (related_expectName onTokens_blind) fun name =>
    blind_bind (related_expectToken onTokens_blind _) fun _ =>
    blind_bind (blind_evalExpr env fuel none) fun value =>
    blind_bind (related_expectSemicolon onTokens_blind) fun _ => blind_define name value

theorem blind_parseFn (env : Env) (fuel : Nat) : Blind (parseFn env fuel) :=
  blind_bind (related_expectName onTokens_blind) fun _ =>
    blind_bind (related_expectToken onTokens_blind _) fun _ =>
    blind_bind (related_expectToken onTokens_blind _) fun _ =>
    blind_bind (related_expectToken onTokens_blind _) fun _ => blind_reset _

theorem blind_loopCommand (env : Env) (fuel : Nat) : Blind (loopCommand env fuel) :=
  blind_bind (related_loopCount (onOperands_blind env fuel)) fun _ =>
    blind_bind (related_expectToken onTokens_blind _) fun _ => blind_reset _

theorem blind_valueCommand (env : Env) (fuel : Nat) (first : Token) :
    Blind (valueCommand env fuel first) :=
  blind_bind (blind_evalExpr env fuel _) fun _ =>
    blind_bind (related_expectSemicolon onTokens_blind) fun _ =>
    blind_bind (blind_reset _) fun _ => blind_pure _

theorem blind_callOrValue (env : Env) (fuel : Nat) (id : List Byte) :
    Blind (callOrValue env fuel id) :=
  related_callOrValue (onOperands_blind env fuel) onTokens_blind
    (blind_bind (blind_getFnBody id) fun _ => blind_reset _) (blind_valueCommand env fuel _)

theorem blind_parseLine (env : Env) (fuel : Nat) : Blind (parseLine env fuel) :=
  related_parseLine (onOperands_blind env fuel) onTokens_blind (blind_parseLet env fuel)
    (blind_parseFn env fuel)
    (related_runCommand (onOperands_blind env fuel) onTokens_blind (blind_loopCommand env fuel))
    (blind_callOrValue env fuel) (blind_valueCommand env fuel)

/-- What a line does depends on the tables only. -/
theorem parse_sameAnswer {c c' : Compiler} (h : SameTables c c') (env : Env) (line : List Byte) :
    SameAnswer (parse env c line) (parse env c' line) := by
  rw [eq_withStream h]
  exact blind_parseLine env (parseFuel line) (startState c line) c'.stream

/-!
## Everything that is entered later
-/

/-- A step that may fail and does not look at the state. -/
def lifted (x : Except ParseError α) : EStateM ParseError Compiler α :=
  match x with
  | .ok a => pure a
  | .error e => throw e

/-- `import_fn` on the compiler itself, in the order of its checks and stores. -/
def importFnInto (name : List Byte) (words : List Word) : EStateM ParseError Compiler Unit :=
  if nameMax < name.length then
    throw .nameTooLong
  else if h : words.length ≤ fnBodyWords then do
    let nb <- lifted (NameBuf.fromSlice name)
    let c <- get
    let index <- lifted (c.allocFnSlot nb)
    modify fun c => c.setFn index ⟨nb, words, h⟩
  else
    throw .streamFull

/-- A failing import changes nothing at all, a successful one is `importFn`. -/
theorem importFnInto_eq (name : List Byte) (words : List Word) (c : Compiler) :
    importFnInto name words c =
      (c.importFn name words).casesOn (fun e => .error e c) (fun c' => .ok () c') := by
  unfold importFnInto Compiler.importFn
  by_cases hname : nameMax < name.length
  · rw [if_pos hname, if_pos hname]
    rfl
  · rw [if_neg hname, if_neg hname]
    by_cases hwords : words.length ≤ fnBodyWords
    · rw [dif_pos hwords, dif_pos hwords]
      cases NameBuf.fromSlice name with
      | error e => rfl
      | ok nb =>
          show (lifted (c.allocFnSlot nb) >>= fun index =>
            modify fun c => c.setFn index ⟨nb, words, hwords⟩ : EStateM _ _ _) c = _
          dsimp only
          cases c.allocFnSlot nb <;> rfl
    · rw [dif_neg hwords, dif_neg hwords]
      rfl

/-- What the rest of the kernel asks of the compiler. -/
inductive Use where
  | line (env : Env) (text : List Byte)
  | importFn (name : List Byte) (words : List Word)
  | exportFn (name : List Byte) (capacity : Nat)

/-- What it gets: for a line also the memory that was read while compiling. -/
inductive Reply where
  | line (answer : Except Abort Outcome) (reads : List Word)
  | imported (answer : Except ParseError Unit)
  | exported (words : Option (List Word))

def lineReply : EStateM.Result Abort ParseState Outcome -> Reply × Compiler
  | .ok outcome s => (.line (.ok outcome) s.scan.reads, s.comp)
  | .error e s => (.line (.error e) s.scan.reads, s.comp)

def importReply : EStateM.Result ParseError Compiler Unit -> Reply × Compiler
  | .ok _ c => (.imported (.ok ()), c)
  | .error e c => (.imported (.error e), c)

def Use.run (c : Compiler) : Use -> Reply × Compiler
  | .line env text => lineReply (parse env c text)
  | .importFn name words => importReply (importFnInto name words c)
  | .exportFn name capacity => (.exported (c.exportFn name capacity), c)

/-- The replies to uses one after another. -/
def replies (c : Compiler) : List Use -> List Reply
  | [] => []
  | use :: later => (use.run c).1 :: replies (use.run c).2 later

theorem lineReply_congr {r r' : EStateM.Result Abort ParseState Outcome} (h : SameAnswer r r') :
    (lineReply r').1 = (lineReply r).1 ∧ SameTables (lineReply r).2 (lineReply r').2 := by
  cases r with
  | ok outcome s =>
      cases r' with
      | ok outcome' t =>
          obtain ⟨rfl, stream, rfl⟩ := h
          exact ⟨rfl, rfl, rfl⟩
      | error e t => exact h.elim
  | error e s =>
      cases r' with
      | ok outcome t => exact h.elim
      | error e' t =>
          obtain ⟨rfl, stream, rfl⟩ := h
          exact ⟨rfl, rfl, rfl⟩

theorem importReply_congr {c c' : Compiler} (h : SameTables c c') (name : List Byte)
    (words : List Word) :
    (importReply (importFnInto name words c')).1 = (importReply (importFnInto name words c)).1 ∧
      SameTables (importReply (importFnInto name words c)).2
        (importReply (importFnInto name words c')).2 := by
  rw [eq_withStream h]
  have himport : (c.withStream c'.stream).importFn name words =
      (c.importFn name words).map fun c => c.withStream c'.stream := by
    unfold Compiler.importFn
    split
    · rfl
    · split
      · cases NameBuf.fromSlice name with
        | error e => rfl
        | ok nb =>
            have hslot : (c.withStream c'.stream).allocFnSlot nb = c.allocFnSlot nb := rfl
            dsimp only
            rw [hslot]
            cases c.allocFnSlot nb <;> rfl
      · rfl
  rw [importFnInto_eq, importFnInto_eq, himport]
  cases c.importFn name words with
  | error e => exact ⟨rfl, rfl, rfl⟩
  | ok c1 => exact ⟨rfl, rfl, rfl⟩

/-- One use: the same reply, and still the same tables. -/
theorem run_congr {c c' : Compiler} (h : SameTables c c') (use : Use) :
    (use.run c').1 = (use.run c).1 ∧ SameTables (use.run c).2 (use.run c').2 := by
  cases use with
  | line env text => exact lineReply_congr (parse_sameAnswer h env text)
  | importFn name words => exact importReply_congr h name words
  | exportFn name capacity =>
      rw [eq_withStream h]
      exact ⟨rfl, rfl, rfl⟩

theorem replies_congr {c c' : Compiler} (h : SameTables c c') (uses : List Use) :
    replies c' uses = replies c uses := by
  induction uses generalizing c c' with
  | nil => rfl
  | cons use later ih =>
      obtain ⟨hreply, htables⟩ := run_congr h use
      simp only [replies]
      rw [hreply, ih htables]

/-- The compiler that is left, `c'`, is as good as the one before. -/
structure Unharmed (c c' : Compiler) : Prop where
  tables : SameTables c c'
  later : forall uses, replies c' uses = replies c uses

theorem unharmed_of_sameTables {c c' : Compiler} (h : SameTables c c') : Unharmed c c' :=
  ⟨h, replies_congr h⟩

/-- A line or an import that fails leaves the tables as they were, and whatever is
entered later behaves as if it had not been there. -/
theorem failures_atomic (c : Compiler) :
    (forall env line e s, parse env c line = .error e s -> Unharmed c s.comp) ∧
      forall name words e c', importFnInto name words c = .error e c' -> Unharmed c c' := by
  constructor
  · intro env line e s hparse
    exact unharmed_of_sameTables (sameTables_of_error hparse)
  · intro name words e c' himport
    rw [importFnInto_eq] at himport
    cases hresult : c.importFn name words with
    | error e' =>
        rw [hresult] at himport
        cases himport
        exact unharmed_of_sameTables (sameTables_refl c)
    | ok c1 =>
        rw [hresult] at himport
        cases himport

/-- The words that a failing line leaves in the stream. -/
def leftover : EStateM.Result Abort ParseState Outcome -> Option (List Word)
  | .ok _ _ => none
  | .error _ s => some s.comp.stream.words

theorem error_of_leftover {r : EStateM.Result Abort ParseState Outcome} {words : List Word}
    (h : leftover r = some words) : exists e s, r = .error e s ∧ s.comp.stream.words = words := by
  cases r with
  | ok outcome s => cases h
  | error e s => exact ⟨e, s, rfl, Option.some.inj h⟩

/-- A body that is never closed, after one statement of it was compiled. -/
theorem failures_atomic_unclosed :
    exists e s, parse Env.idle Compiler.new (ascii "fn f() \x7b peek 0x20000000; loop 2 \x7b") =
        .error e s ∧ s.comp.stream.words.length = 3 ∧ Unharmed Compiler.new s.comp := by
  have hleft : (leftover (parse Env.idle Compiler.new
      (ascii "fn f() \x7b peek 0x20000000; loop 2 \x7b"))) =
        some [Prims.inFlash.wordOf .lit, 0x20000000#32, Prims.inFlash.wordOf .loadReg] := by
    decide +kernel
  obtain ⟨e, s, hparse, hwords⟩ := error_of_leftover hleft
  exact ⟨e, s, hparse, by rw [hwords]; rfl, (failures_atomic Compiler.new).1 _ _ _ _ hparse⟩

end Compilation
end HolyRust
