import HolyRust.Compilation.Congruence

/-!
# Memory read while compiling

A `peek` term is evaluated on the spot, without asking the registry.  A parse is
compared with the parse of the same line over the claimed part of memory, where
every other address faults: the two agree as long as no refused address is read.
-/

namespace HolyRust
namespace Compilation

open Foundation
open Capabilities

/-- The same environment with only the claimed part of memory. -/
def Env.claimedOnly (env : Env) : Env :=
  { env with
    mem := fun addr => if Accessible env.target env.registry addr then env.mem addr else none }

/-- The parse ran into a refused address. -/
def Refused (env : Env) (e : Abort) : Prop :=
  exists addr, e = .fault addr ∧ ¬ Accessible env.target env.registry addr

/-- So far only accessible addresses were read. -/
def ReadsClaimed (env : Env) (s : Scan) : Prop :=
  forall addr, addr ∈ s.reads -> Accessible env.target env.registry addr

/-!
## Expressions
-/

section Expressions

variable (env : Env)

/-- A parser over all of memory and the same one over the claimed part. -/
abbrev ScanAgree (x y : ScanM α) : Prop := AgreeUntil (ReadsClaimed env) (Refused env) x y

theorem scanAgree_of_ok {x : ScanM α} (f : Scan -> α × Scan)
    (hx : forall s, x s = .ok (f s).1 (f s).2) (hreads : forall s, (f s).2.reads = s.reads) :
    ScanAgree env x x := by
  apply agreeUntil_refl
  · intro s
    unfold ReadsClaimed
    rw [hx, finalState_ok, hreads]
  · intro s
    rw [hx]
    exact not_stopsWith_ok _ _ _

theorem scanAgree_pure (a : α) : ScanAgree env (pure a) (pure a) :=
  scanAgree_of_ok env (fun s => (a, s)) (fun _ => rfl) (fun _ => rfl)

theorem scanAgree_next : ScanAgree env next next :=
  scanAgree_of_ok env (fun s => (s.cur.next.1, { s with cur := s.cur.next.2 }))
    (fun _ => rfl) (fun _ => rfl)

theorem scanAgree_peek : ScanAgree env peek peek :=
  scanAgree_of_ok env (fun s => (s.cur.peek.1, { s with cur := s.cur.peek.2 }))
    (fun _ => rfl) (fun _ => rfl)

theorem not_refused_error (e : ParseError) : ¬ Refused env (.error e) := by
  rintro ⟨addr, h, _⟩
  cases h

theorem not_refused_fuel : ¬ Refused env .fuel := by
  rintro ⟨addr, h, _⟩
  cases h

/-- A failure other than a refused read. -/
theorem agreeUntil_throw {Good : σ -> Prop} {e : Abort} (h : ¬ Refused env e) :
    AgreeUntil Good (Refused env) (throw e : EStateM Abort σ α) (throw e) := by
  apply agreeUntil_refl
  · intro s
    rfl
  · intro s
    rw [throw_apply, stopsWith_error]
    exact h

theorem scanAgree_fail (e : ParseError) : ScanAgree env (fail e : ScanM α) (fail e) :=
  agreeUntil_throw env (not_refused_error env e)

theorem readsClaimed_cons (addr : Word) (s : Scan) :
    ReadsClaimed env { s with reads := addr :: s.reads } ↔
      Accessible env.target env.registry addr ∧ ReadsClaimed env s := by
  unfold ReadsClaimed
  simp only [List.forall_mem_cons]

/-- Where the reading of a refused address is noticed. -/
theorem scanAgree_peekU32 (addr : Word) :
    ScanAgree env (peekU32 env addr) (peekU32 env.claimedOnly addr) := by
  have hfinal : forall s,
      finalState (peekU32 env addr s) = { s with reads := addr :: s.reads } := by
    intro s
    unfold peekU32
    rw [bind_apply, modify_apply]
    cases hmem : env.mem addr <;> rfl
  constructor
  · intro s hs
    rw [hfinal, readsClaimed_cons]
    exact fun h => hs h.right
  · intro s hs
    rw [hfinal, readsClaimed_cons]
    by_cases haccess : Accessible env.target env.registry addr
    · have hmem : env.claimedOnly.mem addr = env.mem addr := if_pos haccess
      refine Or.inl ⟨?_, ⟨haccess, hs⟩, ?_⟩
      · unfold peekU32
        rw [hmem]
      · rintro ⟨e, s', heq, addr', rfl, haddr'⟩
        unfold peekU32 at heq
        rw [bind_apply, modify_apply] at heq
        cases hread : env.mem addr with
        | some v =>
            rw [hread] at heq
            cases heq
        | none =>
            rw [hread] at heq
            cases heq
            exact haddr' haccess
    · have hmem : env.claimedOnly.mem addr = none := if_neg haccess
      refine Or.inr ⟨fun h => haccess h.left, .fault addr,
        { s with reads := addr :: s.reads }, ?_, addr, rfl, haccess⟩
      unfold peekU32
      rw [hmem]
      rfl

theorem scanAgree_applyOperator (op : Byte) (acc rhs : Word) :
    ScanAgree env (applyOperator op acc rhs) (applyOperator op acc rhs) := by
  have hdivide : forall v : Word, ScanAgree env (if rhs = 0#32 then fail .divByZero else pure v)
      (if rhs = 0#32 then fail .divByZero else pure v) := by
    intro v
    exact agreeUntil_ite (scanAgree_fail env _) (scanAgree_pure env v)
  unfold applyOperator
  refine agreeUntil_ite (scanAgree_pure env _) ?_
  refine agreeUntil_ite (scanAgree_pure env _) ?_
  refine agreeUntil_ite (scanAgree_pure env _) ?_
  exact agreeUntil_ite (hdivide _) (hdivide _)

/-- The four expression parsers agree, for all of them at once. -/
structure ExprAgree (c : Compiler) (fuel : Nat) : Prop where
  onOperand : forall tok,
    ScanAgree env (operand env c fuel tok) (operand env.claimedOnly c fuel tok)
  onTerm : forall tok,
    ScanAgree env (resolveTerm env c fuel tok) (resolveTerm env.claimedOnly c fuel tok)
  onExpr : forall first,
    ScanAgree env (evalExpr env c fuel first) (evalExpr env.claimedOnly c fuel first)
  onTail : forall acc,
    ScanAgree env (evalTail env c fuel acc) (evalTail env.claimedOnly c fuel acc)

variable {env}

theorem scanAgree_operand_succ {c : Compiler} {fuel : Nat} (h : ExprAgree env c fuel)
    (tok : Token) :
    ScanAgree env (operand env c (fuel + 1) tok) (operand env.claimedOnly c (fuel + 1) tok) := by
  unfold operand
  refine agreeUntil_ite ?_ (h.onTerm tok)
  refine agreeUntil_bind (h.onExpr none) fun v => ?_
  refine agreeUntil_bind (scanAgree_next env) fun close => ?_
  exact agreeUntil_ite (scanAgree_pure env v) (scanAgree_fail env _)

theorem scanAgree_resolveTerm_succ {c : Compiler} {fuel : Nat} (h : ExprAgree env c fuel)
    (tok : Token) :
    ScanAgree env (resolveTerm env c (fuel + 1) tok)
      (resolveTerm env.claimedOnly c (fuel + 1) tok) := by
  unfold resolveTerm
  cases tok with
  | literal v => exact scanAgree_pure env v
  | identifier id =>
      refine agreeUntil_ite ?_ ?_
      · refine agreeUntil_bind (scanAgree_next env) fun first => ?_
        refine agreeUntil_bind (h.onOperand first) fun addr => ?_
        exact scanAgree_peekU32 env addr
      · cases c.lookupSymbol id with
        | some v => exact scanAgree_pure env v
        | none => exact scanAgree_fail env _
  | _ => exact scanAgree_fail env _

theorem scanAgree_evalExpr_succ {c : Compiler} {fuel : Nat} (h : ExprAgree env c fuel)
    (first : Option Token) :
    ScanAgree env (evalExpr env c (fuel + 1) first)
      (evalExpr env.claimedOnly c (fuel + 1) first) := by
  have hrest : forall head, ScanAgree env
      (operand env c fuel head >>= evalTail env c fuel)
      (operand env.claimedOnly c fuel head >>= evalTail env.claimedOnly c fuel) := by
    intro head
    exact agreeUntil_bind (h.onOperand head) h.onTail
  unfold evalExpr
  cases first with
  | some tok => exact agreeUntil_bind (scanAgree_pure env tok) hrest
  | none => exact agreeUntil_bind (scanAgree_next env) hrest

theorem scanAgree_evalTail_succ {c : Compiler} {fuel : Nat} (h : ExprAgree env c fuel)
    (acc : Word) :
    ScanAgree env (evalTail env c (fuel + 1) acc)
      (evalTail env.claimedOnly c (fuel + 1) acc) := by
  unfold evalTail
  refine agreeUntil_bind (scanAgree_peek env) fun tok => ?_
  cases tok with
  | operator op =>
      refine agreeUntil_ite ?_ (scanAgree_pure env acc)
      refine agreeUntil_bind (scanAgree_next env) fun _ => ?_
      refine agreeUntil_bind (scanAgree_next env) fun first => ?_
      refine agreeUntil_bind (h.onOperand first) fun rhs => ?_
      exact agreeUntil_bind (scanAgree_applyOperator env op acc rhs) h.onTail
  | _ => exact scanAgree_pure env acc

theorem exprAgree (c : Compiler) (fuel : Nat) : ExprAgree env c fuel := by
  induction fuel with
  | zero => constructor <;> intros <;> exact agreeUntil_throw env (not_refused_fuel env)
  | succ fuel ih =>
      exact ⟨scanAgree_operand_succ ih, scanAgree_resolveTerm_succ ih,
        scanAgree_evalExpr_succ ih, scanAgree_evalTail_succ ih⟩

end Expressions

/-!
## Statements
-/

section Statements

variable (env : Env)

abbrev ParseAgree (x y : ParseM α) : Prop :=
  AgreeUntil (fun s : ParseState => ReadsClaimed env s.scan) (Refused env) x y

theorem parseAgree_of_ok {x : ParseM α} (f : ParseState -> α × ParseState)
    (hx : forall s, x s = .ok (f s).1 (f s).2) (hscan : forall s, (f s).2.scan = s.scan) :
    ParseAgree env x x := by
  apply agreeUntil_refl
  · intro s
    rw [hx, finalState_ok, hscan]
  · intro s
    rw [hx]
    exact not_stopsWith_ok _ _ _

theorem parseAgree_pure (a : α) : ParseAgree env (pure a) (pure a) :=
  parseAgree_of_ok env (fun s => (a, s)) (fun _ => rfl) (fun _ => rfl)

theorem parseAgree_reject (e : ParseError) : ParseAgree env (reject e : ParseM α) (reject e) :=
  agreeUntil_throw env (not_refused_error env e)

theorem parseAgree_get : ParseAgree env get get :=
  parseAgree_of_ok env (fun s => (s, s)) (fun _ => rfl) (fun _ => rfl)

theorem parseAgree_setComp (c : Compiler) : ParseAgree env (setComp c) (setComp c) :=
  parseAgree_of_ok env (fun s => ((), { s with comp := c })) (fun _ => rfl) (fun _ => rfl)

theorem parseAgree_setStream (stream : Stream) :
    ParseAgree env (setStream stream) (setStream stream) :=
  parseAgree_of_ok env (fun s => ((), { s with comp := { s.comp with stream := stream } }))
    (fun _ => rfl) (fun _ => rfl)

theorem finalState_scanning (x : Compiler -> ScanM α) (s : ParseState) :
    (finalState (scanning x s)).scan = finalState (x s.comp s.scan) := by
  unfold scanning
  cases x s.comp s.scan <;> rfl

theorem parseAgree_scanning {x y : Compiler -> ScanM α}
    (h : forall c, ScanAgree env (x c) (y c)) :
    ParseAgree env (scanning x) (scanning y) := by
  constructor
  · intro s hs
    rw [finalState_scanning]
    exact (h s.comp).bad s.scan hs
  · intro s hs
    rw [finalState_scanning]
    rcases (h s.comp).good s.scan hs with ⟨heq, hgood, hrun⟩ | ⟨hbad, e, scan, hy, he⟩
    · refine Or.inl ⟨?_, hgood, ?_⟩
      · unfold scanning
        rw [heq]
      · unfold scanning
        cases hx : x s.comp s.scan with
        | ok a scan => exact not_stopsWith_ok _ _ _
        | error e scan =>
            rw [hx, stopsWith_error] at hrun
            rw [stopsWith_error]
            exact hrun
    · refine Or.inr ⟨hbad, e, { s with scan := scan }, ?_, he⟩
      unfold scanning
      rw [hy]

theorem composes_parseAgree : Composes (ParseAgree env) where
  onPure := parseAgree_pure env
  onReject := parseAgree_reject env
  onBind := agreeUntil_bind

theorem onTokens_parseAgree : OnTokens (ParseAgree env) where
  toComposes := composes_parseAgree env
  onNext := parseAgree_scanning env fun _ => scanAgree_next env
  onPeek := parseAgree_scanning env fun _ => scanAgree_peek env

theorem onStream_parseAgree : OnStream (ParseAgree env) where
  toComposes := composes_parseAgree env
  onGet := agreeUntil_bind (parseAgree_get env) fun _ => parseAgree_pure env _
  onSet := parseAgree_setStream env

/-- The registry is the same on both sides. -/
theorem parseAgree_requireAccess (addr : Word) :
    ParseAgree env (requireAccess env addr) (requireAccess env.claimedOnly addr) := by
  show ParseAgree env (requireAccess env addr) (requireAccess env addr)
  unfold requireAccess
  cases checkAccess env.target env.registry addr with
  | ok _ =>
      exact parseAgree_of_ok env (fun s => ((), { s with checked := addr :: s.checked }))
        (fun _ => rfl) (fun _ => rfl)
  | error _ => exact parseAgree_reject env _

theorem parseAgree_evalExpr (fuel : Nat) (first : Option Token) :
    ParseAgree env (scanning fun c => evalExpr env c fuel first)
      (scanning fun c => evalExpr env.claimedOnly c fuel first) :=
  parseAgree_scanning env fun c => (exprAgree c fuel).onExpr first

theorem onOperands_parseAgree (fuel : Nat) :
    OnOperands (ParseAgree env) env env.claimedOnly fuel fuel where
  toComposes := composes_parseAgree env
  target := rfl
  prims := rfl
  onTerm := parseAgree_scanning env fun c =>
    agreeUntil_bind (scanAgree_next env) fun first => (exprAgree c fuel).onOperand first
  onExpr := parseAgree_evalExpr env fuel none
  onSemicolon := related_expectSemicolon (onTokens_parseAgree env)
  onAccess := parseAgree_requireAccess env

theorem parseAgree_getFnBody (name : List Byte) :
    ParseAgree env (getFnBody name) (getFnBody name) := by
  refine agreeUntil_bind (parseAgree_get env) fun s => ?_
  cases s.comp.findFn name with
  | some i => exact parseAgree_pure env _
  | none => exact parseAgree_reject env _

theorem onStatements_parseAgree : OnStatements (ParseAgree env) env env.claimedOnly where
  toOnTokens := onTokens_parseAgree env
  onFuel := agreeUntil_throw env (not_refused_fuel env)
  onPoke := fun fuel => related_pokeStmt (onOperands_parseAgree env fuel) (onStream_parseAgree env)
  onPeekStmt := fun fuel =>
    related_peekStmt (onOperands_parseAgree env fuel) (onStream_parseAgree env)
  onLoop := fun fuel => related_loopStmt (onOperands_parseAgree env fuel)
    (onTokens_parseAgree env) (onStream_parseAgree env)
  onCall := fun id => related_spliceCall (onStream_parseAgree env) (parseAgree_getFnBody env id)
  onExpr := fun fuel first => parseAgree_evalExpr env fuel (some first)

end Statements

/-!
## Lines
-/

section Lines

variable (env : Env) (fuel : Nat)

theorem parseAgree_parseLet :
    ParseAgree env (parseLet env fuel) (parseLet env.claimedOnly fuel) :=
  agreeUntil_bind (related_expectName (onTokens_parseAgree env)) fun _ =>
    agreeUntil_bind (related_expectToken (onTokens_parseAgree env) _) fun _ =>
    agreeUntil_bind (parseAgree_evalExpr env fuel none) fun _ =>
    agreeUntil_bind (related_expectSemicolon (onTokens_parseAgree env)) fun _ =>
    agreeUntil_bind (parseAgree_get env) fun _ =>
    agreeUntil_bind (related_liftExcept (composes_parseAgree env) _) fun _ =>
    agreeUntil_bind (parseAgree_setComp env _) fun _ => parseAgree_pure env _

theorem parseAgree_defineFn (name : NameBuf) :
    ParseAgree env (defineFn name) (defineFn name) := by
  refine agreeUntil_bind (parseAgree_get env) fun s => ?_
  by_cases h : s.comp.stream.words.length ≤ fnBodyWords
  · rw [dif_pos h]
    exact agreeUntil_bind (related_liftExcept (composes_parseAgree env) _) fun _ =>
      parseAgree_setComp env _
  · rw [dif_neg h]
    exact parseAgree_reject env _

theorem parseAgree_parseFn :
    ParseAgree env (parseFn env fuel) (parseFn env.claimedOnly fuel) := by
  have hexpect := related_expectToken (onTokens_parseAgree env)
  exact agreeUntil_bind (related_expectName (onTokens_parseAgree env)) fun _ =>
    agreeUntil_bind (hexpect _) fun _ => agreeUntil_bind (hexpect _) fun _ =>
    agreeUntil_bind (hexpect _) fun _ => agreeUntil_bind (parseAgree_setStream env _) fun _ =>
    agreeUntil_bind (related_body (onStatements_parseAgree env) fuel).2 fun _ =>
    agreeUntil_bind (parseAgree_defineFn env _) fun _ => parseAgree_pure env _

theorem parseAgree_parseLine :
    ParseAgree env (parseLine env fuel) (parseLine env.claimedOnly fuel) := by
  have htokens := onTokens_parseAgree env
  have hstream := onStream_parseAgree env
  have hoperands := onOperands_parseAgree env fuel
  have hvalue : forall first, ParseAgree env (valueCommand env fuel first)
      (valueCommand env.claimedOnly fuel first) := fun first =>
    related_valueCommand hoperands hstream (parseAgree_evalExpr env fuel (some first))
  refine related_parseLine hoperands htokens (parseAgree_parseLet env fuel)
    (parseAgree_parseFn env fuel) ?_ ?_ hvalue
  · have hblock := related_parseTopBlock (onStatements_parseAgree env) fuel
    exact related_runCommand hoperands htokens
      (related_loopCommand hoperands htokens hstream hblock)
  · intro id
    exact related_callOrValue hoperands htokens
      (related_buildCallProgram hstream hoperands.toSameBuild (parseAgree_getFnBody env id))
      (hvalue _)

end Lines

/-!
## What compile-time reads reveal
-/

/-- Every address read while compiling the line passes `check_access`, and what
the line compiles to does not depend on what refused addresses hold. -/
structure CompileReadsChecked (env : Env) (c : Compiler) (line : List Byte) : Prop where
  checked : ReadsClaimed env (finalState (parse env c line)).scan
  independent : forall mem : Word -> Option Word,
    (forall addr, Accessible env.target env.registry addr -> mem addr = env.mem addr) ->
      parse { env with mem := mem } c line = parse env c line

/-- The line compiles from the claimed part of memory alone. -/
def CompilesFromClaimed (env : Env) (c : Compiler) (line : List Byte) : Prop :=
  ¬ StopsWith (Refused env) (parse env.claimedOnly c line)

theorem parse_agree (env : Env) (c : Compiler) (line : List Byte) :
    (parse env c line = parse env.claimedOnly c line ∧
        ReadsClaimed env (finalState (parse env c line)).scan ∧
        ¬ StopsWith (Refused env) (parse env c line)) ∨
      (¬ ReadsClaimed env (finalState (parse env c line)).scan ∧
        StopsWith (Refused env) (parse env.claimedOnly c line)) := by
  apply (parseAgree_parseLine env (parseFuel line)).good
  intro addr hmem
  cases hmem

/-- Memories that agree where access is granted have the same claimed part. -/
theorem claimedOnly_congr {env : Env} {mem : Word -> Option Word}
    (h : forall addr, Accessible env.target env.registry addr -> mem addr = env.mem addr) :
    Env.claimedOnly { env with mem := mem } = env.claimedOnly := by
  have hmem : (Env.claimedOnly { env with mem := mem }).mem = env.claimedOnly.mem := by
    funext addr
    show (if _ then mem addr else none) = if _ then env.mem addr else none
    by_cases haccess : Accessible env.target env.registry addr
    · rw [if_pos haccess, if_pos haccess, h addr haccess]
    · rw [if_neg haccess, if_neg haccess]
  exact congrArg (fun m => ({ env with mem := m } : Env)) hmem

theorem parse_eq_claimedOnly {env : Env} {c : Compiler} {line : List Byte}
    (h : CompilesFromClaimed env c line) :
    parse env c line = parse env.claimedOnly c line := by
  rcases parse_agree env c line with ⟨heq, _⟩ | ⟨_, hstop⟩
  · exact heq
  · exact absurd hstop h

theorem compileReadsChecked_of_compilesFromClaimed {env : Env} {c : Compiler} {line : List Byte}
    (h : CompilesFromClaimed env c line) : CompileReadsChecked env c line := by
  refine ⟨?_, ?_⟩
  · rcases parse_agree env c line with ⟨_, hreads, _⟩ | ⟨_, hstop⟩
    · exact hreads
    · exact absurd hstop h
  · intro mem hmem
    have hclaimed := claimedOnly_congr hmem
    have h' : CompilesFromClaimed { env with mem := mem } c line := by
      unfold CompilesFromClaimed
      rw [hclaimed]
      exact h
    rw [parse_eq_claimedOnly h', hclaimed, parse_eq_claimedOnly h]

/-- A binding reads the GPIOA mode register although nobody holds GPIOA. -/
theorem not_compileReadsChecked_let :
    ¬ CompileReadsChecked Env.idle Compiler.new (ascii "let x = peek 0x40020000;") := by
  intro h
  have hread : 0x40020000#32 ∈
      (finalState (parse Env.idle Compiler.new (ascii "let x = peek 0x40020000;"))).scan.reads := by
    decide +kernel
  have haccess : ¬ Accessible Env.idle.target Env.idle.registry 0x40020000#32 := by
    decide +kernel
  exact haccess (h.checked _ hread)

end Compilation
end HolyRust
