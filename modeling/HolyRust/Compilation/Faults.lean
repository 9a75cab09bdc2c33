import HolyRust.Compilation.Congruence
import HolyRust.Compilation.Progress

/-!
# Faults while compiling

The only reads of the compiler are those of `peek` terms.  A parse faults where nothing
answers such a read, and nowhere else; and it never runs out of fuel.
-/

namespace HolyRust
namespace Compilation

open Foundation
open Capabilities

/-- A fault is at an address that nothing answers. -/
def Unanswered (env : Env) (e : Abort) : Prop :=
  forall addr, e = .fault addr -> env.mem addr = none

/-- Every failure of `x` that is a fault is at such an address. -/
def FaultsFairly (env : Env) (x : EStateM Abort σ α) : Prop :=
  forall s, Sat x s (fun _ _ => True) (fun e _ => Unanswered env e)

section Rules

variable {env : Env} {σ : Type}

theorem faultsFairly_pure (a : α) : FaultsFairly env (pure a : EStateM Abort σ α) :=
  fun _ => trivial

theorem faultsFairly_throw {e : Abort} (h : forall addr, e ≠ .fault addr) :
    FaultsFairly env (throw e : EStateM Abort σ α) :=
  fun _ addr heq => absurd heq (h addr)

theorem faultsFairly_bind {x : EStateM Abort σ α} {f : α -> EStateM Abort σ β}
    (hx : FaultsFairly env x) (hf : forall a, FaultsFairly env (f a)) :
    FaultsFairly env (x >>= f) := by
  intro s
  rw [sat_bind]
  exact sat_mono (hx s) (fun a s' _ => hf a s') fun _ _ he => he

theorem faultsFairly_ite {p : Prop} [Decidable p] {x y : EStateM Abort σ α}
    (hx : FaultsFairly env x) (hy : FaultsFairly env y) :
    FaultsFairly env (if p then x else y) := by
  split
  · exact hx
  · exact hy

end Rules

/-!
## Expressions
-/

section Expressions

variable {env : Env} {c : Compiler} {fuel : Nat}

theorem faultsFairly_fail (e : ParseError) : FaultsFairly env (fail e : ScanM α) :=
  faultsFairly_throw fun _ heq => by cases heq

theorem faultsFairly_next : FaultsFairly env next := fun _ => trivial

theorem faultsFairly_peek : FaultsFairly env peek := fun _ => trivial

theorem faultsFairly_peekU32 (addr : Word) : FaultsFairly env (peekU32 env addr) := by
  intro s
  unfold peekU32
  rw [sat_bind, sat_modify]
  cases hmem : env.mem addr with
  | some v => trivial
  | none =>
      intro addr' heq
      cases heq
      exact hmem

theorem faultsFairly_applyOperator (op : Byte) (acc rhs : Word) :
    FaultsFairly env (applyOperator op acc rhs) := by
  have hdivide : forall v : Word,
      FaultsFairly env (if rhs = 0#32 then fail .divByZero else pure v) :=
    fun v => faultsFairly_ite (faultsFairly_fail _) (faultsFairly_pure v)
  unfold applyOperator
  refine faultsFairly_ite (faultsFairly_pure _) ?_
  refine faultsFairly_ite (faultsFairly_pure _) ?_
  refine faultsFairly_ite (faultsFairly_pure _) ?_
  exact faultsFairly_ite (hdivide _) (hdivide _)

structure ExprFaults (env : Env) (c : Compiler) (fuel : Nat) : Prop where
  onOperand : forall tok, FaultsFairly env (operand env c fuel tok)
  onTerm : forall tok, FaultsFairly env (resolveTerm env c fuel tok)
  onExpr : forall first, FaultsFairly env (evalExpr env c fuel first)
  onTail : forall acc, FaultsFairly env (evalTail env c fuel acc)

theorem faultsFairly_operand_succ (h : ExprFaults env c fuel) (tok : Token) :
    FaultsFairly env (operand env c (fuel + 1) tok) := by
  unfold operand
  refine faultsFairly_ite ?_ (h.onTerm tok)
  refine faultsFairly_bind (h.onExpr none) fun v => ?_
  refine faultsFairly_bind faultsFairly_next fun close => ?_
  exact faultsFairly_ite (faultsFairly_pure v) (faultsFairly_fail _)

theorem faultsFairly_resolveTerm_succ (h : ExprFaults env c fuel) (tok : Token) :
    FaultsFairly env (resolveTerm env c (fuel + 1) tok) := by
  unfold resolveTerm
  cases tok with
  | literal v => exact faultsFairly_pure v
  | identifier id =>
      refine faultsFairly_ite ?_ ?_
      · refine faultsFairly_bind faultsFairly_next fun first => ?_
        exact faultsFairly_bind (h.onOperand first) fun addr => faultsFairly_peekU32 addr
      · cases c.lookupSymbol id with
        | some v => exact faultsFairly_pure v
        | none => exact faultsFairly_fail _
  | _ => exact faultsFairly_fail _

theorem faultsFairly_evalExpr_succ (h : ExprFaults env c fuel) (first : Option Token) :
    FaultsFairly env (evalExpr env c (fuel + 1) first) := by
  have hrest : forall head,
      FaultsFairly env (operand env c fuel head >>= evalTail env c fuel) :=
    fun head => faultsFairly_bind (h.onOperand head) h.onTail
  unfold evalExpr
  cases first with
  | some tok => exact faultsFairly_bind (faultsFairly_pure tok) hrest
  | none => exact faultsFairly_bind faultsFairly_next hrest

theorem faultsFairly_evalTail_succ (h : ExprFaults env c fuel) (acc : Word) :
    FaultsFairly env (evalTail env c (fuel + 1) acc) := by
  unfold evalTail
  refine faultsFairly_bind faultsFairly_peek fun tok => ?_
  cases tok with
  | operator op =>
      refine faultsFairly_ite ?_ (faultsFairly_pure acc)
      refine faultsFairly_bind faultsFairly_next fun _ => ?_
      refine faultsFairly_bind faultsFairly_next fun first => ?_
      refine faultsFairly_bind (h.onOperand first) fun rhs => ?_
      exact faultsFairly_bind (faultsFairly_applyOperator op acc rhs) h.onTail
  | _ => exact faultsFairly_pure acc

theorem exprFaults (env : Env) (c : Compiler) (fuel : Nat) : ExprFaults env c fuel := by
  induction fuel with
  | zero => constructor <;> intros <;> exact faultsFairly_throw fun _ heq => by cases heq
  | succ fuel ih =>
      exact ⟨faultsFairly_operand_succ ih, faultsFairly_resolveTerm_succ ih,
        faultsFairly_evalExpr_succ ih, faultsFairly_evalTail_succ ih⟩

end Expressions

/-!
## Lines
-/

section Lines

variable (env : Env) (fuel : Nat)

/-- The property as a relation that ignores its second side. -/
abbrev FaultsAlone (x _ : ParseM α) : Prop := FaultsFairly env x

theorem faultsFairly_reject (e : ParseError) : FaultsFairly env (reject e : ParseM α) :=
  faultsFairly_throw fun _ heq => by cases heq

theorem faultsFairly_scanning {x : Compiler -> ScanM α} (h : forall c, FaultsFairly env (x c)) :
    FaultsFairly env (scanning x) :=
  fun s => sat_scanning (h s.comp s.scan)

theorem composes_faults : Composes (FaultsAlone env) where
  onPure := faultsFairly_pure
  onReject := faultsFairly_reject env
  onBind := faultsFairly_bind

theorem onTokens_faults : OnTokens (FaultsAlone env) where
  toComposes := composes_faults env
  onNext := faultsFairly_scanning env fun _ => faultsFairly_next
  onPeek := faultsFairly_scanning env fun _ => faultsFairly_peek

theorem onStream_faults : OnStream (FaultsAlone env) where
  toComposes := composes_faults env
  onGet := fun _ => trivial
  onSet := fun _ _ => trivial

theorem faultsFairly_requireAccess (addr : Word) : FaultsFairly env (requireAccess env addr) := by
  unfold requireAccess
  cases checkAccess env.target env.registry addr with
  | ok _ => exact fun _ => trivial
  | error _ => exact faultsFairly_reject env _

theorem faultsFairly_scanExpr (first : Option Token) :
    FaultsFairly env (scanning fun c => evalExpr env c fuel first) :=
  faultsFairly_scanning env fun c => (exprFaults env c fuel).onExpr first

theorem onOperands_faults : OnOperands (FaultsAlone env) env env fuel fuel where
  toComposes := composes_faults env
  target := rfl
  prims := rfl
  onTerm := faultsFairly_scanning env fun c =>
    faultsFairly_bind faultsFairly_next fun first => (exprFaults env c fuel).onOperand first
  onExpr := faultsFairly_scanExpr env fuel none
  onSemicolon := related_expectSemicolon (onTokens_faults env)
  onAccess := faultsFairly_requireAccess env

theorem faultsFairly_getFnBody (name : List Byte) : FaultsFairly env (getFnBody name) := by
  refine faultsFairly_bind (fun _ => trivial) fun s => ?_
  cases s.comp.findFn name with
  | some i => exact faultsFairly_pure _
  | none => exact faultsFairly_reject env _

theorem onStatements_faults : OnStatements (FaultsAlone env) env env where
  toOnTokens := onTokens_faults env
  onFuel := faultsFairly_throw fun _ heq => by cases heq
  onPoke := fun fuel => related_pokeStmt (onOperands_faults env fuel) (onStream_faults env)
  onPeekStmt := fun fuel => related_peekStmt (onOperands_faults env fuel) (onStream_faults env)
  onLoop := fun fuel =>
    related_loopStmt (onOperands_faults env fuel) (onTokens_faults env) (onStream_faults env)
  onCall := fun id => related_spliceCall (onStream_faults env) (faultsFairly_getFnBody env id)
  onExpr := fun fuel first => faultsFairly_scanExpr env fuel (some first)

theorem faultsFairly_parseLet : FaultsFairly env (parseLet env fuel) := by
  have hget : FaultsFairly env (get : ParseM ParseState) := fun _ => trivial
  have hset : forall c, FaultsFairly env (setComp c) := fun _ _ => trivial
  exact faultsFairly_bind (related_expectName (onTokens_faults env)) fun _ =>
    faultsFairly_bind (related_expectToken (onTokens_faults env) _) fun _ =>
    faultsFairly_bind (faultsFairly_scanExpr env fuel none) fun _ =>
    faultsFairly_bind (related_expectSemicolon (onTokens_faults env)) fun _ =>
    faultsFairly_bind hget fun _ =>
    faultsFairly_bind (related_liftExcept (composes_faults env) _) fun _ =>
    faultsFairly_bind (hset _) fun _ => faultsFairly_pure _

theorem faultsFairly_defineFn (name : NameBuf) : FaultsFairly env (defineFn name) := by
  have hset : forall c, FaultsFairly env (setComp c) := fun _ _ => trivial
  refine faultsFairly_bind (fun _ => trivial) fun s => ?_
  by_cases h : s.comp.stream.words.length ≤ fnBodyWords
  · rw [dif_pos h]
    exact faultsFairly_bind (related_liftExcept (composes_faults env) _) fun _ => hset _
  · rw [dif_neg h]
    exact faultsFairly_reject env _

theorem faultsFairly_parseFn : FaultsFairly env (parseFn env fuel) := by
  have hexpect := related_expectToken (onTokens_faults env)
  exact faultsFairly_bind (related_expectName (onTokens_faults env)) fun _ =>
    faultsFairly_bind (hexpect _) fun _ => faultsFairly_bind (hexpect _) fun _ =>
    faultsFairly_bind (hexpect _) fun _ =>
    faultsFairly_bind ((onStream_faults env).onSet _) fun _ =>
    faultsFairly_bind (related_body (onStatements_faults env) fuel).2 fun _ =>
    faultsFairly_bind (faultsFairly_defineFn env _) fun _ => faultsFairly_pure _

theorem faultsFairly_parseLine : FaultsFairly env (parseLine env fuel) := by
  have htokens := onTokens_faults env
  have hstream := onStream_faults env
  have hoperands := onOperands_faults env fuel
  have hvalue : forall first, FaultsFairly env (valueCommand env fuel first) := fun first =>
    related_valueCommand hoperands hstream (faultsFairly_scanExpr env fuel (some first))
  refine related_parseLine hoperands htokens (faultsFairly_parseLet env fuel)
    (faultsFairly_parseFn env fuel) ?_ ?_ hvalue
  · have hblock := related_parseTopBlock (onStatements_faults env) fuel
    exact related_runCommand hoperands htokens
      (related_loopCommand hoperands htokens hstream hblock)
  · intro id
    exact related_callOrValue hoperands htokens
      (related_buildCallProgram hstream hoperands.toSameBuild (faultsFairly_getFnBody env id))
      (hvalue _)

end Lines

/-- Where all reads are answered, a line parses or is rejected. -/
theorem parse_ends {env : Env} (h : forall addr, env.mem addr ≠ none) (c : Compiler)
    (line : List Byte) :
    (exists outcome s, parse env c line = .ok outcome s) ∨
      exists e s, parse env c line = .error (.error e) s := by
  cases hparse : parse env c line with
  | ok outcome s => exact Or.inl ⟨outcome, s, rfl⟩
  | error e s =>
      cases e with
      | error e => exact Or.inr ⟨e, s, rfl⟩
      | fault addr =>
          have hfair := faultsFairly_parseLine env (parseFuel line) (startState c line)
          exact absurd (sat_of_error hfair hparse addr rfl) (h addr)
      | fuel => exact absurd hparse (parse_ne_fuel env c line s)

end Compilation
end HolyRust
