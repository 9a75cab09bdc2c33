import HolyRust.Foundation.Lockstep
import HolyRust.Compilation.Congruence
import HolyRust.Compilation.Tokens

/-!
# Parsers see what is ahead of them

Expressions and accesses stop at the next closing brace.  Two cursors that agree up to
there make them do the same, whatever comes after it, and whatever fuel they are given.
-/

namespace HolyRust
namespace Compilation

open Foundation

/-- The error of a parser that has run out of fuel. -/
def OutOfFuel (e : Abort) : Prop := e = .fuel

/-- The same tokens up to the next closing brace, and `ms` and `mt` after it. -/
def SameAhead (ms mt : List Token) (s t : Scan) : Prop :=
  exists us, (forall tok, tok ∈ us -> tok ≠ .rBrace) ∧ s.cur.Has (us ++ .rBrace :: ms) ∧
    t.cur.Has (us ++ .rBrace :: mt)

section Expressions

variable {ms mt : List Token}

abbrev ScanLockstep (ms mt : List Token) (x y : ScanM α) : Prop :=
  Lockstep OutOfFuel (SameAhead ms mt) x y

/-- Nothing but a failure follows the closing brace. -/
theorem lockstep_next {f g : Token -> ScanM α} {e : Abort}
    (hcloseLeft : FailsWith OutOfFuel e (f .rBrace))
    (hcloseRight : FailsWith OutOfFuel e (g .rBrace))
    (hfg : forall tok, tok ≠ .rBrace -> ScanLockstep ms mt (f tok) (g tok)) :
    ScanLockstep ms mt (next >>= f) (next >>= g) := by
  rintro s t ⟨us, hus, hs, ht⟩
  obtain ⟨tok, s', hnext, htok, hs'⟩ := exists_of_sat (has_next hs)
  obtain ⟨tok', t', hnext', htok', ht'⟩ := exists_of_sat (has_next ht)
  rw [bind_apply, bind_apply, hnext, hnext']
  cases us with
  | nil =>
      rw [show tok = .rBrace from htok, show tok' = .rBrace from htok']
      exact endAlike_of_fails hcloseLeft hcloseRight s' t'
  | cons u us =>
      rw [show tok = u from htok, show tok' = u from htok']
      exact hfg u (hus u List.mem_cons_self) s' t'
        ⟨us, fun tok htok => hus tok (List.mem_cons_of_mem u htok), hs', ht'⟩

/-- Both cursors are at `tok`, which is no closing brace. -/
structure BothAt (ms mt : List Token) (tok : Token) (s t : Scan) : Prop where
  open_ : tok ≠ .rBrace
  ahead : exists us, (forall tok, tok ∈ us -> tok ≠ .rBrace) ∧
    s.cur.Has (tok :: us ++ .rBrace :: ms) ∧ t.cur.Has (tok :: us ++ .rBrace :: mt)

theorem sameAhead_of_bothAt {tok : Token} {s t : Scan} (h : BothAt ms mt tok s t) :
    SameAhead ms mt s t := by
  obtain ⟨us, hus, hs, ht⟩ := h.ahead
  refine ⟨tok :: us, ?_, hs, ht⟩
  intro tok' htok'
  rcases List.mem_cons.mp htok' with rfl | hmem
  · exact h.open_
  · exact hus tok' hmem

theorem lockstep_peek {f g : Token -> ScanM α}
    (hclose : ScanLockstep ms mt (f .rBrace) (g .rBrace))
    (hfg : forall tok s t, BothAt ms mt tok s t ->
      EndAlike OutOfFuel (SameAhead ms mt) (f tok s) (g tok t)) :
    ScanLockstep ms mt (peek >>= f) (peek >>= g) := by
  rintro s t ⟨us, hus, hs, ht⟩
  obtain ⟨tok, s', hpeek, htok, hs'⟩ := exists_of_sat (has_peek hs)
  obtain ⟨tok', t', hpeek', htok', ht'⟩ := exists_of_sat (has_peek ht)
  rw [bind_apply, bind_apply, hpeek, hpeek']
  cases us with
  | nil =>
      rw [show tok = .rBrace from htok, show tok' = .rBrace from htok']
      exact hclose s' t' ⟨[], hus, hs', ht'⟩
  | cons u us =>
      rw [show tok = u from htok, show tok' = u from htok']
      exact hfg u s' t' ⟨hus u List.mem_cons_self, us,
        fun tok htok => hus tok (List.mem_cons_of_mem u htok), hs', ht'⟩

/-- The token that was seen is the one that is taken. -/
theorem endAlike_next {f g : Token -> ScanM α} {tok : Token} {s t : Scan}
    (h : BothAt ms mt tok s t) (hfg : ScanLockstep ms mt (f tok) (g tok)) :
    EndAlike OutOfFuel (SameAhead ms mt) ((next >>= f) s) ((next >>= g) t) := by
  obtain ⟨us, hus, hs, ht⟩ := h.ahead
  obtain ⟨tok1, s', hnext, htok, hs'⟩ := exists_of_sat (has_next hs)
  obtain ⟨tok2, t', hnext', htok', ht'⟩ := exists_of_sat (has_next ht)
  rw [bind_apply, bind_apply, hnext, hnext', show tok1 = tok from htok,
    show tok2 = tok from htok']
  exact hfg s' t' ⟨us, hus, hs', ht'⟩

theorem lockstep_peekU32 (env : Env) (addr : Word) :
    ScanLockstep ms mt (peekU32 env addr) (peekU32 env addr) := by
  refine lockstep_bind (fun _ _ h => ⟨rfl, h⟩) fun _ => ?_
  cases env.mem addr with
  | some v => exact lockstep_pure v
  | none => exact lockstep_throw _

theorem lockstep_applyOperator (op : Byte) (acc rhs : Word) :
    ScanLockstep ms mt (applyOperator op acc rhs) (applyOperator op acc rhs) := by
  unfold applyOperator
  refine lockstep_ite (lockstep_pure _) (lockstep_ite (lockstep_pure _) ?_)
  refine lockstep_ite (lockstep_pure _) (lockstep_ite ?_ ?_)
  · exact lockstep_ite (lockstep_throw _) (lockstep_pure _)
  · exact lockstep_ite (lockstep_throw _) (lockstep_pure _)

/-- A closing brace is no operand. -/
theorem operand_close (env : Env) (c : Compiler) (fuel : Nat) :
    FailsWith OutOfFuel (.error .unexpectedToken) (operand env c fuel .rBrace) := by
  cases fuel with
  | zero => exact failsWith_spent rfl
  | succ fuel =>
      simp only [operand]
      rw [if_neg (by decide)]
      cases fuel with
      | zero => exact failsWith_spent rfl
      | succ fuel => exact failsWith_throw _

/-- The expression parsers, with any two amounts of fuel. -/
structure ExprLockstep (ms mt : List Token) (env : Env) (c : Compiler) (fuel fuel' : Nat) :
    Prop where
  onOperand : forall tok, tok ≠ .rBrace ->
    ScanLockstep ms mt (operand env c fuel tok) (operand env c fuel' tok)
  onTerm : forall tok, tok ≠ .rBrace ->
    ScanLockstep ms mt (resolveTerm env c fuel tok) (resolveTerm env c fuel' tok)
  onExpr : forall first, first ≠ some .rBrace ->
    ScanLockstep ms mt (evalExpr env c fuel first) (evalExpr env c fuel' first)
  onTail : forall acc, ScanLockstep ms mt (evalTail env c fuel acc) (evalTail env c fuel' acc)

theorem lockstep_nextOperand {env : Env} {c : Compiler} {fuel fuel' : Nat}
    (h : ExprLockstep ms mt env c fuel fuel') {f g : Word -> ScanM α}
    (hfg : forall v, ScanLockstep ms mt (f v) (g v)) :
    ScanLockstep ms mt (next >>= fun tok => operand env c fuel tok >>= f)
      (next >>= fun tok => operand env c fuel' tok >>= g) :=
  lockstep_next (failsWith_bind (operand_close env c fuel) f)
    (failsWith_bind (operand_close env c fuel') g)
    fun tok htok => lockstep_bind (h.onOperand tok htok) hfg

theorem exprLockstep_succ {env : Env} {c : Compiler} {fuel fuel' : Nat}
    (h : ExprLockstep ms mt env c fuel fuel') :
    ExprLockstep ms mt env c (fuel + 1) (fuel' + 1) where
  onOperand := by
    intro tok htok
    simp only [operand]
    refine lockstep_ite ?_ (h.onTerm tok htok)
    refine lockstep_bind (h.onExpr none (by intro h; cases h)) fun v => ?_
    refine lockstep_next (e := .error .unexpectedToken) ?_ ?_ fun close _ =>
      lockstep_ite (lockstep_pure v) (lockstep_throw _)
    · rw [if_neg (by decide)]
      exact failsWith_throw _
    · rw [if_neg (by decide)]
      exact failsWith_throw _
  onTerm := by
    intro tok _
    cases tok with
    | literal v => exact lockstep_pure v
    | identifier id =>
        simp only [resolveTerm]
        refine lockstep_ite (lockstep_nextOperand h fun addr => lockstep_peekU32 env addr) ?_
        cases c.lookupSymbol id with
        | some v => exact lockstep_pure v
        | none => exact lockstep_throw _
    | _ => exact lockstep_throw _
  onExpr := by
    intro first hfirst
    simp only [evalExpr]
    cases first with
    | some tok =>
        simp only [pure_bind]
        refine lockstep_bind (h.onOperand tok ?_) h.onTail
        intro htok
        rw [htok] at hfirst
        exact hfirst rfl
    | none => exact lockstep_nextOperand h h.onTail
  onTail := by
    intro acc
    simp only [evalTail]
    refine lockstep_peek (lockstep_pure acc) fun tok s t hboth => ?_
    have hdone : EndAlike OutOfFuel (SameAhead ms mt) ((pure acc : ScanM Word) s)
        ((pure acc : ScanM Word) t) := ⟨rfl, sameAhead_of_bothAt hboth⟩
    cases tok with
    | operator op =>
        dsimp only
        by_cases hop : isArithmetic op = true
        · rw [if_pos hop, if_pos hop]
          refine endAlike_next hboth (lockstep_nextOperand h fun rhs => ?_)
          exact lockstep_bind (lockstep_applyOperator op acc rhs) h.onTail
        · rw [if_neg hop, if_neg hop]
          exact hdone
    | _ => exact hdone

theorem exprLockstep (env : Env) (c : Compiler) (fuel fuel' : Nat) :
    ExprLockstep ms mt env c fuel fuel' := by
  have hfuel : OutOfFuel .fuel := rfl
  induction fuel generalizing fuel' with
  | zero =>
      exact ⟨fun _ _ => lockstep_spent_left hfuel _, fun _ _ => lockstep_spent_left hfuel _,
        fun _ _ => lockstep_spent_left hfuel _, fun _ => lockstep_spent_left hfuel _⟩
  | succ fuel ih =>
      cases fuel' with
      | zero =>
          exact ⟨fun _ _ => lockstep_spent_right hfuel _, fun _ _ => lockstep_spent_right hfuel _,
            fun _ _ => lockstep_spent_right hfuel _, fun _ => lockstep_spent_right hfuel _⟩
      | succ fuel' => exact exprLockstep_succ (ih fuel')

end Expressions

/-!
## Accesses
-/

section Accesses

variable {P : Scan -> Scan -> Prop} {ms mt : List Token}

/-- Related cursors, and the same compiler. -/
def SameState (P : Scan -> Scan -> Prop) (s t : ParseState) : Prop :=
  P s.scan t.scan ∧ t.comp = s.comp

abbrev ParseLockstep (P : Scan -> Scan -> Prop) (x y : ParseM α) : Prop :=
  Lockstep OutOfFuel (SameState P) x y

theorem lockstep_scanning {x y : Compiler -> ScanM α}
    (h : forall c, Lockstep OutOfFuel P (x c) (y c)) :
    ParseLockstep P (scanning x) (scanning y) := by
  rintro s t ⟨hscan, hcomp⟩
  have hxy := h s.comp s.scan t.scan hscan
  unfold scanning
  rw [hcomp]
  revert hxy
  cases x s.comp s.scan with
  | ok a scan =>
      cases y s.comp t.scan with
      | ok b scan' =>
          rintro ⟨rfl, hscan'⟩
          exact ⟨rfl, hscan', rfl⟩
      | error e scan' => exact fun he => he
  | error e scan =>
      cases y s.comp t.scan with
      | ok b scan' => exact fun he => he
      | error e' scan' => exact fun he => he

theorem lockstep_atomicTerm (env : Env) (fuel fuel' : Nat) :
    ParseLockstep (SameAhead ms mt) (scanning (parseAtomicTerm env fuel))
      (scanning (parseAtomicTerm env fuel')) := by
  refine lockstep_scanning fun c => ?_
  exact lockstep_next (operand_close env c fuel) (operand_close env c fuel')
    (exprLockstep env c fuel fuel').onOperand

theorem lockstep_evalExpr (env : Env) (fuel fuel' : Nat) :
    ParseLockstep (SameAhead ms mt) (scanning fun c => evalExpr env c fuel none)
      (scanning fun c => evalExpr env c fuel' none) :=
  lockstep_scanning fun c => (exprLockstep env c fuel fuel').onExpr none (by intro h; cases h)

/-- Nothing but a failure follows the closing brace. -/
theorem lockstep_nextToken {f g : Token -> ParseM α} {e : Abort}
    (hcloseLeft : FailsWith OutOfFuel e (f .rBrace))
    (hcloseRight : FailsWith OutOfFuel e (g .rBrace))
    (hfg : forall tok, ParseLockstep (SameAhead ms mt) (f tok) (g tok)) :
    ParseLockstep (SameAhead ms mt) (nextToken >>= f) (nextToken >>= g) := by
  rintro s t ⟨⟨us, hus, hs, ht⟩, hcomp⟩
  obtain ⟨tok, s', hnext, htok, hs'⟩ := exists_of_sat (has_nextToken (s := s) hs)
  obtain ⟨tok', t', hnext', htok', ht'⟩ := exists_of_sat (has_nextToken (s := t) ht)
  rw [bind_apply, bind_apply, hnext, hnext']
  cases us with
  | nil =>
      rw [show tok = .rBrace from htok, show tok' = .rBrace from htok']
      exact endAlike_of_fails hcloseLeft hcloseRight s' t'
  | cons u us =>
      rw [show tok = u from htok, show tok' = u from htok']
      refine hfg u s' t' ⟨⟨us, fun tok htok => hus tok (List.mem_cons_of_mem u htok),
        hs'.tokens, ht'.tokens⟩, ?_⟩
      rw [ht'.comp, hs'.comp, hcomp]

theorem lockstep_expectSemicolon :
    ParseLockstep (SameAhead ms mt) expectSemicolon expectSemicolon := by
  have hclose : FailsWith OutOfFuel (.error .missingSemicolon)
      (if Token.rBrace = .semicolon ∨ Token.rBrace = .eof then (pure () : ParseM Unit)
        else reject .missingSemicolon) := by
    rw [if_neg (by decide)]
    exact failsWith_throw _
  exact lockstep_nextToken hclose hclose fun _ => lockstep_ite (lockstep_pure ()) (lockstep_throw _)

theorem lockstep_expectToken {tok : Token} (htok : tok ≠ .rBrace) :
    ParseLockstep (SameAhead ms mt) (expectToken tok) (expectToken tok) := by
  have hclose : FailsWith OutOfFuel (.error .unexpectedToken)
      (if Token.rBrace = tok then (pure () : ParseM Unit) else reject .unexpectedToken) := by
    rw [if_neg htok.symm]
    exact failsWith_throw _
  exact lockstep_nextToken hclose hclose fun _ => lockstep_ite (lockstep_pure ()) (lockstep_throw _)

theorem lockstep_requireAccess (env : Env) (addr : Word) :
    ParseLockstep P (requireAccess env addr) (requireAccess env addr) := by
  unfold requireAccess
  cases Capabilities.checkAccess env.target env.registry addr with
  | ok u => exact fun _ _ h => ⟨rfl, h⟩
  | error cap => exact lockstep_throw _

theorem lockstep_getStream : ParseLockstep P getStream getStream := by
  rintro s t ⟨hscan, hcomp⟩
  refine ⟨?_, hscan, hcomp⟩
  rw [hcomp]

theorem lockstep_setStream (stream : Stream) :
    ParseLockstep P (setStream stream) (setStream stream) := by
  rintro s t ⟨hscan, hcomp⟩
  refine ⟨rfl, hscan, ?_⟩
  show { t.comp with stream := stream } = { s.comp with stream := stream }
  rw [hcomp]

theorem composes_lockstep (P : Scan -> Scan -> Prop) : Composes (ParseLockstep P) where
  onPure := lockstep_pure
  onReject := fun _ => lockstep_throw _
  onBind := lockstep_bind

theorem onStream_lockstep (P : Scan -> Scan -> Prop) : OnStream (ParseLockstep P) where
  toComposes := composes_lockstep P
  onGet := lockstep_getStream
  onSet := lockstep_setStream

theorem onOperands_lockstep (env : Env) (fuel fuel' : Nat) :
    OnOperands (ParseLockstep (SameAhead ms mt)) env env fuel fuel' where
  toComposes := composes_lockstep _
  target := rfl
  prims := rfl
  onTerm := lockstep_atomicTerm env fuel fuel'
  onExpr := lockstep_evalExpr env fuel fuel'
  onSemicolon := lockstep_expectSemicolon
  onAccess := lockstep_requireAccess env

end Accesses

end Compilation
end HolyRust
