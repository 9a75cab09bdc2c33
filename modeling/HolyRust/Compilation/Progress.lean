import HolyRust.Compilation.Congruence

/-!
# Fuel is never the limit

Every token costs at least one byte of the line, and no parser goes deeper than
two levels for a token.  So the fuel that `parse` starts with is never used up.
-/

namespace HolyRust
namespace Compilation

open Foundation
open Capabilities

/-- Bytes and tokens left. -/
def Cur.size (cur : Cur) : Nat :=
  cur.lx.rest.length +
    match cur.ahead with
    | none => 0
    | some t => if t = .eof then 0 else 1

/-- No failure for lack of fuel. -/
def Fuelled (e : Abort) : Prop := e ≠ .fuel

theorem nextToken_size (lx : Lexer) :
    (lx.nextToken.1 = .eof ∧ lx.nextToken.2.rest.length ≤ lx.rest.length) ∨
      lx.nextToken.2.rest.length + 1 ≤ lx.rest.length := by
  rcases nextTokenFrom_length lx.line lx.rest with ⟨heof, hrest⟩ | h
  · refine Or.inl ⟨heof, ?_⟩
    show (nextTokenFrom lx.line lx.rest).2.rest.length ≤ _
    rw [hrest]
    exact Nat.zero_le _
  · exact Or.inr h

theorem Cur.next_size (cur : Cur) :
    (cur.next.1 = .eof ∧ cur.next.2.size ≤ cur.size) ∨ cur.next.2.size + 1 ≤ cur.size := by
  unfold Cur.next Cur.size
  cases hahead : cur.ahead with
  | some t =>
      by_cases ht : t = .eof
      · exact Or.inl ⟨ht, by simp⟩
      · exact Or.inr (by simp [ht])
  | none =>
      rcases nextToken_size cur.lx with h | h
      · exact Or.inl ⟨h.left, by simpa using h.right⟩
      · exact Or.inr (by simpa using h)

theorem Cur.peek_size (cur : Cur) : cur.peek.2.size ≤ cur.size := by
  unfold Cur.peek Cur.size
  cases hahead : cur.ahead with
  | some t => simp [hahead]
  | none =>
      rcases nextToken_size cur.lx with h | h
      · simp [h.left]
        lia
      · by_cases ht : cur.lx.nextToken.1 = .eof
        · simp [ht]
          lia
        · simp [ht]
          lia

/-- What was peeked at is what comes next. -/
theorem Cur.next_peek (cur : Cur) : cur.peek.2.next.1 = cur.peek.1 := by
  unfold Cur.peek Cur.next
  cases hahead : cur.ahead with
  | some t => simp [hahead]
  | none => simp

/-!
## Expressions
-/

/-- The cursor does not move back and fuel is not the reason of a failure. -/
def Advances (x : ScanM α) (s : Scan) : Prop :=
  Sat x s (fun _ s' => s'.cur.size ≤ s.cur.size) (fun e _ => Fuelled e)

theorem sat_next (s : Scan) (E : Abort -> Scan -> Prop) :
    Sat next s (fun t s' => (t = .eof ∧ s'.cur.size ≤ s.cur.size) ∨
      s'.cur.size + 1 ≤ s.cur.size) E := by
  unfold next
  rw [sat_modifyGet]
  exact Cur.next_size s.cur

theorem sat_peek (s : Scan) (E : Abort -> Scan -> Prop) :
    Sat peek s (fun t s' => s'.cur.size ≤ s.cur.size ∧ s'.cur.next.1 = t) E := by
  unfold peek
  rw [sat_modifyGet]
  exact ⟨Cur.peek_size s.cur, Cur.next_peek s.cur⟩

theorem sat_fail (e : ParseError) (s : Scan) (Q : α -> Scan -> Prop) :
    Sat (fail e : ScanM α) s Q (fun e _ => Fuelled e) := by
  unfold fail Fuelled
  rw [sat_throw]
  intro h
  cases h

theorem advances_applyOperator (op : Byte) (acc rhs : Word) (s : Scan) :
    Advances (applyOperator op acc rhs) s := by
  have hdivide : forall v : Word, Advances (if rhs = 0#32 then fail .divByZero else pure v) s := by
    intro v
    exact sat_ite (fun _ => sat_fail _ _ _) (fun _ => Nat.le_refl _)
  unfold applyOperator
  refine sat_ite (fun _ => Nat.le_refl _) (fun _ => ?_)
  refine sat_ite (fun _ => Nat.le_refl _) (fun _ => ?_)
  refine sat_ite (fun _ => Nat.le_refl _) (fun _ => ?_)
  exact sat_ite (fun _ => hdivide _) (fun _ => hdivide _)

theorem advances_peekU32 (env : Env) (addr : Word) (s : Scan) :
    Advances (peekU32 env addr) s := by
  unfold Advances peekU32
  rw [sat_bind, sat_modify]
  cases env.mem addr with
  | some v => exact Nat.le_refl _
  | none =>
      rw [sat_throw]
      intro h
      cases h

/-- The fuel an expression parser needs, for all of them at once. -/
structure ScanFuel (env : Env) (c : Compiler) (fuel : Nat) : Prop where
  onEof : forall s, 2 ≤ fuel -> Advances (operand env c fuel .eof) s
  onOperand : forall tok s, 2 * s.cur.size + 4 ≤ fuel -> Advances (operand env c fuel tok) s
  onTerm : forall tok s, 2 * s.cur.size + 3 ≤ fuel -> Advances (resolveTerm env c fuel tok) s
  onExpr : forall s, 2 * s.cur.size + 3 ≤ fuel -> Advances (evalExpr env c fuel none) s
  onExprSome : forall tok s, 2 * s.cur.size + 5 ≤ fuel ->
    Advances (evalExpr env c fuel (some tok)) s
  onTail : forall acc s, 2 * s.cur.size + 1 ≤ fuel -> Advances (evalTail env c fuel acc) s

/-- An operand whose first token is taken just before it. -/
theorem sat_next_operand {env : Env} {c : Compiler} {fuel : Nat}
    (h : ScanFuel env c fuel) {s : Scan} (hfuel : 2 * s.cur.size + 2 ≤ fuel)
    {f : Word -> ScanM β} {Q : β -> Scan -> Prop}
    (hf : forall v s', s'.cur.size ≤ s.cur.size -> Sat (f v) s' Q (fun e _ => Fuelled e)) :
    Sat (next >>= fun first => operand env c fuel first >>= f) s Q
      (fun e _ => Fuelled e) := by
  refine sat_seq (sat_next s _) ?_
  intro tok s1 hs1
  have hoperand : Advances (operand env c fuel tok) s1 := by
    rcases hs1 with ⟨rfl, _⟩ | hlt
    · exact h.onEof s1 (by lia)
    · exact h.onOperand tok s1 (by lia)
  refine sat_seq hoperand ?_
  intro v s2 hs2
  apply hf
  lia

theorem advances_resolveTerm_succ {env : Env} {c : Compiler} {fuel : Nat}
    (h : ScanFuel env c fuel) (tok : Token) (s : Scan)
    (hfuel : 2 * s.cur.size + 3 ≤ fuel + 1) :
    Advances (resolveTerm env c (fuel + 1) tok) s := by
  unfold resolveTerm
  cases tok with
  | literal v => exact Nat.le_refl _
  | identifier id =>
      refine sat_ite (fun _ => ?_) (fun _ => ?_)
      · refine sat_next_operand h (by lia) ?_
        intro addr s' hs'
        exact sat_mono (advances_peekU32 env addr s')
          (fun _ s'' hs'' => Nat.le_trans hs'' hs') (fun _ _ he => he)
      · cases c.lookupSymbol id with
        | some v => exact Nat.le_refl _
        | none => exact sat_fail _ _ _
  | error msg => exact sat_fail _ _ _
  | _ => exact sat_fail _ _ _

theorem advances_operand_succ {env : Env} {c : Compiler} {fuel : Nat}
    (h : ScanFuel env c fuel) (tok : Token) (s : Scan)
    (hfuel : 2 * s.cur.size + 4 ≤ fuel + 1) :
    Advances (operand env c (fuel + 1) tok) s := by
  rw [operand]
  refine sat_ite (fun _ => ?_) (fun _ => ?_)
  · refine sat_seq (h.onExpr s (by lia)) ?_
    intro v s1 hs1
    refine sat_seq (sat_next s1 _) ?_
    intro close s2 hs2
    refine sat_ite (fun _ => ?_) (fun _ => sat_fail _ _ _)
    rw [sat_pure]
    lia
  · exact h.onTerm tok s (by lia)

theorem advances_evalTail_succ {env : Env} {c : Compiler} {fuel : Nat}
    (h : ScanFuel env c fuel) (acc : Word) (s : Scan)
    (hfuel : 2 * s.cur.size + 1 ≤ fuel + 1) :
    Advances (evalTail env c (fuel + 1) acc) s := by
  rw [evalTail]
  refine sat_seq (sat_peek s _) ?_
  intro tok s1 hs1
  cases tok with
  | operator op =>
      refine sat_ite (fun _ => ?_) (fun _ => hs1.left)
      have hnext : Sat next s1 (fun _ s2 => s2.cur.size + 1 ≤ s1.cur.size)
          (fun e _ => Fuelled e) := by
        unfold next
        rw [sat_modifyGet]
        rcases Cur.next_size s1.cur with ⟨heof, _⟩ | hlt
        · rw [hs1.right] at heof
          cases heof
        · exact hlt
      refine sat_seq hnext ?_
      intro _ s2 hs2
      refine sat_next_operand h (by lia) ?_
      intro rhs s3 hs3
      refine sat_seq (advances_applyOperator op acc rhs s3) ?_
      intro acc' s4 hs4
      exact sat_mono (h.onTail acc' s4 (by lia)) (fun _ s5 hs5 => by lia)
        (fun _ _ he => he)
  | _ => exact hs1.left

theorem scanFuel (env : Env) (c : Compiler) (fuel : Nat) : ScanFuel env c fuel := by
  induction fuel with
  | zero => constructor <;> intros <;> lia
  | succ fuel ih =>
      refine ⟨?_, fun tok s hfuel => advances_operand_succ ih tok s hfuel,
        fun tok s hfuel => advances_resolveTerm_succ ih tok s hfuel, ?_, ?_,
        fun acc s hfuel => advances_evalTail_succ ih acc s hfuel⟩
      · intro s hfuel
        rw [operand]
        refine sat_ite (fun h => by cases h) (fun _ => ?_)
        cases fuel with
        | zero => lia
        | succ fuel => exact sat_fail _ _ _
      · intro s hfuel
        rw [evalExpr]
        refine sat_next_operand ih (by lia) ?_
        intro acc s1 hs1
        exact sat_mono (ih.onTail acc s1 (by lia)) (fun _ s2 hs2 => by lia) (fun _ _ he => he)
      · intro tok s hfuel
        unfold Advances
        rw [evalExpr, sat_bind, sat_pure]
        refine sat_seq (ih.onOperand tok s (by lia)) ?_
        intro acc s1 hs1
        exact sat_mono (ih.onTail acc s1 (by lia)) (fun _ s2 hs2 => by lia) (fun _ _ he => he)

/-!
## Statements
-/

/-- Below size `n` the parser moves forward, and never for lack of fuel. -/
def Within (n : Nat) (x : ParseM α) : Prop :=
  forall s : ParseState, s.scan.cur.size ≤ n ->
    Sat x s (fun _ s' => s'.scan.cur.size ≤ n) (fun e _ => Fuelled e)

theorem within_pure (n : Nat) (a : α) : Within n (pure a : ParseM α) :=
  fun _ hs => hs

theorem within_reject (n : Nat) (e : ParseError) : Within n (reject e : ParseM α) := by
  intro s _
  unfold reject
  rw [sat_throw]
  intro h
  cases h

theorem within_bind {n : Nat} {x : ParseM α} {f : α -> ParseM β}
    (hx : Within n x) (hf : forall a, Within n (f a)) : Within n (x >>= f) := by
  intro s hs
  exact sat_seq (hx s hs) (fun a s' hs' => hf a s' hs')

theorem within_ite {n : Nat} {p : Prop} [Decidable p] {x y : ParseM α}
    (hx : Within n x) (hy : Within n y) : Within n (if p then x else y) :=
  fun s hs => sat_ite (fun _ => hx s hs) (fun _ => hy s hs)

theorem within_modify {n : Nat} {f : ParseState -> ParseState}
    (hf : forall s, (f s).scan = s.scan) : Within n (modify f : ParseM PUnit) := by
  intro s hs
  rw [sat_modify, hf]
  exact hs

theorem within_get (n : Nat) : Within n (get : ParseM ParseState) :=
  fun _ hs => hs

theorem within_scanning {n : Nat} {x : Compiler -> ScanM α}
    (h : forall c s, s.cur.size ≤ n -> Advances (x c) s) : Within n (scanning x) := by
  intro s hs
  apply sat_scanning
  exact sat_mono (h s.comp s.scan hs) (fun _ _ hle => Nat.le_trans hle hs) (fun _ _ he => he)

theorem composes_within (n : Nat) : Composes (fun x _ => Within n x) where
  onPure := within_pure n
  onReject := within_reject n
  onBind := within_bind

theorem onTokens_within (n : Nat) : OnTokens (fun x _ => Within n x) where
  toComposes := composes_within n
  onNext := within_scanning fun _ s _ =>
    sat_mono (sat_next s _) (fun _ s' h => by lia) (fun _ _ he => he)
  onPeek := within_scanning fun _ s _ =>
    sat_mono (sat_peek s _) (fun _ s' h => h.left) (fun _ _ he => he)

theorem onStream_within (n : Nat) : OnStream (fun x _ => Within n x) where
  toComposes := composes_within n
  onGet := within_bind (within_get n) fun _ => within_pure n _
  onSet := fun _ => within_modify fun _ => rfl

theorem within_requireAccess (n : Nat) (env : Env) (addr : Word) :
    Within n (requireAccess env addr) := by
  unfold requireAccess
  cases checkAccess env.target env.registry addr with
  | ok _ => exact within_modify fun _ => rfl
  | error _ => exact within_reject n _

theorem within_getFnBody (n : Nat) (name : List Byte) : Within n (getFnBody name) := by
  refine within_bind (within_get n) ?_
  intro s
  cases s.comp.findFn name with
  | some i => exact within_pure n _
  | none => exact within_reject n _

theorem within_atomicTerm {n fuel : Nat} (env : Env) (h : 2 * n + 2 ≤ fuel) :
    Within n (scanning (parseAtomicTerm env fuel)) := by
  apply within_scanning
  intro c s hs
  have hbind := sat_next_operand (scanFuel env c fuel) (s := s) (f := pure)
    (Q := fun _ s' => s'.cur.size ≤ s.cur.size) (by lia) (fun _ _ hle => hle)
  simp only [bind_pure] at hbind
  exact hbind

theorem within_evalExpr {n fuel : Nat} (env : Env) (h : 2 * n + 3 ≤ fuel) :
    Within n (scanning fun c => evalExpr env c fuel none) := by
  apply within_scanning
  intro c s hs
  exact (scanFuel env c fuel).onExpr s (by lia)

theorem within_evalExprFrom {n fuel : Nat} (env : Env) (tok : Token) (h : 2 * n + 5 ≤ fuel) :
    Within n (scanning fun c => evalExpr env c fuel (some tok)) := by
  apply within_scanning
  intro c s hs
  exact (scanFuel env c fuel).onExprSome tok s (by lia)

theorem onOperands_within {n fuel : Nat} (env : Env) (h : 2 * n + 3 ≤ fuel) :
    OnOperands (fun x _ => Within n x) env env fuel fuel where
  toComposes := composes_within n
  target := rfl
  prims := rfl
  onTerm := within_atomicTerm env (by lia)
  onExpr := within_evalExpr env h
  onSemicolon := related_expectSemicolon (onTokens_within n)
  onAccess := within_requireAccess n env

theorem within_pokeStmt {n fuel : Nat} (env : Env) (h : 2 * n + 3 ≤ fuel) :
    Within n (pokeStmt env fuel) :=
  related_pokeStmt (onOperands_within env h) (onStream_within n)

theorem within_peekStmt {n fuel : Nat} (env : Env) (h : 2 * n + 3 ≤ fuel) :
    Within n (peekStmt env fuel) :=
  related_peekStmt (onOperands_within env h) (onStream_within n)

/-- A statement that starts with a token ends with at least one byte less. -/
def Shrinks (n : Nat) (x : ParseM α) : Prop :=
  forall s : ParseState, s.scan.cur.size ≤ n ->
    Sat x s (fun _ s' => s'.scan.cur.size + 1 ≤ n) (fun e _ => Fuelled e)

theorem shrinks_nextToken {n : Nat} {f : Token -> ParseM α} {e : ParseError}
    (heof : f .eof = reject e) (hf : forall tok m, m + 1 = n -> Within m (f tok)) :
    Shrinks n (nextToken >>= f) := by
  intro s hs
  have hnext : Sat nextToken s
      (fun t s' => (t = .eof ∧ s'.scan.cur.size ≤ s.scan.cur.size) ∨
        s'.scan.cur.size + 1 ≤ s.scan.cur.size) (fun e _ => Fuelled e) :=
    sat_scanning (sat_next s.scan _)
  refine sat_seq hnext ?_
  intro tok s1 hs1
  rcases hs1 with ⟨rfl, _⟩ | hlt
  · rw [heof]
    unfold reject
    rw [sat_throw]
    intro h
    cases h
  · cases n with
    | zero => lia
    | succ m => exact sat_mono (hf tok m rfl s1 (by lia)) (fun _ _ h => by lia) (fun _ _ he => he)

/-- The fuel of the two block parsers. -/
structure BlockFuel (env : Env) (fuel : Nat) : Prop where
  onStmt : forall n, 2 * n + 4 ≤ fuel -> Shrinks n (parseBodyStmt env fuel)
  onBlock : forall n, 2 * n + 5 ≤ fuel -> Within n (parseBlock env fuel)

theorem shrinks_parseBodyStmt_succ {env : Env} {fuel : Nat} (h : BlockFuel env fuel)
    {n : Nat} (hfuel : 2 * n + 4 ≤ fuel + 1) : Shrinks n (parseBodyStmt env (fuel + 1)) := by
  unfold parseBodyStmt
  refine shrinks_nextToken (e := .unexpectedToken) rfl ?_
  intro tok m hm
  cases tok with
  | identifier id =>
      refine within_ite (within_pokeStmt env (by lia)) ?_
      refine within_ite (within_peekStmt env (by lia)) ?_
      refine within_ite ?_ ?_
      · exact related_loopStmt (onOperands_within env (by lia)) (onTokens_within m)
          (onStream_within m) (h.onBlock m (by lia))
      · refine within_bind (onTokens_within m).onPeek ?_
        intro ahead
        refine within_ite ?_ ?_
        · exact within_bind (related_callTail (onTokens_within m)) fun _ =>
            related_spliceCall (onStream_within m) (within_getFnBody m id)
        · exact within_bind (within_evalExprFrom env _ (by lia)) fun _ =>
            related_expectSemicolon (onTokens_within m)
  | _ => exact within_reject m _

theorem within_block {n : Nat} {x y : ParseM Unit} (hx : Shrinks n x)
    (hy : forall m, m + 1 = n -> Within m y) :
    Within n (x >>= fun _ => y) := by
  intro s hs
  refine sat_seq (hx s hs) ?_
  intro _ s1 hs1
  cases n with
  | zero => lia
  | succ m =>
      exact sat_mono (hy m rfl s1 (by lia)) (fun _ s2 hs2 => Nat.le_succ_of_le hs2)
        (fun _ _ he => he)

theorem within_parseBlock_succ {env : Env} {fuel : Nat} (h : BlockFuel env fuel)
    {n : Nat} (hfuel : 2 * n + 5 ≤ fuel + 1) : Within n (parseBlock env (fuel + 1)) := by
  unfold parseBlock
  refine within_bind (onTokens_within n).onPeek ?_
  intro tok
  refine within_ite (within_bind (onTokens_within n).onNext fun _ => within_pure n _) ?_
  refine within_ite (within_reject n _) ?_
  exact within_block (h.onStmt n (by lia)) fun m hm => h.onBlock m (by lia)

theorem blockFuel (env : Env) (fuel : Nat) : BlockFuel env fuel := by
  induction fuel with
  | zero => constructor <;> intros <;> lia
  | succ fuel ih =>
      exact ⟨fun n hfuel => shrinks_parseBodyStmt_succ ih hfuel,
        fun n hfuel => within_parseBlock_succ ih hfuel⟩

/-- Taking a token that was peeked at and is not the end of the line. -/
theorem sat_nextToken_peeked {s : ParseState} {tok : Token} (htok : s.scan.cur.next.1 = tok)
    (heof : tok ≠ .eof) :
    Sat nextToken s (fun _ s' => s'.scan.cur.size + 1 ≤ s.scan.cur.size)
      (fun e _ => Fuelled e) := by
  apply sat_scanning
  unfold next
  rw [sat_modifyGet]
  rcases Cur.next_size s.scan.cur with ⟨h, _⟩ | h
  · exact absurd (htok.symm.trans h) heof
  · exact h

theorem within_parseTopBlock (env : Env) (fuel n : Nat) (hfuel : 2 * n + 5 ≤ fuel) :
    Within n (parseTopBlock env fuel) := by
  induction fuel generalizing n with
  | zero => lia
  | succ fuel ih =>
      unfold parseTopBlock
      intro s hs
      have hpeek : Sat peekToken s
          (fun t s' => s'.scan.cur.size ≤ s.scan.cur.size ∧ s'.scan.cur.next.1 = t)
          (fun e _ => Fuelled e) :=
        sat_scanning (sat_peek s.scan _)
      refine sat_seq hpeek ?_
      intro tok s1 hs1
      refine sat_ite (fun _ => ?_) (fun _ => sat_ite (fun _ => ?_) (fun heof => ?_))
      · exact within_bind (onTokens_within n).onNext (fun _ => within_pure n _) s1 (by lia)
      · exact within_reject n _ s1 (by lia)
      · refine sat_seq (sat_nextToken_peeked hs1.right heof) ?_
        intro stmt s2 hs2
        cases n with
        | zero => lia
        | succ m =>
            have hrest : Within m (if stmt = .identifier (ascii "poke") then
                  pokeStmt env fuel >>= fun _ => parseTopBlock env fuel
                else if stmt = .identifier (ascii "peek") then
                  peekStmt env fuel >>= fun _ => parseTopBlock env fuel
                else pure () >>= fun _ => parseTopBlock env fuel) :=
              within_ite
                (within_bind (within_pokeStmt env (by lia)) fun _ => ih m (by lia))
                (within_ite (within_bind (within_peekStmt env (by lia)) fun _ => ih m (by lia))
                  (within_bind (within_pure m _) fun _ => ih m (by lia)))
            exact sat_mono (hrest s2 (by lia)) (fun _ _ h => Nat.le_succ_of_le h)
              (fun _ _ he => he)

/-!
## Lines
-/

theorem within_setComp (n : Nat) (c : Compiler) : Within n (setComp c) :=
  within_modify fun _ => rfl

theorem within_parseLet {n fuel : Nat} (env : Env) (h : 2 * n + 5 ≤ fuel) :
    Within n (parseLet env fuel) :=
  within_bind (related_expectName (onTokens_within n)) fun _ =>
    within_bind (related_expectToken (onTokens_within n) _) fun _ =>
    within_bind (within_evalExpr env (by lia)) fun _ =>
    within_bind (related_expectSemicolon (onTokens_within n)) fun _ =>
    within_bind (within_get n) fun _ =>
    within_bind (related_liftExcept (composes_within n) _) fun _ =>
    within_bind (within_setComp n _) fun _ => within_pure n _

theorem within_defineFn (n : Nat) (name : NameBuf) : Within n (defineFn name) := by
  refine within_bind (within_get n) ?_
  intro s
  by_cases h : s.comp.stream.words.length ≤ fnBodyWords
  · rw [dif_pos h]
    exact within_bind (related_liftExcept (composes_within n) _) fun _ => within_setComp n _
  · rw [dif_neg h]
    exact within_reject n _

theorem within_parseFn {n fuel : Nat} (env : Env) (h : 2 * n + 5 ≤ fuel) :
    Within n (parseFn env fuel) :=
  within_bind (related_expectName (onTokens_within n)) fun _ =>
    within_bind (related_expectToken (onTokens_within n) _) fun _ =>
    within_bind (related_expectToken (onTokens_within n) _) fun _ =>
    within_bind (related_expectToken (onTokens_within n) _) fun _ =>
    within_bind ((onStream_within n).onSet _) fun _ =>
    within_bind ((blockFuel env fuel).onBlock n h) fun _ =>
    within_bind (within_defineFn n _) fun _ => within_pure n _

theorem within_parseLine {n fuel : Nat} (env : Env) (h : 2 * n + 5 ≤ fuel) :
    Within n (parseLine env fuel) := by
  have hoperands : OnOperands (fun x _ => Within n x) env env fuel fuel :=
    onOperands_within env (by lia)
  have hvalue : forall first, Within n (valueCommand env fuel first) := fun first =>
    related_valueCommand hoperands (onStream_within n) (within_evalExprFrom env first h)
  refine related_parseLine hoperands (onTokens_within n) (within_parseLet env h)
    (within_parseFn env h) ?_ ?_ hvalue
  · exact related_runCommand hoperands (onTokens_within n)
      (related_loopCommand hoperands (onTokens_within n) (onStream_within n)
        (within_parseTopBlock env fuel n h))
  · intro id
    exact related_callOrValue hoperands (onTokens_within n)
      (related_buildCallProgram (onStream_within n) hoperands.toSameBuild (within_getFnBody n id))
      (hvalue _)

/-- Every line comes to an end: no parse stops for lack of fuel. -/
theorem parse_ne_fuel (env : Env) (c : Compiler) (line : List Byte) (s : ParseState) :
    parse env c line ≠ .error .fuel s := by
  intro hparse
  have hsize : (startState c line).scan.cur.size ≤ line.length := Nat.le_refl _
  have hfuel : 2 * line.length + 5 ≤ parseFuel line := by
    unfold parseFuel
    lia
  have hwithin := within_parseLine env hfuel (startState c line) hsize
  exact sat_of_error hwithin hparse rfl

end Compilation
end HolyRust
