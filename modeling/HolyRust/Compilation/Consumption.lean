import HolyRust.Compilation.Congruence
import HolyRust.Compilation.Tokens

/-!
# What a line consumes

Expressions never run past a semicolon or a brace, so where a statement ends can be read
off the tokens of the line.  `expect_semicolon` ends a statement at its semicolon whatever
follows, a keyword command does not even ask for the semicolon, and the block of a
top-level loop steps over every token that starts no `poke` or `peek`.
-/

namespace HolyRust
namespace Compilation

open Foundation

/-!
## Expressions
-/

/-- A token that an expression can have. -/
def Token.Plain (t : Token) : Prop := t ≠ .semicolon ∧ t ≠ .lBrace ∧ t ≠ .rBrace

instance (t : Token) : Decidable t.Plain :=
  inferInstanceAs (Decidable (_ ∧ _ ∧ _))

theorem Token.plain_literal (v : Word) : (Token.literal v).Plain := by
  refine ⟨?_, ?_, ?_⟩ <;> intro h <;> cases h

theorem Token.plain_identifier (id : List Byte) : (Token.identifier id).Plain := by
  refine ⟨?_, ?_, ?_⟩ <;> intro h <;> cases h

theorem Token.plain_operator (op : Byte) : (Token.operator op).Plain := by
  refine ⟨?_, ?_, ?_⟩ <;> intro h <;> cases h

/-- The cursor was at `ts` and has moved over plain tokens. -/
def Ate (ts : List Token) (cur : Cur) : Prop :=
  exists used rest, ts = used ++ rest ∧ (forall t, t ∈ used -> t.Plain) ∧ cur.Has rest

theorem ate_refl {ts : List Token} {cur : Cur} (h : cur.Has ts) : Ate ts cur :=
  ⟨[], ts, rfl, fun _ ht => absurd ht List.not_mem_nil, h⟩

theorem ate_cons {t : Token} {ts : List Token} {cur : Cur} (ht : t.Plain) (h : Ate ts cur) :
    Ate (t :: ts) cur := by
  obtain ⟨used, rest, rfl, hused, hrest⟩ := h
  refine ⟨t :: used, rest, rfl, ?_, hrest⟩
  intro t' ht'
  rcases List.mem_cons.mp ht' with rfl | hmem
  · exact ht
  · exact hused t' hmem

/-- One part after another. -/
theorem ate_trans {ts : List Token} {cur cur' : Cur} (h : Ate ts cur)
    (h' : forall rest, cur.Has rest -> Ate rest cur') : Ate ts cur' := by
  obtain ⟨used, rest, rfl, hused, hrest⟩ := h
  obtain ⟨used', rest', rfl, hused', hrest'⟩ := h' rest hrest
  refine ⟨used ++ used', rest', (List.append_assoc _ _ _).symm, ?_, hrest'⟩
  intro t ht
  rcases List.mem_append.mp ht with hmem | hmem
  · exact hused t hmem
  · exact hused' t hmem

/-- A part that takes plain tokens, after others that did. -/
theorem sat_ate {x : ScanM α} {s : Scan} {ts : List Token} (h : Ate ts s.cur)
    (hx : forall rest, s.cur.Has rest -> Sat x s (fun _ s' => Ate rest s'.cur)
      (fun _ _ => True)) : Sat x s (fun _ s' => Ate ts s'.cur) (fun _ _ => True) := by
  obtain ⟨used, rest, rfl, hused, hrest⟩ := h
  refine sat_mono (hx rest hrest) ?_ (fun _ _ h => h)
  intro a s' hs'
  have hs : Ate (used ++ rest) s.cur := ⟨used, rest, rfl, hused, hrest⟩
  refine ate_trans hs fun rest' hrest' => ?_
  rw [Cur.has_unique hrest' hrest]
  exact hs'

/-- `next` takes a token that has to be plain for the rest to succeed. -/
theorem sat_ate_next {f : Token -> ScanM α} {s : Scan} {ts : List Token} (h : s.cur.Has ts)
    (hf : forall tok s' ts', s'.cur.Has ts' ->
      Sat (f tok) s' (fun _ s'' => tok.Plain ∧ Ate ts' s''.cur) (fun _ _ => True)) :
    Sat (next >>= f) s (fun _ s' => Ate ts s'.cur) (fun _ _ => True) := by
  refine sat_seq (has_next h) fun tok s' hs' => ?_
  refine sat_mono (hf tok s' ts.tail hs'.2) ?_ (fun _ _ h => h)
  intro a s'' hs''
  cases ts with
  | nil => exact hs''.2
  | cons t ts =>
      rw [show tok = t from hs'.1] at hs''
      exact ate_cons hs''.1 hs''.2

theorem sat_applyOperator (op : Byte) (acc rhs : Word) {s : Scan} {ts : List Token}
    (h : s.cur.Has ts) :
    Sat (applyOperator op acc rhs) s (fun _ s' => Ate ts s'.cur) (fun _ _ => True) := by
  have hate := ate_refl h
  unfold applyOperator
  refine sat_ite (fun _ => hate) fun _ => ?_
  refine sat_ite (fun _ => hate) fun _ => ?_
  refine sat_ite (fun _ => hate) fun _ => ?_
  refine sat_ite (fun _ => ?_) fun _ => ?_
  · exact sat_ite (fun _ => trivial) fun _ => hate
  · exact sat_ite (fun _ => trivial) fun _ => hate

/-- The expression parsers take plain tokens, the one they are given included. -/
structure ExprEats (env : Env) (c : Compiler) (fuel : Nat) : Prop where
  onOperand : forall tok s ts, s.cur.Has ts -> Sat (operand env c fuel tok) s
    (fun _ s' => tok.Plain ∧ Ate ts s'.cur) (fun _ _ => True)
  onTerm : forall tok s ts, s.cur.Has ts -> Sat (resolveTerm env c fuel tok) s
    (fun _ s' => tok.Plain ∧ Ate ts s'.cur) (fun _ _ => True)
  onExpr : forall first s ts, s.cur.Has ts -> Sat (evalExpr env c fuel first) s
    (fun _ s' => Ate ts s'.cur) (fun _ _ => True)
  onTail : forall acc s ts, s.cur.Has ts -> Sat (evalTail env c fuel acc) s
    (fun _ s' => Ate ts s'.cur) (fun _ _ => True)

theorem ate_operand_succ {env : Env} {c : Compiler} {fuel : Nat} (h : ExprEats env c fuel)
    (tok : Token) {s : Scan} {ts : List Token} (hs : s.cur.Has ts) :
    Sat (operand env c (fuel + 1) tok) s (fun _ s' => tok.Plain ∧ Ate ts s'.cur)
      (fun _ _ => True) := by
  simp only [operand]
  refine sat_ite (fun htok => ?_) fun _ => h.onTerm tok s ts hs
  have hplain : tok.Plain := by
    rw [htok]
    decide
  have hinner : Sat (evalExpr env c fuel none >>= fun v => next >>= fun close =>
      if close = .rParen then pure v else fail .unexpectedToken) s
      (fun _ s' => Ate ts s'.cur) (fun _ _ => True) := by
    refine sat_seq (h.onExpr none s ts hs) fun v s1 hs1 => ?_
    refine sat_ate hs1 fun rest hrest => ?_
    refine sat_ate_next hrest fun close s2 ts2 hs2 => ?_
    refine sat_ite (fun hclose => ?_) fun _ => trivial
    rw [hclose]
    exact ⟨by decide, ate_refl hs2⟩
  exact sat_mono hinner (fun _ _ hate => ⟨hplain, hate⟩) (fun _ _ h => h)

theorem ate_resolveTerm_succ {env : Env} {c : Compiler} {fuel : Nat} (h : ExprEats env c fuel)
    (tok : Token) {s : Scan} {ts : List Token} (hs : s.cur.Has ts) :
    Sat (resolveTerm env c (fuel + 1) tok) s (fun _ s' => tok.Plain ∧ Ate ts s'.cur)
      (fun _ _ => True) := by
  cases tok with
  | literal v => exact ⟨Token.plain_literal v, ate_refl hs⟩
  | identifier id =>
      have hplain := Token.plain_identifier id
      simp only [resolveTerm]
      refine sat_ite (fun _ => ?_) fun _ => ?_
      · have hread : Sat (next >>= fun first => operand env c fuel first >>= fun addr =>
            peekU32 env addr) s (fun _ s' => Ate ts s'.cur) (fun _ _ => True) := by
          refine sat_ate_next hs fun first s1 ts1 hs1 => ?_
          refine sat_seq (h.onOperand first s1 ts1 hs1) fun addr s2 hs2 => ?_
          unfold peekU32
          rw [sat_bind, sat_modify]
          cases env.mem addr with
          | some v => exact hs2
          | none => trivial
        exact sat_mono hread (fun _ _ hate => ⟨hplain, hate⟩) (fun _ _ h => h)
      · cases c.lookupSymbol id with
        | some v => exact ⟨hplain, ate_refl hs⟩
        | none => trivial
  | _ => trivial

theorem ate_evalExpr_succ {env : Env} {c : Compiler} {fuel : Nat} (h : ExprEats env c fuel)
    (first : Option Token) {s : Scan} {ts : List Token} (hs : s.cur.Has ts) :
    Sat (evalExpr env c (fuel + 1) first) s (fun _ s' => Ate ts s'.cur) (fun _ _ => True) := by
  have hrest : forall tok s ts, s.cur.Has ts ->
      Sat (operand env c fuel tok >>= fun acc => evalTail env c fuel acc) s
        (fun _ s' => tok.Plain ∧ Ate ts s'.cur) (fun _ _ => True) := by
    intro tok s ts hs
    refine sat_seq (h.onOperand tok s ts hs) fun acc s1 hs1 => ?_
    refine sat_mono (sat_ate hs1.2 fun rest hrest => h.onTail acc s1 rest hrest) ?_ (fun _ _ h => h)
    intro _ _ hate
    exact ⟨hs1.1, hate⟩
  simp only [evalExpr]
  cases first with
  | some t => exact sat_mono (hrest t s ts hs) (fun _ _ hate => hate.2) (fun _ _ h => h)
  | none => exact sat_ate_next hs hrest

theorem ate_evalTail_succ {env : Env} {c : Compiler} {fuel : Nat} (h : ExprEats env c fuel)
    (acc : Word) {s : Scan} {ts : List Token} (hs : s.cur.Has ts) :
    Sat (evalTail env c (fuel + 1) acc) s (fun _ s' => Ate ts s'.cur) (fun _ _ => True) := by
  simp only [evalTail]
  refine sat_seq (has_peek hs) fun tok s1 hs1 => ?_
  obtain ⟨htok, hs1⟩ := hs1
  cases tok with
  | operator op =>
      refine sat_ite (fun _ => ?_) fun _ => ate_refl hs1
      refine sat_seq (has_next hs1) fun tok' s2 hs2 => ?_
      have hone : Ate ts s2.cur := by
        cases ts with
        | nil => cases htok
        | cons t ts =>
            rw [show t = .operator op from htok.symm]
            exact ate_cons (Token.plain_operator op) (ate_refl hs2.2)
      refine sat_ate hone fun rest hrest => ?_
      refine sat_ate_next hrest fun first s3 ts3 hs3 => ?_
      refine sat_seq (h.onOperand first s3 ts3 hs3) fun rhs s4 hs4 => ?_
      have hloop : Sat (applyOperator op acc rhs >>= fun acc' => evalTail env c fuel acc') s4
          (fun _ s' => Ate ts3 s'.cur) (fun _ _ => True) := by
        refine sat_ate hs4.2 fun rest' hrest' => ?_
        refine sat_seq (sat_applyOperator op acc rhs hrest') fun acc' s5 hs5 => ?_
        exact sat_ate hs5 fun rest'' hrest'' => h.onTail acc' s5 rest'' hrest''
      exact sat_mono hloop (fun _ _ hate => ⟨hs4.1, hate⟩) (fun _ _ h => h)
  | _ => exact ate_refl hs1

theorem exprEats (env : Env) (c : Compiler) (fuel : Nat) : ExprEats env c fuel := by
  induction fuel with
  | zero =>
      exact ⟨fun _ _ _ _ => trivial, fun _ _ _ _ => trivial, fun _ _ _ _ => trivial,
        fun _ _ _ _ => trivial⟩
  | succ fuel ih =>
      exact ⟨fun tok _ _ hs => ate_operand_succ ih tok hs,
        fun tok _ _ hs => ate_resolveTerm_succ ih tok hs,
        fun first _ _ hs => ate_evalExpr_succ ih first hs,
        fun acc _ _ hs => ate_evalTail_succ ih acc hs⟩

/-!
## Statements
-/

/-- The parser takes plain tokens. -/
def Eats (x : ParseM α) : Prop :=
  forall s ts, s.Has ts -> Sat x s (fun _ s' => Ate ts s'.scan.cur) (fun _ _ => True)

/-- The parser takes no token. -/
def Still (x : ParseM α) : Prop :=
  forall s, Sat x s (fun _ s' => s'.scan = s.scan) (fun _ _ => True)

/-- What takes no token leaves the tokens to what comes next. -/
theorem sat_still {x : ParseM α} {f : α -> ParseM β} (hx : Still x) {s : ParseState}
    {ts : List Token} (hs : s.Has ts) {Q : β -> ParseState -> Prop}
    (hf : forall a s', s'.Has ts -> Sat (f a) s' Q (fun _ _ => True)) :
    Sat (x >>= f) s Q (fun _ _ => True) :=
  sat_seq (hx s) fun a s' hs' => hf a s' (has_of_scan hs' hs)

theorem still_pure (a : α) : Still (pure a : ParseM α) := fun _ => rfl

theorem still_reject (e : ParseError) : Still (reject e : ParseM α) := fun _ => trivial

theorem still_bind {x : ParseM α} {f : α -> ParseM β} (hx : Still x)
    (hf : forall a, Still (f a)) : Still (x >>= f) := by
  intro s
  refine sat_seq (hx s) fun a s' hs' => ?_
  exact sat_mono (hf a s') (fun _ _ h => h.trans hs') (fun _ _ h => h)

theorem still_get : Still (get : ParseM ParseState) := fun _ => rfl

theorem still_setComp (c : Compiler) : Still (setComp c) := fun _ => rfl

theorem still_setStream (stream : Stream) : Still (setStream stream) := fun _ => rfl

theorem composes_still : Composes (fun x _ => Still x) where
  onPure := still_pure
  onReject := still_reject
  onBind := still_bind

theorem onStream_still : OnStream (fun x _ => Still x) where
  toComposes := composes_still
  onGet := still_bind still_get fun _ => still_pure _
  onSet := still_setStream

theorem still_requireAccess (env : Env) (addr : Word) : Still (requireAccess env addr) := by
  unfold requireAccess
  cases Capabilities.checkAccess env.target env.registry addr with
  | ok u => exact fun _ => rfl
  | error cap => exact still_reject _

theorem still_getFnBody (name : List Byte) : Still (getFnBody name) := by
  refine still_bind still_get fun s => ?_
  cases s.comp.findFn name with
  | some i => exact still_pure _
  | none => exact still_reject _

/-!
### Taking plain tokens
-/

theorem eats_of_still {x : ParseM α} (hx : Still x) : Eats x := by
  intro s ts hs
  refine sat_mono (hx s) ?_ (fun _ _ h => h)
  intro _ s' hs'
  rw [hs']
  exact ate_refl hs

theorem eats_bind {x : ParseM α} {f : α -> ParseM β} (hx : Eats x) (hf : forall a, Eats (f a)) :
    Eats (x >>= f) := by
  intro s ts hs
  refine sat_seq (hx s ts hs) fun a s1 hs1 => ?_
  obtain ⟨used, rest, rfl, hused, hrest⟩ := hs1
  refine sat_mono (hf a s1 rest hrest) ?_ (fun _ _ h => h)
  intro _ s2 hs2
  refine ate_trans ⟨used, rest, rfl, hused, hrest⟩ fun rest' hrest' => ?_
  rw [Cur.has_unique hrest' hrest]
  exact hs2

theorem eats_evalExpr (env : Env) (fuel : Nat) (first : Option Token) :
    Eats (scanning fun c => evalExpr env c fuel first) :=
  fun s ts hs => sat_scanning ((exprEats env s.comp fuel).onExpr first s.scan ts hs)

theorem eats_atomicTerm (env : Env) (fuel : Nat) : Eats (scanning (parseAtomicTerm env fuel)) :=
  fun s _ hs => sat_scanning (sat_ate_next hs (exprEats env s.comp fuel).onOperand)

/-- A token that the continuation only accepts when it is plain. -/
theorem eats_nextToken {f : Token -> ParseM α} (hf : forall tok, tok.Plain -> Eats (f tok))
    (hbad : forall tok s, ¬ tok.Plain -> Sat (f tok) s (fun _ _ => False) (fun _ _ => True)) :
    Eats (nextToken >>= f) := by
  intro s ts hs
  refine sat_seq (has_nextToken hs) fun tok s1 hs1 => ?_
  by_cases hplain : tok.Plain
  · refine sat_mono (hf tok hplain s1 ts.tail hs1.2.tokens) ?_ (fun _ _ h => h)
    intro _ s2 hs2
    cases ts with
    | nil => exact hs2
    | cons t ts =>
        rw [show t = tok from hs1.1.symm]
        exact ate_cons hplain hs2
  · exact sat_mono (hbad tok s1 hplain) (fun _ _ h => h.elim) (fun _ _ h => h)

theorem eats_expectName : Eats expectName := by
  refine eats_nextToken ?_ ?_
  · intro tok _
    cases tok with
    | identifier id => exact eats_of_still (related_liftExcept composes_still _)
    | _ => exact eats_of_still (still_reject _)
  · intro tok s hplain
    cases tok with
    | identifier id => exact absurd (Token.plain_identifier id) hplain
    | _ => trivial

theorem eats_expectToken {t : Token} (ht : t.Plain) : Eats (expectToken t) := by
  refine eats_nextToken ?_ ?_
  · intro tok _ s ts hs
    exact sat_ite (fun _ => ate_refl hs) (fun _ => trivial)
  · intro tok s hplain
    refine sat_ite (fun heq => ?_) (fun _ => trivial)
    rw [heq] at hplain
    exact absurd ht hplain

theorem eats_loopCount (env : Env) (fuel : Nat) : Eats (loopCount env fuel) := by
  refine eats_bind (eats_atomicTerm env fuel) fun count => eats_of_still fun s => ?_
  exact sat_ite (fun _ => trivial) (fun _ => rfl)

/-!
### Ending a statement
-/

/-- Plain tokens and a semicolon are gone, or plain tokens up to the end. -/
def StmtEnd (ts : List Token) (cur : Cur) : Prop :=
  exists used rest, (forall t, t ∈ used -> t.Plain) ∧ cur.Has rest ∧
    (ts = used ++ .semicolon :: rest ∨ (ts = used ∧ rest = []))

/-- The parser takes a statement up to its semicolon. -/
def EndsStmt (x : ParseM α) : Prop :=
  forall s ts, s.Has ts -> Sat x s (fun _ s' => StmtEnd ts s'.scan.cur) (fun _ _ => True)

theorem ends_expectSemicolon : EndsStmt expectSemicolon := by
  intro s ts hs
  refine sat_seq (has_nextToken hs) fun tok s1 hs1 => ?_
  refine sat_ite (fun htok => ?_) (fun _ => trivial)
  cases ts with
  | nil =>
      exact ⟨[], [], fun _ ht => absurd ht List.not_mem_nil, hs1.2.tokens, Or.inr ⟨rfl, rfl⟩⟩
  | cons t ts =>
      have hne := Cur.ne_eof_of_has hs t List.mem_cons_self
      have ht : t = .semicolon := by
        rcases htok with h | h
        · exact hs1.1.symm.trans h
        · exact absurd (hs1.1.symm.trans h) hne
      refine ⟨[], ts, fun _ ht => absurd ht List.not_mem_nil, hs1.2.tokens, Or.inl ?_⟩
      rw [ht]
      rfl

theorem stmtEnd_of_ate {ts : List Token} {cur cur' : Cur} (h : Ate ts cur)
    (h' : forall rest, cur.Has rest -> StmtEnd rest cur') : StmtEnd ts cur' := by
  obtain ⟨used, rest, rfl, hused, hrest⟩ := h
  obtain ⟨used', rest', hused', hrest', hend⟩ := h' rest hrest
  have hall : forall t, t ∈ used ++ used' -> t.Plain := by
    intro t ht
    rcases List.mem_append.mp ht with hmem | hmem
    · exact hused t hmem
    · exact hused' t hmem
  refine ⟨used ++ used', rest', hall, hrest', ?_⟩
  rcases hend with rfl | ⟨rfl, rfl⟩
  · exact Or.inl (List.append_assoc _ _ _).symm
  · exact Or.inr ⟨rfl, rfl⟩

theorem ends_bind {x : ParseM α} {f : α -> ParseM β} (hx : Eats x)
    (hf : forall a, EndsStmt (f a)) : EndsStmt (x >>= f) := by
  intro s ts hs
  refine sat_seq (hx s ts hs) fun a s1 hs1 => ?_
  obtain ⟨used, rest, rfl, hused, hrest⟩ := hs1
  refine sat_mono (hf a s1 rest hrest) ?_ (fun _ _ h => h)
  intro _ s2 hs2
  refine stmtEnd_of_ate ⟨used, rest, rfl, hused, hrest⟩ fun rest' hrest' => ?_
  rw [Cur.has_unique hrest' hrest]
  exact hs2

theorem ends_then {x : ParseM α} {f : α -> ParseM β} (hx : EndsStmt x)
    (hf : forall a, Still (f a)) : EndsStmt (x >>= f) := by
  intro s ts hs
  refine sat_seq (hx s ts hs) fun a s1 hs1 => ?_
  refine sat_mono (hf a s1) ?_ (fun _ _ h => h)
  intro _ s2 hs2
  rw [hs2]
  exact hs1

theorem ends_pokeStmt (env : Env) (fuel : Nat) : EndsStmt (pokeStmt env fuel) := by
  have hlit : forall value, Still (streamPushLit env value) :=
    related_streamPushLit onStream_still ⟨rfl, rfl⟩
  exact ends_bind (eats_atomicTerm env fuel) fun _ =>
    ends_bind (eats_evalExpr env fuel none) fun _ =>
    ends_then ends_expectSemicolon fun _ => still_bind (still_requireAccess env _) fun _ =>
      still_bind (hlit _) fun _ => still_bind (hlit _) fun _ => related_streamPush onStream_still _

theorem ends_peekStmt (env : Env) (fuel : Nat) : EndsStmt (peekStmt env fuel) :=
  ends_bind (eats_atomicTerm env fuel) fun _ =>
    ends_then ends_expectSemicolon fun _ => still_bind (still_requireAccess env _) fun _ =>
      still_bind (related_streamPushLit onStream_still ⟨rfl, rfl⟩ _) fun _ =>
        related_streamPush onStream_still _

/-- What does not look at certain tokens does not see a list of them. -/
theorem skip_append {f : List Token -> β} {P : Token -> Prop}
    (hf : forall t ts, P t -> f (t :: ts) = f ts) {used : List Token} (ts : List Token)
    (h : forall t, t ∈ used -> P t) : f (used ++ ts) = f ts := by
  induction used with
  | nil => rfl
  | cons t used ih =>
      rw [List.cons_append, hf t _ (h t List.mem_cons_self)]
      exact ih fun t' ht' => h t' (List.mem_cons_of_mem t ht')

/-- What looks at braces only does not see a statement without them. -/
theorem stmtEnd_skips {f : ι -> List Token -> β}
    (hplain : forall i t ts, t.Plain -> f i (t :: ts) = f i ts)
    (hsemicolon : forall i ts, f i (.semicolon :: ts) = f i ts) {ts : List Token} {cur : Cur}
    (h : StmtEnd ts cur) : exists rest, cur.Has rest ∧ forall i, f i ts = f i rest := by
  obtain ⟨used, rest, hused, hrest, hend⟩ := h
  refine ⟨rest, hrest, ?_⟩
  intro i
  have hskip := fun more => skip_append (hplain i) more hused
  rcases hend with rfl | ⟨rfl, rfl⟩
  · rw [hskip, hsemicolon]
  · rw [← hskip [], List.append_nil]

/-- A call, once its opening parenthesis has been seen. -/
theorem ends_callTail {s : ParseState} {ts : List Token} (hs : s.Has (.lParen :: ts)) :
    Sat callTail s (fun _ s' => StmtEnd (.lParen :: ts) s'.scan.cur) (fun _ _ => True) := by
  refine sat_seq (has_nextToken hs) fun _ s1 hs1 => ?_
  have hrest := ends_bind (eats_expectToken (t := .rParen) (by decide))
    (fun _ => ends_expectSemicolon) s1 ts hs1.2.tokens
  refine sat_mono hrest ?_ (fun _ _ h => h)
  intro _ s2 hs2
  refine stmtEnd_of_ate (ate_cons (by decide) (ate_refl hs1.2.tokens)) fun rest' hrest' => ?_
  rw [Cur.has_unique hrest' hs1.2.tokens]
  exact hs2

/-- A call or an expression, told apart by one token. -/
theorem ends_call {f : Unit -> ParseM α} {y : ParseM α} (hf : forall u, Still (f u))
    (hy : EndsStmt y) :
    EndsStmt (peekToken >>= fun ahead => if ahead = .lParen then callTail >>= f else y) := by
  intro s ts hs
  refine sat_seq (has_peekToken hs) fun ahead s1 hs1 => ?_
  refine sat_ite (fun hcall => ?_) (fun _ => hy s1 ts hs1.2.tokens)
  cases ts with
  | nil => exact absurd (hcall.symm.trans hs1.1) (by decide)
  | cons t ts =>
      rw [show t = .lParen from hs1.1.symm.trans hcall] at *
      refine sat_seq (ends_callTail hs1.2.tokens) fun u s2 hs2 => ?_
      refine sat_mono (hf u s2) ?_ (fun _ _ h => h)
      intro _ s3 hs3
      rw [hs3]
      exact hs2

end Compilation
end HolyRust
