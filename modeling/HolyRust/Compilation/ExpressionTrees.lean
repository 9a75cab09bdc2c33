import HolyRust.Compilation.Expressions

/-!
# Trees behind values

Where the parser gives a value, the tokens that it has taken are those of a tree, and the
value is the value of the tree: `eval_expr` accepts nothing that is not an expression.
-/

namespace HolyRust
namespace Compilation

open Foundation

/-- What a read gives where it does not fault. -/
def Env.answers (env : Env) : Word -> Word := fun a => (env.mem a).getD 0#32

/-!
## Tokens
-/

/-- The lexer may have given the token. -/
def Token.Given (t : Token) : Prop := t = .eof ∨ t.Lexed

def AllLexed (ts : List Token) : Prop := forall t, t ∈ ts -> t.Lexed

theorem given_headD {ts : List Token} (h : AllLexed ts) : (ts.headD .eof).Given := by
  cases ts with
  | nil => exact Or.inl rfl
  | cons t ts => exact Or.inr (h t List.mem_cons_self)

theorem allLexed_tail {ts : List Token} (h : AllLexed ts) : AllLexed ts.tail :=
  fun t ht => h t (List.mem_of_mem_tail ht)

theorem allLexed_right {ts us : List Token} (h : AllLexed (ts ++ us)) : AllLexed us :=
  fun t ht => h t (List.mem_append_right ts ht)

theorem Term.first_ne_eof (t : Term) : t.first ≠ .eof := by
  cases t <;> rintro ⟨⟩

theorem Expr.first_ne_eof (e : Expr) : e.first ≠ .eof := by
  cases e with
  | term t => exact t.first_ne_eof
  | binary e op t => exact e.first_ne_eof

/-!
## What has been taken
-/

/-- Behind `tok`, the rest of a term with the value `v` has been taken from `ts`. -/
def TakesTerm (env : Env) (c : Compiler) (tok : Token) (ts : List Token) (v : Word)
    (s : Scan) : Prop :=
  exists (t : Term) (rest : List Token), t.first = tok ∧ t.later ++ rest = ts ∧
    s.cur.Has rest ∧ t.eval c.lookupSymbol env.answers = .ok v

def TakesExpr (env : Env) (c : Compiler) (tok : Token) (ts : List Token) (v : Word)
    (s : Scan) : Prop :=
  exists (e : Expr) (rest : List Token), e.first = tok ∧ e.later ++ rest = ts ∧
    s.cur.Has rest ∧ e.eval c.lookupSymbol env.answers = .ok v

theorem sat_of_comesTo {x : ScanM Word} {s : Scan} {r : Except ExprError Word}
    {ts : List Token} (h : ComesTo x s r ts) :
    Sat x s (fun v s' => r = .ok v ∧ s'.cur.Has ts) (fun _ _ => True) := by
  unfold Sat
  cases r with
  | ok v =>
      rcases h with ⟨s', hrun, hs'⟩
      rw [hrun]
      exact ⟨rfl, hs'⟩
  | error e =>
      rcases h with ⟨s', hrun⟩
      rw [hrun]
      trivial

theorem exists_sign {op : Byte} (h : isArithmetic op = true) :
    exists o : BinaryOp, o.sign = op := by
  have hmem : op ∈ ascii "+-*/%" := List.contains_iff_mem.mp h
  have hops : ascii "+-*/%" = [BinaryOp.add, .sub, .mul, .div, .rem].map BinaryOp.sign := by decide
  rw [hops] at hmem
  rcases List.mem_map.mp hmem with ⟨o, _, hsign⟩
  exact ⟨o, hsign⟩

/-- The four expression parsers, for all of them at once. -/
structure Takes (env : Env) (c : Compiler) (fuel : Nat) : Prop where
  onOperand : forall tok ts s, tok.Given -> AllLexed ts -> s.cur.Has ts ->
    Sat (operand env c fuel tok) s (TakesTerm env c tok ts) (fun _ _ => True)
  onTerm : forall tok ts s, tok.Given -> AllLexed ts -> s.cur.Has ts ->
    Sat (resolveTerm env c fuel tok) s (TakesTerm env c tok ts) (fun _ _ => True)
  onExpr : forall tok ts s, tok.Given -> AllLexed ts -> s.cur.Has ts ->
    Sat (evalExpr env c fuel (some tok)) s (TakesExpr env c tok ts) (fun _ _ => True)
  onTail : forall (e : Expr) acc ts s, AllLexed ts -> s.cur.Has ts ->
    e.eval c.lookupSymbol env.answers = .ok acc ->
    Sat (evalTail env c fuel acc) s (TakesExpr env c e.first (e.later ++ ts)) (fun _ _ => True)

section Steps

variable {env : Env} {c : Compiler} {fuel : Nat}

/-- A term that begins with the next token. -/
theorem takes_next_operand (h : Takes env c fuel) {ts : List Token} {s : Scan}
    (hlexed : AllLexed ts) (hs : s.cur.Has ts) :
    Sat (next >>= operand env c fuel) s
      (fun v s' => exists (t : Term) (rest : List Token), ts = t.tokens ++ rest ∧
        s'.cur.Has rest ∧ t.eval c.lookupSymbol env.answers = .ok v) (fun _ _ => True) := by
  refine sat_seq (has_next hs) fun first s1 hs1 => ?_
  have hfirst : first.Given := by
    rw [hs1.1]
    exact given_headD hlexed
  refine sat_mono (h.onOperand first ts.tail s1 hfirst (allLexed_tail hlexed) hs1.2) ?_
    (fun _ _ _ => trivial)
  rintro v s2 ⟨t, rest, hterm, hlater, hs2, heval⟩
  refine ⟨t, rest, ?_, hs2, heval⟩
  have hhead : ts.headD .eof = t.first := by rw [hterm, hs1.1]
  rw [eq_cons_of_headD hhead t.first_ne_eof, ← hlater]
  rfl

/-- Without a first token, the expression begins with the next one. -/
theorem sat_evalExpr_none (h : Takes env c fuel) {ts : List Token} {s : Scan}
    (hlexed : AllLexed ts) (hs : s.cur.Has ts) :
    Sat (evalExpr env c fuel none) s
      (fun v s' => exists (e : Expr) (rest : List Token), ts = e.tokens ++ rest ∧
        s'.cur.Has rest ∧ e.eval c.lookupSymbol env.answers = .ok v) (fun _ _ => True) := by
  have hstart : evalExpr env c fuel none =
      (next >>= fun tok => evalExpr env c fuel (some tok)) ∨
      evalExpr env c fuel none = throw .fuel := by
    cases fuel with
    | zero => exact Or.inr rfl
    | succ fuel =>
        refine Or.inl ?_
        unfold evalExpr
        rfl
  rcases hstart with hstart | hstart
  · rw [hstart]
    refine sat_seq (has_next hs) fun tok s1 hs1 => ?_
    have htok : tok.Given := by
      rw [hs1.1]
      exact given_headD hlexed
    refine sat_mono (h.onExpr tok ts.tail s1 htok (allLexed_tail hlexed) hs1.2) ?_ ?_
    · rintro v s2 ⟨e, rest, hfirst, hlater, hs2, heval⟩
      refine ⟨e, rest, ?_, hs2, heval⟩
      have hhead : ts.headD .eof = e.first := by rw [hfirst, hs1.1]
      rw [eq_cons_of_headD hhead e.first_ne_eof, ← hlater]
      rfl
    · exact fun _ _ _ => trivial
  · rw [hstart]
    trivial

theorem takes_operand_succ (h : Takes env c fuel) (tok : Token) (ts : List Token) (s : Scan)
    (htok : tok.Given) (hlexed : AllLexed ts) (hs : s.cur.Has ts) :
    Sat (operand env c (fuel + 1) tok) s (TakesTerm env c tok ts) (fun _ _ => True) := by
  unfold operand
  refine sat_ite (fun hparen => ?_) fun _ => h.onTerm tok ts s htok hlexed hs
  refine sat_seq (sat_evalExpr_none h hlexed hs) fun v s1 hexpr => ?_
  rcases hexpr with ⟨e, rest, htokens, hs1, heval⟩
  refine sat_seq (has_next hs1) fun close s2 hs2 => sat_ite (fun hclose => ?_) fun _ => trivial
  have hrest : rest = .rParen :: rest.tail := by
    refine eq_cons_of_headD ?_ (by rintro ⟨⟩)
    rw [← hs2.1, hclose]
  refine ⟨.paren e, rest.tail, hparen.symm, ?_, hs2.2, heval⟩
  rw [htokens, hrest]
  show e.first :: (e.later ++ [.rParen]) ++ rest.tail = _
  rw [List.cons_append, List.append_assoc]
  rfl

theorem takes_resolveTerm_succ (h : Takes env c fuel) (tok : Token) (ts : List Token) (s : Scan)
    (htok : tok.Given) (hlexed : AllLexed ts) (hs : s.cur.Has ts) :
    Sat (resolveTerm env c (fuel + 1) tok) s (TakesTerm env c tok ts) (fun _ _ => True) := by
  unfold resolveTerm
  cases tok with
  | literal v =>
      rcases exists_numeral v with ⟨n, hn⟩
      refine ⟨.literal n, ts, congrArg Token.literal hn, rfl, hs, ?_⟩
      exact congrArg Except.ok hn
  | identifier id =>
      have hident : IsIdent id := by
        rcases htok with heof | hlex
        · cases heof
        · exact hlex
      refine sat_ite (fun hpeek => ?_) fun hpeek => ?_
      · show Sat (next >>= fun first => operand env c fuel first >>= peekU32 env) s _ _
        rw [← bind_assoc]
        refine sat_seq (takes_next_operand h hlexed hs) fun addr s1 haddr => ?_
        rcases haddr with ⟨t, rest, htokens, hs1, heval⟩
        unfold peekU32
        rw [sat_bind, sat_modify]
        cases hmem : env.mem addr with
        | none => trivial
        | some v =>
            refine ⟨.peek t, rest, congrArg Token.identifier hpeek.symm, htokens.symm, hs1, ?_⟩
            rw [Term.eval, heval]
            show Except.ok ((env.mem addr).getD 0#32) = _
            rw [hmem]
            rfl
      · cases hsymbol : c.lookupSymbol id with
        | none => trivial
        | some v =>
            refine ⟨.symbol ⟨id, hident, hpeek⟩, ts, rfl, rfl, hs, ?_⟩
            rw [Term.eval, hsymbol]
  | _ => trivial

theorem takes_evalExpr_succ (h : Takes env c fuel) (tok : Token) (ts : List Token) (s : Scan)
    (htok : tok.Given) (hlexed : AllLexed ts) (hs : s.cur.Has ts) :
    Sat (evalExpr env c (fuel + 1) (some tok)) s (TakesExpr env c tok ts) (fun _ _ => True) := by
  unfold evalExpr
  show Sat (operand env c fuel tok >>= evalTail env c fuel) s _ _
  refine sat_seq (h.onOperand tok ts s htok hlexed hs) fun acc s1 hterm => ?_
  rcases hterm with ⟨t, rest, rfl, rfl, hs1, heval⟩
  exact h.onTail (.term t) acc rest s1 (allLexed_right hlexed) hs1 heval

theorem takes_evalTail_succ (h : Takes env c fuel) (e : Expr) (acc : Word) (ts : List Token)
    (s : Scan) (hlexed : AllLexed ts) (hs : s.cur.Has ts)
    (heval : e.eval c.lookupSymbol env.answers = .ok acc) :
    Sat (evalTail env c (fuel + 1) acc) s (TakesExpr env c e.first (e.later ++ ts))
      (fun _ _ => True) := by
  have hstop : forall s' : Scan, s'.cur.Has ts ->
      TakesExpr env c e.first (e.later ++ ts) acc s' :=
    fun s' hs' => ⟨e, ts, rfl, rfl, hs', heval⟩
  unfold evalTail
  refine sat_seq (has_peek hs) fun tok s1 hs1 => ?_
  cases tok with
  | operator op =>
      refine sat_ite (fun harith => ?_) fun _ => hstop s1 hs1.2
      rcases exists_sign harith with ⟨o, rfl⟩
      have hts := eq_cons_of_headD hs1.1.symm (by rintro ⟨⟩)
      refine sat_seq (has_next hs1.2) fun _ s2 hs2 => ?_
      have htail := allLexed_tail hlexed
      rw [← bind_assoc]
      refine sat_seq (takes_next_operand h htail hs2.2) fun rhs s3 hterm => ?_
      rcases hterm with ⟨t, rest, htaken, hs3, hright⟩
      refine sat_seq (sat_of_comesTo (applyOperator_sign o acc rhs hs3)) fun acc' s4 happly => ?_
      have htokens : e.later ++ ts = (Expr.binary e o t).later ++ rest := by
        rw [hts, htaken]
        show _ = e.later ++ .operator o.sign :: t.first :: t.later ++ rest
        rw [List.append_assoc]
        rfl
      have hbinary : (Expr.binary e o t).eval c.lookupSymbol env.answers = .ok acc' := by
        rw [Expr.eval, heval, hright]
        exact happly.1
      rw [htaken] at htail
      rw [htokens]
      exact h.onTail (.binary e o t) acc' rest s4 (allLexed_right htail) happly.2 hbinary
  | _ => exact hstop s1 hs1.2

end Steps

theorem takes (env : Env) (c : Compiler) (fuel : Nat) : Takes env c fuel := by
  induction fuel with
  | zero => constructor <;> intros <;> trivial
  | succ fuel ih =>
      exact ⟨takes_operand_succ ih, takes_resolveTerm_succ ih, takes_evalExpr_succ ih,
        takes_evalTail_succ ih⟩

/-- What `parse_atomic_term` takes for a term is one. -/
theorem sat_parseAtomicTerm (env : Env) (c : Compiler) (fuel : Nat) {ts : List Token} {s : Scan}
    (hlexed : AllLexed ts) (hs : s.cur.Has ts) :
    Sat (parseAtomicTerm env fuel c) s
      (fun v s' => exists (t : Term) (rest : List Token), ts = t.tokens ++ rest ∧
        s'.cur.Has rest ∧ t.eval c.lookupSymbol env.answers = .ok v) (fun _ _ => True) :=
  takes_next_operand (takes env c fuel) hlexed hs

end Compilation
end HolyRust
