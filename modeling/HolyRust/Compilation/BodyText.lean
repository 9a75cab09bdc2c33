import HolyRust.Compilation.ExpressionTrees
import HolyRust.Compilation.Flattening

/-!
# Bodies as they are written

A body of a function as text: its statements, with terms and expressions for operands.  What
the text means is said without the parser, and the bodies that are read are exactly the
meanings of texts.
-/

namespace HolyRust
namespace Compilation

open Foundation
open Capabilities

/-!
## Texts
-/

/-- A name that no statement begins with. -/
structure PlainName where
  bytes : List Byte
  isIdent : IsIdent bytes
  ne_poke : bytes ≠ ascii "poke"
  ne_peek : bytes ≠ ascii "peek"
  ne_loop : bytes ≠ ascii "loop"

/-- An expression that stands as a statement: a name comes first. -/
structure NamedExpr where
  expr : Expr
  name : PlainName
  first : expr.first = .identifier name.bytes

inductive StmtText where
  | poke (addr : Term) (val : Expr)
  | peek (addr : Term)
  | call (name : PlainName)
  | value (e : NamedExpr)
  | loop (count : Term) (body : List StmtText)

mutual

def StmtText.tokens : StmtText -> List Token
  | .poke addr val =>
      .identifier (ascii "poke") :: (addr.tokens ++ (val.tokens ++ [.semicolon]))
  | .peek addr => .identifier (ascii "peek") :: (addr.tokens ++ [.semicolon])
  | .call name => [.identifier name.bytes, .lParen, .rParen, .semicolon]
  | .value e => e.expr.tokens ++ [.semicolon]
  | .loop count body =>
      .identifier (ascii "loop") :: (count.tokens ++ .lBrace :: blockTokens body)

/-- The statements and the closing brace. -/
def blockTokens : List StmtText -> List Token
  | [] => [.rBrace]
  | stmt :: body => stmt.tokens ++ blockTokens body

end

/-- The line up to the closing brace of the function. -/
def fnTokens (name : List Byte) (body : List StmtText) : List Token :=
  .kwFn :: .identifier name :: .lParen :: .rParen :: .lBrace :: blockTokens body

/-!
## Meaning
-/

section Meaning

variable (env : Env) (c : Compiler)

def Term.value? (t : Term) : Option Word := (t.eval c.lookupSymbol env.answers).toOption

def Expr.value? (e : Expr) : Option Word := (e.eval c.lookupSymbol env.answers).toOption

mutual

/-- The statement with its operands evaluated, if it is valid. -/
def StmtText.meaning : StmtText -> Option Stmt
  | .poke addr val => do
      let a <- addr.value? env c
      let v <- val.value? env c
      if Accessible env.target env.registry a then some (.block (.poke a v)) else none
  | .peek addr => do
      let a <- addr.value? env c
      if Accessible env.target env.registry a then some (.block (.peek a)) else none
  | .call name => if (c.findFn name.bytes).isSome then some (.call name.bytes) else none
  | .value e => do
      let _ <- e.expr.value? env c
      some .expr
  | .loop count body => do
      let n <- count.value? env c
      if n = 0#32 ∨ maxLoopUnroll < n.toNat then none
      else do
        let stmts <- blockMeaning body
        some (.loop n.toNat stmts)

def blockMeaning : List StmtText -> Option (List Stmt)
  | [] => some []
  | text :: texts => do
      let stmt <- text.meaning
      let stmts <- blockMeaning texts
      some (stmt :: stmts)

end

end Meaning

theorem toOption_eq_some {r : Except ε α} {a : α} : r.toOption = some a ↔ r = .ok a := by
  cases r with
  | ok b => exact Iff.intro (fun h => congrArg Except.ok (Option.some.inj h)) (congrArg _)
  | error e =>
      constructor
      · intro h
        cases h
      · intro h
        cases h

/-!
## Every body that is read has a text
-/

section Taken

variable {env : Env} {fuel : Nat}

/-- A statement has been taken from `ts`; where none ends it, the input does. -/
def TakesStmt (env : Env) (s : ParseState) (ts : List Token) (stmt : Stmt)
    (s' : ParseState) : Prop :=
  exists rest, MovedTo s rest s' ∧ (rest = [] ∨
    exists text : StmtText, ts = text.tokens ++ rest ∧ text.meaning env s.comp = some stmt)

def TakesBlock (env : Env) (s : ParseState) (ts : List Token) (stmts : List Stmt)
    (s' : ParseState) : Prop :=
  exists texts rest, ts = blockTokens texts ++ rest ∧ MovedTo s rest s' ∧
    blockMeaning env s.comp texts = some stmts

theorem takesStmt_trans {s s1 s2 : ParseState} {ts us : List Token} {stmt : Stmt}
    (h : MovedTo s us s1) (h' : TakesStmt env s1 ts stmt s2) : TakesStmt env s ts stmt s2 := by
  rcases h' with ⟨rest, hmoved, htext⟩
  rw [h.comp] at htext
  exact ⟨rest, movedTo_trans h hmoved, htext⟩

variable {s : ParseState} {ts : List Token}

theorem took_term (env : Env) (fuel : Nat) (hlexed : AllLexed ts) (hs : s.Has ts) :
    Sat (scanning (parseAtomicTerm env fuel)) s
      (fun v s' => exists (t : Term) (rest : List Token), ts = t.tokens ++ rest ∧
        MovedTo s rest s' ∧ t.value? env s.comp = some v) (fun _ _ => True) := by
  refine sat_scanning (sat_mono (sat_parseAtomicTerm env s.comp fuel hlexed hs) ?_
    (fun _ _ _ => trivial))
  rintro v scan ⟨t, rest, htokens, hscan, heval⟩
  exact ⟨t, rest, htokens, ⟨hscan, rfl⟩, toOption_eq_some.mpr heval⟩

theorem took_expr (env : Env) (fuel : Nat) (hlexed : AllLexed ts) (hs : s.Has ts) :
    Sat (scanning fun c => evalExpr env c fuel none) s
      (fun v s' => exists (e : Expr) (rest : List Token), ts = e.tokens ++ rest ∧
        MovedTo s rest s' ∧ e.value? env s.comp = some v) (fun _ _ => True) := by
  refine sat_scanning (sat_mono (sat_evalExpr_none (takes env s.comp fuel) hlexed hs) ?_
    (fun _ _ _ => trivial))
  rintro v scan ⟨e, rest, htokens, hscan, heval⟩
  exact ⟨e, rest, htokens, ⟨hscan, rfl⟩, toOption_eq_some.mpr heval⟩

theorem took_semicolon (hlexed : AllLexed ts) (hs : s.Has ts) :
    Sat expectSemicolon s
      (fun _ s' => exists rest, MovedTo s rest s' ∧ (ts = .semicolon :: rest ∨ rest = []))
      (fun _ _ => True) := by
  refine sat_seq (has_nextToken hs) fun tok s1 hs1 => sat_ite (fun htok => ?_) fun _ => trivial
  refine ⟨ts.tail, hs1.2, ?_⟩
  cases ts with
  | nil => exact Or.inr rfl
  | cons t ts =>
      have hhead : tok = t := hs1.1
      rcases htok with hsemi | heof
      · exact Or.inl (by rw [← hhead, hsemi]; rfl)
      · refine absurd (hlexed t List.mem_cons_self) ?_
        rw [← hhead, heof]
        exact id

theorem took_access (env : Env) (addr : Word) (hs : s.Has ts) :
    Sat (requireAccess env addr) s
      (fun _ s' => MovedTo s ts s' ∧ Accessible env.target env.registry addr)
      (fun _ _ => True) := by
  unfold requireAccess
  cases haccess : checkAccess env.target env.registry addr with
  | ok u => exact ⟨⟨hs, rfl⟩, haccess⟩
  | error cap => trivial

theorem took_fnBody (name : List Byte) (hs : s.Has ts) :
    Sat (getFnBody name) s (fun _ s' => MovedTo s ts s' ∧ (s.comp.findFn name).isSome = true)
      (fun _ _ => True) := by
  unfold getFnBody
  rw [sat_bind, sat_get]
  cases hfind : s.comp.findFn name with
  | some i => exact ⟨⟨hs, rfl⟩, rfl⟩
  | none => trivial

theorem took_poke (hlexed : AllLexed ts) (hs : s.Has ts) :
    Sat (readPoke env fuel) s (TakesStmt env s (.identifier (ascii "poke") :: ts))
      (fun _ _ => True) := by
  refine sat_seq (took_term env fuel hlexed hs) fun a s1 hterm => ?_
  rcases hterm with ⟨addr, rest1, rfl, hs1, ha⟩
  have hlexed1 := allLexed_right hlexed
  refine sat_seq (took_expr env fuel hlexed1 hs1.tokens) fun v s2 hexpr => ?_
  rcases hexpr with ⟨val, rest2, rfl, hs2, hv⟩
  refine sat_seq (took_semicolon (allLexed_right hlexed1) hs2.tokens) fun _ s3 hsemi => ?_
  rcases hsemi with ⟨rest3, hs3, hend⟩
  refine sat_seq (took_access env a hs3.tokens) fun _ s4 hs4 => ?_
  have hmoved := movedTo_trans (movedTo_trans (movedTo_trans hs1 hs2) hs3) hs4.1
  refine ⟨rest3, hmoved, ?_⟩
  rcases hend with rfl | hend
  · rw [hs1.comp] at hv
    refine Or.inr ⟨.poke addr val, by simp [StmtText.tokens], ?_⟩
    simp [StmtText.meaning, ha, hv, hs4.2]
  · exact Or.inl hend

theorem took_peek (hlexed : AllLexed ts) (hs : s.Has ts) :
    Sat (readPeek env fuel) s (TakesStmt env s (.identifier (ascii "peek") :: ts))
      (fun _ _ => True) := by
  refine sat_seq (took_term env fuel hlexed hs) fun a s1 hterm => ?_
  rcases hterm with ⟨addr, rest1, rfl, hs1, ha⟩
  refine sat_seq (took_semicolon (allLexed_right hlexed) hs1.tokens) fun _ s2 hsemi => ?_
  rcases hsemi with ⟨rest2, hs2, hend⟩
  refine sat_seq (took_access env a hs2.tokens) fun _ s3 hs3 => ?_
  refine ⟨rest2, movedTo_trans (movedTo_trans hs1 hs2) hs3.1, ?_⟩
  rcases hend with rfl | hend
  · refine Or.inr ⟨.peek addr, by simp [StmtText.tokens], ?_⟩
    simp [StmtText.meaning, ha, hs3.2]
  · exact Or.inl hend

theorem took_call (name : PlainName) (hlexed : AllLexed ts) (hs : s.Has (.lParen :: ts)) :
    Sat (callTail >>= fun _ => getFnBody name.bytes >>= fun _ => pure (.call name.bytes)) s
      (TakesStmt env s (.identifier name.bytes :: .lParen :: ts)) (fun _ _ => True) := by
  unfold callTail
  rw [bind_assoc]
  refine sat_seq (has_nextToken hs) fun _ s1 hs1 => ?_
  rw [bind_assoc]
  refine sat_seq (took_expectToken hs1.2.tokens (by decide)) fun _ s2 hclose => ?_
  rcases hclose with ⟨rest2, hts, hs2⟩
  rw [show ts = .rParen :: rest2 from hts] at hlexed ⊢
  have hlexed2 : AllLexed rest2 := allLexed_tail hlexed
  refine sat_seq (took_semicolon hlexed2 hs2.tokens) fun _ s3 hsemi => ?_
  rcases hsemi with ⟨rest3, hs3, hend⟩
  refine sat_seq (took_fnBody name.bytes hs3.tokens) fun _ s4 hs4 => ?_
  have hmoved := movedTo_trans (movedTo_trans hs1.2 hs2) hs3
  refine ⟨rest3, movedTo_trans hmoved hs4.1, ?_⟩
  rcases hend with rfl | hend
  · refine Or.inr ⟨.call name, rfl, ?_⟩
    have hfind := hs4.2
    rw [hmoved.comp] at hfind
    exact if_pos hfind
  · exact Or.inl hend

theorem took_value (name : PlainName) (hlexed : AllLexed ts) (hs : s.Has ts) :
    Sat (scanning (fun c => evalExpr env c fuel (some (.identifier name.bytes))) >>= fun _ =>
      expectSemicolon >>= fun _ => pure .expr) s
      (TakesStmt env s (.identifier name.bytes :: ts)) (fun _ _ => True) := by
  have hexpr : Sat (scanning fun c => evalExpr env c fuel (some (.identifier name.bytes))) s
      (fun v s' => exists (e : Expr) (rest : List Token), e.first = .identifier name.bytes ∧
        e.later ++ rest = ts ∧ MovedTo s rest s' ∧ e.value? env s.comp = some v)
      (fun _ _ => True) := by
    refine sat_scanning (sat_mono ((takes env s.comp fuel).onExpr _ ts s.scan
      (Or.inr name.isIdent) hlexed hs) ?_ (fun _ _ _ => trivial))
    rintro v scan ⟨e, rest, hfirst, hlater, hscan, heval⟩
    exact ⟨e, rest, hfirst, hlater, ⟨hscan, rfl⟩, toOption_eq_some.mpr heval⟩
  refine sat_seq hexpr fun v s1 htree => ?_
  rcases htree with ⟨e, rest1, hfirst, rfl, hs1, hv⟩
  refine sat_seq (took_semicolon (allLexed_right hlexed) hs1.tokens) fun _ s2 hsemi => ?_
  rcases hsemi with ⟨rest2, hs2, hend⟩
  refine ⟨rest2, movedTo_trans hs1 hs2, ?_⟩
  rcases hend with rfl | hend
  · refine Or.inr ⟨.value ⟨e, name, hfirst⟩, ?_, ?_⟩
    · simp [StmtText.tokens, Expr.tokens, hfirst]
    · simp [StmtText.meaning, hv]
  · exact Or.inl hend

/-- At the end of the input no block is read. -/
theorem took_block_nil (hs : s.Has []) :
    Sat (readBlock env fuel) s (fun _ _ => False) (fun _ _ => True) := by
  cases fuel with
  | zero => trivial
  | succ fuel =>
      unfold readBlock
      refine sat_seq (has_peekToken hs) fun tok s1 hs1 => ?_
      rw [show tok = .eof from hs1.1, if_neg (by rintro ⟨⟩), if_pos rfl]
      trivial

/-- The readers of statements and of blocks, both at once. -/
structure TakesBodies (env : Env) (fuel : Nat) : Prop where
  onStmt : forall s ts, AllLexed ts -> s.Has ts ->
    Sat (readBodyStmt env fuel) s (TakesStmt env s ts) (fun _ _ => True)
  onBlock : forall s ts, AllLexed ts -> s.Has ts ->
    Sat (readBlock env fuel) s (TakesBlock env s ts) (fun _ _ => True)

theorem took_loop (h : TakesBodies env fuel) (hlexed : AllLexed ts) (hs : s.Has ts) :
    Sat (loopCount env fuel >>= fun count => expectToken .lBrace >>= fun _ =>
      readBlock env fuel >>= fun body => pure (.loop count.toNat body)) s
      (TakesStmt env s (.identifier (ascii "loop") :: ts)) (fun _ _ => True) := by
  unfold loopCount
  rw [bind_assoc]
  refine sat_seq (took_term env fuel hlexed hs) fun n s1 hterm => ?_
  rcases hterm with ⟨count, rest1, rfl, hs1, hn⟩
  by_cases hbad : n = 0#32 ∨ maxLoopUnroll < n.toNat
  · rw [if_pos hbad]
    trivial
  · rw [if_neg hbad, pure_bind]
    refine sat_seq (took_expectToken hs1.tokens (by decide)) fun _ s2 hopen => ?_
    rcases hopen with ⟨rest2, rfl, hs2⟩
    have hlexed2 : AllLexed rest2 := allLexed_tail (allLexed_right hlexed)
    refine sat_seq (h.onBlock s2 rest2 hlexed2 hs2.tokens) fun stmts s3 hblock => ?_
    rcases hblock with ⟨texts, rest3, rfl, hs3, hmeaning⟩
    rw [hs2.comp, hs1.comp] at hmeaning
    have hmoved := movedTo_trans (movedTo_trans hs1 hs2) hs3
    refine ⟨rest3, hmoved, Or.inr ⟨.loop count texts, ?_, ?_⟩⟩
    · simp [StmtText.tokens]
    · simp only [StmtText.meaning, hn, hmeaning, Option.bind_eq_bind, Option.bind_some,
        if_neg hbad]

theorem takesBodies_stmt_succ (h : TakesBodies env fuel) (s : ParseState) (ts : List Token)
    (hlexed : AllLexed ts) (hs : s.Has ts) :
    Sat (readBodyStmt env (fuel + 1)) s (TakesStmt env s ts) (fun _ _ => True) := by
  unfold readBodyStmt
  refine sat_seq (has_nextToken hs) fun tok s1 hs1 => ?_
  have hmoved := hs1.2
  have htail := allLexed_tail hlexed
  have hrest := hs1.2.tokens
  cases tok with
  | identifier id =>
      have hts := eq_cons_of_headD hs1.1.symm (by rintro ⟨⟩)
      have hident : IsIdent id := by
        have hid : Token.identifier id ∈ ts := by
          rw [hts]
          exact List.mem_cons_self
        exact hlexed _ hid
      have hback : forall stmt s2, TakesStmt env s1 (.identifier id :: ts.tail) stmt s2 ->
          TakesStmt env s ts stmt s2 := by
        intro stmt s2 hstmt
        rw [hts]
        exact takesStmt_trans hmoved hstmt
      refine sat_mono (Q := TakesStmt env s1 (.identifier id :: ts.tail)) ?_ hback
        (fun _ _ h => h)
      refine sat_ite (fun hpoke => ?_) fun hpoke => ?_
      · rw [hpoke]
        exact took_poke htail hrest
      refine sat_ite (fun hpeek => ?_) fun hpeek => ?_
      · rw [hpeek]
        exact took_peek htail hrest
      refine sat_ite (fun hloop => ?_) fun hloop => ?_
      · rw [hloop]
        exact took_loop h htail hrest
      refine sat_seq (has_peekToken hrest) fun ahead s2 hs2 => ?_
      have hpeeked := hs2.2
      have hback' : forall stmt s3, TakesStmt env s2 (.identifier id :: ts.tail) stmt s3 ->
          TakesStmt env s1 (.identifier id :: ts.tail) stmt s3 :=
        fun _ _ hstmt => takesStmt_trans hpeeked hstmt
      refine sat_mono ?_ hback' (fun _ _ h => h)
      refine sat_ite (fun hcall => ?_) fun _ => ?_
      · have hparen : ts.tail = .lParen :: ts.tail.tail :=
          eq_cons_of_headD (hs2.1.symm.trans hcall) (by rintro ⟨⟩)
        have hcallee := hpeeked.tokens
        rw [hparen] at hcallee ⊢
        exact took_call ⟨id, hident, hpoke, hpeek, hloop⟩ (allLexed_tail htail) hcallee
      · exact took_value ⟨id, hident, hpoke, hpeek, hloop⟩ htail hpeeked.tokens
  | _ => trivial

theorem takesBodies_block_succ (h : TakesBodies env fuel) (s : ParseState) (ts : List Token)
    (hlexed : AllLexed ts) (hs : s.Has ts) :
    Sat (readBlock env (fuel + 1)) s (TakesBlock env s ts) (fun _ _ => True) := by
  unfold readBlock
  refine sat_seq (has_peekToken hs) fun tok s1 hs1 => sat_ite (fun hclose => ?_) fun _ =>
    sat_ite (fun _ => trivial) fun _ => ?_
  · have hts : ts = .rBrace :: ts.tail :=
      eq_cons_of_headD (hs1.1.symm.trans hclose) (by rintro ⟨⟩)
    refine sat_seq (has_nextToken hs1.2.tokens) fun _ s2 hs2 => ?_
    exact ⟨[], ts.tail, hts, movedTo_trans hs1.2 hs2.2, rfl⟩
  · refine sat_seq (h.onStmt s1 ts hlexed hs1.2.tokens) fun stmt s2 hstmt => ?_
    rcases takesStmt_trans hs1.2 hstmt with ⟨rest, hs2, hend | ⟨text, rfl, hmeaning⟩⟩
    · rw [hend] at hs2
      refine sat_seq (took_block_nil hs2.tokens) fun _ _ hnone => hnone.elim
    · refine sat_seq (h.onBlock s2 rest (allLexed_right hlexed) hs2.tokens)
        fun stmts s3 hblock => ?_
      rcases hblock with ⟨texts, more, rfl, hs3, hmeanings⟩
      rw [hs2.comp] at hmeanings
      refine ⟨text :: texts, more, ?_, movedTo_trans hs2 hs3, ?_⟩
      · rw [blockTokens, List.append_assoc]
      · simp only [blockMeaning, hmeaning, hmeanings, Option.bind_eq_bind, Option.bind_some]

theorem takesBodies (env : Env) (fuel : Nat) : TakesBodies env fuel := by
  induction fuel with
  | zero => exact ⟨fun _ _ _ _ => trivial, fun _ _ _ _ => trivial⟩
  | succ fuel ih => exact ⟨takesBodies_stmt_succ ih, takesBodies_block_succ ih⟩

/-- A definition that is read has a text, and that is what it means. -/
theorem exists_text_of_readsFn {c : Compiler} {line : List Byte} {name : NameBuf}
    {body : List Stmt} (h : ReadsFn env c line name body) :
    exists texts rest, tokensOf line = fnTokens name.bytes texts ++ rest ∧
      blockMeaning env c texts = some body := by
  have hs := has_startState c line
  have hlexed : AllLexed (tokensOf line) := fun _ => lexed_of_mem
  have hsat : Sat (readFn env (parseFuel line)) (startState c line)
      (fun definition _ => exists texts rest,
        tokensOf line = fnTokens definition.1.bytes texts ++ rest ∧
        blockMeaning env c texts = some definition.2) (fun _ _ => True) := by
    unfold readFn
    refine sat_seq (took_expectToken hs (by decide)) fun _ s1 hfn => ?_
    rcases hfn with ⟨ts1, hts1, hs1⟩
    refine sat_seq (took_expectName hs1.tokens) fun name s2 hname => ?_
    rcases hname with ⟨ts2, hts2, hs2⟩
    refine sat_seq (took_expectToken hs2.tokens (by decide)) fun _ s3 hopen => ?_
    rcases hopen with ⟨ts3, hts3, hs3⟩
    refine sat_seq (took_expectToken hs3.tokens (by decide)) fun _ s4 hclose => ?_
    rcases hclose with ⟨ts4, hts4, hs4⟩
    refine sat_seq (took_expectToken hs4.tokens (by decide)) fun _ s5 hbrace => ?_
    rcases hbrace with ⟨ts5, hts5, hs5⟩
    have htokens : tokensOf line =
        .kwFn :: .identifier name.bytes :: .lParen :: .rParen :: .lBrace :: ts5 := by
      rw [hts1, hts2, hts3, hts4, hts5]
    have hlexed5 : AllLexed ts5 := by
      rw [htokens] at hlexed
      exact fun t ht => hlexed t (by simp [ht])
    refine sat_seq ((takesBodies env _).onBlock s5 ts5 hlexed5 hs5.tokens) fun stmts s6 hblock => ?_
    rcases hblock with ⟨texts, rest, rfl, _, hmeaning⟩
    rw [hs5.comp, hs4.comp, hs3.comp, hs2.comp, hs1.comp] at hmeaning
    exact ⟨texts, rest, htokens, hmeaning⟩
  rcases h with ⟨s', hread⟩
  exact sat_of_ok hsat hread

end Taken

/-!
## Every text that means something is read
-/

theorem length_lexFrom_le (n : Nat) (bytes : List Byte) : (lexFrom n bytes).length ≤ n := by
  induction n generalizing bytes with
  | zero => exact Nat.le_refl 0
  | succ n ih =>
      simp only [lexFrom]
      split
      · exact Nat.zero_le _
      · exact Nat.succ_le_succ (ih _)

/-- A statement begins with a name. -/
theorem StmtText.tokens_cons (text : StmtText) :
    exists id ts, text.tokens = .identifier id :: ts := by
  cases text with
  | value e =>
      refine ⟨e.name.bytes, e.expr.later ++ [.semicolon], ?_⟩
      rw [StmtText.tokens, Expr.tokens, e.first]
      rfl
  | _ => exact ⟨_, _, rfl⟩

theorem length_blockTokens_pos (texts : List StmtText) : 0 < (blockTokens texts).length := by
  cases texts with
  | nil => exact Nat.one_pos
  | cons text texts =>
      rcases text.tokens_cons with ⟨id, ts, htokens⟩
      rw [blockTokens, htokens]
      exact Nat.succ_pos _

/-- Behind the name that an expression begins with there is no parenthesis. -/
theorem Expr.later_headD {name : List Byte} (hpeek : name ≠ ascii "peek") (e : Expr)
    (hfirst : e.first = .identifier name) (ts : List Token) (hts : ts.headD .eof ≠ .lParen) :
    (e.later ++ ts).headD .eof ≠ .lParen := by
  cases e with
  | term t =>
      cases t with
      | symbol n => exact hts
      | peek t => exact absurd (Token.identifier.inj hfirst).symm hpeek
      | _ => cases hfirst
  | binary e op t =>
      rw [Expr.later, List.append_assoc]
      exact Expr.later_headD hpeek e hfirst _ (by rintro ⟨⟩)

theorem sat_of_comesTo_ok {x : ScanM Word} {s : Scan} {v : Word} {ts : List Token}
    (h : ComesTo x s (.ok v) ts) {E : Abort -> Scan -> Prop} :
    Sat x s (fun v' s' => v' = v ∧ s'.cur.Has ts) E := by
  rcases h with ⟨s', hrun, hs'⟩
  unfold Sat
  rw [hrun]
  exact ⟨rfl, hs'⟩

section Reads

variable {env : Env} {m : Word -> Word} {fuel : Nat} {s : ParseState} {rest : List Token}
  {E : Abort -> ParseState -> Prop}

theorem reads_term (t : Term) {v : Word} (hfuel : 2 * t.tokens.length ≤ fuel)
    (hs : s.Has (t.tokens ++ rest)) (hv : t.value? (env.reading m) s.comp = some v) :
    Sat (scanning (parseAtomicTerm (env.reading m) fuel)) s
      (fun v' s' => v' = v ∧ MovedTo s rest s') E := by
  refine sat_scanning (sat_seq (has_next hs) fun tok s1 hs1 => ?_)
  rw [show tok = t.first from hs1.1]
  have hterm := operand_comesTo env m s.comp t (t.need_le.trans hfuel) hs1.2
  rw [show t.eval s.comp.lookupSymbol m = .ok v from toOption_eq_some.mp hv] at hterm
  exact sat_mono (sat_of_comesTo_ok hterm) (fun _ _ h => ⟨h.1, h.2, rfl⟩) (fun _ _ h => h)

theorem reads_expr (e : Expr) {v : Word} (hfuel : 2 * e.tokens.length + 1 ≤ fuel)
    (hs : s.Has (e.tokens ++ rest)) (hends : EndsExpr rest)
    (hv : e.value? (env.reading m) s.comp = some v) :
    Sat (scanning fun c => evalExpr (env.reading m) c fuel none) s
      (fun v' s' => v' = v ∧ MovedTo s rest s') E := by
  have hexpr := evalExpr_none_comesTo env m s.comp e hfuel hs hends
  rw [show e.eval s.comp.lookupSymbol m = .ok v from toOption_eq_some.mp hv] at hexpr
  exact sat_scanning
    (sat_mono (sat_of_comesTo_ok hexpr) (fun _ _ h => ⟨h.1, h.2, rfl⟩) (fun _ _ h => h))

theorem reads_access {addr : Word} (h : Accessible env.target env.registry addr)
    (hs : s.Has rest) : Sat (requireAccess env addr) s (fun _ s' => MovedTo s rest s') E := by
  unfold requireAccess
  rw [show checkAccess env.target env.registry addr = .ok () from h]
  exact ⟨hs, rfl⟩

theorem reads_fnBody {name : List Byte} (h : (s.comp.findFn name).isSome = true)
    (hs : s.Has rest) : Sat (getFnBody name) s (fun _ s' => MovedTo s rest s') E := by
  rcases Option.isSome_iff_exists.mp h with ⟨i, hi⟩
  unfold getFnBody
  rw [sat_bind, sat_get, hi]
  exact ⟨hs, rfl⟩

theorem endsExpr_semicolon (ts : List Token) : EndsExpr (.semicolon :: ts) := by
  rintro op ⟨⟩

/-- At the statement, or at the block, its meaning is read, and nothing of what follows. -/
def ReadsTo (x : ParseM α) (s : ParseState) (a : α) (rest : List Token) : Prop :=
  Sat x s (fun b s' => b = a ∧ MovedTo s rest s') (fun _ _ => False)

theorem reads_poke (addr : Term) (val : Expr) {stmt : Stmt}
    (hfuel : 2 * (StmtText.poke addr val).tokens.length ≤ fuel + 1)
    (hs : s.Has (addr.tokens ++ (val.tokens ++ .semicolon :: rest)))
    (h : (StmtText.poke addr val).meaning (env.reading m) s.comp = some stmt) :
    ReadsTo (readPoke (env.reading m) fuel) s stmt rest := by
  rw [StmtText.meaning] at h
  simp only [Option.bind_eq_bind, Option.bind_eq_some_iff, Option.ite_none_right_eq_some,
    Option.some.injEq] at h
  rcases h with ⟨a, ha, v, hv, haccess, rfl⟩
  simp only [StmtText.tokens, List.length_cons, List.length_append, List.length_nil] at hfuel
  refine sat_seq (reads_term addr (by lia) hs ha) fun a' s1 hs1 => ?_
  rcases hs1 with ⟨rfl, hs1⟩
  rw [← hs1.comp] at hv
  refine sat_seq (reads_expr val (by lia) hs1.tokens (endsExpr_semicolon rest) hv)
    fun v' s2 hs2 => ?_
  rcases hs2 with ⟨rfl, hs2⟩
  refine sat_seq (has_expectSemicolon hs2.tokens) fun _ s3 hs3 => ?_
  refine sat_seq (reads_access haccess hs3.tokens) fun _ s4 hs4 => ?_
  exact ⟨rfl, movedTo_trans (movedTo_trans (movedTo_trans hs1 hs2) hs3) hs4⟩

theorem reads_peek (addr : Term) {stmt : Stmt}
    (hfuel : 2 * (StmtText.peek addr).tokens.length ≤ fuel + 1)
    (hs : s.Has (addr.tokens ++ .semicolon :: rest))
    (h : (StmtText.peek addr).meaning (env.reading m) s.comp = some stmt) :
    ReadsTo (readPeek (env.reading m) fuel) s stmt rest := by
  rw [StmtText.meaning] at h
  simp only [Option.bind_eq_bind, Option.bind_eq_some_iff, Option.ite_none_right_eq_some,
    Option.some.injEq] at h
  rcases h with ⟨a, ha, haccess, rfl⟩
  simp only [StmtText.tokens, List.length_cons, List.length_append, List.length_nil] at hfuel
  refine sat_seq (reads_term addr (by lia) hs ha) fun a' s1 hs1 => ?_
  rcases hs1 with ⟨rfl, hs1⟩
  refine sat_seq (has_expectSemicolon hs1.tokens) fun _ s2 hs2 => ?_
  refine sat_seq (reads_access haccess hs2.tokens) fun _ s3 hs3 => ?_
  exact ⟨rfl, movedTo_trans (movedTo_trans hs1 hs2) hs3⟩

theorem reads_call (name : PlainName) {stmt : Stmt} (hs : s.Has (.lParen :: .rParen ::
      .semicolon :: rest)) (h : (StmtText.call name).meaning (env.reading m) s.comp = some stmt) :
    ReadsTo (callTail >>= fun _ => getFnBody name.bytes >>= fun _ => pure (.call name.bytes)) s
      stmt rest := by
  rw [StmtText.meaning, Option.ite_none_right_eq_some, Option.some.injEq] at h
  rcases h with ⟨hfn, rfl⟩
  unfold callTail
  rw [bind_assoc]
  refine sat_seq (has_nextToken hs) fun _ s1 hs1 => ?_
  rw [bind_assoc]
  refine sat_seq (has_expectToken hs1.2.tokens) fun _ s2 hs2 => ?_
  refine sat_seq (has_expectSemicolon hs2.tokens) fun _ s3 hs3 => ?_
  have hmoved := movedTo_trans (movedTo_trans hs1.2 hs2) hs3
  rw [← hmoved.comp] at hfn
  refine sat_seq (reads_fnBody hfn hs3.tokens) fun _ s4 hs4 => ?_
  exact ⟨rfl, movedTo_trans hmoved hs4⟩

theorem reads_value (e : NamedExpr) {stmt : Stmt}
    (hfuel : 2 * (StmtText.value e).tokens.length ≤ fuel + 1)
    (hs : s.Has (e.expr.later ++ .semicolon :: rest))
    (h : (StmtText.value e).meaning (env.reading m) s.comp = some stmt) :
    ReadsTo (scanning (fun c => evalExpr (env.reading m) c fuel
        (some (.identifier e.name.bytes))) >>= fun _ =>
      expectSemicolon >>= fun _ => pure .expr) s stmt rest := by
  rw [StmtText.meaning] at h
  simp only [Option.bind_eq_bind, Option.bind_eq_some_iff, Option.some.injEq] at h
  rcases h with ⟨v, hv, rfl⟩
  simp only [StmtText.tokens, List.length_append, List.length_cons, List.length_nil] at hfuel
  have hexpr := evalExpr_some_comesTo env m s.comp e.expr (show _ ≤ fuel by lia) hs
    (endsExpr_semicolon rest)
  rw [show e.expr.eval s.comp.lookupSymbol m = .ok v from toOption_eq_some.mp hv, e.first]
    at hexpr
  have hread : Sat (scanning fun c => evalExpr (env.reading m) c fuel
      (some (.identifier e.name.bytes))) s (fun _ s' => MovedTo s (.semicolon :: rest) s')
      (fun _ _ => False) :=
    sat_scanning (sat_mono (sat_of_comesTo_ok hexpr) (fun _ _ h => ⟨h.2, rfl⟩) (fun _ _ h => h))
  refine sat_seq hread fun _ s1 hs1 => ?_
  refine sat_seq (has_expectSemicolon hs1.tokens) fun _ s2 hs2 => ?_
  exact ⟨rfl, movedTo_trans hs1 hs2⟩

/-- The count is read, and then the block. -/
theorem reads_loop (count : Term) (texts : List StmtText) {stmt : Stmt}
    (hblock : forall {stmts : List Stmt} {s : ParseState}, s.Has (blockTokens texts ++ rest) ->
      blockMeaning (env.reading m) s.comp texts = some stmts ->
      ReadsTo (readBlock (env.reading m) fuel) s stmts rest)
    (hfuel : 2 * count.tokens.length ≤ fuel)
    (hs : s.Has (count.tokens ++ .lBrace :: (blockTokens texts ++ rest)))
    (h : (StmtText.loop count texts).meaning (env.reading m) s.comp = some stmt) :
    ReadsTo (loopCount (env.reading m) fuel >>= fun n => expectToken .lBrace >>= fun _ =>
      readBlock (env.reading m) fuel >>= fun body => pure (.loop n.toNat body)) s stmt rest := by
  rw [StmtText.meaning] at h
  simp only [Option.bind_eq_bind, Option.bind_eq_some_iff, Option.ite_none_left_eq_some,
    Option.some.injEq] at h
  rcases h with ⟨n, hn, hcount, stmts, hstmts, rfl⟩
  unfold loopCount
  rw [bind_assoc]
  refine sat_seq (reads_term count hfuel hs hn) fun n' s1 hs1 => ?_
  rcases hs1 with ⟨rfl, hs1⟩
  rw [if_neg hcount, pure_bind]
  refine sat_seq (has_expectToken hs1.tokens) fun _ s2 hs2 => ?_
  have hmoved := movedTo_trans hs1 hs2
  rw [← hmoved.comp] at hstmts
  refine sat_seq (hblock hs2.tokens hstmts) fun body s3 hs3 => ?_
  rcases hs3 with ⟨rfl, hs3⟩
  exact ⟨rfl, movedTo_trans hmoved hs3⟩

theorem readsTo_of_movedTo {x : ParseM α} {s1 : ParseState} {a : α} {us : List Token}
    (h : MovedTo s us s1) (hx : ReadsTo x s1 a rest) :
    Sat x s1 (fun b s' => b = a ∧ MovedTo s rest s') (fun _ _ => False) :=
  sat_mono hx (fun _ _ hb => ⟨hb.1, movedTo_trans h hb.2⟩) (fun _ _ h => h)

mutual

theorem reads_stmt (text : StmtText) {fuel : Nat} {stmt : Stmt} {s : ParseState}
    {rest : List Token} (hfuel : 2 * text.tokens.length ≤ fuel)
    (hs : s.Has (text.tokens ++ rest))
    (h : text.meaning (env.reading m) s.comp = some stmt) :
    ReadsTo (readBodyStmt (env.reading m) fuel) s stmt rest := by
  obtain ⟨f, rfl⟩ : exists f, fuel = f + 1 := by
    rcases text.tokens_cons with ⟨id, ts, htokens⟩
    rw [htokens, List.length_cons] at hfuel
    exact ⟨fuel - 1, by lia⟩
  unfold readBodyStmt
  match text with
  | .poke addr val =>
      rw [StmtText.tokens, List.cons_append, List.append_assoc, List.append_assoc] at hs
      refine sat_seq (has_nextToken hs) fun tok s1 hs1 => ?_
      rw [show tok = .identifier (ascii "poke") from hs1.1]
      dsimp only
      rw [if_pos rfl]
      rw [← hs1.2.comp] at h
      exact readsTo_of_movedTo hs1.2 (reads_poke addr val hfuel hs1.2.tokens h)
  | .peek addr =>
      rw [StmtText.tokens, List.cons_append, List.append_assoc] at hs
      refine sat_seq (has_nextToken hs) fun tok s1 hs1 => ?_
      rw [show tok = .identifier (ascii "peek") from hs1.1]
      dsimp only
      rw [if_neg (by decide), if_pos rfl]
      rw [← hs1.2.comp] at h
      exact readsTo_of_movedTo hs1.2 (reads_peek addr hfuel hs1.2.tokens h)
  | .call name =>
      refine sat_seq (has_nextToken hs) fun tok s1 hs1 => ?_
      rw [show tok = .identifier name.bytes from hs1.1]
      dsimp only
      rw [if_neg name.ne_poke, if_neg name.ne_peek, if_neg name.ne_loop]
      refine sat_seq (has_peekToken hs1.2.tokens) fun ahead s2 hs2 => ?_
      rw [if_pos (show ahead = .lParen from hs2.1)]
      have hmoved := movedTo_trans hs1.2 hs2.2
      rw [← hmoved.comp] at h
      exact readsTo_of_movedTo hmoved (reads_call name hs2.2.tokens h)
  | .value e =>
      rw [StmtText.tokens, Expr.tokens, List.append_assoc, List.cons_append] at hs
      refine sat_seq (has_nextToken hs) fun tok s1 hs1 => ?_
      rw [show tok = .identifier e.name.bytes from hs1.1.trans e.first]
      dsimp only
      rw [if_neg e.name.ne_poke, if_neg e.name.ne_peek, if_neg e.name.ne_loop]
      refine sat_seq (has_peekToken hs1.2.tokens) fun ahead s2 hs2 => ?_
      have hparen : ahead ≠ .lParen := by
        rw [hs2.1]
        exact Expr.later_headD e.name.ne_peek e.expr e.first _ (by rintro ⟨⟩)
      rw [if_neg hparen]
      have hmoved := movedTo_trans hs1.2 hs2.2
      rw [← hmoved.comp] at h
      exact readsTo_of_movedTo hmoved (reads_value e hfuel hs2.2.tokens h)
  | .loop count texts =>
      rw [StmtText.tokens, List.length_cons, List.length_append, List.length_cons] at hfuel
      rw [StmtText.tokens, List.cons_append, List.append_assoc, List.cons_append] at hs
      refine sat_seq (has_nextToken hs) fun tok s1 hs1 => ?_
      rw [show tok = .identifier (ascii "loop") from hs1.1]
      dsimp only
      rw [if_neg (by decide), if_neg (by decide), if_pos rfl]
      rw [← hs1.2.comp] at h
      exact readsTo_of_movedTo hs1.2 (reads_loop count texts
        (reads_block texts (by lia)) (by lia) hs1.2.tokens h)

theorem reads_block (texts : List StmtText) {fuel : Nat} {stmts : List Stmt} {s : ParseState}
    {rest : List Token} (hfuel : 2 * (blockTokens texts).length ≤ fuel)
    (hs : s.Has (blockTokens texts ++ rest))
    (h : blockMeaning (env.reading m) s.comp texts = some stmts) :
    ReadsTo (readBlock (env.reading m) fuel) s stmts rest := by
  obtain ⟨f, rfl⟩ : exists f, fuel = f + 1 := by
    have hpos := length_blockTokens_pos texts
    exact ⟨fuel - 1, by lia⟩
  unfold readBlock
  refine sat_seq (has_peekToken hs) fun tok s1 hs1 => ?_
  match texts with
  | [] =>
      rw [if_pos (show tok = .rBrace from hs1.1)]
      refine sat_seq (has_nextToken hs1.2.tokens) fun _ s2 hs2 => ?_
      exact ⟨Option.some.inj h, movedTo_trans hs1.2 hs2.2⟩
  | text :: texts =>
      rw [blockMeaning] at h
      simp only [Option.bind_eq_bind, Option.bind_eq_some_iff, Option.some.injEq] at h
      rcases h with ⟨stmt, hstmt, more, hmore, rfl⟩
      rcases text.tokens_cons with ⟨id, ts, htokens⟩
      have htok : tok = .identifier id := by
        rw [hs1.1, blockTokens, htokens]
        rfl
      rw [htok, if_neg (by rintro ⟨⟩), if_neg (by rintro ⟨⟩)]
      have hlength : 0 < text.tokens.length := by
        rw [htokens]
        exact Nat.succ_pos _
      have hpos := length_blockTokens_pos texts
      rw [blockTokens, List.length_append] at hfuel
      have htext := hs1.2.tokens
      rw [blockTokens, List.append_assoc] at htext
      rw [← hs1.2.comp] at hstmt hmore
      refine sat_seq (reads_stmt text (show _ ≤ f by lia) htext hstmt) fun stmt' s2 hs2 => ?_
      rcases hs2 with ⟨rfl, hs2⟩
      rw [← hs2.comp] at hmore
      refine sat_seq (reads_block texts (show _ ≤ f by lia) hs2.tokens hmore)
        fun more' s3 hs3 => ?_
      rcases hs3 with ⟨rfl, hs3⟩
      exact ⟨rfl, movedTo_trans (movedTo_trans hs1.2 hs2) hs3⟩

end

theorem reads_name {name : NameBuf} {ts : List Token} (hs : s.Has (.identifier name.bytes :: ts)) :
    ReadsTo expectName s name ts := by
  refine sat_seq (has_nextToken hs) fun tok s1 hs1 => ?_
  rw [show tok = .identifier name.bytes from hs1.1]
  dsimp only
  unfold NameBuf.fromSlice
  rw [dif_pos name.length_le]
  exact ⟨rfl, hs1.2⟩

theorem readsFn_of_text {c : Compiler} {line : List Byte} {name : NameBuf} {body : List Stmt}
    {texts : List StmtText} (htokens : tokensOf line = fnTokens name.bytes texts ++ rest)
    (h : blockMeaning (env.reading m) c texts = some body) :
    ReadsFn (env.reading m) c line name body := by
  have hs := has_startState c line
  have hfuel : 2 * (blockTokens texts).length ≤ parseFuel line := by
    have hle : (tokensOf line).length ≤ line.length := length_lexFrom_le _ _
    rw [htokens, List.length_append] at hle
    have hblock : (blockTokens texts).length ≤ (fnTokens name.bytes texts).length :=
      Nat.le_add_right _ 5
    unfold parseFuel
    lia
  rw [htokens] at hs
  have hsat : ReadsTo (readFn (env.reading m) (parseFuel line)) (startState c line) (name, body)
      rest := by
    unfold readFn
    refine sat_seq (has_expectToken hs) fun _ s1 hs1 => ?_
    refine sat_seq (reads_name hs1.tokens) fun name' s2 hs2 => ?_
    rcases hs2 with ⟨rfl, hs2⟩
    refine sat_seq (has_expectToken hs2.tokens) fun _ s3 hs3 => ?_
    refine sat_seq (has_expectToken hs3.tokens) fun _ s4 hs4 => ?_
    refine sat_seq (has_expectToken hs4.tokens) fun _ s5 hs5 => ?_
    have hmoved := movedTo_trans (movedTo_trans (movedTo_trans (movedTo_trans hs1 hs2) hs3) hs4)
      hs5
    rw [show c = s5.comp from hmoved.comp.symm] at h
    refine sat_seq (reads_block texts hfuel hs5.tokens h) fun body' s6 hs6 => ?_
    rcases hs6 with ⟨rfl, hs6⟩
    exact ⟨rfl, movedTo_trans hmoved hs6⟩
  rcases exists_of_sat hsat with ⟨_, s', hread, rfl, _⟩
  exact ⟨s', hread⟩

end Reads

/-!
## Lines
-/

/-- What is read of a definition is what its text means, on memory that no read faults on. -/
theorem readsFn_iff_text (env : Env) (m : Word -> Word) (c : Compiler) (line : List Byte)
    (name : NameBuf) (body : List Stmt) :
    ReadsFn (env.reading m) c line name body ↔
      exists texts rest, tokensOf line = fnTokens name.bytes texts ++ rest ∧
        blockMeaning (env.reading m) c texts = some body := by
  constructor
  · exact exists_text_of_readsFn
  · rintro ⟨texts, rest, htokens, h⟩
    exact readsFn_of_text htokens h

/-- The words that a text stands for. -/
def textWords (env : Env) (c : Compiler) (texts : List StmtText) : Option (List Word) :=
  (blockMeaning env c texts).map (flattenAll env.prims c)

/-- An accepted definition stores the flattening of its text. -/
theorem stored_text {env : Env} {c : Compiler} {line : List Byte} {name : NameBuf}
    {s' : ParseState} (h : parse env c line = .ok (.fnDefined name) s') :
    exists texts rest words, tokensOf line = fnTokens name.bytes texts ++ rest ∧
      textWords env c texts = some words ∧ s'.comp.HasFn name.bytes words := by
  rcases stored_of_fnDefined h with ⟨body, hreads, hstored⟩
  rcases exists_text_of_readsFn hreads with ⟨texts, rest, htokens, hmeaning⟩
  refine ⟨texts, rest, flattenAll env.prims c body, htokens, ?_, hstored⟩
  unfold textWords
  rw [hmeaning, Option.map_some]

/-- A text under a fresh name, with a slot free, is accepted if and only if its flattening
fits the slot. -/
theorem text_accepted_iff_fits {env : Env} {m : Word -> Word} {c : Compiler} {line : List Byte}
    {name : NameBuf} {texts : List StmtText} {rest : List Token} {words : List Word}
    (htokens : tokensOf line = fnTokens name.bytes texts ++ rest)
    (hwords : textWords (env.reading m) c texts = some words)
    (hfresh : c.findFn name.bytes = none) (hfree : exists i, (c.fns i).name.bytes.length = 0) :
    ((exists s', parse (env.reading m) c line = .ok (.fnDefined name) s') ↔
      words.length ≤ fnBodyWords) ∧
    (fnBodyWords < words.length ->
      exists s', parse (env.reading m) c line = .error (.error .streamFull) s') := by
  rcases Option.map_eq_some_iff.mp hwords with ⟨body, hmeaning, rfl⟩
  exact fits_of_readsFn (readsFn_of_text htokens hmeaning) hfresh hfree

/-- `loop 2 { loop 3 { peek 0x20000000 ; } }` -/
example :
    textWords Env.idle Compiler.new [.loop (.literal ⟨ascii "2", 2#32, by decide⟩)
      [.loop (.literal ⟨ascii "3", 3#32, by decide⟩)
        [.peek (.literal ⟨ascii "0x20000000", 0x20000000#32, by decide⟩)]]] =
      some (List.replicate 6 ((Block.peek 0x20000000#32).words Env.idle.prims)).flatten := by
  decide +kernel

end Compilation
end HolyRust
