import HolyRust.Compilation.Tokens

/-!
# Expressions

The syntax of expressions as trees, their value from left to right without
precedence, and `eval_expr` on the text of a tree.  Parsing and evaluation are
one in the source; here the tree comes first and the parser is shown to compute
its value, or to fail where the first step of the evaluation fails.
-/

namespace HolyRust
namespace Compilation

open Foundation

/-!
## Trees
-/

/-- A literal as it is written. -/
structure Numeral where
  text : List Byte
  value : Word
  lexes : tokensOf text = [.literal value]

/-- A name that stands for a symbol. -/
structure SymbolName where
  bytes : List Byte
  isIdent : IsIdent bytes
  ne_peek : bytes ≠ ascii "peek"

inductive BinaryOp where
  | add
  | sub
  | mul
  | div
  | rem
deriving DecidableEq, Repr

/-- The reasons for which a step of the evaluation fails. -/
inductive ExprError where
  | divByZero
  | unknownSymbol
deriving DecidableEq, Repr

namespace BinaryOp

def sign : BinaryOp -> Byte
  | .add => byte '+'
  | .sub => byte '-'
  | .mul => byte '*'
  | .div => byte '/'
  | .rem => byte '%'

/-- Arithmetic modulo 2^32, truncating division and its remainder. -/
def apply : BinaryOp -> Word -> Word -> Except ExprError Word
  | .add, x, y => .ok (x + y)
  | .sub, x, y => .ok (x - y)
  | .mul, x, y => .ok (x * y)
  | .div, x, y => if y = 0#32 then .error .divByZero else .ok (x / y)
  | .rem, x, y => if y = 0#32 then .error .divByZero else .ok (x % y)

end BinaryOp

mutual

inductive Term where
  | literal (n : Numeral)
  | symbol (name : SymbolName)
  | paren (e : Expr)
  | peek (addr : Term)

/-- A term, or a shorter expression with one more operator and term to its right. -/
inductive Expr where
  | term (t : Term)
  | binary (e : Expr) (op : BinaryOp) (t : Term)

end

/-!
## Value
-/

section Value

variable (symbols : List Byte -> Option Word) (m : Word -> Word)

mutual

def Term.eval : Term -> Except ExprError Word
  | .literal n => .ok n.value
  | .symbol name =>
      match symbols name.bytes with
      | some v => .ok v
      | none => .error .unknownSymbol
  | .paren e => e.eval
  | .peek addr => do
      let a <- addr.eval
      .ok (m a)

/-- The shorter expression first, then the term, then the operator. -/
def Expr.eval : Expr -> Except ExprError Word
  | .term t => t.eval
  | .binary e op t => do
      let x <- e.eval
      let y <- t.eval
      op.apply x y

end

end Value

/-!
## Text
-/

mutual

/-- The words of the text, one for each token. -/
def Term.words : Term -> List (List Byte)
  | .literal n => [n.text]
  | .symbol name => [name.bytes]
  | .paren e => ascii "(" :: (e.words ++ [ascii ")"])
  | .peek addr => ascii "peek" :: addr.words

def Expr.words : Expr -> List (List Byte)
  | .term t => t.words
  | .binary e op t => e.words ++ [op.sign] :: t.words

end

/-- The words with a space between them. -/
def Expr.render (e : Expr) : List Byte :=
  match e.words with
  | [] => []
  | word :: words => word ++ spaced words

mutual

def Term.first : Term -> Token
  | .literal n => .literal n.value
  | .symbol name => .identifier name.bytes
  | .paren _ => .lParen
  | .peek _ => .identifier (ascii "peek")

/-- The tokens after the first one. -/
def Term.later : Term -> List Token
  | .literal _ => []
  | .symbol _ => []
  | .paren e => e.first :: (e.later ++ [.rParen])
  | .peek addr => addr.first :: addr.later

def Expr.first : Expr -> Token
  | .term t => t.first
  | .binary e _ _ => e.first

def Expr.later : Expr -> List Token
  | .term t => t.later
  | .binary e op t => e.later ++ .operator op.sign :: t.first :: t.later

end

def Term.tokens (t : Term) : List Token := t.first :: t.later

def Expr.tokens (e : Expr) : List Token := e.first :: e.later

theorem tokensOf_name {name : List Byte} (h : IsIdent name) :
    tokensOf name = [.identifier name] := by
  have hspace := tokensOf_ident [] h (b := byte ' ') (by decide)
  rw [tokensOf_space] at hspace
  exact List.append_cancel_right hspace

theorem isIdent_peek : IsIdent (ascii "peek") where
  starts := ⟨byte 'p', ascii "eek", by decide, by decide⟩
  bytes := by decide
  not_fn := by decide
  not_let := by decide

theorem tokensOf_sign (op : BinaryOp) : tokensOf [op.sign] = [.operator op.sign] := by
  cases op <;> decide

mutual

/-- The words are the tokens. -/
theorem Term.tokensOf_words (t : Term) : t.words.flatMap tokensOf = t.tokens := by
  match t with
  | .literal n =>
      rw [Term.words, List.flatMap_cons, n.lexes]
      rfl
  | .symbol name =>
      rw [Term.words, List.flatMap_cons, tokensOf_name name.isIdent]
      rfl
  | .paren e =>
      have hopen : tokensOf (ascii "(") = [.lParen] := by decide
      have hclose : tokensOf (ascii ")") = [.rParen] := by decide
      rw [Term.words, List.flatMap_cons, List.flatMap_append, e.tokensOf_words, List.flatMap_cons,
        hopen, hclose]
      rfl
  | .peek addr =>
      rw [Term.words, List.flatMap_cons, addr.tokensOf_words, tokensOf_name isIdent_peek]
      rfl

theorem Expr.tokensOf_words (e : Expr) : e.words.flatMap tokensOf = e.tokens := by
  match e with
  | .term t =>
      rw [Expr.words, t.tokensOf_words]
      rfl
  | .binary e op t =>
      rw [Expr.words, List.flatMap_append, e.tokensOf_words, List.flatMap_cons,
        t.tokensOf_words, tokensOf_sign]
      rfl

end

theorem Expr.tokensOf_render (e : Expr) (more : List Byte) :
    tokensOf (e.render ++ byte ' ' :: more) = e.tokens ++ tokensOf more := by
  have hwords := e.tokensOf_words
  rw [tokensOf_space]
  unfold Expr.render
  cases hw : e.words with
  | nil =>
      rw [hw] at hwords
      cases hwords
  | cons word words =>
      rw [hw, List.flatMap_cons] at hwords
      dsimp only
      rw [tokensOf_spaced, hwords]

/-!
## Decimal numerals
-/

def digitByte (d : Nat) : Byte := BitVec.ofNat 8 ('0'.toNat + d)

/-- The digits of a number, without leading zeros. -/
def decimalText (n : Nat) : List Byte :=
  if n < 10 then [digitByte n] else decimalText (n / 10) ++ [digitByte (n % 10)]

theorem digitByte_spec {d : Nat} (h : d < 10) :
    isAsciiDigit (digitByte d) = true ∧ (digitByte d).toNat - '0'.toNat = d := by
  revert d
  decide

theorem decimalText_digits (n : Nat) :
    decimalText n ≠ [] ∧ forall b, b ∈ decimalText n -> isAsciiDigit b = true := by
  fun_induction decimalText n with
  | case1 n h =>
      refine ⟨List.cons_ne_nil _ _, ?_⟩
      intro b hb
      rw [List.mem_singleton.mp hb]
      exact (digitByte_spec h).left
  | case2 n h ih =>
      refine ⟨List.append_ne_nil_of_left_ne_nil ih.left _, ?_⟩
      intro b hb
      rcases List.mem_append.mp hb with hb | hb
      · exact ih.right b hb
      · rw [List.mem_singleton.mp hb]
        exact (digitByte_spec (Nat.mod_lt n (by decide))).left

theorem decimalLoop_digit {v d : Nat} (hd : d < 10) (h : v * 10 + d < 2 ^ 32)
    (rest : List Byte) : decimalLoop v (digitByte d :: rest) = decimalLoop (v * 10 + d) rest := by
  obtain ⟨hdigit, hvalue⟩ := digitByte_spec hd
  rw [decimalLoop, if_pos hdigit, hvalue, if_pos h]

/-- Reading the digits of a number from left to right gives the number. -/
theorem decimalLoop_decimalText {n : Nat} (h : n < 2 ^ 32) (rest : List Byte) :
    decimalLoop 0 (decimalText n ++ rest) = decimalLoop n rest := by
  fun_induction decimalText n generalizing rest with
  | case1 n hsmall =>
      rw [List.singleton_append, decimalLoop_digit hsmall (by lia)]
      simp
  | case2 n hlarge ih =>
      rw [List.append_assoc, ih (by lia), List.singleton_append,
        decimalLoop_digit (Nat.mod_lt n (by decide)) (by lia), Nat.div_add_mod']

theorem parseToken_digit {b : Byte} (h : isAsciiDigit b = true) (rest : List Byte) :
    parseToken b rest = parseLiteral b rest := by
  have hstart : (isAsciiAlphabetic b || b == byte '_') = false := by
    have hunder : b ≠ byte '_' := by
      rintro rfl
      exact absurd h (by decide)
    unfold isAsciiDigit between at h
    rw [Bool.and_eq_true, decide_eq_true_eq, decide_eq_true_eq] at h
    unfold isAsciiAlphabetic between
    rw [beq_eq_false_iff_ne.mpr hunder, Bool.or_false, Bool.or_eq_false_iff,
      Bool.and_eq_false_iff, Bool.and_eq_false_iff]
    simp only [decide_eq_false_iff_not]
    have hnine : '9'.toNat = 57 := rfl
    have ha : 'a'.toNat = 97 := rfl
    have hA : 'A'.toNat = 65 := rfl
    lia
  unfold parseToken
  rw [if_neg (by rw [hstart]; decide), if_pos h]

theorem tokensOf_decimalText (v : Word) : tokensOf (decimalText v.toNat) = [.literal v] := by
  obtain ⟨hne, hdigits⟩ := decimalText_digits v.toNat
  have hloop := decimalLoop_decimalText v.isLt []
  rw [List.append_nil] at hloop
  cases htext : decimalText v.toNat with
  | nil => exact absurd htext hne
  | cons b rest =>
      rw [htext] at hdigits hloop
      have hb := hdigits b List.mem_cons_self
      have hliteral : parseLiteral b rest = (.literal v, []) := by
        have hvalue : decimalLoop 0 (b :: rest) = (.literal v, []) := by
          rw [hloop, decimalLoop, BitVec.ofNat_toNat, BitVec.setWidth_eq]
        cases rest with
        | nil => exact hvalue
        | cons x digits =>
            have hx := hdigits x (List.mem_cons_of_mem _ List.mem_cons_self)
            have hhex : ¬ (b = byte '0' ∧ (x = byte 'x' ∨ x = byte 'X')) := by
              rintro ⟨_, rfl | rfl⟩ <;> exact absurd hx (by decide)
            rw [parseLiteral, if_neg hhex]
            exact hvalue
      have hblank : ¬ (b = byte ' ' ∨ b = byte '\t' ∨ b = byte '\r') := by
        rintro (rfl | rfl | rfl) <;> exact absurd hb (by decide)
      have hnewline : b ≠ byte '\n' := by
        rintro rfl
        exact absurd hb (by decide)
      have htoken : nextTokenFrom 1 (b :: rest) = (.literal v, ⟨[], 1⟩) := by
        rw [nextTokenFrom, if_neg hblank, if_neg hnewline, parseToken_digit hb, hliteral]
      rw [tokensOf_eq 1, htoken, if_neg (by rintro ⟨⟩)]
      rfl

/-- Every word can be written. -/
theorem exists_numeral (v : Word) : exists n : Numeral, n.value = v :=
  ⟨⟨decimalText v.toNat, v, tokensOf_decimalText v⟩, rfl⟩

/-!
## Evaluation of the tokens
-/

def ExprError.parseError : ExprError -> ParseError
  | .divByZero => .divByZero
  | .unknownSymbol => .unknownSymbol

/-- `x` comes to the value and stops before `ts`, or fails with the error. -/
def ComesTo (x : ScanM Word) (s : Scan) (r : Except ExprError Word) (ts : List Token) : Prop :=
  match r with
  | .ok v => exists s', x s = .ok v s' ∧ s'.cur.Has ts
  | .error e => exists s', x s = .error (.error e.parseError) s'

theorem comesTo_bind {x : ScanM Word} {f : Word -> ScanM Word} {s : Scan}
    {r : Except ExprError Word} {g : Word -> Except ExprError Word} {ts us : List Token}
    (hx : ComesTo x s r ts)
    (hf : forall v s', s'.cur.Has ts -> ComesTo (f v) s' (g v) us) :
    ComesTo (x >>= f) s (r >>= g) us := by
  cases r with
  | ok v =>
      obtain ⟨s', hrun, hs'⟩ := hx
      have hrest := hf v s' hs'
      show ComesTo (x >>= f) s (g v) us
      unfold ComesTo at hrest ⊢
      rw [bind_of_ok hrun]
      exact hrest
  | error e =>
      obtain ⟨s', hrun⟩ := hx
      refine ⟨s', ?_⟩
      rw [bind_apply, hrun]

/-- `x` fails with the error, or goes on as `f` with the value and before `ts`. -/
def GoesOn (x : ScanM Word) (s : Scan) (r : Except ExprError Word) (ts : List Token)
    (f : Word -> ScanM Word) : Prop :=
  match r with
  | .ok v => exists s', s'.cur.Has ts ∧ x s = f v s'
  | .error e => exists s', x s = .error (.error e.parseError) s'

theorem goesOn_bind {x : ScanM Word} {s : Scan} {r : Except ExprError Word} {ts : List Token}
    (h : ComesTo x s r ts) (f : Word -> ScanM Word) : GoesOn (x >>= f) s r ts f := by
  cases r with
  | ok v =>
      obtain ⟨s', hrun, hs'⟩ := h
      exact ⟨s', hs', bind_of_ok hrun⟩
  | error e =>
      obtain ⟨s', hrun⟩ := h
      refine ⟨s', ?_⟩
      rw [bind_apply, hrun]

theorem goesOn_of_eq {x y : ScanM Word} {s s' : Scan} {r : Except ExprError Word}
    {ts : List Token} {f : Word -> ScanM Word} (h : x s = y s') (hy : GoesOn y s' r ts f) :
    GoesOn x s r ts f := by
  unfold GoesOn at hy ⊢
  rw [h]
  exact hy

theorem goesOn_trans {x : ScanM Word} {s : Scan} {r : Except ExprError Word}
    {g : Word -> Except ExprError Word} {ts us : List Token} {f h : Word -> ScanM Word}
    (hx : GoesOn x s r ts f)
    (hf : forall v s', s'.cur.Has ts -> GoesOn (f v) s' (g v) us h) :
    GoesOn x s (r >>= g) us h := by
  cases r with
  | ok v =>
      obtain ⟨s', hs', hrun⟩ := hx
      exact goesOn_of_eq hrun (hf v s' hs')
  | error e => exact hx

theorem comesTo_of_goesOn {x : ScanM Word} {s : Scan} {r : Except ExprError Word}
    {ts : List Token} {f : Word -> ScanM Word} (hx : GoesOn x s r ts f)
    (hf : forall v s', s'.cur.Has ts -> ComesTo (f v) s' (.ok v) ts) : ComesTo x s r ts := by
  cases r with
  | ok v =>
      obtain ⟨s', hs', hrun⟩ := hx
      obtain ⟨s'', hend, hs''⟩ := hf v s' hs'
      exact ⟨s'', hrun.trans hend, hs''⟩
  | error e => exact hx

theorem comesTo_of_eq {x y : ScanM Word} {s s' : Scan} {r : Except ExprError Word}
    {ts : List Token} (h : x s = y s') (hy : ComesTo y s' r ts) : ComesTo x s r ts := by
  unfold ComesTo at hy ⊢
  rw [h]
  exact hy

theorem next_of_has {s : Scan} {t : Token} {ts : List Token} (h : s.cur.Has (t :: ts)) :
    exists s', next s = .ok t s' ∧ s'.cur.Has ts := by
  obtain ⟨htok, htail⟩ := Cur.next_spec h
  refine ⟨{ s with cur := s.cur.next.2 }, ?_, htail⟩
  show EStateM.Result.ok s.cur.next.1 _ = _
  rw [htok]
  rfl

theorem peek_of_has {s : Scan} {ts : List Token} (h : s.cur.Has ts) :
    exists s', peek s = .ok (ts.headD .eof) s' ∧ s'.cur.Has ts := by
  obtain ⟨htok, hts⟩ := Cur.peek_spec h
  refine ⟨{ s with cur := s.cur.peek.2 }, ?_, hts⟩
  show EStateM.Result.ok s.cur.peek.1 _ = _
  rw [htok]

/-- The tokens do not go on with one of `+ - * / %`. -/
def EndsExpr (ts : List Token) : Prop :=
  forall op, ts.headD .eof = .operator op -> isArithmetic op = false

/-- Memory that no read faults on. -/
def Env.reading (env : Env) (m : Word -> Word) : Env := { env with mem := fun a => some (m a) }

section Steps

variable (env : Env) (m : Word -> Word) (c : Compiler)

theorem evalTail_stop (fuel : Nat) (v : Word) {s : Scan} {ts : List Token} (h : s.cur.Has ts)
    (hends : EndsExpr ts) :
    ComesTo (evalTail (env.reading m) c (fuel + 1) v) s (.ok v) ts := by
  obtain ⟨s', hpeek, hs'⟩ := peek_of_has h
  refine ⟨s', ?_, hs'⟩
  rw [evalTail, bind_of_ok hpeek]
  cases htok : ts.headD .eof with
  | operator op =>
      dsimp only
      rw [hends op htok]
      rfl
  | _ => rfl

theorem applyOperator_sign (op : BinaryOp) (x y : Word) {s : Scan} {ts : List Token}
    (h : s.cur.Has ts) : ComesTo (applyOperator op.sign x y) s (op.apply x y) ts := by
  have hdivide : forall v : Word, ComesTo (if y = 0#32 then fail .divByZero else pure v) s
      (if y = 0#32 then .error .divByZero else .ok v) ts := by
    intro v
    by_cases hy : y = 0#32
    · rw [if_pos hy, if_pos hy]
      exact ⟨s, rfl⟩
    · rw [if_neg hy, if_neg hy]
      exact ⟨s, rfl, h⟩
  cases op with
  | add => exact ⟨s, rfl, h⟩
  | sub => exact ⟨s, rfl, h⟩
  | mul => exact ⟨s, rfl, h⟩
  | div => exact hdivide (x / y)
  | rem => exact hdivide (x % y)

theorem isArithmetic_sign (op : BinaryOp) : isArithmetic op.sign = true := by
  cases op <;> decide

/-- One round of the loop. -/
theorem evalTail_sign (fuel : Nat) (x : Word) (op : BinaryOp) (t : Term) {s : Scan}
    {ts : List Token} (h : s.cur.Has (.operator op.sign :: t.first :: ts)) :
    exists s', s'.cur.Has ts ∧ evalTail (env.reading m) c (fuel + 1) x s =
      (do
        let y <- operand (env.reading m) c fuel t.first
        let acc <- applyOperator op.sign x y
        evalTail (env.reading m) c fuel acc) s' := by
  obtain ⟨s1, hpeek, hs1⟩ := peek_of_has h
  obtain ⟨s2, hnext, hs2⟩ := next_of_has hs1
  obtain ⟨s3, hfirst, hs3⟩ := next_of_has hs2
  refine ⟨s3, hs3, ?_⟩
  rw [evalTail, bind_of_ok hpeek]
  show (if isArithmetic op.sign = true then _ else _ : ScanM Word) s1 = _
  rw [if_pos (isArithmetic_sign op), bind_of_ok hnext, bind_of_ok hfirst]

theorem evalExpr_none (fuel : Nat) {s : Scan} {t : Token} {ts : List Token}
    (h : s.cur.Has (t :: ts)) :
    exists s', s'.cur.Has ts ∧ evalExpr (env.reading m) c (fuel + 1) none s =
      evalExpr (env.reading m) c (fuel + 1) (some t) s' := by
  obtain ⟨s', hnext, hs'⟩ := next_of_has h
  refine ⟨s', hs', ?_⟩
  rw [evalExpr, evalExpr]
  show (next >>= fun head => _) s = _
  rw [bind_of_ok hnext]
  rfl

end Steps

/-!
The fuel that a tree needs.  `evalExpr` spends `cost` of it before its loop is done with the
tree, and must have `bound` left there.
-/

def Expr.cost : Expr -> Nat
  | .term _ => 1
  | .binary e _ _ => e.cost + 1

mutual

def Term.need : Term -> Nat
  | .literal _ => 2
  | .symbol _ => 2
  | .paren e => 1 + (e.bound + e.cost)
  | .peek addr => 2 + addr.need

def Expr.bound : Expr -> Nat
  | .term t => t.need
  | .binary e _ t => max e.bound t.need

end

theorem Term.length_paren (e : Expr) :
    (Term.paren e).tokens.length = e.tokens.length + 2 := by
  show (e.first :: (e.later ++ [.rParen])).length + 1 = (e.first :: e.later).length + 2
  rw [List.length_cons, List.length_cons, List.length_append, List.length_singleton]

theorem Expr.length_binary (e : Expr) (op : BinaryOp) (t : Term) :
    (Expr.binary e op t).tokens.length = e.tokens.length + 1 + t.tokens.length := by
  show (e.first :: (e.later ++ .operator op.sign :: t.first :: t.later)).length = _
  unfold Expr.tokens Term.tokens
  rw [List.length_cons, List.length_append, List.length_cons, List.length_cons, List.length_cons]
  lia

theorem Expr.cost_le (e : Expr) : e.cost ≤ e.tokens.length := by
  match e with
  | .term t => exact Nat.succ_le_succ (Nat.zero_le _)
  | .binary e op t =>
      have he := e.cost_le
      rw [Expr.cost, Expr.length_binary]
      lia

mutual

theorem Term.need_le (t : Term) : t.need ≤ 2 * t.tokens.length := by
  match t with
  | .literal n => exact Nat.le_refl 2
  | .symbol name => exact Nat.le_refl 2
  | .paren e =>
      have he := e.bound_add_cost_le
      rw [Term.need, Term.length_paren]
      lia
  | .peek addr =>
      have haddr := addr.need_le
      have hlength : (Term.peek addr).tokens.length = addr.tokens.length + 1 := rfl
      rw [Term.need, hlength]
      lia

theorem Expr.bound_add_cost_le (e : Expr) : e.bound + e.cost ≤ 2 * e.tokens.length + 1 := by
  match e with
  | .term t =>
      have ht := t.need_le
      show t.need + 1 ≤ 2 * t.tokens.length + 1
      lia
  | .binary e op t =>
      have he := e.bound_add_cost_le
      have ht := t.need_le
      have hcost := e.cost_le
      rw [Expr.bound, Expr.cost, Expr.length_binary]
      lia

end

theorem Expr.one_le_cost (e : Expr) : 1 ≤ e.cost := by
  cases e with
  | term t => exact Nat.le_refl 1
  | binary e op t => exact Nat.le_add_left 1 _

theorem Term.two_le_need (t : Term) : 2 ≤ t.need := by
  cases t with
  | literal n => exact Nat.le_refl 2
  | symbol name => exact Nat.le_refl 2
  | paren e =>
      have hcost := e.one_le_cost
      rw [Term.need]
      lia
  | peek addr => exact Nat.le_add_right 2 _

theorem Expr.two_le_bound (e : Expr) : 2 ≤ e.bound := by
  cases e with
  | term t => exact t.two_le_need
  | binary e op t => exact t.two_le_need.trans (Nat.le_max_right _ _)

section Spec

variable (env : Env) (m : Word -> Word) (c : Compiler)

mutual

/-- A term from its first token on. -/
theorem operand_comesTo (t : Term) {fuel : Nat} (hfuel : t.need ≤ fuel) {s : Scan}
    {rest : List Token} (hs : s.cur.Has (t.later ++ rest)) :
    ComesTo (operand (env.reading m) c fuel t.first) s (t.eval c.lookupSymbol m) rest := by
  obtain ⟨f, rfl⟩ : exists f, fuel = f + 2 :=
    ⟨fuel - 2, by have htwo := t.two_le_need; lia⟩
  match t with
  | .literal n =>
      refine ⟨s, ?_, hs⟩
      rw [operand, if_neg (by rintro ⟨⟩)]
      rfl
  | .symbol name =>
      have hrun : operand (env.reading m) c (f + 2) (.identifier name.bytes) =
          match c.lookupSymbol name.bytes with
          | some v => pure v
          | none => fail .unknownSymbol := by
        rw [operand, if_neg (by rintro ⟨⟩), resolveTerm]
        exact if_neg name.ne_peek
      show ComesTo (operand (env.reading m) c (f + 2) (.identifier name.bytes)) s _ rest
      rw [hrun, Term.eval]
      cases c.lookupSymbol name.bytes with
      | some v => exact ⟨s, rfl, hs⟩
      | none => exact ⟨s, rfl⟩
  | .paren e =>
      rw [Term.need] at hfuel
      have htwo := e.two_le_bound
      obtain ⟨g, hg⟩ : exists g, f + 1 = g + 1 + e.cost := ⟨f - e.cost, by lia⟩
      rw [Term.later, List.cons_append, List.append_assoc] at hs
      obtain ⟨s1, hs1, hnone⟩ := evalExpr_none env m c f hs
      have hloop := evalExpr_goesOn e (show e.bound ≤ g + 1 by lia) hs1
      rw [← hg] at hloop
      have hexpr := comesTo_of_goesOn hloop fun v s' hs' =>
        evalTail_stop env m c g v hs' (by rintro op ⟨⟩)
      have hinner := comesTo_of_eq hnone hexpr
      show ComesTo (operand (env.reading m) c (f + 2) .lParen) s _ rest
      rw [operand, if_pos rfl, Term.eval, ← bind_pure (e.eval c.lookupSymbol m)]
      refine comesTo_bind hinner ?_
      intro v s2 hs2
      obtain ⟨s3, hclose, hs3⟩ := next_of_has hs2
      refine ⟨s3, ?_, hs3⟩
      rw [bind_of_ok hclose, if_pos rfl]
      rfl
  | .peek addr =>
      rw [Term.need] at hfuel
      rw [Term.later, List.cons_append] at hs
      obtain ⟨s1, hnext, hs1⟩ := next_of_has hs
      have haddr := operand_comesTo addr (show addr.need ≤ f by lia) hs1
      have hrun : operand (env.reading m) c (f + 2) (.identifier (ascii "peek")) s =
          (operand (env.reading m) c f addr.first >>= peekU32 (env.reading m)) s1 := by
        rw [operand, if_neg (by rintro ⟨⟩), resolveTerm]
        show (if ascii "peek" = ascii "peek" then _ else _ : ScanM Word) s = _
        rw [if_pos rfl, bind_of_ok hnext]
      refine comesTo_of_eq hrun ?_
      rw [Term.eval]
      refine comesTo_bind haddr ?_
      intro a s2 hs2
      exact ⟨{ s2 with reads := a :: s2.reads }, rfl, hs2⟩

/-- An expression from its first token on, up to the loop that looks for an operator. -/
theorem evalExpr_goesOn (e : Expr) {fuel : Nat} (hfuel : e.bound ≤ fuel) {s : Scan}
    {rest : List Token} (hs : s.cur.Has (e.later ++ rest)) :
    GoesOn (evalExpr (env.reading m) c (fuel + e.cost) (some e.first)) s
      (e.eval c.lookupSymbol m) rest (evalTail (env.reading m) c fuel) := by
  match e with
  | .term t =>
      have hrun : evalExpr (env.reading m) c (fuel + 1) (some t.first) =
          (operand (env.reading m) c fuel t.first >>= evalTail (env.reading m) c fuel) := by
        rw [evalExpr]
        rfl
      rw [Expr.cost, Expr.first, Expr.eval, hrun]
      exact goesOn_bind (operand_comesTo t hfuel hs) _
  | .binary e op t =>
      rw [Expr.bound] at hfuel
      rw [Expr.later, List.append_assoc] at hs
      rw [Expr.cost, Expr.first, Expr.eval, show fuel + (e.cost + 1) = fuel + 1 + e.cost by lia]
      refine goesOn_trans (evalExpr_goesOn e (show e.bound ≤ fuel + 1 by lia) hs) ?_
      intro x s1 hs1
      obtain ⟨s2, hs2, hsign⟩ := evalTail_sign env m c fuel x op t hs1
      have hright := comesTo_bind (f := fun y => applyOperator op.sign x y)
        (operand_comesTo t (show t.need ≤ fuel by lia) hs2)
        (fun y s3 hs3 => applyOperator_sign op x y hs3)
      refine goesOn_of_eq hsign ?_
      rw [← bind_assoc]
      exact goesOn_bind hright _

end

end Spec

/-!
## Evaluation of the text
-/

/-- `x` gives exactly the result of the evaluation: the value, with the cursor before `ts`,
or the error of the first step that fails. -/
structure Evaluates (x : ScanM Word) (s : Scan) (r : Except ExprError Word) (ts : List Token) :
    Prop where
  value : forall v, r = .ok v -> exists s', x s = .ok v s' ∧ s'.cur.Has ts
  value_iff : forall v, (exists s', x s = .ok v s') ↔ r = .ok v
  divByZero_iff : (exists s', x s = .error (.error .divByZero) s') ↔ r = .error .divByZero
  unknownSymbol_iff :
    (exists s', x s = .error (.error .unknownSymbol) s') ↔ r = .error .unknownSymbol

theorem parseError_inj {e e' : ExprError} (h : e.parseError = e'.parseError) : e = e' := by
  cases e <;> cases e' <;> first | rfl | cases h

theorem error_iff_of_comesTo {x : ScanM Word} {s : Scan} {r : Except ExprError Word}
    {ts : List Token} (h : ComesTo x s r ts) (e : ExprError) :
    (exists s', x s = .error (.error e.parseError) s') ↔ r = .error e := by
  constructor
  · rintro ⟨s', hs'⟩
    cases r with
    | ok v =>
        obtain ⟨s'', hrun, _⟩ := h
        rw [hrun] at hs'
        cases hs'
    | error e' =>
        obtain ⟨s'', hrun⟩ := h
        rw [hrun] at hs'
        injection hs' with herror
        injection herror with herror
        rw [parseError_inj herror]
  · rintro rfl
    exact h

theorem evaluates_of_comesTo {x : ScanM Word} {s : Scan} {r : Except ExprError Word}
    {ts : List Token} (h : ComesTo x s r ts) : Evaluates x s r ts where
  value := by
    rintro v rfl
    exact h
  value_iff := by
    intro v
    constructor
    · rintro ⟨s', hs'⟩
      cases r with
      | ok w =>
          obtain ⟨s'', hrun, _⟩ := h
          rw [hrun] at hs'
          cases hs'
          rfl
      | error e =>
          obtain ⟨s'', hrun⟩ := h
          rw [hrun] at hs'
          cases hs'
    · rintro rfl
      obtain ⟨s'', hrun, _⟩ := h
      exact ⟨s'', hrun⟩
  divByZero_iff := error_iff_of_comesTo h .divByZero
  unknownSymbol_iff := error_iff_of_comesTo h .unknownSymbol

section Text

variable (env : Env) (m : Word -> Word) (c : Compiler)

/-- With enough fuel for the tokens, from the second token on. -/
theorem evalExpr_some_comesTo (e : Expr) {fuel : Nat} (hfuel : 2 * e.tokens.length + 1 ≤ fuel)
    {s : Scan} {rest : List Token} (hs : s.cur.Has (e.later ++ rest)) (hends : EndsExpr rest) :
    ComesTo (evalExpr (env.reading m) c fuel (some e.first)) s (e.eval c.lookupSymbol m) rest := by
  have hneed := e.bound_add_cost_le
  have htwo := e.two_le_bound
  obtain ⟨g, rfl⟩ : exists g, fuel = g + 1 + e.cost := ⟨fuel - 1 - e.cost, by lia⟩
  exact comesTo_of_goesOn (evalExpr_goesOn env m c e (show e.bound ≤ g + 1 by lia) hs)
    fun v s' hs' => evalTail_stop env m c g v hs' hends

theorem evalExpr_none_comesTo (e : Expr) {fuel : Nat} (hfuel : 2 * e.tokens.length + 1 ≤ fuel)
    {s : Scan} {rest : List Token} (hs : s.cur.Has (e.tokens ++ rest)) (hends : EndsExpr rest) :
    ComesTo (evalExpr (env.reading m) c fuel none) s (e.eval c.lookupSymbol m) rest := by
  obtain ⟨g, rfl⟩ : exists g, fuel = g + 1 := ⟨fuel - 1, by lia⟩
  obtain ⟨s', hs', hnone⟩ := evalExpr_none env m c g hs
  exact comesTo_of_eq hnone (evalExpr_some_comesTo env m c e hfuel hs' hends)

/-- The cursor at the start of a text. -/
def scanOf (text : List Byte) : Scan := ⟨⟨Lexer.new text, none⟩, []⟩

/-- On the text of a tree and whatever ends it, `eval_expr` gives the result of the tree from
left to right, whether the first token is still to come or has been consumed. -/
theorem evalExpr_evaluates (e : Expr) (more : List Byte) (hends : EndsExpr (tokensOf more))
    {fuel : Nat} (hfuel : 2 * e.tokens.length + 1 ≤ fuel) :
    Evaluates (evalExpr (env.reading m) c fuel none) (scanOf (e.render ++ byte ' ' :: more))
        (e.eval c.lookupSymbol m) (tokensOf more) ∧
      exists s, next (scanOf (e.render ++ byte ' ' :: more)) = .ok e.first s ∧
        Evaluates (evalExpr (env.reading m) c fuel (some e.first)) s
          (e.eval c.lookupSymbol m) (tokensOf more) := by
  have hs : (scanOf (e.render ++ byte ' ' :: more)).cur.Has (e.tokens ++ tokensOf more) :=
    (e.tokensOf_render more).symm
  obtain ⟨s, hnext, hs'⟩ := next_of_has hs
  exact ⟨evaluates_of_comesTo (evalExpr_none_comesTo env m c e hfuel hs hends),
    s, hnext, evaluates_of_comesTo (evalExpr_some_comesTo env m c e hfuel hs' hends)⟩

end Text

/-- `1 + 2 * 3`, which is 9 here. -/
def onePlusTwoTimesThree : Expr :=
  .binary
    (.binary (.term (.literal ⟨ascii "1", 1#32, by decide⟩)) .add
      (.literal ⟨ascii "2", 2#32, by decide⟩))
    .mul (.literal ⟨ascii "3", 3#32, by decide⟩)

theorem evalExpr_onePlusTwoTimesThree :
    exists s', evalExpr (Env.idle.reading fun _ => 0#32) Compiler.new 11 none
      (scanOf (ascii "1 + 2 * 3 ;")) = .ok 9#32 s' := by
  have hends : EndsExpr (tokensOf (ascii ";")) := by
    rintro op ⟨⟩
  have hfuel : 2 * onePlusTwoTimesThree.tokens.length + 1 ≤ 11 := by
    decide
  have h := evalExpr_evaluates .idle (fun _ => 0#32) .new onePlusTwoTimesThree (ascii ";") hends
    hfuel
  exact (h.left.value_iff 9#32).mpr rfl

end Compilation
end HolyRust
